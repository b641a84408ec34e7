import Scry.Pipeline.Steps

/-! # What the live shard keeps

Whoever may unlink a segment holds what the segment holds: the shared builder for the segments from
`block_low_seg` on, an upload task for its own range.
-/

open Scry.Lib Scry.Block Scry.Wal

namespace Scry.Pipeline

open List

variable {sig : Signal}

/-! ## Containment -/

def HeldBy (b : sig.Builder) (p : Bytes) : Prop :=
  ∃ scratch, sig.decode p = some scratch ∧ sig.records scratch <:+: sig.records b

/-- The records of `p` as replay sees it, redacted once more. -/
def ReplayHeldBy (b : sig.Builder) (p : Bytes) : Prop :=
  ∃ q, sig.redactReplayed p = some q ∧ HeldBy b q

def Stored (blocks : List (StoredBlock sig)) (p : Bytes) : Prop :=
  ∃ blk ∈ blocks, ∃ q scratch, (q = p ∨ sig.redactReplayed p = some q) ∧
    sig.decode q = some scratch ∧ sig.records scratch <:+: blk.records

def HasRecords (sig : Signal) (p : Bytes) : Prop :=
  ∃ b, sig.decode p = some b ∧ sig.records b ≠ []

variable {blocks : List (StoredBlock sig)} {p : Bytes} {env : Env} {l : State sig}

theorem Stored.append (h : Stored blocks p) (more : List (StoredBlock sig)) : Stored (blocks ++ more) p := by
  obtain ⟨blk, hblk, hrest⟩ := h
  exact ⟨blk, mem_append_left _ hblk, hrest⟩

variable {blk : StoredBlock sig}

theorem HeldBy.stored {b : sig.Builder} (h : HeldBy b p) (hblk : blk ∈ blocks)
    (hrec : blk.records = sig.records b) : Stored blocks p := by
  obtain ⟨scratch, hdec, hinf⟩ := h
  exact ⟨blk, hblk, p, scratch, .inl rfl, hdec, hrec ▸ hinf⟩

theorem ReplayHeldBy.stored {b : sig.Builder} (h : ReplayHeldBy b p)
    (hblk : blk ∈ blocks) (hrec : blk.records = sig.records b) : Stored blocks p := by
  obtain ⟨q, hq, scratch, hdec, hinf⟩ := h
  exact ⟨blk, hblk, q, scratch, .inr hq, hdec, hrec ▸ hinf⟩

variable {b scratch m : sig.Builder}

theorem HeldBy.merge (h : HeldBy b p) (hm : sig.merge b scratch = some m) :
    HeldBy m p := by
  obtain ⟨s, hdec, hinf⟩ := h
  refine ⟨s, hdec, ?_⟩
  rw [sig.merge_records b scratch m hm]
  exact hinf.trans (prefix_append _ _).isInfix

theorem heldBy_merged (hdec : sig.decode p = some scratch)
    (hm : sig.merge b scratch = some m) : HeldBy m p := by
  refine ⟨scratch, hdec, ?_⟩
  rw [sig.merge_records b scratch m hm]
  exact (suffix_append _ _).isInfix

/-! ## The live shard -/

/-- Segment `seg` holds `p`, and so does each builder whose upload unlinks it. -/
structure GuardedIn (env : Env) (l : State sig) (p : Bytes) (seg : Nat) : Prop where
  holds : l.wal.dir.Holds env.crc32 seg p
  tasks : ∀ t ∈ l.inFlight, t.lowSeg ≤ seg → seg ≤ t.sealedSeg → HeldBy t.block.builder p
  current : l.blockLowSeg ≤ seg → HeldBy l.current.builder p

def Safe (env : Env) (l : State sig) (blocks : List (StoredBlock sig)) (p : Bytes) : Prop :=
  Stored blocks p ∨ ∃ seg, GuardedIn env l p seg

structure Layout (env : Env) (l : State sig) : Prop where
  clean : l.wal.dir.Clean env.crc32 l.wal.currentSeq
  le_current : ∀ seq s, l.wal.dir.lookup seq = some s → seq ≤ l.wal.currentSeq
  low_le : l.blockLowSeg ≤ l.wal.currentSeq
  sealed_lt : ∀ t ∈ l.inFlight, t.sealedSeg < l.blockLowSeg

/-- A task that may unlink has its block in the store. -/
def UploadsStored (l : State sig) (blocks : List (StoredBlock sig)) : Prop :=
  ∀ t ∈ l.inFlight, t.uploaded ≠ none → ∃ blk ∈ blocks, blk.records = sig.records t.block.builder

def IngestInv (env : Env) (l : State sig) (blocks : List (StoredBlock sig)) : Ingest sig → Prop
  | .idle => True
  | .received p scratch => sig.decode p = some scratch
  | .sealed p scratch => sig.decode p = some scratch
  | .written p scratch seg =>
    sig.decode p = some scratch ∧ l.wal.dir.Holds env.crc32 seg p ∧ l.blockLowSeg ≤ seg
  | .appended p scratch seg =>
    sig.decode p = some scratch ∧ l.wal.dir.Holds env.crc32 seg p ∧ l.blockLowSeg ≤ seg
  | .merged p _ => Safe env l blocks p

structure LiveInv (env : Env) (l : Live sig) (blocks : List (StoredBlock sig)) (ps : List Bytes) :
    Prop where
  layout : Layout env l.pipe
  uploads : UploadsStored l.pipe blocks
  safe : ∀ p ∈ ps, HasRecords sig p → Safe env l.pipe blocks p
  ingest : IngestInv env l.pipe blocks l.ingest

theorem Layout.holds_le (h : Layout env l) {seg : Nat} (hp : l.wal.dir.Holds env.crc32 seg p) :
    seg ≤ l.wal.currentSeq := by
  obtain ⟨s, hs, -⟩ := hp
  exact h.le_current seg s hs

/-! ### Rotation -/

theorem lookup_rotated_le {w : Wal} (h : ∀ seq s, w.dir.lookup seq = some s → seq ≤ w.currentSeq)
    (seq : Nat) (s : Segment) (hs : (rotated w).dir.lookup seq = some s) :
    seq ≤ (rotated w).currentSeq := by
  simp only [rotated, Dir.lookup_create] at hs ⊢
  cases hl : w.dir.lookup seq with
  | none =>
    rw [hl, Option.none_or] at hs
    split at hs
    · rename_i heq
      omega
    · cases hs
  | some s' =>
    have := h seq s' hl
    omega

section

variable (h : Layout env l) (hnone : l.wal.dir.lookup (l.wal.currentSeq + 1) = none)
include h hnone

theorem Layout.rotate :
    Layout env { l with wal := rotated l.wal } := by
  refine ⟨Dir.clean_create env.crc32 _ hnone, lookup_rotated_le h.le_current, ?_, h.sealed_lt⟩
  have := h.low_le
  simp only [rotated]
  omega

theorem Layout.spawn :
    Layout env (spawned l) := by
  refine ⟨Dir.clean_create env.crc32 _ hnone, lookup_rotated_le h.le_current, Nat.le_refl _, ?_⟩
  intro t ht
  have hlow := h.low_le
  simp only [spawned]
  rcases mem_spawned ht with ht | rfl
  · have := h.sealed_lt t ht
    omega
  · simp only
    omega

end

theorem GuardedIn.spawn {seg : Nat} (h : GuardedIn env l p seg) (hl : Layout env l) :
    GuardedIn env (spawned l) p seg := by
  have hseg := hl.holds_le h.holds
  refine ⟨h.holds.create env.crc32 _ _, ?_, ?_⟩
  · intro t ht hlo hhi
    rcases mem_spawned ht with ht | rfl
    · exact h.tasks t ht hlo hhi
    · exact h.current hlo
  · intro hlow
    simp only [spawned] at hlow
    omega

theorem Safe.spawn (h : Safe env l blocks p) (hl : Layout env l) : Safe env (spawned l) blocks p := by
  rcases h with h | ⟨seg, h⟩
  · exact .inl h
  · exact .inr ⟨seg, h.spawn hl⟩

theorem UploadsStored.spawn (h : UploadsStored l blocks) : UploadsStored (spawned l) blocks := by
  intro t ht hup
  rcases mem_spawned ht with ht | rfl
  · exact h t ht hup
  · exact absurd rfl hup

theorem LiveInv.spawn {l : Live sig} {ps : List Bytes} (h : LiveInv env l blocks ps) {l' : State sig}
    (hs : l.pipe.spawnUpload = .ok l') {ing : Ingest sig}
    (hing : (∀ p, Safe env l.pipe blocks p → Safe env l' blocks p) → IngestInv env l' blocks ing) :
    LiveInv env ⟨l', ing⟩ blocks ps := by
  rcases (spawnUpload_ok hs).2 with rfl | ⟨hnone, rfl⟩
  · exact ⟨h.layout, h.uploads, h.safe, hing fun p hp => hp⟩
  · have hsafe : ∀ p, Safe env l.pipe blocks p → Safe env (spawned l.pipe) blocks p :=
      fun p hp => hp.spawn h.layout
    exact ⟨h.layout.spawn hnone, h.uploads.spawn, fun p hp hr => hsafe p (h.safe p hp hr), hing hsafe⟩

/-! ### Ingest -/

section Ingest
variable {env : Env} {l l' : Live sig} {blocks : List (StoredBlock sig)} {ps : List Bytes}

theorem LiveInv.withIngest (h : LiveInv env l blocks ps) {ing : Ingest sig}
    (hing : IngestInv env l.pipe blocks ing) : LiveInv env ⟨l.pipe, ing⟩ blocks ps :=
  ⟨h.layout, h.uploads, h.safe, hing⟩

theorem LiveInv.sealOnSchemaChange (h : LiveInv env l blocks ps)
    (hs : l.sealOnSchemaChange = some l') : LiveInv env l' blocks ps := by
  have hing := h.ingest
  obtain ⟨payload, scratch, heq, rfl | ⟨pipe, hspawn | rfl, -, rfl⟩⟩ := sealOnSchemaChange_some hs
  · exact h.withIngest trivial
  · rw [heq] at hing
    exact h.spawn hspawn fun _ => hing
  · rw [heq] at hing
    exact h.withIngest hing

theorem GuardedIn.write {l : State sig} {p : Bytes} {seg : Nat} (h : GuardedIn env l p seg)
    (hl : Layout env l) (bytes : Bytes) (n : Nat) :
    GuardedIn env { l with wal := { l.wal with dir := l.wal.dir.write l.wal.currentSeq bytes,
                                               currentBytes := n } } p seg :=
  ⟨h.holds.write env.crc32 _ hl.clean bytes, h.tasks, h.current⟩

theorem Layout.writeFrame {l : State sig} (h : Layout env l) {p : Bytes}
    (hp : p.length ≤ maxReplayFrameBytes) :
    Layout env { l with wal := l.wal.writeFrame env.crc32 p } := by
  refine ⟨Dir.clean_write_frame env.crc32 _ h.clean hp, ?_, h.low_le, h.sealed_lt⟩
  intro seq s hs
  simp only [Wal.writeFrame, Dir.lookup_write, Option.map_eq_some_iff] at hs ⊢
  obtain ⟨s', hs', -⟩ := hs
  exact h.le_current seq s' hs'

theorem LiveInv.writeFrame (h : LiveInv env l blocks ps) (hs : l.writeFrame env = some l') :
    LiveInv env l' blocks ps := by
  have hing := h.ingest
  obtain ⟨payload, scratch, heq, rfl | ⟨hlen, rfl⟩⟩ := writeFrame_some hs
  · exact h.withIngest trivial
  · rw [heq] at hing
    refine ⟨h.layout.writeFrame hlen, h.uploads, ?_, ?_⟩
    · intro p hp hr
      rcases h.safe p hp hr with hst | ⟨seg, hg⟩
      · exact .inl hst
      · exact .inr ⟨seg, hg.write h.layout _ _⟩
    · exact ⟨hing, Dir.holds_write_frame env.crc32 _ h.layout.clean hlen, h.layout.low_le⟩

theorem GuardedIn.rotate {l : State sig} {p : Bytes} {seg : Nat} (h : GuardedIn env l p seg) :
    GuardedIn env { l with wal := rotated l.wal } p seg :=
  ⟨h.holds.create env.crc32 _ _, h.tasks, h.current⟩

theorem LiveInv.rotateIfFull (h : LiveInv env l blocks ps) (hs : l.rotateIfFull = some l') :
    LiveInv env l' blocks ps := by
  have hing := h.ingest
  obtain ⟨payload, scratch, seg, heq, rfl | ⟨wal, hwal, rfl⟩⟩ := rotateIfFull_some hs
  · exact h.withIngest trivial
  · rw [heq] at hing
    obtain ⟨hdec, hholds, hlow⟩ := hing
    rcases rotateIfFull_ok hwal with rfl | ⟨hnone, rfl⟩
    · exact ⟨h.layout, h.uploads, h.safe, hdec, hholds, hlow⟩
    · refine ⟨h.layout.rotate hnone, h.uploads, ?_, hdec, hholds.create env.crc32 _ _, hlow⟩
      intro p hp hr
      rcases h.safe p hp hr with hst | ⟨seg, hg⟩
      · exact .inl hst
      · exact .inr ⟨seg, hg.rotate⟩

theorem Safe.merge {l : State sig} {p : Bytes} (h : Safe env l blocks p) {scratch m : sig.Builder}
    (hm : sig.merge l.current.builder scratch = some m) (batches : List Nat) :
    Safe env { l with current := ⟨m, batches⟩ } blocks p := by
  rcases h with h | ⟨seg, h⟩
  · exact .inl h
  · exact .inr ⟨seg, h.holds, h.tasks, fun hlow => (h.current hlow).merge hm⟩

end Ingest

/-! ### Upload tasks -/

section Tasks
variable {env : Env} {l : Live sig} {blocks : List (StoredBlock sig)} {ps : List Bytes}

variable {tasks : List (UploadTask sig)}

theorem Safe.mono {l : State sig} {p : Bytes} (h : Safe env l blocks p) (more : List (StoredBlock sig))
    (hsub : ∀ t ∈ tasks, ∃ t' ∈ l.inFlight, t.block = t'.block ∧ t.lowSeg = t'.lowSeg ∧
      t.sealedSeg = t'.sealedSeg) :
    Safe env { l with inFlight := tasks } (blocks ++ more) p := by
  rcases h with h | ⟨seg, h⟩
  · exact .inl (h.append more)
  · refine .inr ⟨seg, h.holds, ?_, h.current⟩
    intro t ht hlo hhi
    obtain ⟨t', ht', hb, hl, hs⟩ := hsub t ht
    rw [hb]
    exact h.tasks t' ht' (hl ▸ hlo) (hs ▸ hhi)

theorem LiveInv.withTasks (h : LiveInv env l blocks ps)
    {more : List (StoredBlock sig)}
    (hsub : ∀ t ∈ tasks, ∃ t' ∈ l.pipe.inFlight, t.block = t'.block ∧ t.lowSeg = t'.lowSeg ∧
      t.sealedSeg = t'.sealedSeg)
    (hup : UploadsStored { l.pipe with inFlight := tasks } (blocks ++ more)) :
    LiveInv env ⟨{ l.pipe with inFlight := tasks }, l.ingest⟩ (blocks ++ more) ps := by
  refine ⟨⟨h.layout.clean, h.layout.le_current, h.layout.low_le, ?_⟩, hup, ?_, ?_⟩
  · intro t ht
    obtain ⟨t', ht', -, -, hs⟩ := hsub t ht
    rw [hs]
    exact h.layout.sealed_lt t' ht'
  · intro p hp hr
    exact (h.safe p hp hr).mono more hsub
  · have hing := h.ingest
    cases hi : l.ingest with
    | merged p seg =>
      rw [hi] at hing
      exact hing.mono more hsub
    | _ =>
      rw [hi] at hing
      exact hing

theorem LiveInv.eraseTask (h : LiveInv env l blocks ps) (i : Nat) :
    LiveInv env ⟨{ l.pipe with inFlight := l.pipe.inFlight.eraseIdx i }, l.ingest⟩ blocks ps := by
  have hmem : ∀ t ∈ l.pipe.inFlight.eraseIdx i, t ∈ l.pipe.inFlight :=
    fun t ht => mem_of_mem_eraseIdx ht
  rw [← append_nil blocks]
  apply h.withTasks
  · intro t ht
    exact ⟨t, hmem t ht, rfl, rfl, rfl⟩
  · intro t ht hup
    simpa using h.uploads t (hmem t ht) hup

variable {t : UploadTask sig}

theorem LiveInv.uploadOk (h : LiveInv env l blocks ps) {i : Nat}
    (ht : l.pipe.inFlight[i]? = some t) (uuid : Uuid) :
    LiveInv env
      ⟨{ l.pipe with inFlight := l.pipe.inFlight.set i { t with uploaded := some uuid } }, l.ingest⟩
      (blocks ++ [⟨uuid, sig.records t.block.builder, t.block.batches⟩]) ps := by
  apply h.withTasks
  · intro x hx
    rcases mem_or_eq_of_mem_set hx with hx | rfl
    · exact ⟨x, hx, rfl, rfl, rfl⟩
    · exact ⟨t, mem_of_getElem? ht, rfl, rfl, rfl⟩
  · intro x hx hup
    rcases mem_or_eq_of_mem_set hx with hx | rfl
    · obtain ⟨blk, hblk, hrec⟩ := h.uploads x hx hup
      exact ⟨blk, mem_append_left _ hblk, hrec⟩
    · exact ⟨_, mem_append_right _ mem_cons_self, rfl⟩

theorem LiveInv.unlink (h : LiveInv env l blocks ps)
    (ht : t ∈ l.pipe.inFlight) (hup : t.uploaded ≠ none) {seq : Nat} (hlo : t.lowSeg ≤ seq)
    (hhi : seq ≤ t.sealedSeg) :
    LiveInv env ⟨{ l.pipe with wal := { l.pipe.wal with dir := l.pipe.wal.dir.unlink seq } },
      l.ingest⟩ blocks ps := by
  have hlt : seq < l.pipe.blockLowSeg := Nat.lt_of_le_of_lt hhi (h.layout.sealed_lt t ht)
  have hsafe : ∀ p, Safe env l.pipe blocks p → Safe env
      { l.pipe with wal := { l.pipe.wal with dir := l.pipe.wal.dir.unlink seq } } blocks p := by
    rintro p (hst | ⟨seg, hg⟩)
    · exact .inl hst
    · by_cases heq : seg = seq
      · subst heq
        obtain ⟨blk, hblk, hrec⟩ := h.uploads t ht hup
        exact .inl ((hg.tasks t ht hlo hhi).stored hblk hrec)
      · exact .inr ⟨seg, hg.holds.unlink env.crc32 _ heq, hg.tasks, hg.current⟩
  refine ⟨⟨?_, ?_, h.layout.low_le, h.layout.sealed_lt⟩, h.uploads,
    fun p hp hr => hsafe p (h.safe p hp hr), ?_⟩
  · obtain ⟨s, hs, hclean⟩ := h.layout.clean
    have hne : l.pipe.wal.currentSeq ≠ seq := by
      have := h.layout.low_le
      omega
    exact ⟨s, by rw [Dir.lookup_unlink, if_neg hne, hs], hclean⟩
  · intro k s hs
    rw [Dir.lookup_unlink] at hs
    split at hs
    · cases hs
    · exact h.layout.le_current k s hs
  · have hing := h.ingest
    cases hi : l.ingest with
    | written p scratch seg =>
      rw [hi] at hing
      obtain ⟨hdec, hholds, hlow⟩ := hing
      exact ⟨hdec, hholds.unlink env.crc32 _ (by omega), hlow⟩
    | appended p scratch seg =>
      rw [hi] at hing
      obtain ⟨hdec, hholds, hlow⟩ := hing
      exact ⟨hdec, hholds.unlink env.crc32 _ (by omega), hlow⟩
    | merged p seg =>
      rw [hi] at hing
      exact hsafe p hing
    | _ =>
      rw [hi] at hing
      exact hing

end Tasks

/-! ### One step of the live shard -/

def payloads (acked : List Ack) : List Bytes := acked.map Ack.payload

def IsLive (env : Env) (s : Shard sig) : Prop :=
  ∃ l, s.process = .live l ∧ LiveInv env l s.store.blocks (payloads s.acked)

section StepLive
variable {env : Env} {s s' : Shard sig} {l : Live sig}

section

variable (h : LiveInv env l s.store.blocks (payloads s.acked))
include h

theorem LiveInv.mergeScratch
    (hs : s.mergeScratch l = some s') : IsLive env s' := by
  have hing := h.ingest
  obtain ⟨payload, scratch, seg, heq, ⟨-, rfl⟩ | ⟨m, hm, rfl⟩⟩ := mergeScratch_some hs
  · exact ⟨_, rfl, h.withIngest trivial⟩
  · rw [heq] at hing
    obtain ⟨hdec, hholds, _⟩ := hing
    have hl := h.layout
    refine ⟨_, rfl, ⟨hl.clean, hl.le_current, hl.low_le, hl.sealed_lt⟩, h.uploads,
      fun p hp hr => (h.safe p hp hr).merge hm _, ?_⟩
    -- No task reaches up to `block_low_seg`, so only the merged builder guards the new frame.
    refine .inr ⟨seg, hholds, ?_, fun _ => heldBy_merged hdec hm⟩
    intro t ht _ _
    have := h.layout.sealed_lt t ht
    omega

theorem LiveInv.finishIngest
    (hs : s.finishIngest l = some s') : IsLive env s' := by
  have hing := h.ingest
  obtain ⟨payload, seg, heq, rfl | ⟨pipe, hpipe, rfl⟩⟩ := finishIngest_some hs
  · exact ⟨_, rfl, h.withIngest trivial⟩
  · rw [heq] at hing
    -- The batch under way becomes one more acknowledged payload.
    have hall : LiveInv env ⟨l.pipe, .idle⟩ s.store.blocks
        (payloads (s.acked ++ [⟨s.merged - 1, payload, seg⟩])) := by
      refine ⟨h.layout, h.uploads, ?_, trivial⟩
      intro p hp hr
      rw [payloads, map_append, mem_append, map_singleton, mem_singleton] at hp
      rcases hp with hp | rfl
      · exact h.safe p hp hr
      · exact hing
    rcases hpipe with hspawn | rfl
    · exact ⟨_, rfl, hall.spawn hspawn fun _ => trivial⟩
    · exact ⟨_, rfl, hall⟩

theorem LiveInv.flush
    (hs : s.flush l = some s') : IsLive env s' := by
  obtain ⟨-, pipe, hspawn, rfl⟩ := flush_some hs
  exact ⟨_, rfl, h.spawn hspawn fun _ => trivial⟩

theorem LiveInv.endUpload {i : Nat}
    {inserted : Bool} (hs : s.endUpload env l i inserted = some s') : IsLive env s' := by
  obtain ⟨t, uuid, -, -, rfl⟩ := endUpload_some hs
  exact ⟨_, rfl, h.eraseTask i⟩

theorem LiveInv.stepLive {a : Action}
    (hs : s.stepLive env l a = some s') : IsLive env s' := by
  cases a with
  | ingest payload =>
    obtain ⟨-, scratch, hdec, rfl⟩ := ingest_some hs
    exact ⟨_, rfl, h.withIngest hdec⟩
  | sealOnSchemaChange =>
    obtain ⟨l', hl', rfl⟩ := Option.map_eq_some_iff.mp hs
    exact ⟨l', rfl, h.sealOnSchemaChange hl'⟩
  | writeFrame =>
    obtain ⟨l', hl', rfl⟩ := Option.map_eq_some_iff.mp hs
    exact ⟨l', rfl, h.writeFrame hl'⟩
  | rotateIfFull =>
    obtain ⟨l', hl', rfl⟩ := Option.map_eq_some_iff.mp hs
    exact ⟨l', rfl, h.rotateIfFull hl'⟩
  | merge => exact h.mergeScratch hs
  | finishIngest => exact h.finishIngest hs
  | flush => exact h.flush hs
  | uploadOk i uuid =>
    obtain ⟨t, ht, -, -, -, rfl⟩ := uploadOk_some hs
    exact ⟨_, rfl, h.uploadOk ht uuid⟩
  | uploadFailed i =>
    obtain ⟨t, -, -, rfl⟩ := uploadFailed_some hs
    exact ⟨_, rfl, h.eraseTask i⟩
  | unlink i seq =>
    obtain ⟨t, ht, hup, hlo, hhi, rfl⟩ := unlink_some hs
    exact ⟨_, rfl, h.unlink (mem_of_getElem? ht) hup hlo hhi⟩
  | insertBlock i => exact h.endUpload hs
  | insertFailed i => exact h.endUpload hs
  | _ => cases hs

end

end StepLive

end Scry.Pipeline
