import Scry.Pipeline.LiveDurability

/-! # No acknowledged payload is lost

Recovery replays every segment below the active one and unlinks nothing before its last block is stored.
-/

open Scry.Lib Scry.Block Scry.Wal

namespace Scry.Pipeline

open List Shard

variable {sig : Signal}

variable (env : Env) (r : Recovery sig)

def InWal (dir : Dir) (p : Bytes) : Prop := ∃ seg, dir.Holds env.crc32 seg p

/-! ## What replay visits -/

theorem mem_replayItems (crc32 : Bytes → UInt32) (segs : List Segment) (s : Segment) (p : Bytes)
    (hs : s ∈ segs) (hp : p ∈ (scan crc32 s.bytes).1) :
    .ok p ∈ Wal.replayItems crc32 segs ∨ ∃ e, .error e ∈ Wal.replayItems crc32 segs := by
  induction segs with
  | nil => cases hs
  | cons x segs ih =>
    unfold Wal.replayItems
    simp only
    rcases mem_cons.mp hs with rfl | hs
    · left
      split <;> exact mem_append_left _ (mem_map_of_mem hp)
    · split
      · right
        exact ⟨_, mem_append_right _ mem_cons_self⟩
      · rcases ih hs with h | ⟨e, h⟩
        · exact .inl (mem_append_right _ h)
        · exact .inr ⟨e, mem_append_right _ h⟩

theorem mem_replaySegments (w : Wal) (s : Segment) :
    s ∈ w.replaySegments ↔ s ∈ w.dir.rows ∧ s.seq < w.currentSeq := by
  simp [Wal.replaySegments]

theorem mem_replay {crc32 : Bytes → UInt32} {w : Wal} {seg : Nat} {p : Bytes} (h : w.dir.Holds crc32 seg p)
    (hlt : seg < w.currentSeq) : .ok p ∈ w.replay crc32 ∨ ∃ e, .error e ∈ w.replay crc32 := by
  obtain ⟨s, hs, hp⟩ := h
  apply mem_replayItems crc32 _ s p _ hp
  rw [mem_replaySegments, Table.key_of_lookup hs]
  exact ⟨Table.mem_of_lookup hs, hlt⟩

/-! ## Recovery -/

/-- Stored, or in the WAL and ahead of the replay or in its builder. -/
def Pending (blocks : List (StoredBlock sig)) (p : Bytes) : Prop :=
  Stored blocks p ∨ InWal env r.wal.dir p ∧
    ((∃ e, .error e ∈ r.frames) ∨ .ok p ∈ r.frames ∨ ReplayHeldBy r.builder p)

theorem Pending.kept {env : Env} {r : Recovery sig} {blocks : List (StoredBlock sig)} {p : Bytes}
    (h : Pending env r blocks p) : Stored blocks p ∨ InWal env r.wal.dir p := by
  rcases h with h | ⟨h, -⟩
  · exact .inl h
  · exact .inr h

def Kept (st : Store sig) : Replayed sig → Prop
  | .failed st' =>
    ∀ p, Pending env r st.blocks p → Stored st'.blocks p ∨ InWal env r.wal.dir p
  | .continued r' st' =>
    r'.wal = r.wal ∧ r'.replayHigh = r.replayHigh ∧ r'.releasing = r.releasing ∧
      ∀ p, Pending env r st.blocks p → Pending env r' st'.blocks p

section Replay
variable {env : Env} {r : Recovery sig} {st st' : Store sig} {hashed : List Bytes} {high : Option Nat}

theorem Pending.upload {p : Bytes} (h : Pending env r st.blocks p)
    {ok : Bool} (hup : uploadReplayBlock env st r.builder high hashed ok = some st') (b : sig.Builder) : Pending env
    { r with builder := b } st'.blocks p := by
  have hblocks := uploadReplayBlock_some hup
  rcases h with h | ⟨hwal, herr | hok | hheld⟩
  · rw [hblocks]
    exact .inl (h.append _)
  · exact .inr ⟨hwal, .inl herr⟩
  · exact .inr ⟨hwal, .inr (.inl hok)⟩
  · left
    apply hheld.stored
    · rw [hblocks]
      exact mem_append_right _ mem_cons_self
    · rfl

variable {scratch : sig.Builder} {rest : List (Except ReplayError Bytes)}

theorem ReplayHeldBy.merge {b m : sig.Builder} {p : Bytes} (h : ReplayHeldBy b p)
    (hm : sig.merge b scratch = some m) : ReplayHeldBy m p := by
  obtain ⟨q, hq, hheld⟩ := h
  exact ⟨q, hq, hheld.merge hm⟩

variable {m : sig.Builder}

theorem Pending.merge {blocks : List (StoredBlock sig)} {p w q : Bytes} (h : Pending env r blocks p)
    (hframes : r.frames = .ok w :: rest) (hq : sig.redactReplayed w = some q)
    (hdec : sig.decode q = some scratch) (hm : sig.merge r.builder scratch = some m) (hashed : List Bytes) :
    Pending env { r with frames := rest, builder := m, hashed := hashed } blocks p := by
  rcases h with h | ⟨hwal, ⟨e, herr⟩ | hok | hheld⟩
  · exact .inl h
  · rw [hframes] at herr
    have : .error e ∈ rest := by simpa using herr
    exact .inr ⟨hwal, .inl ⟨e, this⟩⟩
  · rw [hframes, mem_cons] at hok
    rcases hok with hok | hok
    · cases hok
      exact .inr ⟨hwal, .inr (.inr ⟨q, hq, heldBy_merged hdec hm⟩)⟩
    · exact .inr ⟨hwal, .inr (.inl hok)⟩
  · exact .inr ⟨hwal, .inr (.inr (hheld.merge hm))⟩

theorem kept_closeIfFull {w q : Bytes} (hframes : r.frames = .ok w :: rest)
    (hq : sig.redactReplayed w = some q) (hdec : sig.decode q = some scratch)
    (hm : sig.merge r.builder scratch = some m) (closeOk : Bool) :
    Kept env r st (r.closeIfFull env rest q m st closeOk) := by
  obtain ⟨-, -, hout⟩ | ⟨st', hup, hout⟩ | hout := closeIfFull_cases env r rest q m st closeOk <;> rw [hout]
  · intro p hp
    exact hp.kept
  · refine ⟨rfl, rfl, rfl, ?_⟩
    intro p hp
    exact (hp.merge hframes hq hdec hm (r.hashed ++ [q])).upload hup sig.new
  · refine ⟨rfl, rfl, rfl, ?_⟩
    intro p hp
    exact hp.merge hframes hq hdec hm _

theorem Kept.after_upload {ok : Bool}
    (hup : uploadReplayBlock env st r.builder high hashed ok = some st') {b : sig.Builder}
    {out : Replayed sig} (h : Kept env { r with builder := b } st' out) : Kept env r st out := by
  cases out with
  | failed st'' =>
    intro p hp
    exact h p (hp.upload hup b)
  | continued r' st'' =>
    obtain ⟨h1, h2, h3, h4⟩ := h
    exact ⟨h1, h2, h3, fun p hp => h4 p (hp.upload hup b)⟩

theorem kept_replayPayload {w : Bytes} (hframes : r.frames = .ok w :: rest) (boundaryOk closeOk : Bool) :
    Kept env r st (r.replayPayload env rest w st boundaryOk closeOk) := by
  have hfail : Kept env r st (.failed st) := fun p hp => hp.kept
  unfold Recovery.replayPayload
  split
  · exact hfail
  · rename_i q hq
    split
    · exact hfail
    · rename_i scratch hdec
      split
      · split
        · exact hfail
        · rename_i st' hup
          apply Kept.after_upload hup (b := sig.new)
          split
          · intro p hp
            exact hp.kept
          · rename_i m hm
            exact kept_closeIfFull (r := { r with builder := sig.new }) hframes hq hdec hm closeOk
      · split
        · exact hfail
        · rename_i m hm
          exact kept_closeIfFull hframes hq hdec hm closeOk

end Replay

/-- Once `open` releases, every payload is stored. -/
structure OpenInv (env : Env) (r : Recovery sig) (blocks : List (StoredBlock sig)) (ps : List Bytes) : Prop where
  clean : r.wal.dir.Clean env.crc32 r.wal.currentSeq
  le_current : ∀ seq s, r.wal.dir.lookup seq = some s → seq ≤ r.wal.currentSeq
  high_lt : ∀ high, r.replayHigh = some high → high < r.wal.currentSeq
  pending : r.releasing = false → ∀ p ∈ ps, HasRecords sig p → Pending env r blocks p
  stored : r.releasing = true → ∀ p ∈ ps, HasRecords sig p → Stored blocks p

def DownInv (env : Env) (sig : Signal) (dir : Dir) (blocks : List (StoredBlock sig)) (ps : List Bytes) : Prop :=
  ∀ p ∈ ps, HasRecords sig p → Stored blocks p ∨ InWal env dir p

def ReplayedInv (env : Env) (r : Recovery sig) (ps : List Bytes) : Replayed sig → Prop
  | .failed st => DownInv env sig r.wal.dir st.blocks ps
  | .continued r' st => OpenInv env r' st.blocks ps

section Open
variable {env : Env} {r : Recovery sig} {blocks : List (StoredBlock sig)} {ps : List Bytes}

theorem OpenInv.down (h : OpenInv env r blocks ps) : DownInv env sig r.wal.dir blocks ps := by
  intro p hp hr
  cases hrel : r.releasing with
  | false => exact (h.pending hrel p hp hr).kept
  | true => exact .inl (h.stored hrel p hp hr)

theorem openInv_start {dir : Dir} (h : DownInv env sig dir blocks ps) :
    OpenInv env (Recovery.start env sig dir) blocks ps := by
  refine ⟨Dir.clean_create env.crc32 _ dir.lookup_nextSeq, ?_, ?_, ?_, ?_⟩
  · intro seq s hs
    simp only [Recovery.start, Wal.openWal, Dir.lookup_create] at hs ⊢
    cases hl : dir.lookup seq with
    | none =>
      rw [hl, Option.none_or] at hs
      split at hs
      · rename_i heq
        exact le_of_eq heq.symm
      · cases hs
    | some s' => exact Nat.le_of_lt (dir.lt_nextSeq hl)
  · intro _ hhigh
    simp only [Recovery.start] at hhigh ⊢
    split at hhigh
    · cases hhigh
    · cases hhigh
      omega
  · intro _ p hp hr
    rcases h p hp hr with hst | ⟨seg, hholds⟩
    · exact .inl hst
    · have hlt : seg < dir.nextSeq := by
        obtain ⟨s, hs, -⟩ := hholds
        exact dir.lt_nextSeq hs
      have hholds' := hholds.create env.crc32 dir dir.nextSeq
      refine .inr ⟨⟨seg, hholds'⟩, ?_⟩
      rcases mem_replay (w := Wal.openWal dir env.maxSegmentBytes) hholds' hlt with hok | herr
      · exact .inr (.inl hok)
      · exact .inl herr
  · intro hrel
    cases hrel

variable {out : Replayed sig} {s : Shard sig}

theorem OpenInv.replayed (h : OpenInv env r s.store.blocks ps)
    (hrel : r.releasing = false) (hk : Kept env r s.store out) : ReplayedInv env r ps out := by
  cases out with
  | failed st =>
    intro p hp hr
    exact hk p (h.pending hrel p hp hr)
  | continued r' st =>
    obtain ⟨hwal, hhigh, hrel', hpend⟩ := hk
    refine ⟨?_, ?_, ?_, ?_, ?_⟩
    · rw [hwal]
      exact h.clean
    · rw [hwal]
      exact h.le_current
    · rw [hwal, hhigh]
      exact h.high_lt
    · intro _ p hp hr
      exact hpend p (h.pending hrel p hp hr)
    · intro hrel''
      rw [hrel', hrel] at hrel''
      cases hrel''

theorem Pending.at_end {p : Bytes} (h : Pending env r blocks p) (hframes : r.frames = []) :
    Stored blocks p ∨ ReplayHeldBy r.builder p := by
  rcases h with h | ⟨-, ⟨e, herr⟩ | hok | hheld⟩
  · exact .inl h
  · rw [hframes] at herr
    cases herr
  · rw [hframes] at hok
    cases hok
  · exact .inr hheld

theorem ReplayHeldBy.not_isEmpty {b : sig.Builder} {p : Bytes} (h : ReplayHeldBy b p)
    (hr : HasRecords sig p) : sig.isEmpty b = false := by
  obtain ⟨q, hq, scratch, hdec, hinf⟩ := h
  obtain ⟨b0, hb0, hne⟩ := hr
  cases hb : sig.isEmpty b with
  | false => rfl
  | true =>
    rw [sig.isEmpty_iff] at hb
    rw [hb, infix_nil] at hinf
    exact absurd ((sig.redact_records p q b0 scratch hq hb0 hdec).mpr hinf) hne

theorem OpenInv.uploadRest (h : OpenInv env r s.store.blocks ps) {ok : Bool}
    (hs : r.uploadRest env s.store ok = some out) : ReplayedInv env r ps out := by
  obtain ⟨hrel, hframes, ⟨hempty, rfl⟩ | ⟨-, -, rfl⟩ | ⟨st', hup, rfl⟩⟩ := uploadRest_some hs
  · refine ⟨h.clean, h.le_current, h.high_lt, ?_, ?_⟩
    · intro hf
      cases hf
    · intro _ p hp hr
      rcases (h.pending hrel p hp hr).at_end hframes with hst | hheld
      · exact hst
      · rw [hheld.not_isEmpty hr] at hempty
        cases hempty
  · exact h.down
  · refine ⟨h.clean, h.le_current, h.high_lt, ?_, ?_⟩
    · intro hf
      cases hf
    · intro _ p hp hr
      rcases ((h.pending hrel p hp hr).upload hup r.builder).at_end hframes with hst | hheld
      · exact hst
      · apply hheld.stored
        · rw [uploadReplayBlock_some hup]
          exact mem_append_right _ mem_cons_self
        · rfl

theorem OpenInv.unlinkReplayed (h : OpenInv env r blocks ps) {seq : Nat} {r' : Recovery sig}
    (hs : r.unlinkReplayed seq = some r') : OpenInv env r' blocks ps := by
  obtain ⟨high, hhigh, hrel, _, rfl⟩ := unlinkReplayed_some hs
  have hne : r.wal.currentSeq ≠ seq := by
    have := h.high_lt high hhigh
    omega
  refine ⟨?_, ?_, h.high_lt, fun hf => ?_, h.stored⟩
  · obtain ⟨s, hs, hclean⟩ := h.clean
    exact ⟨s, by rw [Dir.lookup_unlink, if_neg hne, hs], hclean⟩
  · intro k s hs
    rw [Dir.lookup_unlink] at hs
    split at hs
    · cases hs
    · exact h.le_current k s hs
  · rw [show r.releasing = true from hrel] at hf
    cases hf

theorem OpenInv.finish {st st' : Store sig} (h : OpenInv env r st.blocks ps) {l : Live sig}
    (hs : r.finish env st = some (l, st')) : LiveInv env l st'.blocks ps := by
  obtain ⟨hrel, -, rfl, hblocks⟩ := finish_some hs
  rw [hblocks]
  refine ⟨⟨h.clean, h.le_current, Nat.le_refl _, ?_⟩, ?_, ?_, trivial⟩
  · intro t ht
    cases ht
  · intro t ht
    cases ht
  · intro p hp hr
    exact .inl (h.stored hrel p hp hr)

end Open

/-! ## Every run -/

def ShardInv (env : Env) (s : Shard sig) : Prop :=
  match s.process with
  | .down dir => DownInv env sig dir s.store.blocks (payloads s.acked)
  | .opening r => OpenInv env r s.store.blocks (payloads s.acked)
  | .live l => LiveInv env l s.store.blocks (payloads s.acked)

section Step
variable {env : Env} {s s' : Shard sig} {l : Live sig} {blocks : List (StoredBlock sig)} {ps : List Bytes}

theorem LiveInv.down
    (h : LiveInv env l blocks ps) : DownInv env sig l.pipe.wal.dir blocks ps := by
  intro p hp hr
  rcases h.safe p hp hr with hst | ⟨seg, hg⟩
  · exact .inl hst
  · exact .inr ⟨seg, hg.holds⟩

theorem LiveInv.torn (h : LiveInv env l blocks ps)
    (bytes : Bytes) : DownInv env sig (l.pipe.wal.dir.write l.pipe.wal.currentSeq bytes) blocks ps := by
  intro p hp hr
  rcases h.down p hp hr with hst | ⟨seg, hholds⟩
  · exact .inl hst
  · exact .inr ⟨seg, hholds.write env.crc32 _ h.layout.clean bytes⟩

theorem shardInv_crash (h : ShardInv env s) {torn : Nat} {dir : Dir}
    (hs : crashDir env torn s.process = some dir) : DownInv env sig dir s.store.blocks (payloads s.acked) := by
  unfold ShardInv at h
  obtain ⟨r, hp, rfl⟩ | ⟨l, hp, rfl⟩ | ⟨l, payload, scratch, hp, -, -, rfl⟩ := crashDir_some hs <;> rw [hp] at h
  · exact h.down
  · exact h.down
  · exact h.torn _

variable {r : Recovery sig}

theorem shardInv_ofReplayed {out : Replayed sig}
    (h : ReplayedInv env r (payloads s.acked) out) : ShardInv env (s.ofReplayed r out) := by
  cases out with
  | failed st => exact h
  | continued r' st => exact h

theorem shardInv_stepOpening (h : OpenInv env r s.store.blocks (payloads s.acked))
    {a : Action} (hs : s.stepOpening env r a = some s') : ShardInv env s' := by
  cases a with
  | replayFrame boundaryOk closeOk =>
    obtain ⟨out, hout, rfl⟩ := Option.map_eq_some_iff.mp hs
    apply shardInv_ofReplayed
    obtain ⟨hrel, ⟨e, rest, -, rfl⟩ | ⟨w, rest, hframes, rfl⟩⟩ := replayFrame_some hout
    · exact h.down
    · exact h.replayed hrel (kept_replayPayload hframes boundaryOk closeOk)
  | uploadRest ok =>
    obtain ⟨out, hout, rfl⟩ := Option.map_eq_some_iff.mp hs
    exact shardInv_ofReplayed (h.uploadRest hout)
  | unlinkReplayed seq =>
    obtain ⟨r', hr', rfl⟩ := Option.map_eq_some_iff.mp hs
    exact h.unlinkReplayed hr'
  | finishOpen =>
    obtain ⟨⟨l, st⟩, hl, rfl⟩ := Option.map_eq_some_iff.mp hs
    exact h.finish hl
  | _ => cases hs

theorem shardInv_step (a : Action) (h : ShardInv env s) (hs : s.step env a = some s') : ShardInv env s' := by
  obtain ⟨torn, dir, rfl, hdir, rfl⟩ | ⟨dir, hp, rfl, rfl⟩ | ⟨r, hp, hs⟩ | ⟨l, hp, hs⟩ := step_some hs
  · exact shardInv_crash h hdir
  · unfold ShardInv at h
    rw [hp] at h
    exact openInv_start h
  · unfold ShardInv at h
    rw [hp] at h
    exact shardInv_stepOpening h hs
  · unfold ShardInv at h
    rw [hp] at h
    obtain ⟨l', hl', hinv⟩ := h.stepLive hs
    unfold ShardInv
    rw [hl']
    exact hinv

end Step

/-- The WAL directory, and its active segment while a process has it open. -/
def Process.dir : Process sig → Dir
  | .down dir => dir
  | .opening r => r.wal.dir
  | .live l => l.pipe.wal.dir

def Process.activeSeg : Process sig → Option Nat
  | .down _ => none
  | .opening r => some r.wal.currentSeq
  | .live l => some l.pipe.wal.currentSeq

/-- In an uploaded block, or in a segment at or below the active one. -/
def Durable (env : Env) (s : Shard sig) (p : Bytes) : Prop :=
  Stored s.store.blocks p ∨
    ∃ seg, s.process.dir.Holds env.crc32 seg p ∧ ∀ active, s.process.activeSeg = some active → seg ≤ active

theorem ShardInv.durable {env : Env} {s : Shard sig} (h : ShardInv env s) {p : Bytes}
    (hp : p ∈ payloads s.acked) (hr : HasRecords sig p) : Durable env s p := by
  unfold ShardInv at h
  unfold Durable
  cases hproc : s.process with
  | down dir =>
    rw [hproc] at h
    rcases h p hp hr with hst | ⟨seg, hholds⟩
    · exact .inl hst
    · refine .inr ⟨seg, hholds, ?_⟩
      intro active hact
      cases hact
  | opening r =>
    rw [hproc] at h
    rcases h.down p hp hr with hst | ⟨seg, hholds⟩
    · exact .inl hst
    · refine .inr ⟨seg, hholds, ?_⟩
      intro active hact
      cases hact
      obtain ⟨sg, hsg, -⟩ := hholds
      exact h.le_current seg sg hsg
  | live l =>
    rw [hproc] at h
    rcases h.safe p hp hr with hst | ⟨seg, hg⟩
    · exact .inl hst
    · refine .inr ⟨seg, hg.holds, ?_⟩
      intro active hact
      cases hact
      exact h.layout.holds_le hg.holds

/-- **No acknowledged record is lost.** A payload with a record whose ingest call returned `Ok` is durable. -/
theorem acked_durable (sig : Signal) (env : Env) (dir : Dir) (st : Store sig) (n : Nat) (acts : List Action)
    (s : Shard sig) (hrun : run (step env) ⟨.down dir, st, [], n⟩ acts = some s) (a : Ack) (ha : a ∈ s.acked)
    (hr : HasRecords sig a.payload) : Durable env s a.payload := by
  have hinit : ShardInv env (⟨.down dir, st, [], n⟩ : Shard sig) := by
    intro p hp
    cases hp
  have hinv : ShardInv env s :=
    run_invariant (fun s a s' h hs => shardInv_step a h hs) hinit hrun
  exact hinv.durable (mem_map_of_mem ha) hr

/-! ## A restart after a failed upload, and a batch without records -/

def sampleSignal : Signal := dummySignal 2 (1024 * 1024) fun b => 64 * b.rows.length

def sampleEnv : Env where
  crc32 := crc32Ieee
  maxSegmentBytes := 256 * 1024 * 1024
  writerUuid := 7
  shardIndex := 0
  recoveryBlockUuid hashed := 1000 + hashed.length

def sampleBatch (n : Nat) : Bytes := toBe 4 n ++ replicate (14 * n) 0

def openFresh : List Action := [.open, .uploadRest true, .finishOpen]

def ingestOne (p : Bytes) : List Action :=
  [.ingest p, .sealOnSchemaChange, .writeFrame, .rotateIfFull, .merge, .finishIngest]

def Shard.outline (s : Shard sig) : List Ack × List Uuid × List Segment :=
  (s.acked, s.store.blocks.map StoredBlock.uuid, s.process.dir.rows)

def failedUploadRun : List Action :=
  openFresh ++ ingestOne (sampleBatch 2) ++ [.uploadFailed 0, .crash 0]

theorem failedUploadRun_outline : (run (step sampleEnv) (fresh sampleSignal) failedUploadRun).map
    outline = some ([⟨0, sampleBatch 2, 0⟩], [], [⟨0, frame crc32Ieee (sampleBatch 2)⟩, ⟨1, []⟩]) := by
  decide +kernel

theorem acked_durable_failed_upload : ∃ s, run (step sampleEnv) (fresh sampleSignal) failedUploadRun =
    some s ∧ Durable sampleEnv s (sampleBatch 2) := by
  obtain ⟨s, hs, hout⟩ := Option.map_eq_some_iff.mp failedUploadRun_outline
  have hacked : s.acked = [⟨0, sampleBatch 2, 0⟩] := congrArg Prod.fst hout
  refine ⟨s, hs, ?_⟩
  refine acked_durable sampleSignal sampleEnv .empty ⟨[], .empty⟩ 0 failedUploadRun s hs
    ⟨0, sampleBatch 2, 0⟩ (by rw [hacked]; exact mem_cons_self) ?_
  exact ⟨_, rfl, by decide⟩

def emptyBatchRun : List Action :=
  openFresh ++ ingestOne (sampleBatch 0) ++ [.crash 0, .open, .replayFrame true true,
    .uploadRest true, .unlinkReplayed 0, .finishOpen]

theorem emptyBatchRun_outline : (run (step sampleEnv) (fresh sampleSignal) emptyBatchRun).map
    outline = some ([⟨0, sampleBatch 0, 0⟩], [], [⟨1, []⟩]) := by
  decide +kernel

/-- Replay uploads nothing for an empty batch and releases its segment. -/
theorem empty_batch_not_durable : ∃ s, run (step sampleEnv) (fresh sampleSignal) emptyBatchRun = some s ∧
    ∃ a ∈ s.acked, ¬ Durable sampleEnv s a.payload := by
  obtain ⟨s, hs, hout⟩ := Option.map_eq_some_iff.mp emptyBatchRun_outline
  have hacked : s.acked = [⟨0, sampleBatch 0, 0⟩] := congrArg Prod.fst hout
  have hblocks : s.store.blocks.map StoredBlock.uuid = [] := congrArg (Prod.fst ∘ Prod.snd) hout
  have hrows : s.process.dir.rows = [⟨1, []⟩] := congrArg (Prod.snd ∘ Prod.snd) hout
  refine ⟨s, hs, ⟨0, sampleBatch 0, 0⟩, by rw [hacked]; exact mem_cons_self, ?_⟩
  rintro (⟨blk, hblk, -⟩ | ⟨seg, ⟨sg, hsg, hp⟩, -⟩)
  · rw [map_eq_nil_iff.mp hblocks] at hblk
    cases hblk
  · have hmem := Table.mem_of_lookup hsg
    rw [hrows, mem_singleton] at hmem
    subst hmem
    rw [scan_of_not_frame _ [] (by simp)] at hp
    cases hp

end Scry.Pipeline
