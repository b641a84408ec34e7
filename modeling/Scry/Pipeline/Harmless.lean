import Scry.Pipeline.Durability

/-! # Batches that every restart survives

A batch is in the WAL before it is merged. One that cannot be merged fails its own ingest call and then every
restart.
-/

open Scry.Lib Scry.Block Scry.Wal

namespace Scry.Pipeline

open Option Shard Recovery

open List

/-- What a signal promises of its batches. -/
structure Harmless (sig : Signal) where
  Batch : Bytes → Prop
  Scratch : sig.Builder → Prop
  Merged : sig.Builder → Prop
  new : Merged sig.new
  decode : ∀ {p}, Batch p → ∃ scratch, sig.decode p = some scratch ∧ Scratch scratch
  redact : ∀ {p}, Batch p → ∃ q, sig.redactReplayed p = some q ∧ Batch q
  merge : ∀ {b scratch}, Merged b → Scratch scratch → sig.schemaBoundary b scratch = false →
    ∃ m, sig.merge b scratch = some m ∧ Merged m
  close : ∀ {b}, Merged b → sig.shouldClose b = true → sig.isEmpty b = false

/-! ## The WAL -/

/-- Frames of payloads in `G`; the tail reads as no oversized frame. -/
structure SegmentOk (crc32 : Bytes → UInt32) (G : Bytes → Prop) (bytes : Bytes) : Prop where
  frames : ∀ p ∈ (scan crc32 bytes).1, G p
  tail : ∀ len, readFrame crc32 (scan crc32 bytes).2 ≠ .oversized len

def DirOk (crc32 : Bytes → UInt32) (G : Bytes → Prop) (d : Dir) : Prop :=
  ∀ seq s, d.lookup seq = some s → SegmentOk crc32 G s.bytes

section Wal

variable {crc32 : Bytes → UInt32} {G : Bytes → Prop} {d : Dir} {bytes : Bytes}

theorem segmentOk_of_not_frame (h : ∀ payload rest, readFrame crc32 bytes ≠ .frame payload rest)
    (htail : ∀ len, readFrame crc32 bytes ≠ .oversized len) : SegmentOk crc32 G bytes := by
  constructor
  · rw [scan_of_not_frame crc32 bytes h]
    simp
  · rw [scan_of_not_frame crc32 bytes h]
    exact htail

theorem segmentOk_frame {p : Bytes} (hp : G p) (hlen : p.length ≤ maxReplayFrameBytes) :
    SegmentOk crc32 G (frame crc32 p) := by
  constructor
  · simpa [scan_frame crc32 p hlen] using hp
  · simp [scan_frame crc32 p hlen]

theorem segmentOk_take {p : Bytes} (hp : G p) (hlen : p.length ≤ maxReplayFrameBytes) (k : Nat) :
    SegmentOk crc32 G ((frame crc32 p).take k) := by
  by_cases hk : k < (frame crc32 p).length
  · have hcut := readFrame_cut crc32 p k hlen hk
    simp only [mem_cons, not_mem_nil, or_false] at hcut
    apply segmentOk_of_not_frame
    · intro payload rest hread
      simp [hread] at hcut
    · intro len hread
      simp [hread] at hcut
  · rw [take_of_length_le (Nat.not_lt.mp hk)]
    exact segmentOk_frame hp hlen

theorem DirOk.create (h : DirOk crc32 G d) (seq : Nat) : DirOk crc32 G (d.create seq) := by
  intro k s hs
  rw [Dir.lookup_create, or_eq_some_iff] at hs
  obtain hs | ⟨-, hs⟩ := hs
  · exact h k s hs
  · split at hs
    · cases hs
      exact segmentOk_of_not_frame (by simp) (by simp)
    · cases hs

theorem DirOk.unlink (h : DirOk crc32 G d) (seq : Nat) : DirOk crc32 G (d.unlink seq) := by
  intro k s hs
  rw [Dir.lookup_unlink] at hs
  split at hs
  · cases hs
  · exact h k s hs

theorem DirOk.write (h : DirOk crc32 G d) {seq : Nat} (hclean : d.Clean crc32 seq)
    (hbytes : SegmentOk crc32 G bytes) : DirOk crc32 G (d.write seq bytes) := by
  intro k s hs
  rw [Dir.lookup_write, map_eq_some_iff] at hs
  obtain ⟨old, hold, rfl⟩ := hs
  have hok := h k old hold
  split
  · rename_i hseq
    obtain ⟨active, hact, htail⟩ := hclean
    rw [← hseq, Table.key_of_lookup hold, hold] at hact
    cases hact
    constructor
    · simp only [scan_append crc32 old.bytes bytes htail, forall_mem_append]
      exact ⟨hok.frames, hbytes.frames⟩
    · simp only [scan_append crc32 old.bytes bytes htail]
      exact hbytes.tail
  · exact hok

theorem replayItems_segmentOk {segs : List Segment} (h : ∀ s ∈ segs, SegmentOk crc32 G s.bytes) :
    ∀ x ∈ Wal.replayItems crc32 segs, ∃ p, x = .ok p ∧ G p := by
  induction segs with
  | nil => simp [Wal.replayItems]
  | cons s segs ih =>
    simp only [forall_mem_cons] at h
    have hframes : ∀ x ∈ (scan crc32 s.bytes).1.map (Except.ok (ε := ReplayError)), ∃ p, x = .ok p ∧ G p :=
      forall_mem_map.mpr fun p hp => ⟨p, rfl, h.1.frames p hp⟩
    simp only [Wal.replayItems]
    split
    · rename_i len hread
      exact absurd hread (h.1.tail len)
    · exact forall_mem_append.mpr ⟨hframes, ih h.2⟩

theorem DirOk.replay {w : Wal} (h : DirOk crc32 G w.dir) : ∀ x ∈ w.replay crc32, ∃ p, x = .ok p ∧ G p := by
  apply replayItems_segmentOk
  intro s hs
  exact h s.seq s (Table.lookup_of_mem ((mem_replaySegments w s).mp hs).1)

end Wal

/-! ## The live shard -/

variable {sig : Signal} (H : Harmless sig) (env : Env)

/-- Once another schema's block is sealed, the scratch fits the builder. -/
def IngestOk (builder : sig.Builder) : Ingest sig → Prop
  | .idle => True
  | .received p scratch => H.Batch p ∧ H.Scratch scratch
  | .sealed p scratch | .written p scratch _ | .appended p scratch _ =>
    H.Batch p ∧ H.Scratch scratch ∧ sig.schemaBoundary builder scratch = false
  | .merged _ _ => True

structure LiveOk (l : Live sig) : Prop where
  dir : DirOk env.crc32 H.Batch l.pipe.wal.dir
  merged : H.Merged l.pipe.current.builder
  ingest : IngestOk H l.pipe.current.builder l.ingest

structure OpenOk (r : Recovery sig) : Prop where
  dir : DirOk env.crc32 H.Batch r.wal.dir
  merged : H.Merged r.builder
  frames : ∀ x ∈ r.frames, ∃ p, x = .ok p ∧ H.Batch p

def ShardOk (s : Shard sig) : Prop :=
  match s.process with
  | .down dir => DirOk env.crc32 H.Batch dir
  | .opening r => OpenOk H env r
  | .live l => LiveOk H env l

section Live

variable {H env} {l l' : Live sig} {s s' : Shard sig} {ing : Ingest sig}

section

variable (h : LiveOk H env l)
include h

theorem LiveOk.spawn {pipe : State sig} (hs : l.pipe.spawnUpload = .ok pipe) (hing : IngestOk H pipe.current.builder ing) : LiveOk H env ⟨pipe, ing⟩ := by
  obtain rfl | ⟨-, rfl⟩ := (spawnUpload_ok hs).2
  · exact ⟨h.dir, h.merged, hing⟩
  · exact ⟨h.dir.create _, H.new, hing⟩

theorem LiveOk.withIngest
    (hing : IngestOk H l.pipe.current.builder ing) : LiveOk H env ⟨l.pipe, ing⟩ :=
  ⟨h.dir, h.merged, hing⟩

theorem LiveOk.sealOnSchemaChange (hs : l.sealOnSchemaChange = some l') : LiveOk H env l' := by
  have hing := h.ingest
  obtain ⟨p, scratch, heq, rfl | ⟨pipe, hspawn | rfl, hcut, rfl⟩⟩ := sealOnSchemaChange_some hs
  · exact h.withIngest trivial
  · rw [heq] at hing
    exact h.spawn hspawn ⟨hing.1, hing.2, hcut⟩
  · rw [heq] at hing
    exact h.withIngest ⟨hing.1, hing.2, hcut⟩

theorem LiveOk.writeFrame (hclean : l.pipe.wal.dir.Clean env.crc32 l.pipe.wal.currentSeq)
    (hs : l.writeFrame env = some l') : LiveOk H env l' := by
  have hing := h.ingest
  obtain ⟨p, scratch, heq, rfl | ⟨hlen, rfl⟩⟩ := writeFrame_some hs
  · exact h.withIngest trivial
  · rw [heq] at hing
    exact ⟨h.dir.write hclean (segmentOk_frame hing.1 hlen), h.merged, hing⟩

theorem LiveOk.rotateIfFull (hs : l.rotateIfFull = some l') : LiveOk H env l' := by
  have hing := h.ingest
  obtain ⟨p, scratch, seg, heq, rfl | ⟨wal, hwal, rfl⟩⟩ := rotateIfFull_some hs
  · exact h.withIngest trivial
  · rw [heq] at hing
    obtain rfl | ⟨-, rfl⟩ := rotateIfFull_ok hwal
    · exact ⟨h.dir, h.merged, hing⟩
    · exact ⟨h.dir.create _, h.merged, hing⟩

theorem LiveOk.withTasks {tasks : List (UploadTask sig)} :
    LiveOk H env ⟨{ l.pipe with inFlight := tasks }, l.ingest⟩ :=
  ⟨h.dir, h.merged, h.ingest⟩

theorem LiveOk.mergeScratch (hs : s.mergeScratch l = some s') : ShardOk H env s' := by
  have hing := h.ingest
  obtain ⟨p, scratch, seg, heq, hmerge⟩ := mergeScratch_some hs
  rw [heq] at hing
  obtain ⟨m, hm, hmerged⟩ := H.merge h.merged hing.2.1 hing.2.2
  obtain ⟨hnone, -⟩ | ⟨m', hm', rfl⟩ := hmerge
  · rw [hm] at hnone
    cases hnone
  · rw [hm] at hm'
    cases hm'
    exact ⟨h.dir, hmerged, trivial⟩

theorem LiveOk.finishIngest (hs : s.finishIngest l = some s') : ShardOk H env s' := by
  obtain ⟨p, seg, -, rfl | ⟨pipe, hspawn | rfl, rfl⟩⟩ := finishIngest_some hs
  · exact h.withIngest trivial
  · exact h.spawn hspawn trivial
  · exact h.withIngest trivial

theorem LiveOk.stepLive (hclean : l.pipe.wal.dir.Clean env.crc32 l.pipe.wal.currentSeq)
    {a : Action} (ha : ∀ p, a = .ingest p → H.Batch p) (hs : s.stepLive env l a = some s') : ShardOk H env s' := by
  cases a with
  | ingest p =>
    obtain ⟨-, scratch, hdec, rfl⟩ := ingest_some hs
    obtain ⟨scratch', hdec', hscratch⟩ := H.decode (ha p rfl)
    rw [hdec] at hdec'
    cases hdec'
    exact h.withIngest ⟨ha p rfl, hscratch⟩
  | sealOnSchemaChange =>
    obtain ⟨l', hl', rfl⟩ := map_eq_some_iff.mp hs
    exact h.sealOnSchemaChange hl'
  | writeFrame =>
    obtain ⟨l', hl', rfl⟩ := map_eq_some_iff.mp hs
    exact h.writeFrame hclean hl'
  | rotateIfFull =>
    obtain ⟨l', hl', rfl⟩ := map_eq_some_iff.mp hs
    exact h.rotateIfFull hl'
  | merge => exact h.mergeScratch hs
  | finishIngest => exact h.finishIngest hs
  | flush =>
    obtain ⟨-, pipe, hspawn, rfl⟩ := flush_some hs
    exact h.spawn hspawn trivial
  | uploadOk i uuid =>
    obtain ⟨t, -, -, -, -, rfl⟩ := uploadOk_some hs
    exact h.withTasks
  | uploadFailed i =>
    obtain ⟨t, -, -, rfl⟩ := uploadFailed_some hs
    exact h.withTasks
  | insertBlock i =>
    obtain ⟨t, uuid, -, -, rfl⟩ := endUpload_some hs
    exact h.withTasks
  | insertFailed i =>
    obtain ⟨t, uuid, -, -, rfl⟩ := endUpload_some hs
    exact h.withTasks
  | unlink i seq =>
    obtain ⟨t, -, -, -, -, rfl⟩ := unlink_some hs
    exact ⟨h.dir.unlink seq, h.merged, h.ingest⟩
  | _ => cases hs

end

end Live

/-! ## Recovery -/

section Recovery

variable {H env} {r : Recovery sig} {st : Store sig}

def Turned (H : Harmless sig) (r : Recovery sig) (rest : List (Except ReplayError Bytes)) (uploadsOk : Bool) :
    Replayed sig → Prop
  | .failed _ => uploadsOk = false
  | .continued r' _ =>
    r'.wal = r.wal ∧ r'.replayHigh = r.replayHigh ∧ r'.releasing = r.releasing ∧ r'.frames = rest ∧
      H.Merged r'.builder

theorem closeIfFull_turned {m : sig.Builder} (hm : H.Merged m) (rest : List (Except ReplayError Bytes))
    (q : Bytes) (closeOk : Bool) : Turned H r rest closeOk (r.closeIfFull env rest q m st closeOk) := by
  obtain ⟨hclose, hnone, hout⟩ | ⟨st', -, hout⟩ | hout := closeIfFull_cases env r rest q m st closeOk <;> rw [hout]
  · exact uploadReplayBlock_none (H.close hm hclose) hnone
  · exact ⟨rfl, rfl, rfl, rfl, H.new⟩
  · exact ⟨rfl, rfl, rfl, rfl, hm⟩

variable {out : Replayed sig}

theorem Turned.weaken {rest : List (Except ReplayError Bytes)} {closeOk boundaryOk : Bool} (h : Turned H r rest closeOk out) : Turned H r rest (boundaryOk && closeOk) out := by
  cases out with
  | failed st => exact (Bool.and_eq_false_iff.mpr (.inr h))
  | continued r' st => exact h

theorem replayPayload_turned (hr : H.Merged r.builder) {p : Bytes} (hp : H.Batch p)
    (rest : List (Except ReplayError Bytes)) (boundaryOk closeOk : Bool) :
    Turned H r rest (boundaryOk && closeOk) (r.replayPayload env rest p st boundaryOk closeOk) := by
  obtain ⟨q, hq, hbatch⟩ := H.redact hp
  obtain ⟨scratch, hdec, hscratch⟩ := H.decode hbatch
  simp only [replayPayload, hq, hdec]
  split
  · rename_i hcut
    split
    · rename_i hnone
      exact Bool.and_eq_false_iff.mpr (.inl (uploadReplayBlock_none (isEmpty_of_schemaBoundary hcut) hnone))
    · obtain ⟨m, hm, hmerge⟩ := H.merge H.new hscratch (schemaBoundary_of_isEmpty isEmpty_new)
      rw [hm]
      exact (closeIfFull_turned hmerge rest q closeOk).weaken
  · rename_i hcut
    obtain ⟨m, hm, hmerge⟩ := H.merge hr hscratch (by simpa using hcut)
    rw [hm]
    exact (closeIfFull_turned hmerge rest q closeOk).weaken

theorem OpenOk.replayFrame (h : OpenOk H env r) {boundaryOk closeOk : Bool}
    (hs : r.replayFrame env st boundaryOk closeOk = some out) : r.releasing = false ∧ ∃ x rest, r.frames = x :: rest ∧
    Turned H r rest (boundaryOk && closeOk) out := by
  obtain ⟨hrel, ⟨e, rest, hframes, -⟩ | ⟨p, rest, hframes, rfl⟩⟩ := replayFrame_some hs
  · obtain ⟨p, hp, -⟩ := h.frames (.error e) (by simp [hframes])
    cases hp
  · obtain ⟨p', hp, hbatch⟩ := h.frames (.ok p) (by simp [hframes])
    cases hp
    exact ⟨hrel, _, rest, hframes, replayPayload_turned h.merged hbatch rest boundaryOk closeOk⟩

theorem OpenOk.uploadRest (h : OpenOk H env r) {ok : Bool}
    (hs : r.uploadRest env st ok = some out) :
    match out with
    | .failed _ => ok = false
    | .continued r' _ => r'.wal = r.wal ∧ r'.replayHigh = r.replayHigh ∧ r'.releasing = true ∧
        r'.frames = r.frames ∧ H.Merged r'.builder := by
  obtain ⟨-, -, ⟨-, rfl⟩ | ⟨hempty, hnone, rfl⟩ | ⟨st', -, rfl⟩⟩ := uploadRest_some hs
  · exact ⟨rfl, rfl, rfl, rfl, h.merged⟩
  · exact uploadReplayBlock_none hempty hnone
  · exact ⟨rfl, rfl, rfl, rfl, H.new⟩

theorem openOk_start {dir : Dir} (h : DirOk env.crc32 H.Batch dir) : OpenOk H env (start env sig dir) := by
  have hdir := h.create dir.nextSeq
  exact ⟨hdir, H.new, hdir.replay⟩

theorem OpenOk.finish (h : OpenOk H env r) {l : Live sig} {st' : Store sig}
    (hs : r.finish env st = some (l, st')) : LiveOk H env l := by
  obtain ⟨-, -, rfl, -⟩ := finish_some hs
  exact ⟨h.dir, h.merged, trivial⟩

theorem OpenOk.unlinkReplayed (h : OpenOk H env r) {seq : Nat} {r' : Recovery sig}
    (hs : r.unlinkReplayed seq = some r') : OpenOk H env r' := by
  obtain ⟨_, -, -, -, rfl⟩ := unlinkReplayed_some hs
  exact ⟨h.dir.unlink seq, h.merged, h.frames⟩

end Recovery

/-! ## Every run -/

section Run

variable {H env} {s s' : Shard sig}

theorem OpenOk.stepOpening {r : Recovery sig} (h : OpenOk H env r) {a : Action}
    (hs : s.stepOpening env r a = some s') : ShardOk H env s' := by
  cases a with
  | replayFrame boundaryOk closeOk =>
    obtain ⟨out, hout, rfl⟩ := map_eq_some_iff.mp hs
    obtain ⟨-, x, rest, hframes, hturned⟩ := h.replayFrame hout
    cases out with
    | failed st => exact h.dir
    | continued r' st =>
      obtain ⟨hwal, -, -, hrest, hmerge⟩ := hturned
      refine ⟨hwal ▸ h.dir, hmerge, fun y hy => h.frames y ?_⟩
      rw [hframes]
      exact mem_cons_of_mem x (hrest ▸ hy)
  | uploadRest ok =>
    obtain ⟨out, hout, rfl⟩ := map_eq_some_iff.mp hs
    have hturned := h.uploadRest hout
    cases out with
    | failed st => exact h.dir
    | continued r' st =>
      obtain ⟨hwal, -, -, hframes, hmerge⟩ := hturned
      exact ⟨hwal ▸ h.dir, hmerge, hframes ▸ h.frames⟩
  | unlinkReplayed seq =>
    obtain ⟨r', hr', rfl⟩ := map_eq_some_iff.mp hs
    exact h.unlinkReplayed hr'
  | finishOpen =>
    obtain ⟨⟨l, st⟩, hl, rfl⟩ := map_eq_some_iff.mp hs
    exact h.finish hl
  | _ => cases hs

theorem shardOk_crash (hinv : ShardInv env s) (h : ShardOk H env s) {torn : Nat} {dir : Dir}
    (hs : crashDir env torn s.process = some dir) : DirOk env.crc32 H.Batch dir := by
  unfold ShardInv at hinv
  unfold ShardOk at h
  obtain ⟨r, hp, rfl⟩ | ⟨l, hp, rfl⟩ | ⟨l, p, scratch, hp, hsealed, hlen, rfl⟩ := crashDir_some hs <;>
    rw [hp] at h hinv
  · exact h.dir
  · exact h.dir
  · have hing := h.ingest
    rw [hsealed] at hing
    exact h.dir.write hinv.layout.clean (segmentOk_take hing.1 hlen torn)

theorem shardOk_step {a : Action} (hinv : ShardInv env s) (h : ShardOk H env s)
    (ha : ∀ p, a = .ingest p → H.Batch p) (hs : s.step env a = some s') : ShardOk H env s' := by
  obtain ⟨torn, dir, rfl, hdir, rfl⟩ | ⟨dir, hp, rfl, rfl⟩ | ⟨r, hp, hs⟩ | ⟨l, hp, hs⟩ := step_some hs
  · exact shardOk_crash hinv h hdir
  · unfold ShardOk at h
    rw [hp] at h
    exact openOk_start h
  · unfold ShardOk at h
    rw [hp] at h
    exact h.stepOpening hs
  · unfold ShardInv at hinv
    unfold ShardOk at h
    rw [hp] at h hinv
    exact h.stepLive hinv.layout.clean ha hs

end Run

/-! ## Recovery completes -/

/-- With an object store that takes every upload. -/
def recoveryRun (env : Env) (sig : Signal) (dir : Dir) : List Action :=
  .open :: (replicate (start env sig dir).frames.length (.replayFrame true true) ++
    .uploadRest true :: ((range dir.nextSeq).map .unlinkReplayed ++ [.finishOpen]))

section Completes

variable {H env} (acked : List Ack) (n : Nat)

variable (st : Store sig) {r : Recovery sig}

theorem run_replayFrames (h : OpenOk H env r) (hrel : r.releasing = false) : ∃ r'
    st', run (step env) ⟨.opening r, st, acked, n⟩ (replicate r.frames.length (.replayFrame true true)) = some
    ⟨.opening r', st', acked, n⟩ ∧ r'.frames = [] ∧ r'.wal = r.wal ∧ r'.replayHigh = r.replayHigh ∧ r'.releasing =
    false ∧ OpenOk H env r' := by
  induction hf : r.frames generalizing r st with
  | nil => exact ⟨r, st, rfl, hf, rfl, rfl, hrel, h⟩
  | cons x rest ih =>
    obtain ⟨p, rfl, hp⟩ := h.frames x (by simp [hf])
    have hframe : r.replayFrame env st true true = some (r.replayPayload env rest p st true true) := by
      simp [replayFrame, hrel, hf]
    have hturned : Turned H r rest true (r.replayPayload env rest p st true true) :=
      replayPayload_turned h.merged hp rest true true
    cases hout : r.replayPayload env rest p st true true with
    | failed st' =>
      rw [hout] at hturned
      cases hturned
    | continued r₁ st₁ =>
      rw [hout] at hturned hframe
      obtain ⟨hwal, hhigh, hrel₁, hrest, hmerge⟩ := hturned
      have hopen : OpenOk H env r₁ := by
        refine ⟨hwal ▸ h.dir, hmerge, fun y hy => h.frames y ?_⟩
        rw [hf]
        exact mem_cons_of_mem _ (hrest ▸ hy)
      obtain ⟨r', st', hrun, hend, hwal', hhigh', hrel', hopen'⟩ := ih st₁ hopen (hrel₁.trans hrel) hrest
      refine ⟨r', st', ?_, hend, hwal'.trans hwal, hhigh'.trans hhigh, hrel', hopen'⟩
      have hstep : step env ⟨.opening r, st, acked, n⟩ (.replayFrame true true) =
          some ⟨.opening r₁, st₁, acked, n⟩ := by
        simp only [step, stepOpening, hframe]
        rfl
      rw [length_cons, replicate_succ, run_cons, hstep]
      exact hrun

theorem run_uploadRest (h : OpenOk H env r) (hrel : r.releasing = false)
    (hframes : r.frames = []) : ∃ r' st', step env ⟨.opening r, st, acked, n⟩ (.uploadRest true) = some
    ⟨.opening r', st', acked, n⟩ ∧ r'.wal = r.wal ∧ r'.replayHigh = r.replayHigh ∧ r'.releasing = true := by
  obtain ⟨out, hout⟩ : ∃ out, r.uploadRest env st true = some out := by
    simp only [uploadRest, hrel, hframes, Bool.false_eq_true, if_false]
    split
    · exact ⟨_, rfl⟩
    · split <;> exact ⟨_, rfl⟩
  have hturned := h.uploadRest hout
  cases out with
  | failed st' => cases hturned
  | continued r' st' =>
    obtain ⟨hwal, hhigh, hrel', -, -⟩ := hturned
    refine ⟨r', st', ?_, hwal, hhigh, hrel'⟩
    simp only [step, stepOpening, hout]
    rfl

theorem run_unlinkReplayed {high : Nat} (hhigh : r.replayHigh = some high)
    (hlt : high < r.wal.currentSeq) (hrel : r.releasing = true) (seqs : List Nat) (hseqs : ∀ seq ∈ seqs, seq ≤ high) :
    ∃ r', run (step env) ⟨.opening r, st, acked, n⟩ (seqs.map .unlinkReplayed) = some
    ⟨.opening r', st, acked, n⟩ ∧ r'.replayHigh = some high ∧ r'.releasing = true ∧ ∀ k s, r'.wal.dir.lookup k = some
    s → k ∉ seqs ∧ r.wal.dir.lookup k = some s := by
  induction seqs generalizing r with
  | nil => exact ⟨r, rfl, hhigh, hrel, fun k s hs => ⟨by simp, hs⟩⟩
  | cons seq seqs ih =>
    simp only [forall_mem_cons] at hseqs
    have hrelease : r.wal.prepareRelease high = .ok () := by
      rw [Wal.prepareRelease, if_neg (by omega)]
    obtain ⟨r', hrun, hhigh', hrel', hleft⟩ := ih
      (r := { r with wal := { r.wal with dir := r.wal.dir.unlink seq } }) hhigh hlt hrel hseqs.2
    refine ⟨r', ?_, hhigh', hrel', fun k s hs => ?_⟩
    · have hstep : step env ⟨.opening r, st, acked, n⟩ (.unlinkReplayed seq) = some
          ⟨.opening { r with wal := { r.wal with dir := r.wal.dir.unlink seq } }, st, acked, n⟩ := by
        simp only [step, stepOpening, unlinkReplayed, hhigh, hrelease]
        rw [if_pos ⟨hrel, hseqs.1⟩]
        rfl
      rw [map_cons, run_cons, hstep]
      exact hrun
    · obtain ⟨hnot, hs⟩ := hleft k s hs
      rw [Dir.lookup_unlink] at hs
      split at hs
      · cases hs
      · rename_i hne
        exact ⟨by simp [hne, hnot], hs⟩

theorem recovery_completes {dir : Dir} (h : DirOk env.crc32 H.Batch dir) (st : Store sig) : ∃ l st', run
    (step env) ⟨.down dir, st, acked, n⟩ (recoveryRun env sig dir) = some ⟨.live l, st', acked, n⟩ := by
  obtain ⟨r, st₁, hreplay, hframes, hwal, hhigh, hrel, hopen⟩ :=
    run_replayFrames acked n st (openOk_start h) rfl
  obtain ⟨r₁, st₂, hrest, hwal₁, hhigh₁, hrel₁⟩ := run_uploadRest acked n st₁ hopen hrel hframes
  have hstart : step env (⟨.down dir, st, acked, n⟩ : Shard sig) .open =
      some ⟨.opening (start env sig dir), st, acked, n⟩ := rfl
  rw [recoveryRun, run_cons, hstart, bind_some, run_append, hreplay, bind_some, run_cons, hrest, bind_some]
  rw [hhigh] at hhigh₁
  rw [hwal] at hwal₁
  have hcur : r₁.wal.currentSeq = dir.nextSeq := by
    rw [hwal₁]
    rfl
  cases hnext : dir.nextSeq with
  | zero =>
    have hnone : r₁.replayHigh = none := by
      rw [hhigh₁, start]
      exact if_pos hnext
    simp only [range_zero, map_nil, nil_append, run_cons, run_nil, step,
      stepOpening, finish, hnone, hrel₁, if_true, map_some, bind_some]
    exact ⟨_, _, rfl⟩
  | succ high =>
    have hsome : r₁.replayHigh = some high := by
      rw [hhigh₁, start]
      simp [Wal.openWal, hnext]
    obtain ⟨r₂, hunl, hhigh₂, hrel₂, hleft⟩ := run_unlinkReplayed acked n st₂ hsome (by omega) hrel₁
      (range (high + 1)) fun seq hseq => Nat.lt_succ_iff.mp (mem_range.mp hseq)
    have hreleased : ∀ sg ∈ r₂.wal.dir.rows, high < sg.seq := by
      intro sg hsg
      have hnot := (hleft sg.seq sg (Table.lookup_of_mem hsg)).1
      simp only [mem_range] at hnot
      omega
    rw [run_append, hunl, bind_some]
    simp only [run_cons, run_nil, step, stepOpening, finish, hhigh₂]
    rw [if_pos ⟨hrel₂, hreleased⟩]
    exact ⟨_, _, rfl⟩

end Completes

/-- No merge fails, and wherever the process dies, the next start goes through. -/
structure NoPoison (env : Env) (s : Shard sig) : Prop where
  merges : ∀ l payload scratch seg, s.process = .live l → l.ingest = .appended payload scratch seg →
    ∃ m, sig.merge l.pipe.current.builder scratch = some m
  restarts : ∀ dir, s.process = .down dir ∨ (∃ torn, crashDir env torn s.process = some dir) →
    ∃ l st, run (step env) { s with process := .down dir } (recoveryRun env sig dir) =
      some { s with process := .live l, store := st }

/-- **Harmless batches never poison the WAL.** -/
theorem Harmless.noPoison {env : Env} {as : List Action} {s : Shard sig} (hbatches : ∀ p, .ingest p ∈ as → H.Batch p)
    (hrun : run (step env) (fresh sig) as = some s) : NoPoison env s := by
  have hfresh : ShardInv env (fresh sig) ∧ ShardOk H env (fresh sig) := by
    constructor
    · intro p hp
      cases hp
    · intro seq sg hsg
      cases hsg
  have hmeets : Meets (step env) (fun _ a => ∀ p, a = .ingest p → H.Batch p) (fresh sig) as :=
    meets_of_forall fun a ha p hp => hbatches p (hp ▸ ha)
  obtain ⟨hinv, hok⟩ := run_invariant_of_meets (P := fun s => ShardInv env s ∧ ShardOk H env s)
    (fun s a s' h ha hs => ⟨shardInv_step a h.1 hs, shardOk_step h.1 h.2 ha hs⟩) hfresh hmeets hrun
  constructor
  · intro l payload scratch seg hl hing
    unfold ShardOk at hok
    rw [hl] at hok
    have hfits := hok.ingest
    rw [hing] at hfits
    obtain ⟨m, hm, -⟩ := H.merge hok.merged hfits.2.1 hfits.2.2
    exact ⟨m, hm⟩
  · intro dir hdir
    have hdirOk : DirOk env.crc32 H.Batch dir := by
      obtain hdown | ⟨torn, htorn⟩ := hdir
      · unfold ShardOk at hok
        rw [hdown] at hok
        exact hok
      · exact shardOk_crash hinv hok htorn
    exact recovery_completes s.acked s.merged hdirOk s.store

end Scry.Pipeline
