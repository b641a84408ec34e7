import Scry.Pipeline.Durability

/-! # What recovery releases

`Pipeline::open` unlinks every segment it replayed.
-/

open Scry.Lib Scry.Block Scry.Wal

namespace Scry.Pipeline

open Shard

variable {sig : Signal}

def Action.isRecovery : Action → Bool
  | .replayFrame _ _ => true
  | .uploadRest _ => true
  | .unlinkReplayed _ => true
  | _ => false

variable (env : Env) (dir : Dir)

/-- `open` on `dir` takes the steps `acts` and returns `Ok` with `l`. -/
def Opens (st : Store sig) (acts : List Action) (l : Live sig) (st' : Store sig) : Prop :=
  (∀ a ∈ acts, a.isRecovery = true) ∧
    run (step env) ⟨.down dir, st, [], 0⟩ (.open :: (acts ++ [.finishOpen])) =
      some ⟨.live l, st', [], 0⟩

/-- The bytes are a frame that was cut short, or nothing. -/
def TornTail (left : Bytes) : Prop :=
  left.length < frameHeaderSize ∨
    left.length < frameHeaderSize + (decodeHeader (left.take frameHeaderSize)).1

instance (left : Bytes) : Decidable (TornTail left) := inferInstanceAs (Decidable (_ ∨ _))

/-- Every frame before the undecoded rest was replayed, and the rest is torn. -/
def FullyReplayed (seg : Segment) : Prop :=
  (∀ p ∈ (scan env.crc32 seg.bytes).1, .ok p ∈ (Wal.openWal dir env.maxSegmentBytes).replay env.crc32) ∧
    TornTail (scan env.crc32 seg.bytes).2

def Released (l : Live sig) (seg : Segment) : Prop := l.pipe.wal.dir.lookup seg.seq = none

/-! ## The replay loop -/

/-- What came before the frames that are left was read without an error. -/
def Consumed (r : Recovery sig) : Prop :=
  ∃ done : List Bytes,
    (Recovery.start env sig dir).frames = done.map .ok ++ r.frames ∧
      r.replayHigh = (Recovery.start env sig dir).replayHigh ∧ (r.releasing = true → r.frames = [])

def OpenFrom (s : Shard sig) : Prop :=
  match s.process with
  | .opening r => Consumed env dir r
  | .down _ => True
  | .live _ => False

section Loop
variable {env : Env} {dir : Dir} {r r' : Recovery sig} {st st' : Store sig} {rest : List (Except ReplayError Bytes)}

theorem closeIfFull_continued {q : Bytes} {m : sig.Builder}
    {closeOk : Bool} (h : r.closeIfFull env rest q m st closeOk = .continued r' st') :
    r'.frames = rest ∧ r'.replayHigh = r.replayHigh ∧ r'.releasing = r.releasing := by
  obtain ⟨-, -, hout⟩ | ⟨st', -, hout⟩ | hout := closeIfFull_cases env r rest q m st closeOk <;>
    rw [hout] at h <;> cases h
  · exact ⟨rfl, rfl, rfl⟩
  · exact ⟨rfl, rfl, rfl⟩

variable {boundaryOk closeOk : Bool}

theorem replayPayload_continued {w : Bytes}
    (h : r.replayPayload env rest w st boundaryOk closeOk = .continued r' st') : r'.frames = rest ∧ r'.replayHigh =
    r.replayHigh ∧ r'.releasing = r.releasing := by
  unfold Recovery.replayPayload at h
  split at h
  · cases h
  split at h
  · cases h
  split at h
  · split at h
    · cases h
    split at h
    · cases h
    · exact closeIfFull_continued h
  · split at h
    · cases h
    · exact closeIfFull_continued h

theorem Consumed.replayFrame (h : Consumed env dir r)
    (hs : r.replayFrame env st boundaryOk closeOk = some (.continued r' st')) : Consumed env dir r' := by
  obtain ⟨done, hframes, hhigh, -⟩ := h
  obtain ⟨hrel, ⟨e, rest, -, hout⟩ | ⟨w, rest, hr, hout⟩⟩ := replayFrame_some hs
  · cases hout
  · obtain ⟨h1, h2, h3⟩ := replayPayload_continued hout.symm
    refine ⟨done ++ [w], ?_, by rw [h2, hhigh], ?_⟩
    · rw [hframes, hr, h1]
      simp
    · intro hrel'
      rw [h3, hrel] at hrel'
      cases hrel'

theorem Consumed.uploadRest (h : Consumed env dir r) {ok : Bool}
    (hs : r.uploadRest env st ok = some (.continued r' st')) : Consumed env dir r' := by
  obtain ⟨done, hframes, hhigh, -⟩ := h
  obtain ⟨-, hr, ⟨-, hout⟩ | ⟨-, -, hout⟩ | ⟨st', -, hout⟩⟩ := uploadRest_some hs <;> cases hout
  · exact ⟨done, hframes, hhigh, fun _ => hr⟩
  · exact ⟨done, hframes, hhigh, fun _ => hr⟩

theorem Consumed.unlinkReplayed (h : Consumed env dir r) {seq : Nat}
    (hs : r.unlinkReplayed seq = some r') : Consumed env dir r' := by
  obtain ⟨done, hframes, hhigh, hrel⟩ := h
  obtain ⟨_, -, -, -, rfl⟩ := unlinkReplayed_some hs
  exact ⟨done, hframes, hhigh, hrel⟩

theorem openFrom_step {s s' : Shard sig} {a : Action} (h : OpenFrom env dir s)
    (ha : a.isRecovery = true) (hs : s.step env a = some s') : OpenFrom env dir s' := by
  unfold OpenFrom at h
  cases hp : s.process with
  | down d => cases a <;> simp [step, hp, Action.isRecovery] at hs ha
  | live l =>
    rw [hp] at h
    exact h.elim
  | opening r =>
    rw [hp] at h
    have hs : s.stepOpening env r a = some s' := by
      cases a <;> simp_all [step, Action.isRecovery]
    cases a with
    | replayFrame boundaryOk closeOk =>
      obtain ⟨out, hout, rfl⟩ := Option.map_eq_some_iff.mp hs
      cases out with
      | failed st => trivial
      | continued r' st => exact h.replayFrame hout
    | uploadRest ok =>
      obtain ⟨out, hout, rfl⟩ := Option.map_eq_some_iff.mp hs
      cases out with
      | failed st => trivial
      | continued r' st => exact h.uploadRest hout
    | unlinkReplayed seq =>
      obtain ⟨r', hr', rfl⟩ := Option.map_eq_some_iff.mp hs
      exact h.unlinkReplayed hr'
    | _ => cases ha

end Loop

/-! ## The end of a successful open -/

theorem replayItems_ok {crc32 : Bytes → UInt32} {segs : List Segment} {done : List Bytes}
    (h : Wal.replayItems crc32 segs = done.map .ok) (seg : Segment) (hseg : seg ∈ segs) (len : Nat) :
    readFrame crc32 (scan crc32 seg.bytes).2 ≠ .oversized len := by
  have hnoerr : ∀ e, .error e ∉ Wal.replayItems crc32 segs := by
    intro e he
    rw [h] at he
    simp at he
  clear h
  induction segs with
  | nil => cases hseg
  | cons x segs ih =>
    unfold Wal.replayItems at hnoerr
    simp only at hnoerr
    split at hnoerr
    · exact absurd (List.mem_append_right _ List.mem_cons_self) (hnoerr _)
    · rename_i hx
      rcases List.mem_cons.mp hseg with rfl | hseg
      · exact hx len
      · exact ih hseg fun e he => hnoerr e (List.mem_append_right _ he)

theorem tornTail_iff (crc32 : Bytes → UInt32) (left : Bytes)
    (hframe : ∀ p rest, readFrame crc32 left ≠ .frame p rest)
    (hover : ∀ len, readFrame crc32 left ≠ .oversized len) :
    TornTail left ↔ readFrame crc32 left ≠ .crcMismatch := by
  unfold readFrame at hframe hover ⊢
  unfold TornTail
  by_cases h0 : left.length = 0
  · simp [h0, frameHeaderSize]
  by_cases h8 : left.length < frameHeaderSize
  · simp [h0, h8]
  rw [if_neg h0, if_neg h8] at hframe hover ⊢
  simp only at hframe hover ⊢
  split at hover
  · exact absurd rfl (hover _)
  rename_i hmax
  rw [if_neg hmax] at hframe ⊢
  split at hframe
  · rename_i hshort
    rw [if_pos hshort]
    rw [List.length_drop] at hshort
    simp only [ne_eq, reduceCtorEq, not_false_eq_true, iff_true]
    right
    omega
  · rename_i hlong
    rw [if_neg hlong]
    split at hframe
    · rename_i hcrc
      rw [if_pos hcrc]
      rw [List.length_drop] at hlong
      simp only [ne_eq, not_true_eq_false, iff_false]
      omega
    · exact absurd rfl (hframe _ _)

section Opened
variable {env : Env} {dir : Dir} {st st' : Store sig} {acts : List Action} {l : Live sig}

section

variable (h : Opens env dir st acts l st')
include h

theorem Opens.recovery :
    ∃ r st'', Consumed env dir r ∧ r.finish env st'' = some (l, st') := by
  obtain ⟨hacts, hrun⟩ := h
  obtain ⟨s₀, hopen, hrun⟩ := run_cons_some hrun
  cases hopen
  obtain ⟨s₁, hrun, hfin⟩ := run_snoc_some hrun
  have hstart : OpenFrom env dir
      (⟨.opening (Recovery.start env sig dir), st, [], 0⟩ : Shard sig) := by
    refine ⟨[], rfl, rfl, ?_⟩
    intro hrel
    cases hrel
  have hstep : ∀ (s : Shard sig) (a : Action) (s' : Shard sig), OpenFrom env dir s →
      a.isRecovery = true → step env s a = some s' → OpenFrom env dir s' :=
    fun s a s' hs ha hstep => openFrom_step hs ha hstep
  have hfrom : OpenFrom env dir s₁ :=
    run_invariant_of_meets hstep hstart (meets_of_forall hacts) hrun
  unfold OpenFrom at hfrom
  cases hp : s₁.process with
  | down d => simp [step, hp] at hfin
  | live l' =>
    rw [hp] at hfrom
    exact hfrom.elim
  | opening r =>
    rw [hp] at hfrom
    simp only [step, hp, stepOpening] at hfin
    obtain ⟨⟨l', st₁⟩, hl, heq⟩ := Option.map_eq_some_iff.mp hfin
    simp only [Shard.mk.injEq, Process.live.injEq] at heq
    obtain ⟨rfl, rfl, -⟩ := heq
    exact ⟨r, s₁.store, hfrom, hl⟩

theorem Opens.released (seg : Segment) (hseg : seg ∈ dir.rows) :
    Released l seg := by
  obtain ⟨r, st'', ⟨done, -, hhigh, -⟩, hfin⟩ := h.recovery
  obtain ⟨-, hgone, rfl, -⟩ := finish_some hfin
  have hlt : seg.seq < dir.nextSeq := dir.lt_nextSeq (Table.lookup_of_mem hseg)
  have hsome : r.replayHigh = some (dir.nextSeq - 1) := by
    rw [hhigh]
    exact if_neg (show dir.nextSeq ≠ 0 by omega)
  unfold Released
  change r.wal.dir.lookup seg.seq = none
  cases hl : r.wal.dir.lookup seg.seq with
  | none => rfl
  | some x =>
    have := hgone _ hsome x (Table.mem_of_lookup hl)
    rw [Table.key_of_lookup hl] at this
    omega

theorem Opens.no_error : ∃ done : List Bytes,
    (Wal.openWal dir env.maxSegmentBytes).replay env.crc32 = done.map .ok := by
  obtain ⟨r, st'', ⟨done, hframes, -, hrel⟩, hfin⟩ := h.recovery
  obtain ⟨hreleasing, -⟩ := finish_some hfin
  rw [hrel hreleasing, List.append_nil] at hframes
  exact ⟨done, hframes⟩

end

theorem mem_replaySegments_open {seg : Segment} (hseg : seg ∈ dir.rows) (maxSegmentBytes : Nat) :
    seg ∈ (Wal.openWal dir maxSegmentBytes).replaySegments := by
  have hlook := Table.lookup_of_mem hseg
  rw [mem_replaySegments]
  refine ⟨?_, dir.lt_nextSeq hlook⟩
  apply Table.mem_of_lookup (k := seg.seq)
  simp only [Wal.openWal, Dir.lookup_create, hlook, Option.some_or]

end Opened

/-! ## A torn segment and a corrupted one -/

def oneSegment (bytes : Bytes) : Dir := ⟨[⟨0, bytes⟩], by simp⟩

def Process.isLive : Process sig → Bool
  | .live _ => true
  | _ => false

theorem opens_of_outline (env : Env) (dir : Dir) (st : Store sig) (acts : List Action) (blocks : List Uuid)
    (rows : List Segment) (hacts : ∀ a ∈ acts, a.isRecovery = true)
    (h : (run (step env) ⟨.down dir, st, [], 0⟩ (.open :: (acts ++ [.finishOpen]))).map
    (fun s => (s.outline, s.merged, s.process.isLive)) = some (([], blocks, rows), 0, true)) : ∃ l st', Opens env dir
    st acts l st' ∧ st'.blocks.map StoredBlock.uuid = blocks ∧ l.pipe.wal.dir.rows = rows := by
  obtain ⟨⟨process, store, acked, merged⟩, hs, hout⟩ := Option.map_eq_some_iff.mp h
  simp only [outline, Prod.mk.injEq] at hout
  obtain ⟨⟨rfl, hblocks, hrows⟩, rfl, hlive⟩ := hout
  cases process with
  | live l => exact ⟨l, store, ⟨hacts, hs⟩, hblocks, hrows⟩
  | _ => cases hlive

def tornDir : Dir := oneSegment (frame crc32Ieee (sampleBatch 1) ++ [0, 0, 0])

def tornRun : List Action := [.replayFrame true true, .uploadRest true, .unlinkReplayed 0]

def corruptBytes : Bytes :=
  (frame crc32Ieee (sampleBatch 1)).set 20 1 ++ frame crc32Ieee (sampleBatch 1)

def corruptRun : List Action := [.uploadRest true, .unlinkReplayed 0]

end Scry.Pipeline
