import Scry.Lib.Machine
import Scry.Wal.Segments

/-! # A WAL whose writes may fail

The writer of the active segment and `current_seq` are moved at different points of a rotation, so both are part of
the state.
-/

open Scry.Lib

namespace Scry.Wal

open Option

inductive RotateFault
  | flush
  | create
  | fsync
  deriving DecidableEq

/-- In the write, after that many bytes, or in the rotation that follows. -/
inductive AppendFault
  | write (bytes : Nat)
  | rotate (fault : RotateFault)
  deriving DecidableEq

/-- `file` is the segment that the writer has open; `accepted` has payloads with the segment that
`current_segment` named. -/
structure Log where
  wal : Wal
  file : Nat
  accepted : List (Nat × Bytes)

namespace Log

def opened (d : Dir) (maxSegmentBytes : Nat) (accepted : List (Nat × Bytes)) : Log :=
  let wal := openWal d maxSegmentBytes
  ⟨wal, wal.currentSeq, accepted⟩

/-- The writer is replaced before the sealed segment is synced, `current_seq` after. -/
def rotate (l : Log) (fault : Option RotateFault) : Log × Bool :=
  let next := l.wal.currentSeq + 1
  if fault = some .flush then (l, false)
  else if fault = some .create || l.wal.dir.contains next then (l, false)
  else
    let replaced := { l with wal.dir := l.wal.dir.create next, file := next }
    if fault = some .fsync then (replaced, false)
    else ({ replaced with wal.currentSeq := next, wal.currentBytes := 0 }, true)

def write (l : Log) (bytes : Bytes) : Log := { l with wal.dir := l.wal.dir.write l.file bytes }

def accept (l : Log) (tag : Nat) (payload : Bytes) : Log :=
  { l with accepted := l.accepted ++ [(tag, payload)] }

/-- The end of `append`, after the frame is written. -/
def rotateIfFull (l : Log) (fault : Option RotateFault) : Log × Bool :=
  if l.wal.maxSegmentBytes ≤ l.wal.currentBytes then l.rotate fault else (l, true)

section
variable (crc32 : Bytes → UInt32)

def written (l : Log) (payload : Bytes) : Log :=
  { l.write (frame crc32 payload) with
    wal.currentBytes := l.wal.currentBytes + (frameHeaderSize + payload.length) }

def finishAppend (l : Log) (payload : Bytes) (fault : Option RotateFault) : Log :=
  match (l.written crc32 payload).rotateIfFull fault with
  | (l', true) => l'.accept l.wal.currentSeq payload
  | (l', false) => l'

def append (l : Log) (payload : Bytes) (fault : Option AppendFault) : Log :=
  if maxReplayFrameBytes < payload.length then l
  else
    match fault with
    | some (.write bytes) => l.write ((frame crc32 payload).take bytes)
    | some (.rotate fault) => l.finishAppend crc32 payload (some fault)
    | none => l.finishAppend crc32 payload none

end

end Log

inductive Op
  | append (payload : Bytes) (fault : Option AppendFault)
  | rotate (fault : Option RotateFault)
  | reopen (maxSegmentBytes : Nat)
  deriving DecidableEq

variable (crc32 : Bytes → UInt32) (d : Dir) (seq k : Nat)

def Log.apply (l : Log) : Op → Log
  | .append payload fault => l.append crc32 payload fault
  | .rotate fault => (l.rotate fault).1
  | .reopen maxSegmentBytes => .opened l.wal.dir maxSegmentBytes l.accepted

def Log.step (l : Log) (op : Op) : Option Log := some (l.apply crc32 op)

/-! ## What a call can do -/

theorem Dir.write_nil (seq : Nat) : d.write seq [] = d := by
  have hsame : ∀ s : Segment, (if decide (s.seq = seq) then { s with bytes := s.bytes ++ [] } else s) = s :=
    fun s => by simp
  cases d with
  | mk rows nodup =>
    simp only [Dir.write, Table.updateWhere, hsame, List.map_id']

theorem Dir.contains_create :
    (d.create seq).contains k = true ↔ d.contains k = true ∨ seq = k := by
  rw [Table.contains, Table.contains, Dir.lookup_create, isSome_or, Bool.or_eq_true]
  by_cases h : seq = k <;> simp [h]

theorem Dir.contains_write (bytes : Bytes) :
    (d.write seq bytes).contains k = d.contains k := by
  rw [Table.contains, Table.contains, Dir.lookup_write, isSome_map]

namespace Log

variable {crc32 : Bytes → UInt32} {l : Log} {op : Op}

/-- The call gets to the sync of the sealed segment, which fails. -/
def FsyncFails (l : Log) : Op → Prop
  | .append payload fault => payload.length ≤ maxReplayFrameBytes ∧ fault = some (.rotate .fsync) ∧
      l.wal.maxSegmentBytes ≤ l.wal.currentBytes + (frameHeaderSize + payload.length) ∧
      l.wal.dir.contains (l.wal.currentSeq + 1) = false
  | .rotate fault => fault = some .fsync ∧ l.wal.dir.contains (l.wal.currentSeq + 1) = false
  | .reopen _ => False

/-- After a call that wrote `bytes`. -/
inductive Effect (l : Log) (bytes : Bytes) (fsyncFails : Prop) (l' : Log) : Prop
  | stays (dir : l'.wal.dir = l.wal.dir.write l.file bytes) (file : l'.file = l.file)
      (seq : l'.wal.currentSeq = l.wal.currentSeq)
  | halfway (failed : fsyncFails) (absent : l.wal.dir.contains (l.wal.currentSeq + 1) = false)
      (dir : l'.wal.dir = (l.wal.dir.write l.file bytes).create (l.wal.currentSeq + 1))
      (file : l'.file = l.wal.currentSeq + 1) (seq : l'.wal.currentSeq = l.wal.currentSeq)
  | rotates (absent : l.wal.dir.contains (l.wal.currentSeq + 1) = false)
      (dir : l'.wal.dir = (l.wal.dir.write l.file bytes).create (l.wal.currentSeq + 1))
      (file : l'.file = l.wal.currentSeq + 1) (seq : l'.wal.currentSeq = l.wal.currentSeq + 1)
  | reopens (dir : l'.wal.dir = (l.wal.dir.write l.file bytes).create l.wal.dir.nextSeq)
      (file : l'.file = l.wal.dir.nextSeq) (seq : l'.wal.currentSeq = l.wal.dir.nextSeq)

theorem rotate_cases (l : Log) (fault : Option RotateFault) :
    (l.rotate fault = (l, false) ∧ (fault = none → l.wal.dir.contains (l.wal.currentSeq + 1)) ∧
        (fault = some .fsync → l.wal.dir.contains (l.wal.currentSeq + 1))) ∨
      l.wal.dir.contains (l.wal.currentSeq + 1) = false ∧
        (fault = some .fsync ∧ l.rotate fault =
            ({ l with wal.dir := l.wal.dir.create (l.wal.currentSeq + 1)
                      file := l.wal.currentSeq + 1 }, false) ∨
          fault = none ∧ l.rotate fault =
            ({ l with wal.dir := l.wal.dir.create (l.wal.currentSeq + 1)
                      file := l.wal.currentSeq + 1
                      wal.currentSeq := l.wal.currentSeq + 1
                      wal.currentBytes := 0 }, true)) := by
  cases hhas : l.wal.dir.contains (l.wal.currentSeq + 1) with
  | true =>
    refine .inl ⟨?_, fun _ => rfl, fun _ => rfl⟩
    simp [rotate, hhas]
  | false =>
    match fault with
    | some .flush => exact .inl ⟨by simp [rotate], nofun, nofun⟩
    | some .create => exact .inl ⟨by simp [rotate], nofun, nofun⟩
    | some .fsync => exact .inr ⟨rfl, .inl ⟨rfl, by simp [rotate, hhas]⟩⟩
    | none => exact .inr ⟨rfl, .inr ⟨rfl, by simp [rotate, hhas]⟩⟩

theorem finishAppend_cases (crc32 : Bytes → UInt32) (l : Log) (payload : Bytes) (fault : Option RotateFault) :
    Effect l (frame crc32 payload)
        (fault = some .fsync ∧
          l.wal.maxSegmentBytes ≤ l.wal.currentBytes + (frameHeaderSize + payload.length) ∧
          l.wal.dir.contains (l.wal.currentSeq + 1) = false)
        (l.finishAppend crc32 payload fault) ∧
      ((l.finishAppend crc32 payload fault).accepted = l.accepted ++ [(l.wal.currentSeq, payload)] ∨
        (l.finishAppend crc32 payload fault).accepted = l.accepted ∧
          (fault = none → l.wal.dir.contains (l.wal.currentSeq + 1))) := by
  have hhas := Dir.contains_write l.wal.dir l.file (l.wal.currentSeq + 1) (frame crc32 payload)
  unfold finishAppend rotateIfFull
  by_cases hfull : (l.written crc32 payload).wal.maxSegmentBytes ≤
      (l.written crc32 payload).wal.currentBytes
  · rw [if_pos hfull]
    obtain ⟨hrot, hnone, -⟩ | ⟨habs, ⟨rfl, hrot⟩ | ⟨-, hrot⟩⟩ :=
      rotate_cases (l.written crc32 payload) fault
    · rw [hrot]
      exact ⟨.stays rfl rfl rfl, .inr ⟨rfl, fun h => hhas.symm.trans (hnone h)⟩⟩
    · rw [hrot]
      have habs' := hhas.symm.trans habs
      exact ⟨.halfway ⟨rfl, hfull, habs'⟩ habs' rfl rfl rfl, .inr ⟨rfl, nofun⟩⟩
    · rw [hrot]
      exact ⟨.rotates (hhas.symm.trans habs) rfl rfl rfl, .inl rfl⟩
  · rw [if_neg hfull]
    exact ⟨.stays rfl rfl rfl, .inl rfl⟩

theorem Effect.mono {bytes : Bytes} {p q : Prop} {l' : Log} (h : Effect l bytes p l') (hpq : p → q) :
    Effect l bytes q l' := by
  cases h with
  | stays dir file seq => exact .stays dir file seq
  | halfway failed absent dir file seq => exact .halfway (hpq failed) absent dir file seq
  | rotates absent dir file seq => exact .rotates absent dir file seq
  | reopens dir file seq => exact .reopens dir file seq

/-- A whole frame, or a part of one that was not accepted. -/
def Writes (crc32 : Bytes → UInt32) (l : Log) (bytes : Bytes) (l' : Log) (op : Op) : Prop :=
  (bytes = [] ∧ l'.accepted = l.accepted) ∨
    ∃ payload fault, op = .append payload fault ∧ payload.length ≤ maxReplayFrameBytes ∧
      ((bytes = frame crc32 payload ∧ l'.accepted = l.accepted ++ [(l.wal.currentSeq, payload)]) ∨
        (∃ k, bytes = (frame crc32 payload).take k) ∧ l'.accepted = l.accepted ∧
          (fault = none → l.wal.dir.contains (l.wal.currentSeq + 1)))

variable {payload : Bytes}

theorem writes_finishAppend {fault : Option RotateFault} {f : Option AppendFault}
    (hlen : payload.length ≤ maxReplayFrameBytes) (hf : f = none → fault = none) :
    Writes crc32 l (frame crc32 payload) (l.finishAppend crc32 payload fault) (.append payload f) := by
  refine .inr ⟨payload, f, rfl, hlen, ?_⟩
  obtain ⟨-, hacc | ⟨hacc, hnone⟩⟩ := finishAppend_cases crc32 l payload fault
  · exact .inl ⟨rfl, hacc⟩
  · exact .inr ⟨⟨_, (List.take_length).symm⟩, hacc, fun h => hnone (hf h)⟩

theorem apply_append (hlen : payload.length ≤ maxReplayFrameBytes)
    (fault : Option AppendFault) :
    l.apply crc32 (.append payload fault) = match fault with
      | some (.write bytes) => l.write ((frame crc32 payload).take bytes)
      | some (.rotate fault) => l.finishAppend crc32 payload (some fault)
      | none => l.finishAppend crc32 payload none :=
  if_neg (Nat.not_lt.mpr hlen)

theorem apply_cases (crc32 : Bytes → UInt32) (l : Log) (op : Op) :
    ∃ bytes, Effect l bytes (FsyncFails l op) (l.apply crc32 op) ∧
      Writes crc32 l bytes (l.apply crc32 op) op := by
  cases op with
  | reopen maxSegmentBytes =>
    refine ⟨[], .reopens ?_ rfl rfl, .inl ⟨rfl, rfl⟩⟩
    rw [Dir.write_nil]
    rfl
  | rotate fault =>
    refine ⟨[], ?_, ?_⟩
    · change Effect l [] _ (l.rotate fault).1
      obtain ⟨hrot, -⟩ | ⟨habs, ⟨hfault, hrot⟩ | ⟨-, hrot⟩⟩ := rotate_cases l fault
      · rw [hrot]
        exact .stays (Dir.write_nil ..).symm rfl rfl
      · rw [hrot]
        exact .halfway ⟨hfault, habs⟩ habs (by rw [Dir.write_nil]) rfl rfl
      · rw [hrot]
        exact .rotates habs (by rw [Dir.write_nil]) rfl rfl
    · left
      refine ⟨rfl, ?_⟩
      change (l.rotate fault).1.accepted = l.accepted
      obtain ⟨hrot, -⟩ | ⟨-, ⟨-, hrot⟩ | ⟨-, hrot⟩⟩ := rotate_cases l fault <;> rw [hrot]
  | append payload fault =>
    by_cases hlen : maxReplayFrameBytes < payload.length
    · have hsame : l.apply crc32 (.append payload fault) = l := if_pos hlen
      rw [hsame]
      exact ⟨[], .stays (Dir.write_nil ..).symm rfl rfl, .inl ⟨rfl, rfl⟩⟩
    · have hlen' := Nat.not_lt.mp hlen
      rw [apply_append hlen']
      match fault with
      | some (.write k) =>
        exact ⟨(frame crc32 payload).take k, .stays rfl rfl rfl,
          .inr ⟨payload, _, rfl, hlen', .inr ⟨⟨k, rfl⟩, rfl, nofun⟩⟩⟩
      | some (.rotate fault) =>
        refine ⟨frame crc32 payload, ?_, writes_finishAppend hlen' nofun⟩
        refine (finishAppend_cases crc32 l payload (some fault)).1.mono ?_
        rintro ⟨hfault, hrest⟩
        obtain rfl := some.inj hfault
        exact ⟨hlen', rfl, hrest⟩
      | none =>
        refine ⟨frame crc32 payload, ?_, writes_finishAppend hlen' fun _ => rfl⟩
        exact (finishAppend_cases crc32 l payload none).1.mono fun h => by cases h.1

end Log

/-! ## Failed rotations -/

namespace Log

/-- The writer is on the current segment, each accepted frame is where it was accepted for, and a rotation
without a fault returns `Ok`. -/
structure Consistent (crc32 : Bytes → UInt32) (l : Log) : Prop where
  file : l.file = l.wal.currentSeq
  accepted : ∀ e ∈ l.accepted, ∃ s, l.wal.dir.lookup e.1 = some s ∧ frame crc32 e.2 <:+: s.bytes
  rotates : (l.rotate none).2 = true

structure Newest (l : Log) : Prop where
  exists_file : l.wal.dir.contains l.file
  le_file : ∀ k, l.wal.dir.contains k → k ≤ l.file
  near : l.wal.currentSeq ≤ l.file ∧ l.file ≤ l.wal.currentSeq + 1

variable {crc32 : Bytes → UInt32} {l : Log} {op : Op}

theorem newest_opened (d : Dir) (maxSegmentBytes : Nat) (accepted : List (Nat × Bytes)) :
    Newest (opened d maxSegmentBytes accepted) := by
  refine ⟨(Dir.contains_create ..).mpr (.inr rfl), fun k hk => ?_, Nat.le_refl _, Nat.le_succ _⟩
  rcases (Dir.contains_create ..).mp hk with hk | rfl
  · obtain ⟨s, hs⟩ := isSome_iff_exists.mp hk
    exact Nat.le_of_lt (d.lt_nextSeq hs)
  · exact Nat.le_refl _

theorem Newest.file_of_absent (h : Newest l)
    (habs : l.wal.dir.contains (l.wal.currentSeq + 1) = false) : l.file = l.wal.currentSeq := by
  obtain ⟨hexists, -, _, _⟩ := h
  by_contra hne
  have hahead : l.file = l.wal.currentSeq + 1 := by omega
  rw [hahead, habs] at hexists
  cases hexists

theorem newest_apply (h : Newest l) : Newest (l.apply crc32 op) := by
  obtain ⟨bytes, heffect, -⟩ := apply_cases crc32 l op
  -- After a rotation, whole or half, the new segment is one above what was the newest.
  have hnew : ∀ l' : Log, l.wal.dir.contains (l.wal.currentSeq + 1) = false →
      l'.wal.dir = (l.wal.dir.write l.file bytes).create (l.wal.currentSeq + 1) →
      l'.file = l.wal.currentSeq + 1 →
      (l'.wal.currentSeq = l.wal.currentSeq ∨ l'.wal.currentSeq = l.wal.currentSeq + 1) →
      Newest l' := by
    intro l' habs hdir hfile _
    have hold := h.file_of_absent habs
    refine ⟨?_, fun k hk => ?_, by omega, by omega⟩
    · rw [hdir, hfile, Dir.contains_create]
      exact .inr rfl
    · rw [hdir, Dir.contains_create, Dir.contains_write] at hk
      rcases hk with hk | rfl
      · have := h.le_file k hk
        omega
      · omega
  cases heffect with
  | stays dir file seq =>
    refine ⟨?_, fun k hk => ?_, ?_⟩
    · rw [dir, file, Dir.contains_write]
      exact h.exists_file
    · rw [dir, Dir.contains_write] at hk
      rw [file]
      exact h.le_file k hk
    · rw [file, seq]
      exact h.near
  | halfway _ absent dir file seq => exact hnew _ absent dir file (.inl seq)
  | rotates absent dir file seq => exact hnew _ absent dir file (.inr seq)
  | reopens dir file seq =>
    refine ⟨?_, fun k hk => ?_, by omega, by omega⟩
    · rw [dir, file, Dir.contains_create]
      exact .inr rfl
    · rw [dir, Dir.contains_create, Dir.contains_write] at hk
      rw [file]
      rcases hk with hk | rfl
      · obtain ⟨s, hs⟩ := isSome_iff_exists.mp hk
        exact Nat.le_of_lt (l.wal.dir.lt_nextSeq hs)
      · exact Nat.le_refl _

theorem Newest.rotates (h : Newest l) (hfile : l.file = l.wal.currentSeq) :
    (l.rotate none).2 = true := by
  obtain ⟨-, hnone, -⟩ | ⟨-, ⟨hfault, -⟩ | ⟨-, hrot⟩⟩ := rotate_cases l none
  · have := h.le_file _ (hnone rfl)
    omega
  · cases hfault
  · rw [hrot]

theorem ahead_of_fsyncFails (crc32 : Bytes → UInt32) (h : FsyncFails l op) :
    (l.apply crc32 op).file = l.wal.currentSeq + 1 ∧
      (l.apply crc32 op).wal.currentSeq = l.wal.currentSeq := by
  have hrot : ∀ l : Log, l.wal.dir.contains (l.wal.currentSeq + 1) = false →
      l.rotate (some .fsync) = ({ l with wal.dir := l.wal.dir.create (l.wal.currentSeq + 1)
                                         file := l.wal.currentSeq + 1 }, false) := by
    intro l habs
    simp [rotate, habs]
  cases op with
  | reopen maxSegmentBytes => exact h.elim
  | rotate fault =>
    obtain ⟨rfl, habs⟩ := h
    change (l.rotate _).1.file = _ ∧ (l.rotate _).1.wal.currentSeq = _
    rw [hrot l habs]
    exact ⟨rfl, rfl⟩
  | append payload fault =>
    obtain ⟨hlen, rfl, hfull, habs⟩ := h
    have happ : l.apply crc32 (.append payload (some (.rotate .fsync))) =
        ((l.written crc32 payload).rotate (some .fsync)).1 := by
      have habs' : (l.written crc32 payload).wal.dir.contains (l.wal.currentSeq + 1) = false :=
        (Dir.contains_write ..).trans habs
      have hrotates : (l.written crc32 payload).rotateIfFull (some .fsync) =
          (l.written crc32 payload).rotate (some .fsync) := if_pos hfull
      rw [apply_append hlen]
      simp only [finishAppend, hrotates, hrot _ habs']
    rw [happ, hrot _ ((Dir.contains_write ..).trans habs)]
    exact ⟨rfl, rfl⟩

theorem file_apply (crc32 : Bytes → UInt32) (h : l.file = l.wal.currentSeq) (hfails : ¬ FsyncFails l op) :
    (l.apply crc32 op).file = (l.apply crc32 op).wal.currentSeq := by
  obtain ⟨bytes, heffect, -⟩ := apply_cases crc32 l op
  cases heffect with
  | stays dir file seq => rw [file, seq, h]
  | halfway failed absent dir file seq => exact absurd failed hfails
  | rotates absent dir file seq => rw [file, seq]
  | reopens dir file seq => rw [file, seq]

theorem accepted_kept {d d' : Dir} {file seq : Nat} {bytes : Bytes} {e : Nat × Bytes}
    (hdir : d' = d.write file bytes ∨ d' = (d.write file bytes).create seq)
    (h : ∃ s, d.lookup e.1 = some s ∧ frame crc32 e.2 <:+: s.bytes) :
    ∃ s, d'.lookup e.1 = some s ∧ frame crc32 e.2 <:+: s.bytes := by
  obtain ⟨s, hs, hin⟩ := h
  have hwrite : ∃ s', (d.write file bytes).lookup e.1 = some s' ∧ frame crc32 e.2 <:+: s'.bytes := by
    rw [Dir.lookup_write, hs, map_some]
    split
    · exact ⟨_, rfl, hin.trans (List.infix_append' [] s.bytes bytes)⟩
    · exact ⟨s, rfl, hin⟩
  rcases hdir with rfl | rfl
  · exact hwrite
  · obtain ⟨s', hs', hin'⟩ := hwrite
    exact ⟨s', by rw [Dir.lookup_create, hs', some_or], hin'⟩

theorem consistent_opened (d : Dir) (maxSegmentBytes : Nat) :
    Consistent crc32 (opened d maxSegmentBytes []) :=
  ⟨rfl, nofun, (newest_opened d maxSegmentBytes []).rotates rfl⟩

theorem consistent_apply_iff (hnew : Newest l) (h : Consistent crc32 l) :
    Consistent crc32 (l.apply crc32 op) ↔ ¬ FsyncFails l op := by
  constructor
  · intro h' hfails
    obtain ⟨hfile, _⟩ := ahead_of_fsyncFails crc32 hfails
    have := h'.file
    omega
  · intro hfails
    obtain ⟨bytes, heffect, hwrites⟩ := apply_cases crc32 l op
    have hfile := file_apply crc32 h.file hfails
    obtain ⟨seq, hdir⟩ : ∃ seq, (l.apply crc32 op).wal.dir = l.wal.dir.write l.file bytes ∨
        (l.apply crc32 op).wal.dir = (l.wal.dir.write l.file bytes).create seq := by
      cases heffect with
      | stays dir file seq => exact ⟨0, .inl dir⟩
      | halfway failed absent dir file seq => exact ⟨_, .inr dir⟩
      | rotates absent dir file seq => exact ⟨_, .inr dir⟩
      | reopens dir file seq => exact ⟨_, .inr dir⟩
    have hold : ∀ e ∈ l.accepted, ∃ s, (l.apply crc32 op).wal.dir.lookup e.1 = some s ∧
        frame crc32 e.2 <:+: s.bytes := fun e he => accepted_kept hdir (h.accepted e he)
    refine ⟨hfile, ?_, (newest_apply hnew).rotates hfile⟩
    rcases hwrites with ⟨-, hacc⟩ | ⟨payload, -, -, -, ⟨rfl, hacc⟩ | ⟨-, hacc, -⟩⟩
    · rw [hacc]
      exact hold
    · rw [hacc]
      intro e he
      rcases List.mem_append.mp he with he | he
      · exact hold e he
      · -- The frame was just written to the writer's file, which is the current segment.
        obtain rfl := List.mem_singleton.mp he
        obtain ⟨s, hs⟩ := isSome_iff_exists.mp hnew.exists_file
        have hwritten : (l.wal.dir.write l.file (frame crc32 payload)).lookup l.wal.currentSeq =
            some { s with bytes := s.bytes ++ frame crc32 payload } := by
          rw [← h.file, Dir.lookup_write, hs, map_some, if_pos (Table.key_of_lookup hs)]
        refine ⟨{ s with bytes := s.bytes ++ frame crc32 payload }, ?_,
          (List.suffix_append s.bytes (frame crc32 payload)).isInfix⟩
        rcases hdir with hdir | hdir
        · rw [hdir, hwritten]
        · rw [hdir, Dir.lookup_create, hwritten, some_or]
    · rw [hacc]
      exact hold

end Log

end Scry.Wal
