import Scry.Lib.Table
import Scry.Wal.Frame
import Mathlib.Data.List.Sort

/-! # WAL segments

Writes and fsyncs succeed here: a `BufWriter` hands its bytes to the file as soon as `append` has them.
-/

open Scry.Lib

namespace Scry

open Table

namespace Wal

structure Segment where
  seq : Nat
  bytes : Bytes
  deriving DecidableEq

abbrev Dir := Table Nat Segment Segment.seq

namespace Dir

variable (d : Dir) (seq : Nat)

/-- `OpenOptions::create_new` -/
def create : Dir := d.insertIgnore ⟨seq, []⟩

def write (bytes : Bytes) : Dir :=
  d.updateWhere (fun s => s.seq = seq) (fun s => { s with bytes := s.bytes ++ bytes }) fun _ => rfl

def unlink : Dir := d.deleteWhere fun s => s.seq = seq

/-- `max_seq.map_or(0, |m| m + 1)` -/
def nextSeq : Nat := d.rows.foldl (fun n s => max n (s.seq + 1)) 0

end Dir

inductive WalError where
  | payloadTooLong
  | createSegment (seq : Nat)
  | releaseActive (upTo current : Nat)
  deriving DecidableEq

inductive ReplayError where
  | oversized (seq len : Nat)
  deriving DecidableEq

end Wal

structure Wal where
  dir : Wal.Dir
  currentSeq : Nat
  currentBytes : Nat
  maxSegmentBytes : Nat

namespace Wal

variable (crc32 : Bytes → UInt32) (w : Wal) (d : Dir) (payload : Bytes) (seq : Nat)

/-- `Wal::open`: a fresh segment above every segment on disk. -/
def openWal (maxSegmentBytes : Nat) : Wal where
  dir := d.create d.nextSeq
  currentSeq := d.nextSeq
  currentBytes := 0
  maxSegmentBytes := maxSegmentBytes

/-- Seals the current segment. Returns its number with the new state. -/
def rotate : Except WalError (Wal × Nat) :=
  let next := w.currentSeq + 1
  if w.dir.contains next then .error (.createSegment next)
  else .ok ({ w with dir := w.dir.create next, currentSeq := next, currentBytes := 0 }, w.currentSeq)

/-- The two `write_all` calls of `append`. -/
def writeFrame : Wal :=
  { w with
    dir := w.dir.write w.currentSeq (frame crc32 payload)
    currentBytes := w.currentBytes + (frameHeaderSize + payload.length) }

/-- The end of `append`: the segment may pass its cap by one frame. -/
def rotateIfFull : Except WalError Wal :=
  if w.maxSegmentBytes ≤ w.currentBytes then w.rotate.map Prod.fst else .ok w

def append : Except WalError Wal :=
  if maxReplayFrameBytes < payload.length then .error .payloadTooLong
  else (w.writeFrame crc32 payload).rotateIfFull

def prepareRelease (upTo : Nat) : Except WalError Unit :=
  if w.currentSeq ≤ upTo then .error (.releaseActive upTo w.currentSeq) else .ok ()

/-- `Wal::release_segments`, run to its end. -/
def releaseSegments (lo hi : Nat) : Dir :=
  d.deleteWhere fun s => lo ≤ s.seq ∧ s.seq ≤ hi

def replaySegments : List Segment :=
  (w.dir.rows.filter fun s => s.seq < w.currentSeq).insertionSort fun a b => a.seq ≤ b.seq

/-- Nothing follows an error: the caller stops there. -/
def replayItems (crc32 : Bytes → UInt32) : List Segment → List (Except ReplayError Bytes)
  | [] => []
  | seg :: rest =>
    let (payloads, left) := scan crc32 seg.bytes
    match readFrame crc32 left with
    | .oversized len => payloads.map .ok ++ [.error (.oversized seg.seq len)]
    | _ => payloads.map .ok ++ replayItems crc32 rest

def replay : List (Except ReplayError Bytes) :=
  replayItems crc32 w.replaySegments

/-! ## What a directory holds -/

/-- The frame of `payload` can be read back from segment `seq`. -/
def Dir.Holds (payload : Bytes) : Prop :=
  ∃ s, d.lookup seq = some s ∧ payload ∈ (scan crc32 s.bytes).1

/-- Segment `seq` exists and ends on a frame boundary. -/
def Dir.Clean : Prop :=
  ∃ s, d.lookup seq = some s ∧ (scan crc32 s.bytes).2 = []

section
variable (crc32 : Bytes → UInt32) (d : Dir)

theorem Dir.lookup_create (seq k : Nat) :
    (d.create seq).lookup k = (d.lookup k).or (if seq = k then some ⟨seq, []⟩ else none) := by
  rw [Dir.create, lookup_insertIgnore]

theorem Dir.lookup_write (seq k : Nat) (bytes : Bytes) :
    (d.write seq bytes).lookup k =
      (d.lookup k).map fun s => if s.seq = seq then { s with bytes := s.bytes ++ bytes } else s := by
  rw [Dir.write, lookup_updateWhere]
  simp only [decide_eq_true_eq]

theorem Dir.lookup_unlink (seq k : Nat) :
    (d.unlink seq).lookup k = if k = seq then none else d.lookup k := by
  rw [Dir.unlink, lookup_deleteWhere]
  cases h : d.lookup k with
  | none => simp
  | some s =>
    have hk := key_of_lookup h
    subst hk
    by_cases hs : s.seq = seq <;> simp [hs]

variable {p : Bytes} {seq : Nat}

theorem Dir.Holds.create (h : d.Holds crc32 seq p) (k : Nat) :
    (d.create k).Holds crc32 seq p := by
  obtain ⟨s, hs, hp⟩ := h
  exact ⟨s, by rw [Dir.lookup_create, hs, Option.some_or], hp⟩

theorem Dir.Holds.unlink {seq k : Nat} (h : d.Holds crc32 seq p) (hk : seq ≠ k) :
    (d.unlink k).Holds crc32 seq p := by
  obtain ⟨s, hs, hp⟩ := h
  exact ⟨s, by rw [Dir.lookup_unlink, if_neg hk, hs], hp⟩

theorem Dir.Holds.write {seq k : Nat} (h : d.Holds crc32 seq p)
    (hk : d.Clean crc32 k) (bytes : Bytes) : (d.write k bytes).Holds crc32 seq p := by
  obtain ⟨s, hs, hp⟩ := h
  obtain ⟨c, hc, hclean⟩ := hk
  have hseq := key_of_lookup hs
  by_cases hsk : seq = k
  · subst hsk
    rw [hs] at hc
    cases hc
    refine ⟨{ s with bytes := s.bytes ++ bytes }, ?_, ?_⟩
    · rw [Dir.lookup_write, hs, Option.map_some, if_pos hseq]
    · simp only [scan_append crc32 s.bytes bytes hclean]
      exact List.mem_append_left _ hp
  · refine ⟨s, ?_, hp⟩
    rw [Dir.lookup_write, hs, Option.map_some, if_neg (by rw [hseq]; exact hsk)]

theorem Dir.holds_write_frame (h : d.Clean crc32 seq)
    (hp : p.length ≤ maxReplayFrameBytes) : (d.write seq (frame crc32 p)).Holds crc32 seq p := by
  obtain ⟨s, hs, hclean⟩ := h
  refine ⟨{ s with bytes := s.bytes ++ frame crc32 p }, ?_, ?_⟩
  · rw [Dir.lookup_write, hs, Option.map_some, if_pos (key_of_lookup hs)]
  · simp only [scan_append crc32 s.bytes _ hclean, scan_frame crc32 p hp]
    exact List.mem_append_right _ List.mem_cons_self

theorem Dir.clean_write_frame (h : d.Clean crc32 seq)
    (hp : p.length ≤ maxReplayFrameBytes) : (d.write seq (frame crc32 p)).Clean crc32 seq := by
  obtain ⟨s, hs, hclean⟩ := h
  refine ⟨{ s with bytes := s.bytes ++ frame crc32 p }, ?_, ?_⟩
  · rw [Dir.lookup_write, hs, Option.map_some, if_pos (key_of_lookup hs)]
  · simp only [scan_append crc32 s.bytes _ hclean, scan_frame crc32 p hp]

theorem Dir.clean_create (h : d.lookup seq = none) : (d.create seq).Clean crc32 seq := by
  refine ⟨⟨seq, []⟩, ?_, ?_⟩
  · rw [Dir.lookup_create, h, if_pos rfl, Option.none_or]
  · rw [scan_of_not_frame crc32 [] (by simp)]

end

theorem le_foldl_max (l : List Segment) (n : Nat) : n ≤ l.foldl (fun n s => max n (s.seq + 1)) n ∧ ∀ s ∈ l, s.seq <
    l.foldl (fun n s => max n (s.seq + 1)) n := by
  induction l generalizing n with
  | nil => simp
  | cons x l ih =>
    obtain ⟨h1, h2⟩ := ih (max n (x.seq + 1))
    rw [List.foldl_cons]
    refine ⟨by omega, ?_⟩
    intro s hs
    rcases List.mem_cons.mp hs with rfl | hs
    · omega
    · exact h2 s hs

theorem Dir.lt_nextSeq (d : Dir) {seq : Nat} {s : Segment} (h : d.lookup seq = some s) : seq < d.nextSeq := by
  rw [← key_of_lookup h]
  exact (le_foldl_max d.rows 0).2 s (mem_of_lookup h)

theorem Dir.lookup_nextSeq (d : Dir) : d.lookup d.nextSeq = none := by
  cases h : d.lookup d.nextSeq with
  | none => rfl
  | some s => exact absurd (d.lt_nextSeq h) (Nat.lt_irrefl _)

/-! ## Rotation -/

def rotated (w : Wal) : Wal :=
  { w with dir := w.dir.create (w.currentSeq + 1), currentSeq := w.currentSeq + 1, currentBytes := 0 }

theorem rotate_ok {w w' : Wal} {seg : Nat} (h : w.rotate = .ok (w', seg)) :
    w.dir.lookup (w.currentSeq + 1) = none ∧ seg = w.currentSeq ∧ w' = rotated w := by
  unfold Wal.rotate at h
  simp only at h
  split at h
  · cases h
  · rename_i hc
    cases h
    refine ⟨?_, rfl, rfl⟩
    simpa [contains] using hc

theorem rotateIfFull_ok {w w' : Wal} (h : w.rotateIfFull = .ok w') :
    w' = w ∨ (w.dir.lookup (w.currentSeq + 1) = none ∧ w' = rotated w) := by
  unfold Wal.rotateIfFull at h
  split at h
  · cases hr : w.rotate with
    | error e => rw [hr] at h; cases h
    | ok x =>
      rw [hr] at h
      obtain ⟨hnone, -, hw⟩ := rotate_ok hr
      cases h
      exact .inr ⟨hnone, hw⟩
  · cases h
    exact .inl rfl

end Wal

end Scry
