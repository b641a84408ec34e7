import Scry.Wal.Log

/-! # What a replay finds

`replay` yields frames up to a torn tail in each segment.
-/

open Scry.Lib

namespace Scry.Wal

open List

/-! ## Directories in order -/

variable {d : Dir} {seq : Nat}

theorem Dir.rows_create (h : d.contains seq = false) :
    (d.create seq).rows = d.rows ++ [⟨seq, []⟩] := by
  have hnone : d.lookup seq = none := by simpa [Table.contains] using h
  unfold Dir.create Table.insertIgnore
  split
  next s hs =>
    rw [show Segment.seq ⟨seq, []⟩ = seq from rfl, hnone] at hs
    cases hs
  next => rfl

variable {bytes : Bytes} {init : List Segment}

section

variable (h : d.rows = init ++ [⟨seq, bytes⟩]) (hlt : ∀ s ∈ init, s.seq < seq)
include h hlt

theorem Dir.rows_update_last (f : Bytes → Bytes) :
    (d.updateWhere (fun s => s.seq = seq) (fun s => { s with bytes := f s.bytes })
      fun _ => rfl).rows = init ++ [⟨seq, f bytes⟩] := by
  have hinit : init.map (fun s : Segment => if decide (s.seq = seq) then
      { s with bytes := f s.bytes } else s) = init := by
    refine (map_congr_left fun s hs => ?_).trans (map_id init)
    exact if_neg (by simpa using Nat.ne_of_lt (hlt s hs))
  simp only [Table.updateWhere, h, map_append, hinit, map_singleton, decide_true, if_true]

theorem Dir.nextSeq_last : d.nextSeq = seq + 1 := by
  have hle : ∀ (l : List Segment) (n : Nat), n ≤ seq + 1 → (∀ s ∈ l, s.seq < seq) →
      l.foldl (fun n s => max n (s.seq + 1)) n ≤ seq + 1 := by
    intro l
    induction l with
    | nil => exact fun n hn _ => hn
    | cons x l ih =>
      intro n hn hl
      have hx := hl x mem_cons_self
      exact ih _ (Nat.max_le.mpr ⟨hn, by omega⟩) fun s hs => hl s (mem_cons_of_mem _ hs)
  rw [Dir.nextSeq, h, foldl_append]
  exact Nat.max_eq_right (hle init 0 (Nat.zero_le _) hlt)

end

structure Log.Shape (l : Log) (init : List Segment) (bytes : Bytes) : Prop where
  rows : l.wal.dir.rows = init ++ [⟨l.file, bytes⟩]
  sorted : (init.map Segment.seq).Pairwise (· < ·)
  below : ∀ s ∈ init, s.seq < l.file
  newest : l.Newest

namespace Log

variable {crc32 : Bytes → UInt32} {l l' : Log} {op : Op} {init : List Segment} {bytes : Bytes}

theorem shape_opened_empty (maxSegmentBytes : Nat) : Shape (opened .empty maxSegmentBytes []) [] [] :=
  ⟨rfl, .nil, nofun, newest_opened ..⟩

theorem Shape.apply (crc32 : Bytes → UInt32) (h : Shape l init bytes) (op : Op) : ∃ more, Writes crc32 l more
    (l.apply crc32 op) op ∧ ((Shape (l.apply crc32 op) init (bytes ++ more) ∧ (l.apply crc32 op).file = l.file) ∨
    Shape (l.apply crc32 op) (init ++ [⟨l.file, bytes ++ more⟩]) []) := by
  obtain ⟨more, heffect, hwrites⟩ := apply_cases crc32 l op
  have hnewest : Newest (l.apply crc32 op) := newest_apply h.newest
  have hrows : (l.wal.dir.write l.file more).rows = init ++ [⟨l.file, bytes ++ more⟩] :=
    Dir.rows_update_last h.rows h.below (· ++ more)
  refine ⟨more, hwrites, ?_⟩
  -- A new segment is numbered above the writer's.
  have hnew : ∀ seq, l.file < seq → l.wal.dir.contains seq = false →
      (l.apply crc32 op).wal.dir = (l.wal.dir.write l.file more).create seq →
      (l.apply crc32 op).file = seq →
      Shape (l.apply crc32 op) (init ++ [⟨l.file, bytes ++ more⟩]) [] := by
    intro seq hlt habs hdir hfile
    refine ⟨?_, ?_, ?_, hnewest⟩
    · rw [hdir, hfile, Dir.rows_create (by rw [Dir.contains_write, habs]), hrows]
    · rw [map_append]
      exact pairwise_snoc h.sorted (forall_mem_map.mpr h.below)
    · rw [hfile]
      exact forall_mem_snoc (fun s hs => (h.below s hs).trans hlt) hlt
  cases heffect with
  | stays dir file seq =>
    left
    refine ⟨⟨?_, h.sorted, ?_, hnewest⟩, file⟩
    · rw [dir, file, hrows]
    · rw [file]
      exact h.below
  | halfway _ absent dir file seq =>
    have := h.newest.file_of_absent absent
    exact .inr (hnew _ (by omega) absent dir file)
  | rotates absent dir file seq =>
    have := h.newest.file_of_absent absent
    exact .inr (hnew _ (by omega) absent dir file)
  | reopens dir file seq =>
    have hnext := Dir.nextSeq_last h.rows h.below
    refine .inr (hnew _ (by omega) ?_ dir file)
    rw [Table.contains, Dir.lookup_nextSeq, Option.isSome_none]

end Log

/-! ## Replays -/

section
variable (crc32 : Bytes → UInt32)

/-- The bytes from the first read on that is no frame are passed over. -/
def Skipped (f : Bytes) : Prop := ∀ len, readFrame crc32 (scan crc32 f).2 ≠ .oversized len

theorem replayItems_of_skipped {segs : List Segment} (h : ∀ s ∈ segs, Skipped crc32 s.bytes) :
    replayItems crc32 segs = (segs.flatMap fun s => (scan crc32 s.bytes).1).map .ok := by
  induction segs with
  | nil => rfl
  | cons s segs ih =>
    have hs := h s mem_cons_self
    rw [replayItems, ih fun s' hs' => h s' (mem_cons_of_mem _ hs'), flatMap_cons, map_append]
    dsimp only
    split
    next len hlen => exact absurd hlen (hs len)
    next => rfl

theorem replaySegments_openWal_sort (d : Dir) (maxSegmentBytes : Nat) :
    (openWal d maxSegmentBytes).replaySegments = d.rows.insertionSort fun a b => a.seq ≤ b.seq := by
  have hrows : (openWal d maxSegmentBytes).dir.rows = d.rows ++ [⟨d.nextSeq, []⟩] :=
    Dir.rows_create (by rw [Table.contains, Dir.lookup_nextSeq, Option.isSome_none])
  have hold : d.rows.filter (fun s => decide (s.seq < d.nextSeq)) = d.rows := by
    refine filter_eq_self.mpr fun s hs => ?_
    exact decide_eq_true (d.lt_nextSeq (Table.lookup_of_mem hs))
  have hfilter : ((openWal d maxSegmentBytes).dir.rows.filter
      fun s => s.seq < (openWal d maxSegmentBytes).currentSeq) = d.rows := by
    rw [hrows, filter_append]
    change d.rows.filter (fun s => decide (s.seq < d.nextSeq)) ++ _ = _
    rw [hold]
    simp [openWal]
  rw [replaySegments, hfilter]

theorem replaySegments_openWal {d : Dir} {maxSegmentBytes : Nat} (hsort : (d.rows.map Segment.seq).Pairwise (· < ·))
    : (openWal d maxSegmentBytes).replaySegments = d.rows := by
  rw [replaySegments_openWal_sort]
  exact ((pairwise_map.mp hsort).imp fun h => Nat.le_of_lt h).insertionSort_eq

theorem orderedInsert_snoc {s a : Segment} (l : List Segment) (h : s.seq ≤ a.seq) : (l ++ [a]).orderedInsert
    (fun x y => x.seq ≤ y.seq) s = l.orderedInsert (fun x y => x.seq ≤ y.seq) s ++ [a] := by
  induction l with
  | nil => simp [h]
  | cons x l ih =>
    rw [cons_append, orderedInsert_cons, orderedInsert_cons, ih]
    split <;> rfl

theorem insertionSort_snoc {a : Segment} {l : List Segment} (h : ∀ s ∈ l, s.seq ≤ a.seq) : (l ++ [a]).insertionSort
    (fun x y => x.seq ≤ y.seq) = l.insertionSort (fun x y => x.seq ≤ y.seq) ++ [a] := by
  induction l with
  | nil => rfl
  | cons x l ih =>
    rw [cons_append, insertionSort_cons, insertionSort_cons, ih fun s hs => h s (mem_cons_of_mem _ hs)]
    exact orderedInsert_snoc _ (h x mem_cons_self)

theorem replayItems_snoc_empty (segs : List Segment) (seq : Nat) :
    replayItems crc32 (segs ++ [⟨seq, []⟩]) = replayItems crc32 segs := by
  induction segs with
  | nil =>
    have hscan : scan crc32 [] = ([], []) := scan_of_not_frame crc32 [] (by simp)
    simp [replayItems, hscan]
  | cons s segs ih =>
    rw [cons_append, replayItems, replayItems, ih]

theorem replay_reopen (d : Dir) (m m' : Nat) :
    replay crc32 (openWal (openWal d m).dir m') = replay crc32 (openWal d m) := by
  have hrows : (openWal d m).dir.rows = d.rows ++ [⟨d.nextSeq, []⟩] :=
    Dir.rows_create (by rw [Table.contains, Dir.lookup_nextSeq, Option.isSome_none])
  have hbelow : ∀ s ∈ d.rows, s.seq ≤ d.nextSeq :=
    fun s hs => Nat.le_of_lt (d.lt_nextSeq (Table.lookup_of_mem hs))
  rw [replay, replay, replaySegments_openWal_sort, replaySegments_openWal_sort, hrows,
    insertionSort_snoc hbelow, replayItems_snoc_empty]

variable {crc32} {init : List Segment} {seq : Nat} {bytes : Bytes}

theorem replay_openWal {d : Dir} (hrows : d.rows = init ++ [⟨seq, bytes⟩])
    (hsort : (init.map Segment.seq).Pairwise (· < ·)) (hbelow : ∀ s ∈ init, s.seq < seq)
    (hinit : ∀ s ∈ init, Skipped crc32 s.bytes) (hlast : Skipped crc32 bytes) (maxSegmentBytes : Nat) : replay crc32
    (openWal d maxSegmentBytes) = ((init.flatMap fun s => (scan crc32 s.bytes).1) ++ (scan crc32 bytes).1).map
    .ok := by
  have hpairwise : (d.rows.map Segment.seq).Pairwise (· < ·) := by
    rw [hrows, map_append]
    exact pairwise_snoc hsort (forall_mem_map.mpr hbelow)
  rw [replay, replaySegments_openWal hpairwise, replayItems_of_skipped, hrows, flatMap_append, flatMap_singleton]
  rw [hrows]
  exact forall_mem_snoc hinit hlast

theorem scan_take_frame (crc32 : Bytes → UInt32) {payload : Bytes} (h : payload.length ≤ maxReplayFrameBytes) (k : Nat) :
    Skipped crc32 ((frame crc32 payload).take k) ∧
      (scan crc32 ((frame crc32 payload).take k)).1 =
        if (frame crc32 payload).length ≤ k then [payload] else [] := by
  by_cases hk : (frame crc32 payload).length ≤ k
  · rw [take_of_length_le hk, if_pos hk, Skipped, scan_frame crc32 payload h]
    exact ⟨fun len => by simp, rfl⟩
  · have hcut := readFrame_cut crc32 payload k h (Nat.lt_of_not_le hk)
    have hscan : scan crc32 ((frame crc32 payload).take k) =
        ([], (frame crc32 payload).take k) := by
      refine scan_of_not_frame crc32 _ fun p rest hread => ?_
      rw [hread] at hcut
      simp at hcut
    rw [Skipped, hscan, if_neg hk]
    refine ⟨fun len hread => ?_, rfl⟩
    rw [hread] at hcut
    simp at hcut

end

/-! ## Failed appends -/

namespace Log

variable {crc32 : Bytes → UInt32} {l l' : Log} {op : Op} {init : List Segment} {bytes : Bytes}

def AtBoundary (crc32 : Bytes → UInt32) (l : Log) : Op → Prop
  | .append _ _ => l.wal.dir.Clean crc32 l.file
  | _ => True

instance (crc32 : Bytes → UInt32) (d : Dir) (seq : Nat) : Decidable (d.Clean crc32 seq) :=
  decidable_of_iff ((d.lookup seq).any fun s => (scan crc32 s.bytes).2 = []) (by
    rw [Option.any_eq_true]
    simp only [Dir.Clean, decide_eq_true_eq])

instance (crc32 : Bytes → UInt32) (l : Log) : (op : Op) → Decidable (AtBoundary crc32 l op)
  | .append _ _ => inferInstanceAs (Decidable (l.wal.dir.Clean crc32 l.file))
  | .rotate _ => inferInstanceAs (Decidable True)
  | .reopen _ => inferInstanceAs (Decidable True)

/-- What was accepted is read back from the segments, in order. -/
structure Kept (crc32 : Bytes → UInt32) (l : Log) (init : List Segment) (bytes : Bytes) : Prop where
  shape : Shape l init bytes
  skipped : (∀ s ∈ init, Skipped crc32 s.bytes) ∧ Skipped crc32 bytes
  accepted : (l.accepted.map Prod.snd).Sublist
    ((init.flatMap fun s => (scan crc32 s.bytes).1) ++ (scan crc32 bytes).1)

theorem skipped_nil : Skipped crc32 [] := by
  rw [Skipped, scan_of_not_frame crc32 [] (by simp)]
  exact fun len => by simp

theorem scan_nil : scan crc32 [] = ([], []) := scan_of_not_frame crc32 [] (by simp)

theorem Shape.clean (h : Shape l init bytes) (hclean : l.wal.dir.Clean crc32 l.file) : (scan crc32 bytes).2 = [] := by
  obtain ⟨s, hs, hs'⟩ := hclean
  have hmem : (⟨l.file, bytes⟩ : Segment) ∈ l.wal.dir.rows := by
    rw [h.rows]
    exact mem_append_right _ mem_cons_self
  rw [show l.wal.dir.lookup l.file = some ⟨l.file, bytes⟩ from Table.lookup_of_mem hmem] at hs
  obtain rfl := Option.some.inj hs
  exact hs'

theorem Kept.write (h : Kept crc32 l init bytes) {more : Bytes} (hwrites : Writes crc32 l more l' op)
    (hc : AtBoundary crc32 l op) : Skipped crc32 (bytes ++ more) ∧ (l'.accepted.map Prod.snd).Sublist
    ((init.flatMap fun s => (scan crc32 s.bytes).1) ++ (scan crc32 (bytes ++ more)).1) := by
  rcases hwrites with ⟨rfl, hacc⟩ | ⟨payload, fault, rfl, hlen, hwhole⟩
  · rw [append_nil, hacc]
    exact ⟨h.skipped.2, h.accepted⟩
  · have hscan := fun more => scan_append crc32 bytes more (h.shape.clean hc)
    rcases hwhole with ⟨rfl, hacc⟩ | ⟨⟨k, rfl⟩, hacc, -⟩
    · refine ⟨?_, ?_⟩
      · rw [Skipped, hscan, scan_frame crc32 payload hlen]
        exact fun len => by simp
      · rw [hscan, scan_frame crc32 payload hlen, hacc, map_append, ← append_assoc]
        exact h.accepted.append (List.Sublist.refl _)
    · refine ⟨?_, ?_⟩
      · rw [Skipped, hscan]
        exact (scan_take_frame crc32 hlen k).1
      · rw [hscan, hacc, ← append_assoc]
        exact h.accepted.trans (sublist_append_left _ _)

theorem Kept.apply (h : Kept crc32 l init bytes) (hc : AtBoundary crc32 l op) :
    ∃ init' bytes', Kept crc32 (l.apply crc32 op) init' bytes' := by
  obtain ⟨more, hwrites, ⟨hshape, -⟩ | hshape⟩ := h.shape.apply crc32 op
  · obtain ⟨hskip, hacc⟩ := h.write hwrites hc
    exact ⟨init, bytes ++ more, hshape, ⟨h.skipped.1, hskip⟩, hacc⟩
  · obtain ⟨hskip, hacc⟩ := h.write hwrites hc
    refine ⟨init ++ [⟨l.file, bytes ++ more⟩], [], hshape, ⟨forall_mem_snoc h.skipped.1 hskip, skipped_nil⟩, ?_⟩
    rw [flatMap_append, flatMap_singleton, scan_nil, append_nil]
    exact hacc

def rotatedAfterFault : List Op := [.append [1] (some (.write 4)), .rotate none, .append [2] none]

end Log

/-! ## Truncated logs -/

inductive Call
  | append (payload : Bytes)
  | rotate
  | reopen (maxSegmentBytes : Nat)
  deriving DecidableEq

def Call.op : Call → Op
  | .append payload => .append payload none
  | .rotate => .rotate none
  | .reopen maxSegmentBytes => .reopen maxSegmentBytes

/-- `ftruncate` -/
def Dir.truncate (d : Dir) (seq length : Nat) : Dir :=
  d.updateWhere (fun s => s.seq = seq) (fun s => { s with bytes := s.bytes.take length }) fun _ => rfl

def frames (crc32 : Bytes → UInt32) (payloads : List Bytes) : Bytes := payloads.flatMap (frame crc32)

/-- Each with the offset at which its frame ends. -/
def frameEnds : Nat → List Bytes → List (Nat × Bytes)
  | _, [] => []
  | start, payload :: rest =>
    (start + (frameHeaderSize + payload.length), payload) ::
      frameEnds (start + (frameHeaderSize + payload.length)) rest

theorem lt_of_mem_frameEnds {start : Nat} {payloads : List Bytes} {e : Nat × Bytes}
    (h : e ∈ frameEnds start payloads) : start < e.1 := by
  induction payloads generalizing start with
  | nil => cases h
  | cons payload rest ih =>
    rw [frameEnds, frameHeaderSize] at h
    rcases mem_cons.mp h with rfl | h
    · simp only
      omega
    · have := ih h
      omega

section
variable {crc32 : Bytes → UInt32} {payloads : List Bytes}

theorem scan_frames (h : ∀ p ∈ payloads, p.length ≤ maxReplayFrameBytes) :
    scan crc32 (frames crc32 payloads) = (payloads, []) := by
  induction payloads with
  | nil => exact Log.scan_nil
  | cons payload rest ih =>
    have hone := scan_frame crc32 payload (h payload mem_cons_self)
    rw [frames, flatMap_cons, scan_append crc32 _ _ (by rw [hone]), hone, ← frames,
      ih fun p hp => h p (mem_cons_of_mem _ hp)]
    rfl

theorem scan_take_frames (crc32 : Bytes → UInt32)
    (h : ∀ p ∈ payloads, p.length ≤ maxReplayFrameBytes) (start k : Nat) : Skipped crc32
    ((frames crc32 payloads).take k) ∧ (scan crc32 ((frames crc32 payloads).take k)).1 =
    ((frameEnds start payloads).filter fun e => e.1 ≤ start + k).map Prod.snd := by
  induction payloads generalizing start k with
  | nil => exact ⟨by rw [frames, flatMap_nil, take_nil]; exact Log.skipped_nil, by
      rw [frames, flatMap_nil, take_nil, Log.scan_nil]; rfl⟩
  | cons payload rest ih =>
    have hpay := h payload mem_cons_self
    have hlen : (frame crc32 payload).length = frameHeaderSize + payload.length :=
      frame_length crc32 payload
    by_cases hk : (frame crc32 payload).length ≤ k
    · -- The first frame is whole: what follows it is cut that much earlier.
      obtain ⟨hskip, hscan⟩ := ih (fun p hp => h p (mem_cons_of_mem _ hp))
        (start + (frameHeaderSize + payload.length)) (k - (frame crc32 payload).length)
      have htake : (frames crc32 (payload :: rest)).take k =
          frame crc32 payload ++ (frames crc32 rest).take (k - (frame crc32 payload).length) := by
        rw [frames, flatMap_cons, take_append, take_of_length_le hk]
        rfl
      have hone := scan_frame crc32 payload hpay
      have hsum : start + (frameHeaderSize + payload.length) + (k - (frame crc32 payload).length) =
          start + k := by omega
      rw [Skipped, htake, scan_append crc32 _ _ (by rw [hone]), hone, frameEnds,
        filter_cons_of_pos (by simp only [decide_eq_true_eq]; omega), map_cons]
      refine ⟨hskip, ?_⟩
      rw [hscan, hsum]
      rfl
    · have htake : (frames crc32 (payload :: rest)).take k = (frame crc32 payload).take k := by
        rw [frames, flatMap_cons, take_append_of_le_length (by omega)]
      have hnone : (frameEnds start (payload :: rest)).filter (fun e => e.1 ≤ start + k) = [] := by
        refine filter_eq_nil_iff.mpr fun e he => ?_
        rw [frameEnds] at he
        rcases mem_cons.mp he with rfl | he
        · simp only [decide_eq_true_eq]
          omega
        · have := lt_of_mem_frameEnds he
          simp only [decide_eq_true_eq]
          omega
      obtain ⟨hskip, hscan⟩ := scan_take_frame crc32 hpay k
      rw [htake, hnone, hscan, if_neg hk]
      exact ⟨hskip, rfl⟩

end

namespace Log

variable {crc32 : Bytes → UInt32} {l : Log} {content : List (Nat × List Bytes)}
  {payloads : List Bytes}

/-- Each segment is the frames of the payloads accepted for it. -/
structure Holding (crc32 : Bytes → UInt32) (l : Log) (content : List (Nat × List Bytes))
    (payloads : List Bytes) : Prop where
  shape : Shape l (content.map fun c => ⟨c.1, frames crc32 c.2⟩) (frames crc32 payloads)
  file : l.file = l.wal.currentSeq
  accepted : l.accepted =
    (content.flatMap fun c => c.2.map (c.1, ·)) ++ payloads.map (l.wal.currentSeq, ·)
  small : (∀ c ∈ content, ∀ p ∈ c.2, p.length ≤ maxReplayFrameBytes) ∧
    ∀ p ∈ payloads, p.length ≤ maxReplayFrameBytes

theorem holding_opened_empty (maxSegmentBytes : Nat) : Holding crc32 (opened .empty maxSegmentBytes []) [] [] :=
  ⟨shape_opened_empty maxSegmentBytes, rfl, rfl, nofun, nofun⟩

theorem not_fsyncFails_op (l : Log) (call : Call) : ¬ FsyncFails l call.op := by
  cases call with
  | append payload => exact fun h => by cases h.2.1
  | rotate => exact fun h => by cases h.1
  | reopen maxSegmentBytes => exact fun h => h

theorem Holding.writes (h : Holding crc32 l content payloads) {more : Bytes} {l' : Log} {call : Call}
    (hwrites : Writes crc32 l more l' call.op) : ∃ payloads', frames crc32 payloads ++ more = frames crc32 payloads' ∧
    l'.accepted = (content.flatMap fun c => c.2.map (c.1, ·)) ++ payloads'.map (l.wal.currentSeq, ·) ∧ ∀ p ∈
    payloads', p.length ≤ maxReplayFrameBytes := by
  rcases hwrites with ⟨rfl, hacc⟩ | ⟨payload, fault, hop, hlen, ⟨rfl, hacc⟩ | ⟨-, -, hnone⟩⟩
  · exact ⟨payloads, append_nil _, hacc.trans h.accepted, h.small.2⟩
  · refine ⟨payloads ++ [payload], ?_, ?_, ?_⟩
    · rw [frames, frames, flatMap_append, flatMap_singleton]
    · rw [hacc, h.accepted, map_append, map_singleton, append_assoc]
    · exact forall_mem_snoc h.small.2 hlen
  · -- Only a rotation that fails refuses a written frame, and nothing is in its way.
    have hfault : fault = none := by
      cases call with
      | append payload' => exact (Op.append.inj hop).2.symm
      | rotate => cases hop
      | reopen maxSegmentBytes => cases hop
    have := h.shape.newest.le_file _ (hnone hfault)
    have := h.file
    omega

theorem Holding.apply (h : Holding crc32 l content payloads) (call : Call) :
    ∃ content' payloads', Holding crc32 (l.apply crc32 call.op) content' payloads' := by
  have hfile := file_apply crc32 h.file (not_fsyncFails_op l call)
  obtain ⟨more, hwrites, hshape⟩ := h.shape.apply crc32 call.op
  obtain ⟨payloads', hframes, hacc, hsmall⟩ := h.writes hwrites
  rw [hframes] at hshape
  rcases hshape with ⟨hshape, hsame⟩ | hshape
  · refine ⟨content, payloads', hshape, hfile, ?_, h.small.1, hsmall⟩
    rw [hacc, ← hfile, hsame, h.file]
  · refine ⟨content ++ [(l.file, payloads')], [], ?_, hfile, ?_, ?_, nofun⟩
    · rw [map_append, map_singleton]
      exact hshape
    · rw [hacc, flatMap_append, flatMap_singleton, map_nil, append_nil, h.file]
    · exact forall_mem_snoc h.small.1 hsmall

theorem exists_holding (crc32 : Bytes → UInt32) (maxSegmentBytes : Nat) (calls : List Call) : ∃ content payloads,
    Holding crc32 ((calls.map Call.op).foldl (apply crc32) (opened .empty maxSegmentBytes [])) content payloads := by
  induction calls using reverseRecOn with
  | nil => exact ⟨[], [], holding_opened_empty maxSegmentBytes⟩
  | append_singleton calls call ih =>
    obtain ⟨content, payloads, h⟩ := ih
    rw [map_append, foldl_append]
    exact h.apply call

theorem Holding.accepted_split (h : Holding crc32 l content payloads) :
    ((l.accepted.filter fun e => e.1 < l.wal.currentSeq).map Prod.snd = content.flatMap fun c => c.2) ∧
    (l.accepted.filter fun e => e.1 = l.wal.currentSeq).map Prod.snd = payloads := by
  have hbelow : ∀ c ∈ content, c.1 < l.wal.currentSeq := by
    intro c hc
    rw [← h.file]
    exact h.shape.below _ (mem_map_of_mem (f := fun c => (⟨c.1, frames crc32 c.2⟩ : Segment)) hc)
  have hold : ∀ e ∈ content.flatMap (fun c => c.2.map (c.1, ·)), e.1 < l.wal.currentSeq := by
    intro e he
    obtain ⟨c, hc, he⟩ := mem_flatMap.mp he
    obtain ⟨p, -, rfl⟩ := mem_map.mp he
    exact hbelow c hc
  rw [h.accepted, filter_append, filter_append]
  constructor
  · rw [filter_eq_self.mpr fun e he => decide_eq_true (hold e he),
      filter_eq_nil_iff.mpr (by simp), append_nil, map_flatMap]
    simp
  · rw [filter_eq_nil_iff.mpr fun e he => by simpa using Nat.ne_of_lt (hold e he),
      nil_append, filter_eq_self.mpr (by simp)]
    simp

end Log

end Scry.Wal
