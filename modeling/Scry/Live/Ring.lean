import Scry.Live.Rows

/-! # The live ring

Every push evicts from the front, first what is older than the window and then what is over the byte cap.
-/

open Scry.Lib Scry.Block

namespace Scry.Live

open List

/-- The `Arc` of a stream's labels is counted in each of its records. -/
def LiveLogRecord.heapBytes (r : LiveLogRecord) : Nat :=
  r.body.length + (r.labels.map fun p => p.1.length + p.2.length).sum +
    (r.attributes.map fun p => p.1.length + p.2.length).sum + 48

def LiveLogRecord.stamp (shard seg : Nat) (r : LiveLogRecord) : LiveLogRecord :=
  { r with walShard := shard, walSeg := seg }

structure RingInner where
  records : List LiveLogRecord
  bytes : Nat

structure LiveRing where
  windowNanos : Nat
  maxBytes : Nat

structure PushStamped where
  records : List LiveLogRecord
  shard : Nat
  seg : Nat
  now : Nat

def PushStamped.stamped (c : PushStamped) : List LiveLogRecord := c.records.map (.stamp c.shard c.seg)

/-- `pop_front` as long as `p` holds of the front and the counter. -/
def popWhile (p : LiveLogRecord → Nat → Bool) : List LiveLogRecord → Nat → RingInner
  | [], bytes => ⟨[], bytes⟩
  | r :: rest, bytes => if p r bytes then popWhile p rest (bytes - r.heapBytes) else ⟨r :: rest, bytes⟩

def LiveRing.pushStamped (ring : LiveRing) (s : RingInner) (c : PushStamped) : RingInner :=
  if c.records = [] then s
  else
    let bytes := c.stamped.foldl (fun bytes r => (bytes + r.heapBytes) % 2 ^ 64) s.bytes
    let cutoff := c.now - ring.windowNanos
    let aged := popWhile (fun r _ => r.tsUnixNano < cutoff) (s.records ++ c.stamped) bytes
    popWhile (fun _ bytes => ring.maxBytes < bytes) aged.records aged.bytes

def heapTotal (records : List LiveLogRecord) : Nat := (records.map LiveLogRecord.heapBytes).sum

@[simp] theorem heapTotal_append (l l' : List LiveLogRecord) : heapTotal (l ++ l') = heapTotal l + heapTotal l' := by
  simp [heapTotal]

theorem heapTotal_stamped (c : PushStamped) : heapTotal c.stamped = heapTotal c.records := by
  rw [heapTotal, PushStamped.stamped, map_map]
  rfl

theorem foldl_heapBytes {l : List LiveLogRecord} {bytes : Nat} (h : bytes + heapTotal l < 2 ^ 64) :
    l.foldl (fun bytes r => (bytes + r.heapBytes) % 2 ^ 64) bytes = bytes + heapTotal l := by
  induction l generalizing bytes with
  | nil => rfl
  | cons r rest ih =>
    simp only [heapTotal, map_cons, sum_cons] at h ih
    rw [foldl_cons, Nat.mod_eq_of_lt (by omega), ih (by omega), heapTotal, map_cons, sum_cons, Nat.add_assoc]

structure Exact (pushed : List LiveLogRecord) (s : RingInner) : Prop where
  suffix : s.records <:+ pushed
  bytes : s.bytes = heapTotal s.records

theorem Exact.popWhile {p : LiveLogRecord → Nat → Bool} {pushed l : List LiveLogRecord} {bytes : Nat}
    (h : Exact pushed ⟨l, bytes⟩) : Exact pushed (popWhile p l bytes) := by
  induction l generalizing bytes with
  | nil => exact h
  | cons r rest ih =>
    rw [Live.popWhile]
    split
    · have hbytes := h.bytes
      simp only [heapTotal, map_cons, sum_cons] at hbytes
      refine ih ⟨(suffix_cons r rest).trans h.suffix, ?_⟩
      rw [hbytes, Nat.add_sub_cancel_left, heapTotal]
    · exact h

theorem popWhile_stops {max bytes : Nat} {l : List LiveLogRecord} (h : bytes = heapTotal l) :
    (popWhile (fun _ bytes => max < bytes) l bytes).bytes ≤ max := by
  induction l generalizing bytes with
  | nil => exact h.le.trans (Nat.zero_le max)
  | cons r rest ih =>
    simp only [popWhile, decide_eq_true_eq]
    split
    · rw [h, heapTotal, map_cons, sum_cons, Nat.add_sub_cancel_left]
      exact ih rfl
    · exact Nat.le_of_not_lt ‹_›

theorem ring_retains_suffix (ring : LiveRing) (calls : List PushStamped)
    (hfits : ∀ c ∈ calls, ring.maxBytes + heapTotal c.records < 2 ^ 64) :
    Exact (calls.flatMap PushStamped.stamped) (calls.foldl ring.pushStamped ⟨[], 0⟩) ∧
      (calls.foldl ring.pushStamped ⟨[], 0⟩).bytes ≤ ring.maxBytes := by
  induction calls using reverseRecOn with
  | nil => exact ⟨⟨suffix_rfl, rfl⟩, Nat.zero_le _⟩
  | append_singleton calls c ih =>
    obtain ⟨hexact, hmax⟩ := ih fun c hc => hfits c (mem_append_left _ hc)
    have hfits := hfits c (by simp)
    rw [foldl_append, foldl_cons, foldl_nil, flatMap_append, flatMap_singleton, LiveRing.pushStamped]
    split
    · next hempty => simpa [PushStamped.stamped, hempty] using ⟨hexact, hmax⟩
    · rw [foldl_heapBytes (by rw [heapTotal_stamped]; omega)]
      obtain ⟨older, hsuffix⟩ := hexact.suffix
      have hpushed : Exact (calls.flatMap PushStamped.stamped ++ c.stamped)
          ⟨(calls.foldl ring.pushStamped ⟨[], 0⟩).records ++ c.stamped, _⟩ :=
        ⟨⟨older, by rw [← append_assoc, hsuffix]⟩, by rw [heapTotal_append, ← hexact.bytes]⟩
      have haged := hpushed.popWhile (p := fun r _ => r.tsUnixNano < c.now - ring.windowNanos)
      exact ⟨haged.popWhile, popWhile_stops haged.bytes⟩

theorem ring_retains_suffix_one : Exact [⟨1, 2, 7, 0, [], [], []⟩]
    ((⟨5, 100⟩ : LiveRing).pushStamped ⟨[], 0⟩ ⟨[⟨0, 0, 7, 0, [], [], []⟩], 1, 2, 9⟩) :=
  (ring_retains_suffix ⟨5, 100⟩ [⟨[⟨0, 0, 7, 0, [], [], []⟩], 1, 2, 9⟩] (by decide)).1

/-- Two records that share a label of `2 ^ 63 - 1` bytes: the counter ends at 94. -/
theorem ring_counter_wraps : ∃ c : PushStamped, heapTotal c.records = 2 ^ 64 + 94 ∧
    (⟨0, 100⟩ : LiveRing).pushStamped ⟨[], 0⟩ c = ⟨c.records, 94⟩ := by
  obtain ⟨label, hlabel⟩ : ∃ label : Bytes, label.length = 2 ^ 63 - 1 := ⟨replicate _ 0, length_replicate⟩
  have hbytes : LiveLogRecord.heapBytes ⟨0, 0, 0, 0, [([], label)], [], []⟩ = 2 ^ 63 + 47 := by
    simp [LiveLogRecord.heapBytes, hlabel]
  refine ⟨⟨[⟨0, 0, 0, 0, [([], label)], [], []⟩, ⟨0, 0, 0, 0, [([], label)], [], []⟩], 0, 0, 0⟩, ?_, ?_⟩
  · simp [heapTotal, hbytes]
  · simp [LiveRing.pushStamped, PushStamped.stamped, LiveLogRecord.stamp, popWhile, hbytes]

end Scry.Live
