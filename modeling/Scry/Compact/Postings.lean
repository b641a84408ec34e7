import Mathlib.Data.List.ReduceOption
import Scry.Block.Postings

/-! # Merging postings as streams

The heap is a list in order: a `BinaryHeap` of `Reverse` pops the least element.
-/

open Scry.Lib Scry.Block

namespace Scry.Compact

open List

inductive PostingsError where
  | openInput
  | readBatch
  | rowGroupLimit (budget : Nat)
  | rowLimit (budget : Nat)
  | requestTooLarge (requested budget : Nat)
  | missingRow
  | recordBatch
  | write
  | panicked
  | exhausted
  deriving DecidableEq

def u64Max : Nat := 2 ^ 64 - 1

/-- Sizes of the row groups, and batches; `none` cannot be read. -/
structure PostingsInput where
  hasPostings : Bool
  opens : Bool
  rowGroups : List Int
  batches : List (Option (List PostingsEntry))

def PostingsInput.entries (input : PostingsInput) : List PostingsEntry := input.batches.reduceOption.flatten

/-! ## Cursors -/

/-- `batch` is what is left of the batch from `row` on. -/
structure PostingsCursor where
  stream : List (Option (List PostingsEntry))
  batch : List PostingsEntry
  current : Option PostingsEntry
  rowBudget : Nat

namespace PostingsCursor

def rowBytes (entry : PostingsEntry) : Nat :=
  min (entry.1.1.utf8ByteSize + entry.1.2.utf8ByteSize + entry.2.length * 8 + 16) u64Max

def advanceFrom (rowBudget : Nat) : List (Option (List PostingsEntry)) → List PostingsEntry →
    Except PostingsError PostingsCursor
  | stream, entry :: batch =>
    if rowBudget < rowBytes entry then .error (.rowLimit rowBudget)
    else .ok ⟨stream, batch, some entry, rowBudget⟩
  | [], [] => .ok ⟨[], [], none, rowBudget⟩
  | none :: _, [] => .error .readBatch
  | some batch :: stream, [] => advanceFrom rowBudget stream batch

def advance (c : PostingsCursor) : Except PostingsError PostingsCursor :=
  advanceFrom c.rowBudget c.stream c.batch

def openInput (budget : Nat) (input : PostingsInput) : Except PostingsError PostingsCursor := do
  if !input.opens then .error .openInput
  else if budget < (input.rowGroups.map Int.toNat).foldl max 0 then .error (.rowGroupLimit budget)
  else advance ⟨input.batches, [], none, budget⟩

end PostingsCursor

/-! ## The merge -/

/-- A key, and the cursor whose current row has it. -/
abbrev Pending := LabelPair ×ₗ Nat

variable (cursors : List PostingsCursor) (c : PostingsCursor) (heap : List Pending) (top : Pending)

def push (key : LabelPair) (index : Nat) : List Pending :=
  heap.orderedInsert (· ≤ ·) (toLex (key, index))

def PostingsCursor.enqueue (index : Nat) : List Pending :=
  match c.current with
  | none => heap
  | some (key, _) => push heap key index

structure Merging where
  cursors : List PostingsCursor
  heap : List Pending
  fps : List Nat

def takeRow (limit : Nat) (m : Merging) (i : Nat) : Except PostingsError Merging :=
  match m.cursors[i]? with
  | none => .error .panicked
  | some cursor =>
    match cursor.current with
    | none => .error .missingRow
    | some (_, values) =>
      let requested := min ((m.fps.length + values.length) * 8) u64Max
      if limit < requested then .error (.requestTooLarge requested limit)
      else do
        let cursor ← cursor.advance
        return ⟨m.cursors.set i cursor, cursor.enqueue m.heap i, m.fps ++ values⟩

structure Sink where
  writes : List (List PostingsEntry) → Bool
  finishes : Bool

def Sink.write (sink : Sink) (written : List (List PostingsEntry)) (output : List PostingsEntry) :
    Except PostingsError (List (List PostingsEntry)) :=
  match postingsRecordBatch output with
  | none => .error .recordBatch
  | some batch => if sink.writes (written ++ [batch]) then .ok (written ++ [batch]) else .error .write

structure Limits where
  limit : Nat
  batchLimit : Nat

structure Output where
  written : List (List PostingsEntry)
  pending : List PostingsEntry
  bytes : Nat

variable (sink : Sink)

/-- A merged row becomes pending; pending rows are written once there are enough. -/
def Output.push (batchLimit : Nat) (out : Output) (row : PostingsEntry) : Except PostingsError Output :=
  let bytes := min (out.bytes + (row.1.1.utf8ByteSize + row.1.2.utf8ByteSize + row.2.length * 8 + 16)) u64Max
  let pending := out.pending ++ [row]
  if batchLimit ≤ bytes then do
    let written ← sink.write out.written pending
    return ⟨written, [], 0⟩
  else .ok ⟨out.written, pending, bytes⟩

def Output.close (out : Output) (noCursors : Bool) : Except PostingsError (List (List PostingsEntry)) :=
  if !out.pending.isEmpty || noCursors then sink.write out.written out.pending else .ok out.written

/-- The cursors whose keys are popped with `top`: those of the same key. -/
def matching (heap : List Pending) : List Nat :=
  (top :: heap.takeWhile fun x => (ofLex x).1 = (ofLex top).1).map fun x => (ofLex x).2

def rest (heap : List Pending) : List Pending :=
  heap.dropWhile fun x => (ofLex x).1 = (ofLex top).1

/-- `while let Some(..) = heap.pop()`; the fuel is the rows left. -/
def mergeLoop (sink : Sink) (limits : Limits) : Nat → List PostingsCursor → List Pending → Output →
    Except PostingsError Output
  | _, _, [], out => .ok out
  | 0, _, _ :: _, _ => .error .exhausted
  | fuel + 1, cursors, top :: heap, out => do
    let m ← (matching top heap).foldlM (takeRow limits.limit) ⟨cursors, rest top heap, []⟩
    let out ← out.push sink limits.batchLimit ((ofLex top).1, sortDedup m.fps)
    mergeLoop sink limits fuel m.cursors m.heap out

def initialHeap : List Pending :=
  cursors.zipIdx.foldl (fun heap c => c.1.enqueue heap c.2) []

def PostingsCursor.ahead : List PostingsEntry :=
  c.current.toList ++ c.batch ++ c.stream.reduceOption.flatten

def rowsLeft : Nat := (cursors.map PostingsCursor.ahead).flatten.length

/-- `writerMemory` is `parquet_writer_memory_bytes`. -/
def mergePostingsStreaming (postingsBudget writerMemory : Nat) (inputs : List PostingsInput) :
    Except PostingsError (List (List PostingsEntry)) := do
  let workingBudget := max (postingsBudget / 4) 1
  let opened := inputs.filter (·.hasPostings)
  let perCursorBudget := max (workingBudget / max opened.length 1) 1
  let cursors ← opened.mapM (PostingsCursor.openInput perCursorBudget)
  let limits : Limits := ⟨workingBudget, max (min writerMemory workingBudget) 1⟩
  let out ← mergeLoop sink limits (rowsLeft cursors) cursors (initialHeap cursors) ⟨[], [], 0⟩
  let written ← out.close sink cursors.isEmpty
  if sink.finishes then .ok written else .error .write

/-! ## Results -/

section Ends

variable {α β : Type} {P : α → Prop} {Q : β → Prop}

/-- Without running out of fuel; and what is returned satisfies `P`. -/
def Ends (P : α → Prop) : Except PostingsError α → Prop
  | .ok a => P a
  | .error e => e ≠ .exhausted

variable {x : Except PostingsError α}

theorem Ends.bind {f : α → Except PostingsError β} (hx : Ends P x)
    (hf : ∀ a, P a → Ends Q (f a)) : Ends Q (x >>= f) := by
  cases x with
  | error e => exact hx
  | ok a => exact hf a hx

theorem Ends.mono {P' : α → Prop} (hx : Ends P x) (h : ∀ a, P a → P' a) : Ends P' x := by
  cases x with
  | error e => exact hx
  | ok a => exact h a hx

end Ends

/-! ## A cursor -/

namespace PostingsCursor

def Ready (c : PostingsCursor) : Prop := c.current = c.ahead.head?

theorem advanceFrom_ends (rowBudget : Nat) (stream : List (Option (List PostingsEntry))) (batch : List PostingsEntry)
    : Ends (fun c => c.ahead = batch ++ stream.reduceOption.flatten ∧ c.Ready)
    (advanceFrom rowBudget stream batch) := by
  fun_induction advanceFrom rowBudget stream batch with
  | case1 stream entry batch hlimit => exact PostingsError.noConfusion
  | case2 stream entry batch hlimit => exact ⟨rfl, rfl⟩
  | case3 => exact ⟨rfl, rfl⟩
  | case4 stream => exact PostingsError.noConfusion
  | case5 batch stream ih =>
    rwa [reduceOption_cons_of_some, flatten_cons, nil_append]

theorem advance_ends {c : PostingsCursor} {e : PostingsEntry} (hcur : c.current = some e) :
    Ends (fun c' => c'.ahead = c.ahead.tail ∧ c'.Ready) c.advance := by
  refine (advanceFrom_ends c.rowBudget c.stream c.batch).mono fun c' h => ⟨h.1.trans ?_, h.2⟩
  rw [ahead, hcur]
  rfl

theorem openInput_ends (budget : Nat) (input : PostingsInput) :
    Ends (fun c => c.ahead = input.entries ∧ c.Ready) (openInput budget input) := by
  unfold openInput
  split
  · exact PostingsError.noConfusion
  · split
    · exact PostingsError.noConfusion
    · exact advanceFrom_ends budget input.batches []

end PostingsCursor

/-! ## The heap -/

def currentKey (cursors : List PostingsCursor) (i : Nat) : Option LabelPair :=
  (cursors[i]?.bind (·.current)).map Prod.fst

structure Queued (waiting : List Nat) (cursors : List PostingsCursor) (heap : List Pending) : Prop where
  sorted : heap.Pairwise (· < ·)
  mem_iff : ∀ x, x ∈ heap ↔ (ofLex x).2 ∉ waiting ∧ currentKey cursors (ofLex x).2 = some (ofLex x).1

variable {key : LabelPair}

theorem pairwise_push {heap : List Pending} (h : heap.Pairwise (· < ·)) {i : Nat}
    (hfresh : toLex (key, i) ∉ heap) : (push heap key i).Pairwise (· < ·) := by
  have hle : (push heap key i).Pairwise (· ≤ ·) := (h.imp le_of_lt).orderedInsert _ _
  have hnodup : (push heap key i).Nodup :=
    (perm_orderedInsert _ _ _).nodup_iff.mpr (nodup_cons.mpr ⟨hfresh, h.imp ne_of_lt⟩)
  exact hle.imp₂ (fun _ _ hle hne => lt_of_le_of_ne hle hne) hnodup

namespace Queued

variable {waiting : List Nat} {cursors : List PostingsCursor} {heap : List Pending} {i : Nat}

theorem enqueue (h : Queued (i :: waiting) cursors heap) (hi : i ∉ waiting) (hlt : i < cursors.length)
    (c : PostingsCursor) : Queued waiting (cursors.set i c) (c.enqueue heap i) := by
  have hself : currentKey (cursors.set i c) i = c.current.map Prod.fst := by
    rw [currentKey, getElem?_set_self hlt]
    rfl
  have hother {j : Nat} (hj : j ≠ i) : currentKey (cursors.set i c) j = currentKey cursors j := by
    rw [currentKey, getElem?_set_ne hj.symm]
    rfl
  have hnot (key : LabelPair) : toLex (key, i) ∉ heap := fun hmem => ((h.mem_iff _).mp hmem).1 mem_cons_self
  have hmem (x : Pending) (hx : (ofLex x).2 ≠ i) :
      x ∈ heap ↔ (ofLex x).2 ∉ waiting ∧ currentKey (cursors.set i c) (ofLex x).2 = some (ofLex x).1 := by
    rw [h.mem_iff, hother hx, mem_cons, or_iff_right hx]
  unfold PostingsCursor.enqueue
  split
  next hnone =>
    refine ⟨h.sorted, fun x => ?_⟩
    by_cases hx : (ofLex x).2 = i
    · constructor
      · exact fun hmem => absurd (hx ▸ hmem) (hnot (ofLex x).1)
      · rintro ⟨-, hkey⟩
        rw [hx, hself, hnone] at hkey
        exact absurd hkey (Option.some_ne_none _).symm
    · exact hmem x hx
  next key values hsome =>
    refine ⟨pairwise_push h.sorted (hnot key), fun x => ?_⟩
    rw [push, mem_orderedInsert]
    by_cases hx : (ofLex x).2 = i
    · rw [hx, hself, hsome, Option.map_some, Option.some_inj]
      constructor
      · rintro (rfl | hmem)
        · exact ⟨hi, rfl⟩
        · exact absurd (hx ▸ hmem) (hnot (ofLex x).1)
      · rintro ⟨-, hkey⟩
        exact .inl (Prod.ext hkey.symm hx)
    · rw [hmem x hx, or_iff_right]
      rintro rfl
      exact hx rfl

end Queued

/-! ## Taking the rows of a key -/

def currentValues (cursors : List PostingsCursor) (i : Nat) : List Nat :=
  ((cursors[i]?.bind (·.current)).map Prod.snd).getD []

theorem takeRow_ends (limit : Nat) (m : Merging) (i : Nat) :
    Ends (fun m' => ∃ c e c', m.cursors[i]? = some c ∧ c.current = some e ∧ c'.ahead = c.ahead.tail ∧
      c'.Ready ∧ m' = ⟨m.cursors.set i c', c'.enqueue m.heap i, m.fps ++ e.2⟩) (takeRow limit m i) := by
  unfold takeRow
  split
  · exact PostingsError.noConfusion
  next c hc =>
    split
    · exact PostingsError.noConfusion
    next key values hcur =>
      dsimp only
      split
      · exact PostingsError.noConfusion
      · refine (PostingsCursor.advance_ends hcur).bind fun c' h => ?_
        exact ⟨c, _, c', hc, hcur, h.1, h.2, rfl⟩

structure Taken (is : List Nat) (m m' : Merging) : Prop where
  ahead : ∀ j, m'.cursors[j]?.map PostingsCursor.ahead =
    m.cursors[j]?.map fun c => if j ∈ is then c.ahead.tail else c.ahead
  ready : ∀ c ∈ m'.cursors, c.Ready
  queued : Queued [] m'.cursors m'.heap
  fps : m'.fps = m.fps ++ is.flatMap (currentValues m.cursors)

theorem takeRows_ends (limit : Nat) {is : List Nat} {m : Merging} (hnodup : is.Nodup)
    (hready : ∀ c ∈ m.cursors, c.Ready) (hqueued : Queued is m.cursors m.heap) :
    Ends (Taken is m) (is.foldlM (takeRow limit) m) := by
  induction is generalizing m with
  | nil =>
    refine ⟨fun j => ?_, hready, hqueued, (append_nil _).symm⟩
    simp only [not_mem_nil, if_false]
  | cons i is ih =>
    obtain ⟨hi, hnodup⟩ := nodup_cons.mp hnodup
    refine (takeRow_ends limit m i).bind ?_
    rintro _ ⟨c, e, c', hc, hcur, hahead, hready', rfl⟩
    have hlt : i < m.cursors.length := (List.getElem?_eq_some_iff.mp hc).1
    have hreadyAll : ∀ d ∈ m.cursors.set i c', d.Ready := by
      intro d hd
      rcases mem_or_eq_of_mem_set hd with hmem | rfl
      · exact hready d hmem
      · exact hready'
    refine (ih hnodup hreadyAll (hqueued.enqueue hi hlt c')).mono fun m' h => ⟨fun j => ?_, h.ready, h.queued, ?_⟩
    · rw [h.ahead]
      by_cases hj : j = i
      · subst hj
        simp only [getElem?_set_self hlt, hc, Option.map_some, hi, if_false, mem_cons_self, if_true, hahead]
      · simp only [getElem?_set_ne (Ne.symm hj), mem_cons, hj, false_or]
    · have hsame : is.flatMap (currentValues (m.cursors.set i c')) = is.flatMap (currentValues m.cursors) := by
        refine flatMap_congr fun j hj => ?_
        have hne : i ≠ j := fun heq => hi (heq ▸ hj)
        rw [currentValues, getElem?_set_ne hne]
        rfl
      have hvalues : currentValues m.cursors i = e.2 := by
        rw [currentValues, hc, Option.bind_some, hcur]
        rfl
      rw [h.fps, hsame, flatMap_cons, hvalues, append_assoc]

/-! ## One turn of the loop -/

structure Sound (cursors : List PostingsCursor) (heap : List Pending) : Prop where
  ready : ∀ c ∈ cursors, c.Ready
  sorted : ∀ c ∈ cursors, c.ahead.Pairwise fun e e' => e.1 < e'.1
  queued : Queued [] cursors heap

namespace Sound

variable {cursors : List PostingsCursor} {heap : List Pending} {top : Pending} {x : Pending}

theorem mem_iff (h : Sound cursors heap) :
    x ∈ heap ↔ currentKey cursors (ofLex x).2 = some (ofLex x).1 := by
  rw [h.queued.mem_iff, and_iff_right not_mem_nil]

theorem isUnion_nil (h : Sound cursors []) : IsUnion (cursors.map PostingsCursor.ahead) [] := by
  refine IsUnion.nil fun set hset => ?_
  obtain ⟨c, hc, rfl⟩ := mem_map.mp hset
  obtain ⟨i, hi⟩ := mem_iff_getElem?.mp hc
  cases hahead : c.ahead with
  | nil => rfl
  | cons e rest =>
    have hcur : c.current = some e := by rw [h.ready c hc, hahead, head?_cons]
    have hmem : toLex (e.1, i) ∈ ([] : List Pending) := by
      refine h.mem_iff.mpr ?_
      simp only [ofLex_toLex, currentKey, hi, Option.bind_some, hcur, Option.map_some]
    exact absurd hmem not_mem_nil

section

variable (h : Sound cursors (top :: heap))
include h

theorem top_le (hx : x ∈ top :: heap) : top ≤ x := by
  rcases mem_cons.mp hx with rfl | hx
  · exact le_rfl
  · exact (rel_of_pairwise_cons h.queued.sorted hx).le

theorem key_front {x y : Pending} (hx : x ∈ heap) (hxy : x < y)
    (hy : (ofLex y).1 = (ofLex top).1) : (ofLex x).1 = (ofLex top).1 := by
  have hle : (ofLex top).1 ≤ (ofLex x).1 := Prod.Lex.monotone_fst _ _ (h.top_le (mem_cons_of_mem _ hx))
  have hle' : (ofLex x).1 ≤ (ofLex y).1 := Prod.Lex.monotone_fst _ _ hxy.le
  exact le_antisymm (hy ▸ hle') hle

theorem front_eq_filter : heap.takeWhile (fun x => (ofLex x).1 = (ofLex top).1) =
    heap.filter (fun x => (ofLex x).1 = (ofLex top).1) ∧ heap.dropWhile (fun x => (ofLex x).1 = (ofLex top).1) =
    heap.filter (fun x => !((ofLex x).1 = (ofLex top).1 : Bool)) :=
  span_eq_filter (fun _ hx _ _ hxy hy => decide_eq_true (h.key_front hx hxy (of_decide_eq_true hy)))
    h.queued.sorted.of_cons

theorem mem_group : x ∈ top :: heap.takeWhile
    (fun x => (ofLex x).1 = (ofLex top).1) ↔ x ∈ top :: heap ∧ (ofLex x).1 = (ofLex top).1 := by
  rw [h.front_eq_filter.1, mem_cons, mem_cons, mem_filter, decide_eq_true_eq]
  constructor
  · rintro (rfl | ⟨hx, hkey⟩)
    · exact ⟨.inl rfl, rfl⟩
    · exact ⟨.inr hx, hkey⟩
  · rintro ⟨rfl | hx, hkey⟩
    · exact .inl rfl
    · exact .inr ⟨hx, hkey⟩

theorem mem_matching {j : Nat} :
    j ∈ matching top heap ↔ currentKey cursors j = some (ofLex top).1 := by
  unfold matching
  rw [mem_map]
  constructor
  · rintro ⟨x, hx, rfl⟩
    obtain ⟨hx, hkey⟩ := h.mem_group.mp hx
    rw [h.mem_iff.mp hx, hkey]
  · intro hj
    exact ⟨toLex ((ofLex top).1, j), h.mem_group.mpr ⟨h.mem_iff.mpr hj, rfl⟩, rfl⟩

theorem nodup_matching : (matching top heap).Nodup := by
  have hgroup : (top :: heap.takeWhile fun x => (ofLex x).1 = (ofLex top).1).Nodup :=
    (h.queued.sorted.imp ne_of_lt).sublist ((takeWhile_sublist _).cons_cons top)
  refine hgroup.map_on fun x hx y hy heq => ?_
  exact Prod.ext ((h.mem_group.mp hx).2.trans (h.mem_group.mp hy).2.symm) heq

theorem queued_rest : Queued (matching top heap) cursors (rest top heap) := by
  rw [rest, h.front_eq_filter.2]
  refine ⟨h.queued.sorted.of_cons.filter _, fun x => ?_⟩
  rw [mem_filter, h.mem_matching, ← h.mem_iff, mem_cons]
  constructor
  · rintro ⟨hx, hne⟩
    refine ⟨?_, .inr hx⟩
    rw [h.mem_iff.mp (mem_cons_of_mem _ hx)]
    simpa using hne
  · rintro ⟨hne, rfl | hx⟩
    · exact absurd (h.mem_iff.mp mem_cons_self) hne
    · refine ⟨hx, ?_⟩
      rw [h.mem_iff.mp (mem_cons_of_mem _ hx)] at hne
      simpa using hne

end

variable {c : PostingsCursor}

theorem least (h : Sound cursors (top :: heap)) (hc : c ∈ cursors) {e : PostingsEntry}
    (he : e ∈ c.ahead) : (ofLex top).1 ≤ e.1 := by
  obtain ⟨i, hi⟩ := mem_iff_getElem?.mp hc
  have hsort := h.sorted c hc
  have hready : c.current = c.ahead.head? := h.ready c hc
  cases hahead : c.ahead with
  | nil => exact absurd (hahead ▸ he) not_mem_nil
  | cons e' rest =>
    rw [hahead] at he hsort hready
    have hmem : toLex (e'.1, i) ∈ top :: heap := by
      refine h.mem_iff.mpr ?_
      simp only [ofLex_toLex, currentKey, hi, Option.bind_some, hready, head?_cons, Option.map_some]
    have hle : (ofLex top).1 ≤ e'.1 := Prod.Lex.monotone_fst _ _ (h.top_le hmem)
    rcases mem_cons.mp he with rfl | he
    · exact hle
    · exact hle.trans (rel_of_pairwise_cons hsort he).le

theorem filter_ahead (h : Sound cursors (top :: heap)) {i : Nat} (hi : cursors[i]? = some c) :
    (if i ∈ matching top heap then c.ahead.tail else c.ahead) = c.ahead.filter fun e => (ofLex top).1 < e.1 := by
  have hc := mem_of_getElem? hi
  have hsort := h.sorted c hc
  have hready : c.current = c.ahead.head? := h.ready c hc
  have hleast := fun e he => h.least hc (e := e) he
  simp only [h.mem_matching, currentKey, hi, Option.bind_some, hready]
  cases hahead : c.ahead with
  | nil => simp
  | cons e rest =>
    rw [hahead] at hsort hleast
    have hrest : rest.filter (fun e => (ofLex top).1 < e.1) = rest := by
      refine filter_eq_self.mpr fun e' he' => decide_eq_true ?_
      exact (hleast e mem_cons_self).trans_lt (rel_of_pairwise_cons hsort he')
    simp only [head?_cons, Option.map_some, Option.some_inj, tail_cons]
    rcases (hleast e mem_cons_self).eq_or_lt with heq | hlt
    · rw [if_pos heq.symm, filter_cons_of_neg (by simp [heq]), hrest]
    · rw [if_neg hlt.ne', filter_cons_of_pos (by simp [hlt]), hrest]

variable {m : Merging}

section

variable (h : Sound cursors (top :: heap)) (htaken : Taken (matching top heap) ⟨cursors, rest top heap, []⟩ m)
include h htaken

theorem map_ahead : m.cursors.map PostingsCursor.ahead = (cursors.map PostingsCursor.ahead).map
    (filter fun e => (ofLex top).1 < e.1) := by
  refine ext_getElem? fun j => ?_
  rw [getElem?_map, htaken.ahead, getElem?_map, getElem?_map, Option.map_map]
  exact Option.map_congr fun c hc => h.filter_ahead hc

theorem taken : Sound m.cursors m.heap := by
  refine ⟨htaken.ready, fun c hc => ?_, htaken.queued⟩
  have hmem : c.ahead ∈ m.cursors.map PostingsCursor.ahead := mem_map_of_mem hc
  rw [h.map_ahead htaken, map_map, mem_map] at hmem
  obtain ⟨d, hd, heq⟩ := hmem
  rw [← heq]
  exact (h.sorted d hd).filter _

theorem mem_fps (fp : Nat) :
    fp ∈ m.fps ↔ ∃ set ∈ cursors.map PostingsCursor.ahead, ∃ e ∈ set, e.1 = (ofLex top).1 ∧ fp ∈ e.2 := by
  rw [htaken.fps, nil_append, mem_flatMap]
  constructor
  · rintro ⟨i, hi, hfp⟩
    obtain ⟨e, he, hkey⟩ := Option.map_eq_some_iff.mp (h.mem_matching.mp hi)
    obtain ⟨c, hc, hcur⟩ := Option.bind_eq_some_iff.mp he
    have hmem := mem_of_getElem? hc
    refine ⟨c.ahead, mem_map_of_mem hmem, e, ?_, hkey, ?_⟩
    · exact mem_of_mem_head? ((h.ready c hmem).symm.trans hcur)
    · simpa only [currentValues, he, Option.map_some, Option.getD_some] using hfp
  · rintro ⟨set, hset, e, he, hkey, hfp⟩
    obtain ⟨c, hc, rfl⟩ := mem_map.mp hset
    obtain ⟨i, hi⟩ := mem_iff_getElem?.mp hc
    -- An entry of the least key is the next one of its cursor.
    have hhead : c.ahead.head? = some e := by
      have hsort := h.sorted c hc
      have hleast := fun e he => h.least hc (e := e) he
      cases hahead : c.ahead with
      | nil => exact absurd (hahead ▸ he) not_mem_nil
      | cons e' rest =>
        rw [hahead] at he hsort hleast
        rcases mem_cons.mp he with rfl | he
        · rfl
        · have hlt := rel_of_pairwise_cons hsort he
          exact absurd (hkey ▸ hlt) (hleast e' mem_cons_self).not_gt
    have hcur : cursors[i]?.bind (·.current) = some e := by
      rw [hi, Option.bind_some, ← hhead]
      exact h.ready c hc
    refine ⟨i, h.mem_matching.mpr ?_, ?_⟩
    · rw [currentKey, hcur, Option.map_some, hkey]
    · rwa [currentValues, hcur]

end

theorem exists_top (h : Sound cursors (top :: heap)) :
    ∃ set ∈ cursors.map PostingsCursor.ahead, ∃ e ∈ set, e.1 = (ofLex top).1 := by
  obtain ⟨e, he, hkey⟩ := Option.map_eq_some_iff.mp (h.mem_iff.mp mem_cons_self)
  obtain ⟨c, hc, hcur⟩ := Option.bind_eq_some_iff.mp he
  have hmem := mem_of_getElem? hc
  exact ⟨c.ahead, mem_map_of_mem hmem, e, mem_of_mem_head? ((h.ready c hmem).symm.trans hcur), hkey⟩

theorem rowsLeft_lt (h : Sound cursors (top :: heap)) (htaken : Taken (matching top heap) ⟨cursors, rest top heap, []⟩
    m) : rowsLeft m.cursors < rowsLeft cursors := by
  unfold rowsLeft
  rw [h.map_ahead htaken, ← filter_flatten]
  obtain ⟨set, hset, e, he, hkey⟩ := h.exists_top
  refine length_filter_lt_length_iff_exists.mpr ⟨e, mem_flatten_of_mem hset he, ?_⟩
  simp [hkey]

end Sound

/-! ## The start -/

theorem openInputs_ends (budget : Nat) (inputs : List PostingsInput) :
    Ends (fun cursors => cursors.map PostingsCursor.ahead = inputs.map PostingsInput.entries ∧
      ∀ c ∈ cursors, c.Ready) (inputs.mapM (PostingsCursor.openInput budget)) := by
  induction inputs with
  | nil => exact ⟨rfl, forall_mem_nil _⟩
  | cons input inputs ih =>
    rw [mapM_cons]
    refine (PostingsCursor.openInput_ends budget input).bind fun c hc => ?_
    refine ih.bind fun cursors hcursors => ?_
    refine ⟨?_, forall_mem_cons.mpr ⟨hc.2, hcursors.2⟩⟩
    rw [map_cons, map_cons, hc.1, hcursors.1]

theorem Queued.foldl_enqueue {cursors left : List PostingsCursor} {heap : List Pending} {k : Nat}
    (hleft : ∀ p ∈ left.zipIdx k, cursors[p.2]? = some p.1) (h : Queued (range' k left.length) cursors heap) : Queued
    [] cursors ((left.zipIdx k).foldl (fun heap c => c.1.enqueue heap c.2) heap) := by
  induction left generalizing heap k with
  | nil => exact h
  | cons c left ih =>
    rw [zipIdx_cons, forall_mem_cons] at hleft
    have hc : cursors[k]? = some c := hleft.1
    obtain ⟨hlt, hget⟩ := List.getElem?_eq_some_iff.mp hc
    have hfresh : k ∉ range' (k + 1) left.length := by
      rw [mem_range'_1]
      omega
    have hnext := h.enqueue hfresh hlt c
    rw [← hget, set_getElem_self, hget] at hnext
    exact ih hleft.2 hnext

theorem queued_initialHeap (cursors : List PostingsCursor) : Queued [] cursors (initialHeap cursors) := by
  refine Queued.foldl_enqueue (fun p hp => mem_zipIdx_iff_getElem?.mp hp) ⟨List.Pairwise.nil, fun x => ?_⟩
  refine iff_of_false not_mem_nil ?_
  rintro ⟨hout, hkey⟩
  obtain ⟨e, he, -⟩ := Option.map_eq_some_iff.mp hkey
  obtain ⟨c, hc, -⟩ := Option.bind_eq_some_iff.mp he
  have hlt : (ofLex x).2 < cursors.length := (List.getElem?_eq_some_iff.mp hc).1
  rw [mem_range'_1] at hout
  omega

/-! ## Whole runs -/

variable (sink : Sink) (out : Output)

def Output.rows : List PostingsEntry := out.written.flatten ++ out.pending

theorem Sink.write_ends (written : List (List PostingsEntry)) (output : List PostingsEntry) :
    Ends (fun w => w.flatten = written.flatten ++ output) (sink.write written output) := by
  unfold Sink.write postingsRecordBatch
  split
  · exact PostingsError.noConfusion
  next batch hbatch =>
    split at hbatch
    · cases hbatch
      split
      · exact flatten_concat
      · exact PostingsError.noConfusion
    · cases hbatch

theorem Output.push_ends (batchLimit : Nat) (out : Output) (row : PostingsEntry) :
    Ends (fun out' => out'.rows = out.rows ++ [row]) (out.push sink batchLimit row) := by
  unfold Output.push
  dsimp only
  split
  · refine (sink.write_ends out.written (out.pending ++ [row])).bind fun written hwritten => ?_
    simp only [pure, Except.pure, Ends, Output.rows, hwritten, append_nil, append_assoc]
  · simp only [Ends, Output.rows, append_assoc]

theorem Output.close_ends (noCursors : Bool) :
    Ends (fun written => written.flatten = out.rows) (out.close sink noCursors) := by
  unfold Output.close
  split
  · exact sink.write_ends out.written out.pending
  next hempty =>
    have hpend : out.pending = [] := by
      cases hp : out.pending with
      | nil => rfl
      | cons row pending => simp [hp] at hempty
    simp only [Ends, Output.rows, hpend, append_nil]

theorem mergeLoop_ends (limits : Limits) {fuel : Nat} {cursors : List PostingsCursor}
    {heap : List Pending} (h : Sound cursors heap) (hfuel : rowsLeft cursors ≤ fuel) (out : Output) :
    Ends (fun out' => ∃ rows, IsUnion (cursors.map PostingsCursor.ahead) rows ∧ out'.rows = out.rows ++ rows)
      (mergeLoop sink limits fuel cursors heap out) := by
  induction fuel generalizing cursors heap out with
  | zero =>
    cases heap with
    | nil => exact ⟨[], h.isUnion_nil, (append_nil _).symm⟩
    | cons top heap =>
      obtain ⟨set, hset, e, he, -⟩ := h.exists_top
      have hpos : 0 < rowsLeft cursors := length_pos_of_mem (mem_flatten_of_mem hset he)
      omega
  | succ fuel ih =>
    cases heap with
    | nil => exact ⟨[], h.isUnion_nil, (append_nil _).symm⟩
    | cons top heap =>
      refine (takeRows_ends limits.limit h.nodup_matching h.ready h.queued_rest).bind fun m htaken => ?_
      refine (out.push_ends sink limits.batchLimit _).bind fun out₁ hout₁ => ?_
      have hlt := h.rowsLeft_lt htaken
      refine (ih (h.taken htaken) (by omega) out₁).mono ?_
      rintro out' ⟨rows, hrows, hout'⟩
      rw [h.map_ahead htaken] at hrows
      refine ⟨((ofLex top).1, sortDedup m.fps) :: rows, ?_, ?_⟩
      · refine IsUnion.cons (fun set hset e he => ?_) h.exists_top (h.mem_fps htaken) hrows
        obtain ⟨c, hc, rfl⟩ := mem_map.mp hset
        exact h.least hc he
      · rw [hout', hout₁, append_assoc, singleton_append]

/-- The union of the postings, wherever the batches end. -/
theorem mergePostingsStreaming_isUnion (sink : Sink) (postingsBudget writerMemory : Nat)
    (inputs : List PostingsInput) (drain : List PostingsEntry → List PostingsEntry)
    (hdrain : ∀ l, (drain l).Perm l)
    (hsorted : ∀ input ∈ inputs, input.hasPostings = true → input.entries.Pairwise fun e e' => e.1 < e'.1) :
    let sets := (inputs.filter (·.hasPostings)).map PostingsInput.entries
    mergePostingsStreaming sink postingsBudget writerMemory inputs ≠ .error .exhausted ∧
      ∀ written, mergePostingsStreaming sink postingsBudget writerMemory inputs = .ok written →
        IsUnion sets written.flatten ∧ written.flatten = mergePostings drain sets := by
  intro sets
  have hends : Ends (fun written => IsUnion sets written.flatten)
      (mergePostingsStreaming sink postingsBudget writerMemory inputs) := by
    unfold mergePostingsStreaming
    refine (openInputs_ends _ _).bind fun cursors hcursors => ?_
    have hsound : Sound cursors (initialHeap cursors) := by
      refine ⟨hcursors.2, fun c hc => ?_, queued_initialHeap cursors⟩
      have hmem : c.ahead ∈ cursors.map PostingsCursor.ahead := mem_map_of_mem hc
      rw [hcursors.1] at hmem
      obtain ⟨input, hinput, heq⟩ := mem_map.mp hmem
      obtain ⟨hinput, hhas⟩ := mem_filter.mp hinput
      rw [← heq]
      exact hsorted input hinput hhas
    refine (mergeLoop_ends sink _ hsound le_rfl ⟨[], [], 0⟩).bind ?_
    rintro out ⟨rows, hrows, hout⟩
    have hall : IsUnion sets out.rows := by
      rw [hcursors.1] at hrows
      rw [hout]
      exact hrows
    refine (out.close_ends sink cursors.isEmpty).bind fun written hwritten => ?_
    split
    · rw [← hwritten] at hall
      exact hall
    · exact PostingsError.noConfusion
  constructor
  · intro herror
    rw [herror] at hends
    exact hends rfl
  · intro written hok
    rw [hok] at hends
    exact ⟨hends, hends.unique (mergePostings_isUnion hdrain sets)⟩

theorem mergePostingsStreaming_isUnion_two :
    let inputs : List PostingsInput := [
      ⟨true, true, [16], [some [(toLex ("a", "x"), [1, 3])], some [(toLex ("b", "y"), [2])]]⟩,
      ⟨true, true, [16], [some [(toLex ("a", "x"), [2, 3])]]⟩]
    ∃ written, mergePostingsStreaming ⟨fun _ => true, true⟩ 4096 1 inputs = .ok written ∧
      written.flatten = mergePostings id (inputs.map PostingsInput.entries) := by
  intro inputs
  have hok : (mergePostingsStreaming ⟨fun _ => true, true⟩ 4096 1 inputs).toOption.isSome = true := by
    decide +kernel
  cases hrun : mergePostingsStreaming ⟨fun _ => true, true⟩ 4096 1 inputs with
  | error e =>
    rw [hrun] at hok
    cases hok
  | ok written =>
    have hsorted : ∀ input ∈ inputs, input.hasPostings = true →
        input.entries.Pairwise fun e e' => e.1 < e'.1 := by decide +kernel
    exact ⟨written, rfl, ((mergePostingsStreaming_isUnion ⟨fun _ => true, true⟩ 4096 1 inputs id
      (fun l => .refl l) hsorted).2 written hrun).2⟩

end Scry.Compact
