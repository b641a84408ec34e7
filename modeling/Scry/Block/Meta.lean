import Mathlib.Algebra.GroupWithZero.Nat
import Mathlib.Algebra.Ring.Int.Defs
import Mathlib.Data.List.Sort
import Mathlib.Data.List.Dedup
import Mathlib.Data.List.Induction

/-! # Block sidecars

A UUID is its 128-bit value: hyphenated lower-case text sorts the same way.
-/

namespace Scry.Block

open List

abbrev Uuid := Nat

inductive SignalName where
  | dummy
  | metrics
  | logs
  | traces
  | profiles
  deriving DecidableEq

structure BlockMeta where
  uuid : Uuid
  signal : SignalName
  writerId : Uuid
  tsMinUnixNano : Nat
  tsMaxUnixNano : Nat
  rowCount : Nat
  byteSize : Nat
  schemaVersion : Nat
  level : Nat
  compactedFrom : List Uuid
  walSegMax : Option Nat
  walShard : Option Nat
  deriving DecidableEq

def maxCompactedAncestors : Nat := 584

def maxCompactedAncestryBytes : Nat := 24 * 1024

inductive AncestryError where
  | noDirectInputs
  | compactsItself (output : Uuid)
  | duplicateInput (input : Uuid)
  | inputInOwnAncestry (input : Uuid)
  | outputInAncestry (input output : Uuid)
  | unsortedAncestry (input : Uuid)
  | tooManyAncestors
  | encodedTooLong
  deriving DecidableEq

/-- `ancestors.windows(2).any(|pair| pair[0] >= pair[1])` -/
def unsortedOrDuplicate : List Uuid → Bool
  | a :: b :: rest => decide (a ≥ b) || unsortedOrDuplicate (b :: rest)
  | _ => false

/-- 36 characters and two quotes for each of `n` UUIDs, commas and brackets. -/
def encodedAncestryLen (n : Nat) : Nat := 2 + 38 * n + (n - 1)

/-- `HashSet::insert` and `extend`, over a list without duplicates. -/
def addAll (closure : List Uuid) (us : List Uuid) : List Uuid :=
  us.foldl (fun acc u => if u ∈ acc then acc else acc ++ [u]) closure

def ancestrySet (inputs : List BlockMeta) : List Uuid :=
  inputs.foldl (fun closure input => addAll closure (input.uuid :: input.compactedFrom)) []

def addInput (outputUuid : Uuid) (acc : List Uuid × List Uuid) (input : BlockMeta) :
    Except AncestryError (List Uuid × List Uuid) :=
  let (direct, closure) := acc
  if input.uuid = outputUuid then .error (.compactsItself outputUuid)
  else if input.uuid ∈ direct then .error (.duplicateInput input.uuid)
  else if input.uuid ∈ input.compactedFrom then .error (.inputInOwnAncestry input.uuid)
  else if outputUuid ∈ input.compactedFrom then .error (.outputInAncestry input.uuid outputUuid)
  else if unsortedOrDuplicate input.compactedFrom then .error (.unsortedAncestry input.uuid)
  else
    let closure' := addAll closure (input.uuid :: input.compactedFrom)
    if maxCompactedAncestors < closure'.length then .error .tooManyAncestors
    else .ok (input.uuid :: direct, closure')

def compactedAncestorClosure (outputUuid : Uuid) (inputs : List BlockMeta) :
    Except AncestryError (List Uuid) := do
  if inputs = [] then throw .noDirectInputs
  let (_, closure) ← inputs.foldlM (addInput outputUuid) ([], [])
  let ancestors := closure.insertionSort (· ≤ ·)
  if maxCompactedAncestryBytes < encodedAncestryLen ancestors.length then throw .encodedTooLong
  return ancestors

/-! ## The hash set -/

theorem addAll_cons (closure : List Uuid) (u : Uuid) (us : List Uuid) :
    addAll closure (u :: us) = addAll (if u ∈ closure then closure else closure ++ [u]) us := rfl

theorem mem_addAll (closure us : List Uuid) (x : Uuid) : x ∈ addAll closure us ↔ x ∈ closure ∨ x ∈ us := by
  induction us generalizing closure with
  | nil => simp [addAll]
  | cons u us ih =>
    rw [addAll_cons, ih, mem_cons]
    split
    · rename_i hu
      constructor
      · rintro (hx | hx)
        · exact .inl hx
        · exact .inr (.inr hx)
      · rintro (hx | rfl | hx)
        · exact .inl hx
        · exact .inl hu
        · exact .inr hx
    · simp only [mem_append, mem_singleton, or_assoc]

theorem addAll_nodup (closure us : List Uuid) (h : closure.Nodup) : (addAll closure us).Nodup := by
  induction us generalizing closure with
  | nil => exact h
  | cons u us ih =>
    rw [addAll_cons]
    split
    · exact ih closure h
    · rename_i hu
      refine ih _ ?_
      rw [nodup_append]
      refine ⟨h, nodup_singleton u, ?_⟩
      intro a ha b hb
      rw [mem_singleton] at hb
      subst hb
      rintro rfl
      exact hu ha

/-! ## The closure -/

structure Accepted (outputUuid : Uuid) (inputs : List BlockMeta) (direct closure : List Uuid) : Prop where
  mem_direct : ∀ u, u ∈ direct ↔ ∃ i ∈ inputs, i.uuid = u
  mem_closure : ∀ u, u ∈ closure ↔ ∃ i ∈ inputs, u = i.uuid ∨ u ∈ i.compactedFrom
  nodup : closure.Nodup
  output_fresh : ∀ i ∈ inputs, i.uuid ≠ outputUuid ∧ outputUuid ∉ i.compactedFrom
  irrefl : ∀ i ∈ inputs, i.uuid ∉ i.compactedFrom
  length_le : closure.length ≤ maxCompactedAncestors

variable {acc : List Uuid × List Uuid} {closure direct : List Uuid} {outputUuid : Uuid}
  {inputs : List BlockMeta}

variable {input : BlockMeta}

theorem addInput_ok (h : addInput outputUuid (direct, closure) input = .ok acc) : input.uuid ≠
    outputUuid ∧ input.uuid ∉ direct ∧ input.uuid ∉ input.compactedFrom ∧ outputUuid ∉ input.compactedFrom ∧
    unsortedOrDuplicate input.compactedFrom = false ∧ (addAll closure (input.uuid :: input.compactedFrom)).length ≤
    maxCompactedAncestors ∧ acc = (input.uuid :: direct, addAll closure (input.uuid :: input.compactedFrom)) := by
  simp only [addInput] at h
  split at h <;> rename_i h1
  · cases h
  split at h <;> rename_i h2
  · cases h
  split at h <;> rename_i h3
  · cases h
  split at h <;> rename_i h4
  · cases h
  split at h <;> rename_i h5
  · cases h
  split at h <;> rename_i h6
  · cases h
  cases h
  exact ⟨h1, h2, h3, h4, by simpa using h5, Nat.not_lt.mp h6, rfl⟩

theorem accepted_nil (outputUuid : Uuid) : Accepted outputUuid [] [] [] := by
  constructor <;> simp

theorem Accepted.snoc (ha : Accepted outputUuid inputs direct closure)
    (h : addInput outputUuid (direct, closure) input = .ok acc) :
    Accepted outputUuid (inputs ++ [input]) acc.1 acc.2 := by
  obtain ⟨h1, -, h3, h4, -, h6, rfl⟩ := addInput_ok h
  refine ⟨?_, ?_, addAll_nodup _ _ ha.nodup, ?_, ?_, h6⟩
  · intro u
    rw [mem_cons, ha.mem_direct]
    simp only [mem_append, mem_singleton, or_and_right, exists_or, exists_eq_left]
    rw [or_comm, eq_comm]
  · intro u
    rw [mem_addAll, ha.mem_closure, mem_cons]
    simp only [mem_append, mem_singleton, or_and_right, exists_or, exists_eq_left]
  · intro i hi
    rcases mem_append.mp hi with hi | hi
    · exact ha.output_fresh i hi
    · rw [mem_singleton] at hi
      subst hi
      exact ⟨h1, h4⟩
  · intro i hi
    rcases mem_append.mp hi with hi | hi
    · exact ha.irrefl i hi
    · rw [mem_singleton] at hi
      subst hi
      exact h3

variable {done : List BlockMeta}

theorem foldlM_addInput_ok (ha : Accepted outputUuid done direct closure)
    (h : inputs.foldlM (addInput outputUuid) (direct, closure) = .ok acc) :
    Accepted outputUuid (done ++ inputs) acc.1 acc.2 := by
  induction inputs generalizing done direct closure with
  | nil =>
    cases h
    simpa using ha
  | cons input inputs ih =>
    rw [foldlM_cons] at h
    cases hi : addInput outputUuid (direct, closure) input with
    | error e => rw [hi] at h; cases h
    | ok acc' =>
      rw [hi] at h
      have := ih (ha.snoc hi) h
      rwa [append_assoc] at this

variable {cf : List Uuid}

theorem compactedAncestorClosure_ok (h : compactedAncestorClosure outputUuid inputs = .ok cf) :
    ∃ direct closure, Accepted outputUuid inputs direct closure ∧ cf = closure.insertionSort (· ≤ ·) ∧ inputs ≠
    [] := by
  unfold compactedAncestorClosure at h
  split at h
  · cases h
  rename_i hne
  cases hf : inputs.foldlM (addInput outputUuid) ([], []) with
  | error e => rw [hf] at h; cases h
  | ok acc =>
    rw [hf] at h
    have ha := foldlM_addInput_ok (accepted_nil outputUuid) hf
    simp only [Except.bind, bind] at h
    split at h
    · cases h
    · cases h
      exact ⟨acc.1, acc.2, by simpa using ha, rfl, hne⟩

/-! ## What is accepted -/

theorem ancestrySet_snoc (inputs : List BlockMeta) (input : BlockMeta) : ancestrySet (inputs ++ [input]) = addAll
    (ancestrySet inputs) (input.uuid :: input.compactedFrom) := by
  simp [ancestrySet]

theorem mem_ancestrySet (inputs : List BlockMeta) (u : Uuid) :
    u ∈ ancestrySet inputs ↔ ∃ i ∈ inputs, u = i.uuid ∨ u ∈ i.compactedFrom := by
  induction inputs using reverseRecOn with
  | nil => simp [ancestrySet]
  | append_singleton inputs input ih =>
    rw [ancestrySet_snoc, mem_addAll, ih, mem_cons]
    simp only [mem_append, mem_singleton, or_and_right, exists_or, exists_eq_left]

theorem nodup_ancestrySet (inputs : List BlockMeta) : (ancestrySet inputs).Nodup := by
  induction inputs using reverseRecOn with
  | nil => exact nodup_nil
  | append_singleton inputs input ih =>
    rw [ancestrySet_snoc]
    exact addAll_nodup _ _ ih

theorem ancestrySet_length_le (inputs rest : List BlockMeta) :
    (ancestrySet inputs).length ≤ (ancestrySet (inputs ++ rest)).length := by
  apply List.Subperm.length_le
  apply subperm_of_subset (nodup_ancestrySet inputs)
  intro u hu
  rw [mem_ancestrySet] at hu ⊢
  obtain ⟨i, hi, hor⟩ := hu
  exact ⟨i, mem_append_left _ hi, hor⟩

theorem Accepted.length_eq (h : Accepted outputUuid inputs direct closure) :
    closure.length = (ancestrySet inputs).length := by
  apply List.Perm.length_eq
  rw [perm_ext_iff_of_nodup h.nodup (nodup_ancestrySet inputs)]
  intro u
  rw [h.mem_closure, mem_ancestrySet]

structure Mergeable (outputUuid : Uuid) (inputs : List BlockMeta) : Prop where
  uuid_nodup : (inputs.map BlockMeta.uuid).Nodup
  output_fresh : ∀ i ∈ inputs, i.uuid ≠ outputUuid ∧ outputUuid ∉ i.compactedFrom
  irrefl : ∀ i ∈ inputs, i.uuid ∉ i.compactedFrom
  sorted : ∀ i ∈ inputs, unsortedOrDuplicate i.compactedFrom = false

theorem addInput_of_mergeable
    (hm : Mergeable outputUuid (done ++ input :: inputs)) (ha : Accepted outputUuid done direct closure)
    (hlen : (ancestrySet (done ++ [input])).length ≤ maxCompactedAncestors) :
    ∃ acc, addInput outputUuid (direct, closure) input = .ok acc := by
  have hmem : input ∈ done ++ input :: inputs := by simp
  have hclosure : (addAll closure (input.uuid :: input.compactedFrom)).length =
      (ancestrySet (done ++ [input])).length := by
    apply List.Perm.length_eq
    rw [perm_ext_iff_of_nodup (addAll_nodup _ _ ha.nodup) (nodup_ancestrySet _)]
    intro u
    rw [mem_addAll, ancestrySet_snoc, mem_addAll, ha.mem_closure, mem_ancestrySet]
  have hdir : input.uuid ∉ direct := by
    rw [ha.mem_direct]
    rintro ⟨i, hi, heq⟩
    have hnodup := hm.uuid_nodup
    rw [map_append, nodup_append] at hnodup
    exact hnodup.2.2 _ (mem_map_of_mem hi) _ (mem_map_of_mem mem_cons_self) heq
  refine ⟨(input.uuid :: direct, addAll closure (input.uuid :: input.compactedFrom)), ?_⟩
  simp only [addInput]
  rw [if_neg (hm.output_fresh input hmem).1, if_neg hdir, if_neg (hm.irrefl input hmem),
    if_neg (hm.output_fresh input hmem).2, if_neg (by simp [hm.sorted input hmem]), if_neg (by omega)]

theorem foldlM_addInput_of_mergeable (hm : Mergeable outputUuid (done ++ inputs))
    (ha : Accepted outputUuid done direct closure) (hlen : (ancestrySet (done ++ inputs)).length ≤
    maxCompactedAncestors) : ∃ acc, inputs.foldlM (addInput outputUuid) (direct, closure) = .ok acc := by
  induction inputs generalizing done direct closure with
  | nil => exact ⟨_, rfl⟩
  | cons input inputs ih =>
    have hassoc : done ++ input :: inputs = (done ++ [input]) ++ inputs := by simp
    have hprefix : (ancestrySet (done ++ [input])).length ≤ maxCompactedAncestors := by
      rw [hassoc] at hlen
      exact Nat.le_trans (ancestrySet_length_le _ inputs) hlen
    obtain ⟨acc, hacc⟩ := addInput_of_mergeable hm ha hprefix
    rw [foldlM_cons, hacc]
    rw [hassoc] at hm hlen
    exact ih hm (ha.snoc hacc) hlen

theorem encodedAncestryLen_le {n : Nat} (h : n ≤ maxCompactedAncestors) :
    encodedAncestryLen n ≤ maxCompactedAncestryBytes := by
  unfold encodedAncestryLen maxCompactedAncestryBytes
  unfold maxCompactedAncestors at h
  omega

theorem compactedAncestorClosure_isOk_iff (hm : Mergeable outputUuid inputs) :
    (∃ cf, compactedAncestorClosure outputUuid inputs = .ok cf) ↔
      inputs ≠ [] ∧ (ancestrySet inputs).length ≤ maxCompactedAncestors := by
  constructor
  · rintro ⟨cf, hcf⟩
    obtain ⟨direct, closure, hacc, -, hne⟩ := compactedAncestorClosure_ok hcf
    exact ⟨hne, hacc.length_eq ▸ hacc.length_le⟩
  · rintro ⟨hne, hlen⟩
    obtain ⟨acc, hfold⟩ := foldlM_addInput_of_mergeable hm (accepted_nil outputUuid) hlen
    have hacc := foldlM_addInput_ok (accepted_nil outputUuid) hfold
    have henc : ¬ maxCompactedAncestryBytes <
        encodedAncestryLen (acc.2.insertionSort (· ≤ ·)).length := by
      rw [Nat.not_lt, length_insertionSort]
      exact encodedAncestryLen_le hacc.length_le
    refine ⟨acc.2.insertionSort (· ≤ ·), ?_⟩
    unfold compactedAncestorClosure
    rw [if_neg hne, hfold]
    simp only [Except.bind, bind]
    rw [if_neg henc]
    rfl

/-! ## Order -/

theorem unsortedOrDuplicate_iff (l : List Uuid) : unsortedOrDuplicate l = false ↔ l.Pairwise (· < ·) := by
  rw [← isChain_iff_pairwise]
  induction l with
  | nil => simp [unsortedOrDuplicate]
  | cons a l ih =>
    cases l with
    | nil => simp [unsortedOrDuplicate]
    | cons b l =>
      rw [unsortedOrDuplicate, Bool.or_eq_false_iff, ih, isChain_cons_cons]
      simp

theorem compactedAncestorClosure_eq {cf l : List Uuid} (hcf : compactedAncestorClosure outputUuid inputs = .ok cf)
    (hl : l.Pairwise (· < ·)) (hmem : ∀ u, u ∈ l ↔ ∃ i ∈ inputs, u = i.uuid ∨ u ∈ i.compactedFrom) : cf = l := by
  obtain ⟨direct, closure, hacc, rfl, -⟩ := compactedAncestorClosure_ok hcf
  apply List.Perm.eq_of_pairwise ?_ (pairwise_insertionSort _ _)
    (hl.imp fun h => Nat.le_of_lt h)
  · refine (perm_insertionSort _ _).trans ?_
    rw [perm_ext_iff_of_nodup hacc.nodup (hl.imp fun h => Nat.ne_of_lt h)]
    intro u
    rw [hacc.mem_closure, hmem]
  · intro a b _ _ hab hba
    exact Nat.le_antisymm hab hba

theorem compactedAncestorClosure_sorted (hcf : compactedAncestorClosure outputUuid inputs = .ok cf) :
    unsortedOrDuplicate cf = false := by
  obtain ⟨direct, closure, hacc, rfl, -⟩ := compactedAncestorClosure_ok hcf
  rw [unsortedOrDuplicate_iff]
  have hle := pairwise_insertionSort (· ≤ ·) closure
  have hne : (closure.insertionSort (· ≤ ·)).Pairwise (· ≠ ·) :=
    (perm_insertionSort _ closure).nodup_iff.mpr hacc.nodup
  exact (hle.and hne).imp fun h => Nat.lt_of_le_of_ne h.1 h.2

end Scry.Block
