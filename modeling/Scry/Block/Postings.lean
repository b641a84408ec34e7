import Mathlib.Data.String.Basic
import Scry.Lib.KeyedUnion
import Scry.Lib.Sorting
import Scry.Lib.Table

/-! # Postings

One row a label pair, with the fingerprints that carry it; only the order of fingerprints is looked at.
-/

open Scry.Lib

namespace Scry.Block

open List Table

/-- A `(String, String)`, in the order of tuples. -/
abbrev LabelPair := String ×ₗ String

abbrev PostingsEntry := LabelPair × List Nat

variable (drain : List PostingsEntry → List PostingsEntry) (inv : PostingsMap) (entries : List PostingsEntry)

/-- `postings_record_batch`: the offsets of the list column are `i32`. -/
def postingsRecordBatch : Option (List PostingsEntry) :=
  if (entries.map fun e => e.2.length).sum < 2 ^ 31 then some entries else none

abbrev PostingsMap := Table LabelPair PostingsEntry Prod.fst

/-- `inv.entry(key).or_default().extend(fps)` -/
def PostingsMap.extend (inv : PostingsMap) (entry : PostingsEntry) : PostingsMap :=
  inv.upsert entry (fun _ => true) (fun row => (row.1, row.2 ++ entry.2)) fun _ => rfl

def mergePostingsInto : PostingsMap :=
  entries.foldl PostingsMap.extend inv

/-- `drain` is the order in which the map is iterated. -/
def finishPostingsMerge : List PostingsEntry :=
  (sortBy Prod.fst (drain inv.rows)).map fun row => (row.1, sortDedup row.2)

def mergePostings (sets : List (List PostingsEntry)) :
    List PostingsEntry :=
  finishPostingsMerge drain (sets.foldl mergePostingsInto Table.empty)

/-! ## The merge is the union -/

structure Gathers (entries : List PostingsEntry) (inv : PostingsMap) : Prop where
  key_iff : ∀ k, (∃ row ∈ inv.rows, row.1 = k) ↔ ∃ e ∈ entries, e.1 = k
  value_iff : ∀ row ∈ inv.rows, ∀ fp, fp ∈ row.2 ↔ ∃ e ∈ entries, e.1 = row.1 ∧ fp ∈ e.2

theorem mem_rows_extend {inv : PostingsMap} {entry row : PostingsEntry} : row ∈ (inv.extend entry).rows ↔
    (row.1 ≠ entry.1 ∧ row ∈ inv.rows) ∨ (∃ old ∈ inv.rows, old.1 = entry.1 ∧ row = (old.1, old.2 ++ entry.2)) ∨
    ((∀ old ∈ inv.rows, old.1 ≠ entry.1) ∧ row = entry) := by
  rw [mem_rows_iff, PostingsMap.extend]
  by_cases hkey : entry.1 = row.1
  · rw [lookup_upsert_self hkey]
    cases hold : inv.lookup row.1 with
    | none =>
      have hfresh : ∀ old ∈ inv.rows, old.1 ≠ entry.1 := by
        intro old hmem heq
        exact (lookup_eq_none_iff _ _).mp hold (mem_map.mpr ⟨old, hmem, heq.trans hkey⟩)
      constructor
      · intro h
        exact .inr (.inr ⟨hfresh, (Option.some.inj h).symm⟩)
      · rintro (⟨hne, -⟩ | ⟨old, hmem, heq, -⟩ | ⟨-, rfl⟩)
        · exact absurd hkey.symm hne
        · exact absurd heq (hfresh old hmem)
        · rfl
    | some old =>
      have hmem := mem_of_lookup hold
      have hold1 : old.1 = row.1 := key_of_lookup hold
      constructor
      · intro h
        exact .inr (.inl ⟨old, hmem, hold1.trans hkey.symm, (Option.some.inj h).symm⟩)
      · rintro (⟨hne, -⟩ | ⟨other, hother, heq, hrow⟩ | ⟨hfresh, -⟩)
        · exact absurd hkey.symm hne
        · have hlook := lookup_of_mem hother
          rw [heq, hkey, hold] at hlook
          rw [Option.some.inj hlook, hrow]
          rfl
        · exact absurd (hold1.trans hkey.symm) (hfresh old hmem)
  · rw [lookup_upsert_other hkey, ← mem_rows_iff]
    constructor
    · exact fun h => .inl ⟨Ne.symm hkey, h⟩
    · rintro (⟨-, h⟩ | ⟨old, -, heq, rfl⟩ | ⟨-, rfl⟩)
      · exact h
      · exact absurd heq.symm hkey
      · exact absurd rfl hkey

namespace Gathers

variable {entries : List PostingsEntry} {inv : PostingsMap}

theorem empty : Gathers [] Table.empty where
  key_iff k := by simp [Table.empty]
  value_iff := forall_mem_nil _

theorem extend (h : Gathers entries inv) (entry : PostingsEntry) :
    Gathers (entries ++ [entry]) (inv.extend entry) := by
  have hexists (P : PostingsEntry → Prop) : (∃ e ∈ entries ++ [entry], P e) ↔ (∃ e ∈ entries, P e) ∨ P entry := by
    simp [or_and_right, exists_or]
  constructor
  · intro k
    rw [hexists, ← h.key_iff]
    constructor
    · rintro ⟨row, hrow, rfl⟩
      rcases mem_rows_extend.mp hrow with ⟨-, hmem⟩ | ⟨old, -, heq, rfl⟩ | ⟨-, rfl⟩
      · exact .inl ⟨row, hmem, rfl⟩
      · exact .inr heq.symm
      · exact .inr rfl
    · intro hk
      by_cases hkey : k = entry.1
      · by_cases hold : ∃ old ∈ inv.rows, old.1 = entry.1
        · obtain ⟨old, hmem, heq⟩ := hold
          exact ⟨_, mem_rows_extend.mpr (.inr (.inl ⟨old, hmem, heq, rfl⟩)), heq.trans hkey.symm⟩
        · refine ⟨entry, mem_rows_extend.mpr (.inr (.inr ⟨?_, rfl⟩)), hkey.symm⟩
          exact fun old hmem heq => hold ⟨old, hmem, heq⟩
      · obtain ⟨row, hmem, rfl⟩ := hk.resolve_right (Ne.symm hkey)
        exact ⟨row, mem_rows_extend.mpr (.inl ⟨hkey, hmem⟩), rfl⟩
  · intro row hrow fp
    rw [hexists]
    rcases mem_rows_extend.mp hrow with ⟨hne, hmem⟩ | ⟨old, hmem, heq, rfl⟩ | ⟨hfresh, rfl⟩
    · rw [h.value_iff row hmem]
      exact ⟨.inl, fun hfp => hfp.resolve_right fun hentry => hne hentry.1.symm⟩
    · rw [mem_append, h.value_iff old hmem]
      simp [heq]
    · constructor
      · exact fun hfp => .inr ⟨rfl, hfp⟩
      · rintro (⟨e, he, heq, -⟩ | ⟨-, hfp⟩)
        · obtain ⟨old, hmem, hold⟩ := (h.key_iff row.1).mpr ⟨e, he, heq⟩
          exact absurd hold (hfresh old hmem)
        · exact hfp

theorem mergePostingsInto (h : Gathers entries inv) (set : List PostingsEntry) :
    Gathers (entries ++ set) (mergePostingsInto inv set) := by
  induction set generalizing entries inv with
  | nil => rwa [append_nil]
  | cons e set ih =>
    have hrest := ih (h.extend e)
    rwa [append_assoc] at hrest

theorem foldl (h : Gathers entries inv) (sets : List (List PostingsEntry)) :
    Gathers (entries ++ sets.flatten) (sets.foldl Block.mergePostingsInto inv) := by
  induction sets generalizing entries inv with
  | nil => rwa [flatten_nil, append_nil]
  | cons set sets ih =>
    have hrest := ih (h.mergePostingsInto set)
    rwa [append_assoc] at hrest

end Gathers

theorem mergePostings_isUnion {drain : List PostingsEntry → List PostingsEntry} (hdrain : ∀ l, (drain l).Perm l)
    (sets : List (List PostingsEntry)) : IsUnion sets (mergePostings drain sets) := by
  have h := Gathers.empty.foldl sets
  unfold mergePostings finishPostingsMerge
  generalize sets.foldl mergePostingsInto Table.empty = inv at h
  rw [nil_append] at h
  have hperm := (sortBy_perm Prod.fst (drain inv.rows)).trans (hdrain inv.rows)
  have hflat (P : PostingsEntry → Prop) : (∃ e ∈ sets.flatten, P e) ↔ ∃ set ∈ sets, ∃ e ∈ set, P e := by
    simp only [mem_flatten]
    constructor
    · rintro ⟨e, ⟨set, hset, he⟩, hP⟩
      exact ⟨set, hset, e, he, hP⟩
    · rintro ⟨set, hset, e, he, hP⟩
      exact ⟨e, ⟨set, hset, he⟩, hP⟩
  constructor
  · rw [pairwise_map]
    have hnodup := (hperm.map _).nodup_iff.mpr inv.nodup
    exact (pairwise_sortBy Prod.fst (drain inv.rows)).imp₂ (fun _ _ hle hne => lt_of_le_of_ne hle hne)
      (pairwise_map.mp hnodup)
  · intro k
    rw [← hflat, ← h.key_iff]
    simp only [mem_map, exists_exists_and_eq_and, hperm.mem_iff]
  · intro row hrow
    obtain ⟨old, -, rfl⟩ := mem_map.mp hrow
    exact pairwise_sortDedup old.2
  · intro row hrow fp
    obtain ⟨old, hold, rfl⟩ := mem_map.mp hrow
    rw [mem_sortDedup, h.value_iff old (hperm.mem_iff.mp hold), hflat]

/-- **Postings can be merged in stages**, in any groups and with any iteration orders of the maps. -/
theorem mergePostings_flatten (d₁ d₂ d₃ : {d : List PostingsEntry → List PostingsEntry // ∀ l, (d l).Perm l})
    (parts : List (List (List PostingsEntry))) :
    mergePostings d₁.1 (parts.map (mergePostings d₂.1)) = mergePostings d₃.1 parts.flatten :=
  (IsUnion.flatten (mergePostings_isUnion d₂.2) (mergePostings_isUnion d₁.2 _)).unique (mergePostings_isUnion d₃.2 _)

end Scry.Block
