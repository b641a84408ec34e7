import Mathlib.Algebra.GroupWithZero.Nat
import Mathlib.Algebra.Ring.Int.Defs
import Mathlib.Data.List.Sort
import Mathlib.Data.List.Destutter
import Mathlib.Data.Prod.Lex

/-! # Unions of keyed lists

One row a key, in the order of the keys, with the values of all entries of the key.
-/

namespace Scry.Lib

open List

variable {κ ν : Type} [LinearOrder κ] [LinearOrder ν]

/-! ## Values in order -/

/-- `sort` and `dedup` -/
def sortDedup (l : List ν) : List ν := (l.insertionSort (· ≤ ·)).destutter (· ≠ ·)

theorem mem_destutter_ne {l : List ν} {a : ν} : a ∈ l.destutter (· ≠ ·) ↔ a ∈ l := by
  have hfrom (x : ν) (l : List ν) : a ∈ l.destutter' (· ≠ ·) x ↔ a = x ∨ a ∈ l := by
    induction l generalizing x with
    | nil => simp
    | cons y l ih =>
      rw [destutter'_cons]
      split
      next h => rw [mem_cons, ih, mem_cons]
      next h => rw [ih, not_not.mp h, mem_cons, ← or_assoc, or_self]
  cases l with
  | nil => rfl
  | cons x l => rw [destutter_cons', hfrom, mem_cons]

theorem mem_sortDedup {l : List ν} {a : ν} : a ∈ sortDedup l ↔ a ∈ l := by
  rw [sortDedup, mem_destutter_ne, mem_insertionSort]

theorem pairwise_sortDedup (l : List ν) : (sortDedup l).Pairwise (· < ·) := by
  have hle : (sortDedup l).Pairwise (· ≤ ·) :=
    (pairwise_insertionSort (· ≤ ·) l).sublist (destutter_sublist _ _)
  have hne : (sortDedup l).IsChain (· ≠ ·) := isChain_destutter _ _
  have hlt : (sortDedup l).IsChain (· < ·) := by
    rw [isChain_iff_getElem] at hne ⊢
    intro i hi
    exact lt_of_le_of_ne (isChain_iff_getElem.mp hle.isChain i hi) (hne i hi)
  exact hlt.pairwise

/-! ## The front of a list in order -/

section Front

variable {α : Type} {R : α → α → Prop} {p : α → Bool} {l : List α}

theorem span_eq_filter (hp : ∀ a ∈ l, ∀ b ∈ l, R a b → p b → p a) (h : l.Pairwise R) :
    l.takeWhile p = l.filter p ∧ l.dropWhile p = l.filter fun a => !p a := by
  induction h with
  | nil => exact ⟨rfl, rfl⟩
  | @cons a l hall _ ih =>
    obtain ⟨htake, hdrop⟩ :=
      ih fun a ha b hb => hp a (mem_cons_of_mem _ ha) b (mem_cons_of_mem _ hb)
    by_cases ha : p a
    · simp [ha, htake, hdrop]
    · have hnone (b : α) (hb : b ∈ l) : ¬ p b := fun hpb =>
        ha (hp a mem_cons_self b (mem_cons_of_mem _ hb) (hall b hb) hpb)
      have hrest : l.filter (fun a => !p a) = l := filter_eq_self.mpr fun b hb => by simp [hnone b hb]
      simp [ha, filter_eq_nil_iff.mpr hnone, hrest]

end Front

/-! ## The union -/

/-- `rows` is the union of the entries of `sets`. -/
structure IsUnion (sets : List (List (κ × List ν))) (rows : List (κ × List ν)) : Prop where
  keys_sorted : rows.Pairwise fun r r' => r.1 < r'.1
  key_iff : ∀ k, (∃ row ∈ rows, row.1 = k) ↔ ∃ set ∈ sets, ∃ e ∈ set, e.1 = k
  values_sorted : ∀ row ∈ rows, row.2.Pairwise (· < ·)
  value_iff : ∀ row ∈ rows, ∀ v, v ∈ row.2 ↔ ∃ set ∈ sets, ∃ e ∈ set, e.1 = row.1 ∧ v ∈ e.2

namespace IsUnion

variable {sets : List (List (κ × List ν))} {rows rows' : List (κ × List ν)}

theorem mem_of_mem (h : IsUnion sets rows) (h' : IsUnion sets rows') {row : κ × List ν} (hrow : row ∈ rows) :
    row ∈ rows' := by
  obtain ⟨row', hrow', hkey⟩ := (h'.key_iff row.1).mpr ((h.key_iff row.1).mp ⟨row, hrow, rfl⟩)
  have hvalues : row.2 = row'.2 :=
    (h.values_sorted row hrow).eq_of_mem_iff (h'.values_sorted row' hrow') fun v => by
      rw [h.value_iff row hrow, h'.value_iff row' hrow', hkey]
  rwa [Prod.ext hkey.symm hvalues]

theorem unique (h : IsUnion sets rows) (h' : IsUnion sets rows') : rows = rows' := by
  have hanti : Std.Antisymm fun r r' : κ × List ν => r.1 < r'.1 := ⟨fun _ _ hab hba => absurd hab hba.asymm⟩
  have hirrefl : Std.Irrefl fun r r' : κ × List ν => r.1 < r'.1 := ⟨fun _ => lt_irrefl _⟩
  exact h.keys_sorted.eq_of_mem_iff h'.keys_sorted fun row => ⟨h.mem_of_mem h', h'.mem_of_mem h⟩

theorem nil (h : ∀ set ∈ sets, set = []) : IsUnion sets [] where
  keys_sorted := List.Pairwise.nil
  key_iff k := by
    constructor
    · rintro ⟨row, hrow, -⟩
      exact absurd hrow not_mem_nil
    · rintro ⟨set, hset, e, he, -⟩
      exact absurd (h set hset ▸ he) not_mem_nil
  values_sorted := forall_mem_nil _
  value_iff := forall_mem_nil _

theorem cons {k : κ} {vs : List ν} (hleast : ∀ set ∈ sets, ∀ e ∈ set, k ≤ e.1)
    (hkey : ∃ set ∈ sets, ∃ e ∈ set, e.1 = k) (hvs : ∀ v, v ∈ vs ↔ ∃ set ∈ sets, ∃ e ∈ set, e.1 = k ∧ v ∈ e.2)
    (h : IsUnion (sets.map (filter (k < ·.1))) rows) : IsUnion sets ((k, sortDedup vs) :: rows) := by
  have hbehind (P : κ × List ν → Prop) :
      (∃ set ∈ sets.map (filter (k < ·.1)), ∃ e ∈ set, P e) ↔ ∃ set ∈ sets, ∃ e ∈ set, k < e.1 ∧ P e := by
    simp only [mem_map, exists_exists_and_eq_and, mem_filter, decide_eq_true_eq, and_assoc]
  have hrows : ∀ row ∈ rows, k < row.1 := by
    intro row hrow
    obtain ⟨set, hset, e, he, hlt, hrow⟩ := (hbehind _).mp ((h.key_iff row.1).mp ⟨row, hrow, rfl⟩)
    exact hrow ▸ hlt
  refine ⟨pairwise_cons.mpr ⟨hrows, h.keys_sorted⟩, fun k' => ?_, ?_, ?_⟩
  · simp only [exists_mem_cons_iff, h.key_iff, hbehind]
    constructor
    · rintro (rfl | ⟨set, hset, e, he, -, rfl⟩)
      · exact hkey
      · exact ⟨set, hset, e, he, rfl⟩
    · rintro ⟨set, hset, e, he, rfl⟩
      rcases (hleast set hset e he).eq_or_lt with heq | hlt
      · exact .inl heq
      · exact .inr ⟨set, hset, e, he, hlt, rfl⟩
  · exact forall_mem_cons.mpr ⟨pairwise_sortDedup vs, h.values_sorted⟩
  · refine forall_mem_cons.mpr ⟨fun v => mem_sortDedup.trans (hvs v), fun row hrow v => ?_⟩
    rw [h.value_iff row hrow, hbehind]
    constructor
    · rintro ⟨set, hset, e, he, -, hmem⟩
      exact ⟨set, hset, e, he, hmem⟩
    · rintro ⟨set, hset, e, he, hmem⟩
      exact ⟨set, hset, e, he, hmem.1 ▸ hrows row hrow, hmem⟩

theorem flatten {parts : List (List (List (κ × List ν)))} {f : List (List (κ × List ν)) → List (κ × List ν)}
    (hf : ∀ part, IsUnion part (f part)) (h : IsUnion (parts.map f) rows) : IsUnion parts.flatten rows where
  keys_sorted := h.keys_sorted
  key_iff k := by
    simp only [h.key_iff, mem_map, exists_exists_and_eq_and, (hf _).key_iff, mem_flatten]
    grind
  values_sorted := h.values_sorted
  value_iff row hrow v := by
    simp only [h.value_iff row hrow, mem_map, exists_exists_and_eq_and, mem_flatten]
    constructor
    · rintro ⟨part, hpart, e, he, hkey, hv⟩
      obtain ⟨set, hset, hmem⟩ := ((hf part).value_iff e he v).mp hv
      exact ⟨set, ⟨part, hpart, hset⟩, hkey ▸ hmem⟩
    · rintro ⟨set, ⟨part, hpart, hset⟩, e, he, hkey, hv⟩
      obtain ⟨r, hr, hrow⟩ := ((hf part).key_iff row.1).mpr ⟨set, hset, e, he, hkey⟩
      exact ⟨part, hpart, r, hr, hrow, ((hf part).value_iff r hr v).mpr ⟨set, hset, e, he, hkey.trans hrow.symm, hv⟩⟩

end IsUnion

end Scry.Lib
