import Mathlib.Data.List.Sort
import Mathlib.Data.List.Nodup
import Mathlib.Data.Prod.Lex
import Scry.Lib.Effects

/-! # Sorting by a key, and lists without repeated keys

A list sorted by a key that tells its members apart depends only on what is in it.
-/

namespace Scry.Lib

open List

variable {α κ ε : Type}

section Order

variable [LinearOrder κ] (key : α → κ)

def sortBy (l : List α) : List α := l.insertionSort fun a b => key a ≤ key b

theorem sortBy_perm (l : List α) : (sortBy key l).Perm l := perm_insertionSort _ l

theorem mem_sortBy {l : List α} {a : α} : a ∈ sortBy key l ↔ a ∈ l := (sortBy_perm key l).mem_iff

theorem pairwise_sortBy (l : List α) : (sortBy key l).Pairwise fun a b => key a ≤ key b := by
  have htotal : Std.Total fun a b : α => key a ≤ key b := ⟨fun a b => le_total (key a) (key b)⟩
  have htrans : IsTrans α fun a b => key a ≤ key b := ⟨fun _ _ _ => le_trans⟩
  exact pairwise_insertionSort _ l

theorem sortBy_eq_of_perm {l l' : List α} (h : l.Perm l')
    (hinj : ∀ a ∈ l, ∀ b ∈ l, key a = key b → a = b) : sortBy key l = sortBy key l' := by
  refine List.Perm.eq_of_pairwise (fun a b ha hb hab hba => ?_) (pairwise_sortBy key l)
    (pairwise_sortBy key l') ((sortBy_perm key l).trans (h.trans (sortBy_perm key l').symm))
  exact hinj a ((mem_sortBy key).mp ha) b (h.mem_iff.mpr ((mem_sortBy key).mp hb)) (le_antisymm hab hba)

end Order

section Related

variable {β : Type} {R : α → β → Prop} {r : α → α → Prop} {r' : β → β → Prop} [DecidableRel r] [DecidableRel r']

variable {l' : List β}

theorem forall₂_orderedInsert (hr : ∀ a b a' b', R a a' → R b b' → (r a b ↔ r' a' b')) {l : List α}
    (h : List.Forall₂ R l l') {a : α} {a' : β} (ha : R a a') :
    List.Forall₂ R (l.orderedInsert r a) (l'.orderedInsert r' a') := by
  induction h with
  | nil => exact .cons ha .nil
  | cons hb hrest ih =>
    simp only [orderedInsert_cons, hr _ _ _ _ ha hb]
    split
    · exact .cons ha (.cons hb hrest)
    · exact .cons hb ih

theorem forall₂_insertionSort (hr : ∀ a b a' b', R a a' → R b b' → (r a b ↔ r' a' b')) {l : List α} (h : List.Forall₂ R l l') : List.Forall₂ R (l.insertionSort r) (l'.insertionSort r') := by
  induction h with
  | nil => exact .nil
  | cons ha _ ih => exact forall₂_orderedInsert hr ih ha

end Related

section Distinct

variable [DecidableEq κ] {key : α → κ}

theorem find?_key_iff {l : List α} (h : (l.map key).Nodup) {k : κ} {a : α} :
    l.find? (fun a => key a = k) = some a ↔ a ∈ l ∧ key a = k := by
  constructor
  · intro hfind
    exact ⟨mem_of_find?_eq_some hfind, by simpa using find?_some hfind⟩
  · rintro ⟨hmem, rfl⟩
    cases hfind : l.find? fun b => key b = key a with
    | none => exact absurd (find?_eq_none.mp hfind a hmem) (by simp)
    | some b =>
      have hb : key b = key a := by simpa using find?_some hfind
      rw [inj_on_of_nodup_map h (mem_of_find?_eq_some hfind) hmem hb]

theorem find?_key_perm {l l' : List α} (hperm : l.Perm l') (h : (l.map key).Nodup) (k : κ) :
    l.find? (fun a => key a = k) = l'.find? (fun a => key a = k) := by
  have h' : (l'.map key).Nodup := (hperm.map key).nodup_iff.mp h
  apply Option.ext
  intro a
  rw [find?_key_iff h, find?_key_iff h', hperm.mem_iff]

def refuseIf (bad : Prop) [Decidable bad] (e : ε) : Except ε Unit := if bad then .error e else .ok ()

@[simp] theorem refuseIf_ok {bad : Prop} [Decidable bad] {e : ε} : refuseIf bad e = .ok () ↔ ¬ bad := by
  unfold refuseIf
  split <;> simp [*]

/-- A loop that checks each item and refuses a key it has seen. -/
def scanDistinct (check : α → Except ε Unit) (key : α → κ) (repeated : α → ε) :
    List κ → List α → Except ε Unit
  | _, [] => .ok ()
  | seen, a :: rest => do
    check a
    if key a ∈ seen then .error (repeated a) else scanDistinct check key repeated (key a :: seen) rest

variable {check : α → Except ε Unit} {repeated : α → ε}

theorem scanDistinct_congr {seen seen' : List κ}
    (h : ∀ k, k ∈ seen ↔ k ∈ seen') (l : List α) :
    scanDistinct check key repeated seen l = scanDistinct check key repeated seen' l := by
  induction l generalizing seen seen' with
  | nil => rfl
  | cons a l ih =>
    have hrest : scanDistinct check key repeated (key a :: seen) l =
        scanDistinct check key repeated (key a :: seen') l :=
      ih fun k => by rw [mem_cons, mem_cons, h]
    simp only [scanDistinct, h, hrest]

theorem scanDistinct_ok {seen : List κ} {l : List α} : scanDistinct
    check key repeated seen l = .ok () ↔ (∀ a ∈ l, check a = .ok ()) ∧ (l.map key).Nodup ∧ ∀ a ∈ l, key a ∉ seen := by
  induction l generalizing seen with
  | nil => simp [scanDistinct]
  | cons a l ih =>
    simp only [scanDistinct, except_unit_bind_ok, forall_mem_cons, map_cons, nodup_cons]
    split
    next hseen => simp [hseen]
    next hfresh =>
      simp only [ih, mem_cons, not_or, mem_map, not_exists, not_and]
      constructor
      · rintro ⟨hcheck, hall, hnodup, hdist⟩
        exact ⟨⟨hcheck, hall⟩, ⟨fun b hb => (hdist b hb).1, hnodup⟩, hfresh, fun b hb => (hdist b hb).2⟩
      · rintro ⟨⟨hcheck, hall⟩, ⟨hother, hnodup⟩, -, hdist⟩
        exact ⟨hcheck, hall, hnodup, fun b hb => ⟨hother b hb, hdist b hb⟩⟩

end Distinct

end Scry.Lib
