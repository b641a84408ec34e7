import Mathlib.Algebra.GroupWithZero.Nat
import Mathlib.Algebra.Ring.Int.Defs
import Mathlib.Data.List.Nodup
import Mathlib.Tactic.Tauto

/-! # Keyed tables

Each write is described by what it does to `lookup`, so proofs about a schema never look at the row list.
-/

namespace Scry.Lib

open List

variable {κ α : Type} [DecidableEq κ] {key : α → κ}

theorem forall_mem_snoc {p : α → Prop} {l : List α} {a : α} (h : ∀ x ∈ l, p x) (ha : p a) : ∀ x ∈ l ++ [a], p x :=
  forall_mem_append.mpr ⟨h, forall_mem_singleton.mpr ha⟩

theorem pairwise_snoc {R : α → α → Prop} {l : List α} {a : α} (h : l.Pairwise R) (ha : ∀ x ∈ l, R x a) :
    (l ++ [a]).Pairwise R :=
  pairwise_append.mpr ⟨h, pairwise_singleton _ _, fun x hx =>
    forall_mem_singleton.mpr (ha x hx)⟩

structure Table (κ α : Type) [DecidableEq κ] (key : α → κ) where
  rows : List α
  nodup : (rows.map key).Nodup

namespace Table

def empty : Table κ α key := ⟨[], nodup_nil⟩

def lookup (t : Table κ α key) (k : κ) : Option α := t.rows.find? fun r => key r = k

def contains (t : Table κ α key) (k : κ) : Bool := (t.lookup k).isSome

theorem lookup_eq_none_iff (t : Table κ α key) (k : κ) : t.lookup k = none ↔ k ∉ t.rows.map key := by
  simp [lookup]

theorem nodup_append_of_lookup_none (t : Table κ α key) (r : α) (h : t.lookup (key r) = none) :
    ((t.rows ++ [r]).map key).Nodup := by
  rw [map_append]
  refine pairwise_snoc t.nodup ?_
  rintro k hk rfl
  exact (t.lookup_eq_none_iff _).mp h hk

def insertIgnore (t : Table κ α key) (r : α) : Table κ α key :=
  match h : t.lookup (key r) with
  | some _ => t
  | none => ⟨t.rows ++ [r], t.nodup_append_of_lookup_none r h⟩

/-- `UPDATE ... SET f WHERE p`; `f` leaves the key alone. -/
def updateWhere (t : Table κ α key) (p : α → Bool) (f : α → α) (hf : ∀ r, key (f r) = key r) : Table κ α key where
  rows := t.rows.map fun r => if p r then f r else r
  nodup := by
    have : key ∘ (fun r => if p r then f r else r) = key := by
      funext r
      by_cases h : p r <;> simp [h, hf]
    rw [map_map, this]
    exact t.nodup

/-- `UPDATE ... SET f WHERE key = ? AND p`, once for each key of a list. -/
def updateKeys (t : Table κ α key) (ks : List κ) (p : α → Prop) [DecidablePred p] (f : α → α)
    (hf : ∀ r, key (f r) = key r) : Table κ α key :=
  ks.foldl (fun t k => t.updateWhere (fun r => key r = k ∧ p r) f hf) t

def deleteWhere (t : Table κ α key) (p : α → Bool) : Table κ α key where
  rows := t.rows.filter fun r => !p r
  nodup := t.nodup.sublist (filter_sublist.map key)

/-- `INSERT ... ON CONFLICT DO UPDATE SET f WHERE p`. -/
def upsert (t : Table κ α key) (r : α) (p : α → Bool) (f : α → α) (hf : ∀ r, key (f r) = key r) : Table κ α key :=
  if t.contains (key r) then t.updateWhere (fun x => key x = key r && p x) f hf
  else t.insertIgnore r

/-! ## Lookups -/

@[simp] theorem lookup_empty (k : κ) : (empty : Table κ α key).lookup k = none := rfl

variable {t : Table κ α key} {k : κ} {r : α}

theorem key_of_lookup (h : t.lookup k = some r) : key r = k := by
  simpa using find?_some h

theorem mem_of_lookup (h : t.lookup k = some r) : r ∈ t.rows :=
  mem_of_find?_eq_some h

theorem lookup_of_mem (h : r ∈ t.rows) : t.lookup (key r) = some r := by
  cases hl : t.lookup (key r) with
  | none => exact absurd (mem_map_of_mem h) ((t.lookup_eq_none_iff _).mp hl)
  | some x => rw [inj_on_of_nodup_map t.nodup (mem_of_lookup hl) h (key_of_lookup hl)]

theorem mem_rows_iff : r ∈ t.rows ↔ t.lookup (key r) = some r :=
  ⟨lookup_of_mem, mem_of_lookup⟩

@[simp] theorem lookup_insertIgnore (t : Table κ α key) (r : α) (k : κ) :
    (t.insertIgnore r).lookup k = (t.lookup k).or (if key r = k then some r else none) := by
  unfold insertIgnore
  split
  · rename_i x h
    by_cases hk : key r = k
    · subst hk
      rw [h, Option.some_or]
    · simp [hk]
  · simp only [lookup, find?_append, find?_singleton, decide_eq_true_eq]

theorem lookup_foldl_insertIgnore (t : Table κ α key) (rs : List α) (k : κ) :
    (rs.foldl insertIgnore t).lookup k = (t.lookup k).or (rs.find? fun r => key r = k) := by
  induction rs generalizing t with
  | nil => simp
  | cons r rs ih =>
    rw [foldl_cons, ih, lookup_insertIgnore, Option.or_assoc, find?_cons]
    by_cases hk : key r = k <;> simp [hk]

@[simp] theorem lookup_updateWhere (t : Table κ α key) (p : α → Bool) (f : α → α)
    (hf : ∀ r, key (f r) = key r) (k : κ) :
    (t.updateWhere p f hf).lookup k = (t.lookup k).map fun r => if p r then f r else r := by
  have : ((fun r => decide (key r = k)) ∘ fun r => if p r then f r else r) =
      fun r => decide (key r = k) := by
    funext r
    by_cases h : p r <;> simp [h, hf]
  simp only [lookup, updateWhere, find?_map, this]

theorem lookup_updateKeys (t : Table κ α key) (ks : List κ) (p : α → Prop) [DecidablePred p]
    (f : α → α) (hf : ∀ r, key (f r) = key r) (hidem : ∀ r, p (f r) → f (f r) = f r) (k : κ) :
    (t.updateKeys ks p f hf).lookup k =
      (t.lookup k).map fun r => if key r ∈ ks ∧ p r then f r else r := by
  unfold updateKeys
  induction ks generalizing t with
  | nil => simp
  | cons a ks ih =>
    rw [foldl_cons, ih, lookup_updateWhere, Option.map_map]
    congr 1
    funext r
    by_cases ha : key r = a ∧ p r
    · simp only [Function.comp_apply, ha, decide_true, if_true, hf, mem_cons_self, and_self]
      split
      · rename_i hagain
        exact hidem r hagain.2
      · rfl
    · have hiff : (key r ∈ a :: ks ∧ p r) ↔ key r ∈ ks ∧ p r := by
        rw [mem_cons]
        tauto
      simp only [Function.comp_apply, ha, decide_false, Bool.false_eq_true, if_false, hiff]

theorem lookup_deleteWhere (t : Table κ α key) (p : α → Bool) (k : κ) :
    (t.deleteWhere p).lookup k = (t.lookup k).filter fun r => !p r := by
  cases h : t.lookup k with
  | none =>
    rw [lookup_eq_none_iff] at h
    rw [Option.filter_none, lookup_eq_none_iff]
    exact fun hk => h ((filter_sublist.map key).subset hk)
  | some r =>
    have hkey := key_of_lookup h
    subst hkey
    by_cases hp : p r
    · rw [Option.filter_some, if_neg (by simp [hp]), lookup_eq_none_iff]
      intro hmem
      obtain ⟨x, hx, hxk⟩ := mem_map.mp hmem
      obtain ⟨hxt, hxp⟩ := mem_filter.mp hx
      have := lookup_of_mem hxt
      rw [hxk, h] at this
      cases this
      simp [hp] at hxp
    · rw [Option.filter_some, if_pos (by simp [hp])]
      exact lookup_of_mem (mem_filter.mpr ⟨mem_of_lookup h, by simp [hp]⟩)

theorem lookup_deleteKey (t : Table κ α key) (k k' : κ) :
    (t.deleteWhere fun r => key r = k).lookup k' = if k' = k then none else t.lookup k' := by
  rw [lookup_deleteWhere]
  cases h : t.lookup k' with
  | none => simp
  | some r =>
    have hkey := key_of_lookup h
    by_cases hk : k' = k <;> simp [hkey, hk]

theorem lookup_updateKey (t : Table κ α key) (k k' : κ) (f : α → α) (hf : ∀ r, key (f r) = key r) :
    (t.updateWhere (fun r => key r = k) f hf).lookup k' =
      if k' = k then (t.lookup k').map f else t.lookup k' := by
  rw [lookup_updateWhere]
  cases h : t.lookup k' with
  | none => simp
  | some r =>
    have hkey := key_of_lookup h
    by_cases hk : k' = k <;> simp [hkey, hk]

variable {f : α → α} {p : α → Bool} {hf : ∀ r, key (f r) = key r}

theorem lookup_upsert_self
    (hk : key r = k) :
    (t.upsert r p f hf).lookup k = some (match t.lookup k with
      | some x => if p x then f x else x
      | none => r) := by
  subst hk
  unfold upsert contains
  cases h : t.lookup (key r) with
  | none => simp [h]
  | some x =>
    have hx := key_of_lookup h
    simp [h, hx]

theorem lookup_upsert_other (hk : key r ≠ k)
    : (t.upsert r p f hf).lookup k = t.lookup k := by
  unfold upsert
  split
  · rw [lookup_updateWhere]
    cases h : t.lookup k with
    | none => rfl
    | some x =>
      have hx := key_of_lookup h
      simp [hx, Ne.symm hk]
  · simp [hk]

end Table

end Scry.Lib
