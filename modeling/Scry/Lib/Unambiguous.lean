import Mathlib.Data.List.Basic

/-! # Texts that can be told apart from the front

A text with something behind it says what it is the text of, and where it ends.
-/

namespace Scry.Lib

open List

variable {α β : Type} {d r r' : List β}

/-- Nothing is left, or one of `d` comes next. -/
def EndsAt (d r : List β) : Prop := ∀ b ∈ r.head?, b ∈ d

theorem endsAt_nil : EndsAt d [] := fun _ h => nomatch h

theorem endsAt_cons {b : β} (h : b ∈ d) : EndsAt d (b :: r) := fun _ h' => Option.some.inj h' ▸ h

/-- In front of one of `d`, no other member of `P` has the text of `a`. -/
def Unambiguous (d : List β) (P : α → Prop) (text : α → List β) (a : α) : Prop :=
  ∀ b r r', P b → EndsAt d r → EndsAt d r' → text a ++ r = text b ++ r' → a = b ∧ r = r'

theorem append_inj_of_endsAt {x y : List β} (hx : ∀ b ∈ x, b ∉ d) (hy : ∀ b ∈ y, b ∉ d) (hr : EndsAt d r)
    (hr' : EndsAt d r') (h : x ++ r = y ++ r') : x = y ∧ r = r' := by
  induction x generalizing y with
  | nil =>
    cases y with
    | nil => exact ⟨rfl, h⟩
    | cons b y =>
      rw [nil_append] at h
      exact absurd (hr b (by simp [h])) (hy b mem_cons_self)
  | cons a x ih =>
    cases y with
    | nil =>
      rw [nil_append] at h
      exact absurd (hr' a (by simp [← h])) (hx a mem_cons_self)
    | cons b y =>
      obtain ⟨rfl, htail⟩ := cons.inj h
      obtain ⟨rfl, hrest⟩ := ih (fun b hb => hx b (mem_cons_of_mem _ hb))
        (fun b hb => hy b (mem_cons_of_mem _ hb)) htail
      exact ⟨rfl, hrest⟩

theorem flatMap_append_inj {code : α → List β} {q : β} (hq : ∀ a r, (code a ++ r).head? ≠ some q)
    (hcode : ∀ a b r r', code a ++ r = code b ++ r' → a = b ∧ r = r') {xs ys : List α}
    (h : xs.flatMap code ++ q :: r = ys.flatMap code ++ q :: r') : xs = ys ∧ r = r' := by
  induction xs generalizing ys with
  | nil =>
    cases ys with
    | nil => exact ⟨rfl, (cons.inj h).2⟩
    | cons y ys =>
      rw [flatMap_cons, append_assoc] at h
      exact absurd (congrArg head? h).symm (hq y _)
  | cons x xs ih =>
    cases ys with
    | nil =>
      rw [flatMap_cons, append_assoc] at h
      exact absurd (congrArg head? h) (hq x _)
    | cons y ys =>
      simp only [flatMap_cons, append_assoc] at h
      obtain ⟨rfl, htail⟩ := hcode x y _ _ h
      obtain ⟨rfl, hrest⟩ := ih htail
      exact ⟨rfl, hrest⟩

section SelfDelimiting

variable {P : α → Prop} {code : α → List β}

/-- Whatever follows, the code of a member of `P` is no other's. -/
def SelfDelimiting (P : α → Prop) (code : α → List β) : Prop :=
  ∀ a b r r', P a → P b → code a ++ r = code b ++ r' → a = b ∧ r = r'

theorem SelfDelimiting.flatMap (hcode : SelfDelimiting P code) {xs ys : List α} (hxs : ∀ x ∈ xs, P x)
    (hys : ∀ y ∈ ys, P y) (hlen : xs.length = ys.length)
    (h : xs.flatMap code ++ r = ys.flatMap code ++ r') : xs = ys ∧ r = r' := by
  induction xs generalizing ys with
  | nil =>
    cases length_eq_zero_iff.mp hlen.symm
    exact ⟨rfl, h⟩
  | cons x xs ih =>
    obtain ⟨y, ys, rfl⟩ := exists_cons_of_length_eq_add_one hlen.symm
    rw [forall_mem_cons] at hxs hys
    simp only [flatMap_cons, append_assoc] at h
    obtain ⟨rfl, htail⟩ := hcode x y _ _ hxs.1 hys.1 h
    obtain ⟨rfl, hrest⟩ := ih hxs.2 hys.2 (Nat.succ.inj hlen) htail
    exact ⟨rfl, hrest⟩

end SelfDelimiting

section Separated

variable {P : α → Prop} {text : α → List β} {sep stop : β}

def separatedTo (text : α → List β) (sep stop : β) (xs : List α) (r : List β) : List β :=
  ((xs.map text).intersperse [sep]).flatten ++ stop :: r

theorem separatedTo_cons (x : α) (xs : List α) (r : List β) :
    separatedTo text sep stop (x :: xs) r =
      text x ++ match xs with
        | [] => stop :: r
        | xs => sep :: separatedTo text sep stop xs r := by
  cases xs with
  | nil => simp [separatedTo]
  | cons y ys => simp [separatedTo]

theorem separatedTo_inj (hne : sep ≠ stop) (hsep : sep ∈ d) (hstop : stop ∈ d)
    (hhead : ∀ a r, P a → (text a ++ r).head? ≠ some stop) {xs ys : List α} (hys : ∀ y ∈ ys, P y)
    (hxs : ∀ x ∈ xs, P x ∧ Unambiguous d P text x)
    (h : separatedTo text sep stop xs r = separatedTo text sep stop ys r') : xs = ys ∧ r = r' := by
  induction xs generalizing ys with
  | nil =>
    cases ys with
    | nil => exact ⟨rfl, (cons.inj h).2⟩
    | cons y ys =>
      rw [separatedTo_cons] at h
      exact absurd (congrArg head? h).symm (hhead y _ (hys y mem_cons_self))
  | cons x xs ih =>
    cases ys with
    | nil =>
      rw [separatedTo_cons] at h
      exact absurd (congrArg head? h) (hhead x _ (hxs x mem_cons_self).1)
    | cons y ys =>
      rw [forall_mem_cons] at hxs hys
      rw [separatedTo_cons, separatedTo_cons] at h
      obtain ⟨rfl, htail⟩ := hxs.1.2 y _ _ hys.1
        (by cases xs; exacts [endsAt_cons hstop, endsAt_cons hsep])
        (by cases ys; exacts [endsAt_cons hstop, endsAt_cons hsep]) h
      cases xs with
      | nil =>
        cases ys with
        | nil => exact ⟨rfl, (cons.inj htail).2⟩
        | cons => exact absurd (cons.inj htail).1.symm hne
      | cons =>
        cases ys with
        | nil => exact absurd (cons.inj htail).1 hne
        | cons =>
          obtain ⟨hrest, hr⟩ := ih hys.2 hxs.2 (cons.inj htail).2
          exact ⟨by rw [hrest], hr⟩

end Separated

end Scry.Lib
