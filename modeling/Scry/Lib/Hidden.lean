import Scry.Lib.Writer

/-! # Writers with hidden state

The second part of the state may change, and nothing that is done to the first part depends on it.
-/

namespace Scry.Lib.Writer

variable {ε ε' σ σ' τ α : Type}

/-- With a second part of the state and the error renamed. -/
def embed (f : ε → ε') (t : τ) : Except (ε × σ) (α × σ) → Except (ε' × (σ × τ)) (α × (σ × τ))
  | .ok (a, s) => .ok (a, (s, t))
  | .error (e, s) => .error (f e, (s, t))

def onFirst (f : ε → ε') (w : Writer ε σ α) : Writer ε' (σ × τ) α := fun s => embed f s.2 (w s.1)

/-- `v` does to the first part what `w` does; the second moves along `R`. -/
structure Hides (R : τ → τ → Prop) (f : ε → ε') (v : Writer ε' (σ × τ) Unit) (w : Writer ε σ Unit) : Prop where
  run : ∀ s t, ∃ t', R t t' ∧ v (s, t) = embed f t' (w s)

section Rules

variable {R : τ → τ → Prop} {f : ε → ε'} {v v' : Writer ε' (σ × τ) Unit} {w w' : Writer ε σ Unit}

section

variable (hrefl : ∀ t, R t t)
include hrefl

theorem hides_onFirst (w : Writer ε σ Unit) : Hides R f (onFirst f w) w :=
  ⟨fun _ t => ⟨t, hrefl t, rfl⟩⟩

theorem hides_pure : Hides R f (pure () : Writer ε' (σ × τ) Unit) (pure () : Writer ε σ Unit) :=
  ⟨fun _ t => ⟨t, hrefl t, rfl⟩⟩

theorem hides_fail (e : ε) :
    Hides R f (fun s => .error (f e, s) : Writer ε' (σ × τ) Unit) (fun s => .error (e, s)) :=
  ⟨fun _ t => ⟨t, hrefl t, rfl⟩⟩

theorem hides_check {p q : Prop} [Decidable p] [Decidable q] (hpq : p ↔ q) (e : ε) :
    Hides R f (check p (f e) : Writer ε' (σ × τ) Unit) (check q e : Writer ε σ Unit) := by
  refine ⟨fun s t => ⟨t, hrefl t, ?_⟩⟩
  unfold check
  by_cases hp : p
  · rw [if_pos hp, if_pos (hpq.mp hp)]
    rfl
  · rw [if_neg hp, if_neg fun hq => hp (hpq.mpr hq)]
    rfl

end

theorem Hides.check_seq {p : Prop} [Decidable p] (hp : p) (e : ε') (h : Hides R f v w) :
    Hides R f (check p e >>= fun _ => v) w := by
  refine ⟨fun s t => ?_⟩
  obtain ⟨t', ht, hrun⟩ := h.run s t
  refine ⟨t', ht, ?_⟩
  rw [← hrun]
  simp only [bind, check, if_pos hp]

theorem Hides.seq (htrans : ∀ {a b c}, R a b → R b c → R a c) (h : Hides R f v w) (h' : Hides R f v' w') :
    Hides R f (v >>= fun _ => v') (w >>= fun _ => w') := by
  refine ⟨fun s t => ?_⟩
  obtain ⟨t₁, ht₁, hrun⟩ := h.run s t
  simp only [bind, hrun]
  cases hw : w s with
  | error e => exact ⟨t₁, ht₁, rfl⟩
  | ok r =>
    obtain ⟨t₂, ht₂, hrun'⟩ := h'.run r.2 t₁
    exact ⟨t₂, htrans ht₁ ht₂, hrun'⟩

theorem hides_forEach (hrefl : ∀ t, R t t) (htrans : ∀ {a b c}, R a b → R b c → R a c) {β : Type}
    {v : α → Writer ε' (σ × τ) Unit} {w : β → Writer ε σ Unit} {xs : List α} {ys : List β}
    (h : List.Forall₂ (fun x y => Hides R f (v x) (w y)) xs ys) : Hides R f (forEach v xs) (forEach w ys) := by
  induction h with
  | nil => exact hides_pure hrefl
  | cons hx _ ih => exact hx.seq htrans ih

end Rules

end Scry.Lib.Writer
