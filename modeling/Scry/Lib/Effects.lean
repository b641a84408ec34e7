import Scry.Lib.Reader

/-! # Effects

What a reader does to its state, as a label: the label of two readers in a row is the product of theirs. `Reads`
says exactly when a reader succeeds.
-/

namespace Scry.Lib

open Reader

/-- How labels move states. No label leaves the good ones. -/
structure Effects (σ M : Type) where
  one : M
  mul : M → M → M
  Good : σ → Prop
  Moves : σ → M → σ → Prop
  moves_one : ∀ {s s'}, Good s → (Moves s one s' ↔ s = s')
  moves_mul : ∀ {s s' m n}, Good s → (Moves s (mul m n) s' ↔ ∃ t, Moves s m t ∧ Moves t n s')
  good : ∀ {s s' m}, Good s → Moves s m s' → Good s'

namespace Effects

variable {ε σ M α β ξ ζ : Type} {L : Effects σ M} {E : σ → Prop}

def product (L : Effects σ M) (ms : List M) : M := ms.foldr L.mul L.one

@[simp] theorem product_nil : L.product [] = L.one := rfl

@[simp] theorem product_cons (m : M) (ms : List M) : L.product (m :: ms) = L.mul m (L.product ms) :=
  rfl

/-- Succeeds exactly on some `x` of `P`: returns `f x`, moves by `l x`, stops in `E`. -/
structure ReadsTo (L : Effects σ M) (E : σ → Prop) (r : Reader ε σ α) (P : ξ → Prop) (f : ξ → α)
    (l : ξ → M) : Prop where
  ok : ∀ {s s' a}, L.Good s → (r s = .ok (a, s') ↔ ∃ x, P x ∧ a = f x ∧ L.Moves s (l x) s' ∧ E s')

abbrev Reads (L : Effects σ M) (r : Reader ε σ α) (P : ξ → Prop) (f : ξ → α) (l : ξ → M) : Prop :=
  L.ReadsTo (fun _ => True) r P f l

section Rules

variable {r : Reader ε σ α} {P : ξ → Prop} {f : ξ → α} {l : ξ → M}

theorem Reads.bind {k : α → Reader ε σ β} {Q : ξ → ζ → Prop} {g : ξ → ζ → β} {m : ξ → ζ → M} (hr : L.Reads r P f l)
    (hk : ∀ x, P x → L.ReadsTo E (k (f x)) (Q x) (g x) (m x)) : L.ReadsTo E (r >>= k)
    (fun p : ξ × ζ => P p.1 ∧ Q p.1 p.2) (fun p => g p.1 p.2) (fun p => L.mul (l p.1) (m p.1 p.2)) := by
  refine ⟨fun {s s' b} hs => ?_⟩
  rw [bind_ok]
  constructor
  · rintro ⟨a, s₁, ha, hb⟩
    obtain ⟨x, hx, rfl, hmove, -⟩ := (hr.ok hs).mp ha
    obtain ⟨y, hy, rfl, hmove', hend⟩ := ((hk x hx).ok (L.good hs hmove)).mp hb
    exact ⟨(x, y), ⟨hx, hy⟩, rfl, (L.moves_mul hs).mpr ⟨s₁, hmove, hmove'⟩, hend⟩
  · rintro ⟨⟨x, y⟩, ⟨hx, hy⟩, rfl, hmoves, hend⟩
    obtain ⟨s₁, hmove, hmove'⟩ := (L.moves_mul hs).mp hmoves
    exact ⟨f x, s₁, (hr.ok hs).mpr ⟨x, hx, rfl, hmove, trivial⟩,
      ((hk x hx).ok (L.good hs hmove)).mpr ⟨y, hy, rfl, hmove', hend⟩⟩

theorem ReadsTo.map (g : α → β) (hr : L.ReadsTo E r P f l) :
    L.ReadsTo E (r >>= fun a => pure (g a)) P (fun x => g (f x)) l := by
  refine ⟨fun {s s' b} hs => ?_⟩
  simp only [bind_ok, pure_ok]
  constructor
  · rintro ⟨a, s₁, ha, rfl, rfl⟩
    obtain ⟨x, hx, rfl, hrest⟩ := (hr.ok hs).mp ha
    exact ⟨x, hx, rfl, hrest⟩
  · rintro ⟨x, hx, rfl, hrest⟩
    exact ⟨f x, s', (hr.ok hs).mpr ⟨x, hx, rfl, hrest⟩, rfl, rfl⟩

theorem reads_pure (a : α) :
    L.Reads (pure a : Reader ε σ α) (fun _ : Unit => True) (fun _ => a) (fun _ => L.one) := by
  refine ⟨fun {s s' b} hs => ?_⟩
  rw [pure_ok]
  simp only [true_and, and_true, exists_const, L.moves_one hs, eq_comm]

theorem reads_require (p : Prop) [Decidable p] (e : ε) :
    L.Reads (require p e) (fun _ : Unit => p) (fun _ => ()) (fun _ => L.one) := by
  refine ⟨fun {s s' u} hs => ?_⟩
  rw [require_ok]
  simp only [and_true, exists_const, L.moves_one hs, true_and]

theorem reads_fail (e : ε) (f : ξ → α) (l : ξ → M) : L.Reads (fail e) (fun _ : ξ => False) f l := by
  refine ⟨fun {s s' a} _ => ?_⟩
  simp

theorem reads_lift (x : Except ε α) : L.Reads (lift x) (fun a => x = .ok a) (fun a => a) (fun _ => L.one) := by
  refine ⟨fun {s s' a} hs => ?_⟩
  rw [lift_ok]
  constructor
  · rintro ⟨ha, hs'⟩
    exact ⟨a, ha, rfl, (L.moves_one hs).mpr hs', trivial⟩
  · rintro ⟨_, ha, rfl, hmove, -⟩
    exact ⟨ha, (L.moves_one hs).mp hmove⟩

theorem ReadsTo.require {p : Prop} [Decidable p] {e : ε} {k : Unit → Reader ε σ α} (hk : p → L.ReadsTo E (k ()) P f l)
    : L.ReadsTo E (require p e >>= k) (fun x => p ∧ P x) f l := by
  refine ⟨fun {s s' a} hs => ?_⟩
  simp only [bind_ok, require_ok]
  constructor
  · rintro ⟨_, _, ⟨hp, rfl⟩, ha⟩
    obtain ⟨x, hx, hrest⟩ := ((hk hp).ok hs).mp ha
    exact ⟨x, ⟨hp, hx⟩, hrest⟩
  · rintro ⟨x, ⟨hp, hx⟩, hrest⟩
    exact ⟨(), s, ⟨hp, rfl⟩, ((hk hp).ok hs).mpr ⟨x, hx, hrest⟩⟩

theorem ReadsTo.congr {P' : ζ → Prop} {f' : ζ → α} {l' : ζ → M} (hr : L.ReadsTo E r P f l)
    (hto : ∀ x, P x → ∃ y, P' y ∧ f' y = f x ∧ l' y = l x)
    (hfrom : ∀ y, P' y → ∃ x, P x ∧ f x = f' y ∧ l x = l' y) : L.ReadsTo E r P' f' l' := by
  refine ⟨fun {s s' a} hs => ?_⟩
  rw [hr.ok hs]
  constructor
  · rintro ⟨x, hx, rfl, hmove, hend⟩
    obtain ⟨y, hy, hf, hl⟩ := hto x hx
    exact ⟨y, hy, hf.symm, hl ▸ hmove, hend⟩
  · rintro ⟨y, hy, rfl, hmove, hend⟩
    obtain ⟨x, hx, hf, hl⟩ := hfrom y hy
    exact ⟨x, hx, hf.symm, hl ▸ hmove, hend⟩

theorem Reads.times (hr : L.Reads r P f l) (n : Nat) : L.Reads (times n r)
    (fun xs : List ξ => xs.length = n ∧ ∀ x ∈ xs, P x) (List.map f) (fun xs => L.product (xs.map l)) := by
  induction n with
  | zero =>
    refine (reads_pure []).congr ?_ ?_
    · intro _ _
      exact ⟨[], by simp, rfl, rfl⟩
    · rintro xs ⟨hlen, -⟩
      obtain rfl := List.length_eq_zero_iff.mp hlen
      exact ⟨(), trivial, rfl, rfl⟩
  | succ n ih =>
    have hrest := fun a => ih.map fun rest => a :: rest
    refine (hr.bind fun x _ => hrest (f x)).congr ?_ ?_
    · rintro ⟨x, xs⟩ ⟨hx, hlen, hxs⟩
      exact ⟨x :: xs, ⟨by simpa using hlen, by simpa [hx] using hxs⟩, rfl, rfl⟩
    · rintro xs ⟨hlen, hxs⟩
      cases xs with
      | nil => simp at hlen
      | cons x xs =>
        simp only [List.mem_cons, forall_eq_or_imp] at hxs
        exact ⟨(x, xs), ⟨hxs.1, by simpa using hlen, hxs.2⟩, rfl, rfl⟩

theorem foldlM_ok {step : σ → ξ → Except ε σ} {xs : List ξ} (h : ∀ x ∈ xs, ∀ s s', L.Good s →
    (step s x = .ok s' ↔ P x ∧ L.Moves s (l x) s')) {s s' : σ} (hs : L.Good s) : xs.foldlM step s = .ok s' ↔
    (∀ x ∈ xs, P x) ∧ L.Moves s (L.product (xs.map l)) s' := by
  induction xs generalizing s with
  | nil => simp [pure, Except.pure, L.moves_one hs]
  | cons x xs ih =>
    simp only [List.mem_cons, forall_eq_or_imp] at h ⊢
    rw [List.foldlM_cons, List.map_cons, product_cons, L.moves_mul hs]
    cases hstep : step s x with
    | error e =>
      simp only [bind, Except.bind, reduceCtorEq, false_iff]
      rintro ⟨⟨hx, -⟩, t, hmove, -⟩
      have hok := (h.1 s t hs).mpr ⟨hx, hmove⟩
      rw [hstep] at hok
      cases hok
    | ok t =>
      obtain ⟨hx, hmove⟩ := (h.1 s t hs).mp hstep
      simp only [bind, Except.bind, ih h.2 (L.good hs hmove)]
      constructor
      · rintro ⟨hxs, hmoves⟩
        exact ⟨⟨hx, hxs⟩, t, hmove, hmoves⟩
      · rintro ⟨⟨-, hxs⟩, t', hmove', hmoves⟩
        have hok := (h.1 s t' hs).mpr ⟨hx, hmove'⟩
        rw [hstep] at hok
        cases hok
        exact ⟨hxs, hmoves⟩

end Rules

end Effects

/-! ## Results -/

variable {α ε : Type} {x : Except ε α}

theorem toOption_eq_some {a : α} : x.toOption = some a ↔ x = .ok a := by
  cases x <;> simp [Except.toOption]

theorem mapError_ok {ζ : Type} {f : ε → ζ} {a : α} : x.mapError f = .ok a ↔ x = .ok a := by
  cases x <;> simp [Except.mapError]

theorem mapError_error {ζ : Type} {f : ε → ζ} {e : ζ} : x.mapError f = .error e ↔ ∃ e', x = .error e' ∧ f e' = e := by
  cases x <;> simp [Except.mapError]

variable {β : Type}

theorem except_bind_ok {k : α → Except ε β} {b : β} :
    (x >>= k) = .ok b ↔ ∃ a, x = .ok a ∧ k a = .ok b := by
  cases x <;> simp [bind, Except.bind]

theorem except_unit_bind_ok {x : Except ε Unit} {k : Unit → Except ε β} {b : β} :
    (x >>= k) = .ok b ↔ x = .ok () ∧ k () = .ok b :=
  except_bind_ok.trans ⟨fun ⟨_, hx, hk⟩ => ⟨hx, hk⟩, fun ⟨hx, hk⟩ => ⟨(), hx, hk⟩⟩

variable {e : ε}

theorem except_bind_error {k : α → Except ε β} :
    (x >>= k) = .error e ↔ x = .error e ∨ ∃ a, x = .ok a ∧ k a = .error e := by
  cases x <;> simp [bind, Except.bind]

variable {xs : List α}

theorem mapM_isSome {f : α → Option β} (h : ∀ x ∈ xs, (f x).isSome) :
    (xs.mapM f).isSome := by
  induction xs with
  | nil => rfl
  | cons x xs ih =>
    simp only [List.mem_cons, forall_eq_or_imp] at h
    obtain ⟨y, hy⟩ := Option.isSome_iff_exists.mp h.1
    obtain ⟨ys, hys⟩ := Option.isSome_iff_exists.mp (ih h.2)
    simp [List.mapM_cons, hy, hys]

theorem mapM_map_of_forall {β γ : Type} {f : α → Option γ} {g : β → α} {k : β → γ} {xs : List β}
    (h : ∀ x ∈ xs, f (g x) = some (k x)) : (xs.map g).mapM f = some (xs.map k) := by
  induction xs with
  | nil => rfl
  | cons x xs ih =>
    simp only [List.mem_cons, forall_eq_or_imp] at h
    simp [h.1, ih h.2]

theorem mapM_error {f : α → Except ε β} (h : xs.mapM f = .error e) :
    ∃ x ∈ xs, f x = .error e := by
  induction xs with
  | nil => cases h
  | cons x xs ih =>
    rw [List.mapM_cons, except_bind_error] at h
    obtain hx | ⟨b, -, hrest⟩ := h
    · exact ⟨x, List.mem_cons_self, hx⟩
    · rw [except_bind_error] at hrest
      obtain hxs | ⟨bs, -, hpure⟩ := hrest
      · obtain ⟨y, hy, hfail⟩ := ih hxs
        exact ⟨y, List.mem_cons_of_mem x hy, hfail⟩
      · cases hpure

theorem foldlM_error {σ ξ : Type} {step : σ → ξ → Except ε σ} {xs : List ξ} {s : σ}
    (h : xs.foldlM step s = .error e) : ∃ x ∈ xs, ∃ s', step s' x = .error e := by
  induction xs generalizing s with
  | nil => cases h
  | cons x xs ih =>
    rw [List.foldlM_cons] at h
    cases hstep : step s x with
    | error e' =>
      rw [hstep] at h
      cases h
      exact ⟨x, List.mem_cons_self, s, hstep⟩
    | ok s' =>
      rw [hstep] at h
      obtain ⟨y, hy, hfail⟩ := ih h
      exact ⟨y, List.mem_cons_of_mem x hy, hfail⟩

end Scry.Lib
