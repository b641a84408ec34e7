import Scry.Lib.Effects

/-! # Writers

A reader whose errors carry the state they left behind: when it succeeds and by which label it then moves
(`Writes`), and what holds of the state it leaves in any case (`Keeps`).
-/

namespace Scry.Lib

abbrev Writer (ε σ α : Type) := Reader (ε × σ) σ α

namespace Writer

variable {ε σ M α : Type}

def check (p : Prop) [Decidable p] (e : ε) : Writer ε σ Unit := fun s =>
  if p then .ok ((), s) else .error (e, s)

def forEach (w : α → Writer ε σ Unit) : List α → Writer ε σ Unit
  | [] => pure ()
  | x :: xs => do
    w x
    forEach w xs

theorem forEach_map {β : Type} (w : β → Writer ε σ Unit) (f : α → β) (xs : List α) :
    forEach w (xs.map f) = forEach (fun x => w (f x)) xs := by
  induction xs with
  | nil => rfl
  | cons x xs ih => simp only [List.map_cons, forEach, ih]

@[simp] theorem check_ok {p : Prop} [Decidable p] {e : ε} {s s' : σ} {u : Unit} :
    (check p e : Writer ε σ Unit) s = .ok (u, s') ↔ p ∧ s = s' := by
  unfold check
  split <;> simp [*]

/-- `w` succeeds exactly when `p` holds and `m` leads to a good state. -/
structure Writes (L : Effects σ M) (w : Writer ε σ Unit) (p : Prop) (m : M) : Prop where
  ok : ∀ {s s' u}, L.Good s → (w s = .ok (u, s') ↔ p ∧ L.Moves s m s')

section Writes

variable {L : Effects σ M} {w w' : Writer ε σ Unit} {p q : Prop} {m n : M}

theorem Writes.seq (h : Writes L w p m) (h' : p → Writes L w' q n) :
    Writes L (w >>= fun _ => w') (p ∧ q) (L.mul m n) := by
  refine ⟨fun {s s' u} hs => ?_⟩
  simp only [Reader.bind_ok]
  constructor
  · rintro ⟨_, t, ht, hrest⟩
    obtain ⟨hp, hmove⟩ := (h.ok hs).mp ht
    obtain ⟨hq, hmove'⟩ := ((h' hp).ok (L.good hs hmove)).mp hrest
    exact ⟨⟨hp, hq⟩, (L.moves_mul hs).mpr ⟨t, hmove, hmove'⟩⟩
  · rintro ⟨⟨hp, hq⟩, hmoves⟩
    obtain ⟨t, hmove, hmove'⟩ := (L.moves_mul hs).mp hmoves
    exact ⟨(), t, (h.ok hs).mpr ⟨hp, hmove⟩, ((h' hp).ok (L.good hs hmove)).mpr ⟨hq, hmove'⟩⟩

theorem Writes.check [Decidable p] {e : ε} (h : p → Writes L w q n) :
    Writes L (Writer.check p e >>= fun _ => w) (p ∧ q) n := by
  refine ⟨fun {s s' u} hs => ?_⟩
  simp only [Reader.bind_ok, Writer.check]
  by_cases hp : p
  · simp [hp, (h hp).ok hs]
  · simp [hp]

theorem writes_pure : Writes L (pure () : Writer ε σ Unit) True L.one := by
  refine ⟨fun {s s' u} hs => ?_⟩
  simp [Reader.pure_ok, L.moves_one hs]

theorem writes_fail (e : ε) (m : M) : Writes L (fun s => .error (e, s)) False m :=
  ⟨fun _ => by simp⟩

theorem Writes.congr (h : Writes L w p m) (hpq : p ↔ q) (hmn : p → m = n) : Writes L w q n := by
  refine ⟨fun {s s' u} hs => ?_⟩
  rw [h.ok hs, ← hpq]
  constructor
  · rintro ⟨hp, hmove⟩
    exact ⟨hp, hmn hp ▸ hmove⟩
  · rintro ⟨hp, hmove⟩
    exact ⟨hp, hmn hp ▸ hmove⟩

theorem Writes.forEach {w : α → Writer ε σ Unit} {P : α → Prop} {l : α → M} {xs : List α}
    (h : ∀ x ∈ xs, Writes L (w x) (P x) (l x)) :
    Writes L (Writer.forEach w xs) (∀ x ∈ xs, P x) (L.product (xs.map l)) := by
  induction xs with
  | nil => exact writes_pure.congr (by simp) fun _ => rfl
  | cons x xs ih =>
    simp only [List.mem_cons, forall_eq_or_imp] at h
    exact (h.1.seq fun _ => ih h.2).congr (by simp) fun _ => rfl

end Writes

/-- Between the state before and the state left, after an error too. -/
structure Keeps (R : σ → σ → Prop) (w : Writer ε σ Unit) : Prop where
  ok : ∀ {s s' u}, w s = .ok (u, s') → R s s'
  error : ∀ {s s' e}, w s = .error (e, s') → R s s'

section Keeps

variable {R : σ → σ → Prop} {w w' : Writer ε σ Unit}

theorem Keeps.seq (htrans : ∀ {a b c}, R a b → R b c → R a c) (h : Keeps R w) (h' : Keeps R w') :
    Keeps R (w >>= fun _ => w') := by
  constructor
  · intro s s' u hrun
    obtain ⟨_, t, ht, hrest⟩ := Reader.bind_ok.mp hrun
    exact htrans (h.ok ht) (h'.ok hrest)
  · intro s s' e hrun
    obtain hfirst | ⟨_, t, ht, hrest⟩ := Reader.bind_error.mp hrun
    · exact h.error hfirst
    · exact htrans (h.ok ht) (h'.error hrest)

theorem keeps_pure (hrefl : ∀ s, R s s) : Keeps R (pure () : Writer ε σ Unit) := by
  constructor
  · intro s s' u hrun
    obtain ⟨-, rfl⟩ := Reader.pure_ok.mp hrun
    exact hrefl s
  · intro s s' e hrun
    cases hrun

theorem keeps_check (hrefl : ∀ s, R s s) (p : Prop) [Decidable p] (e : ε) : Keeps R (check p e) := by
  unfold check
  constructor
  · intro s s' u hrun
    split at hrun
    · cases hrun
      exact hrefl s
    · cases hrun
  · intro s s' e' hrun
    split at hrun
    · cases hrun
    · cases hrun
      exact hrefl s

theorem keeps_forEach (hrefl : ∀ s, R s s) (htrans : ∀ {a b c}, R a b → R b c → R a c)
    {w : α → Writer ε σ Unit} {xs : List α} (h : ∀ x ∈ xs, Keeps R (w x)) : Keeps R (forEach w xs) := by
  induction xs with
  | nil => exact keeps_pure hrefl
  | cons x xs ih =>
    simp only [List.mem_cons, forall_eq_or_imp] at h
    exact h.1.seq htrans (ih h.2)

end Keeps

end Writer

end Scry.Lib
