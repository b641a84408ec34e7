import Scry.Lib.BigEndian

/-! # Readers

The rules say what a run that succeeded looks like, one for each way to build a reader.
-/

namespace Scry.Lib

def Reader (ε σ α : Type) := σ → Except ε (α × σ)

namespace Reader

variable {ε σ α β : Type} {s s' : σ}

instance : Monad (Reader ε σ) where
  pure a := fun s => .ok (a, s)
  bind r f := fun s =>
    match r s with
    | .ok (a, s₁) => f a s₁
    | .error e => .error e

def fail (e : ε) : Reader ε σ α := fun _ => .error e

def require (p : Prop) [Decidable p] (e : ε) : Reader ε σ Unit := if p then pure () else fail e

def lift (x : Except ε α) : Reader ε σ α := fun s =>
  match x with
  | .ok a => .ok (a, s)
  | .error e => .error e

def times : Nat → Reader ε σ α → Reader ε σ (List α)
  | 0, _ => pure []
  | n + 1, r => do
    let a ← r
    let rest ← times n r
    return a :: rest

variable {f : α → Reader ε σ β} {r : Reader ε σ α}

theorem bind_ok {b : β} :
    (r >>= f) s = .ok (b, s') ↔ ∃ a s₁, r s = .ok (a, s₁) ∧ f a s₁ = .ok (b, s') := by
  simp only [bind]
  split
  · rename_i a s₁ h
    simp [h]
  · rename_i e h
    simp [h]

variable {e : ε}

theorem bind_error :
    (r >>= f) s = .error e ↔ r s = .error e ∨ ∃ a s₁, r s = .ok (a, s₁) ∧ f a s₁ = .error e := by
  simp only [bind]
  split
  · rename_i a s₁ h
    simp [h]
  · rename_i e' h
    simp [h]

@[simp] theorem pure_ok {a b : α} : (pure a : Reader ε σ α) s = .ok (b, s') ↔ a = b ∧ s = s' := by
  simp [pure]

@[simp] theorem fail_ok {b : α} : (fail e : Reader ε σ α) s = .ok (b, s') ↔ False := by
  simp [fail]

@[simp] theorem require_ok {p : Prop} [Decidable p] {u : Unit} :
    (require p e : Reader ε σ Unit) s = .ok (u, s') ↔ p ∧ s = s' := by
  unfold require
  split <;> simp [*]

@[simp] theorem lift_ok {x : Except ε α} {a : α} : (lift x : Reader ε σ α) s = .ok (a, s') ↔ x = .ok a ∧ s = s' := by
  cases x <;> simp [lift]

variable {as : List α}

@[simp] theorem times_zero_ok : times 0 r s = .ok (as, s') ↔ [] = as ∧ s = s' := by
  simp only [times, pure_ok]

theorem times_succ_ok {n : Nat} : times (n + 1) r s = .ok (as, s') ↔ ∃ a s₁ rest, r s
    = .ok (a, s₁) ∧ times n r s₁ = .ok (rest, s') ∧ as = a :: rest := by
  simp only [times, bind_ok, pure_ok]
  constructor
  · rintro ⟨a, s₁, ha, rest, s₂, hrest, rfl, rfl⟩
    exact ⟨a, s₁, rest, ha, hrest, rfl⟩
  · rintro ⟨a, s₁, rest, ha, hrest, rfl⟩
    exact ⟨a, s₁, ha, rest, s', hrest, rfl, rfl⟩

end Reader

/-! ## Bytes -/

/-- Input that is taken from the front, next to whatever else a reader keeps. -/
structure Cursor (β : Type) where
  rest : Bytes
  extra : β
  deriving DecidableEq

namespace Cursor

variable {ε α β : Type} {c c' : Cursor β}

def unread (b : Bytes) (c : Cursor β) : Cursor β := { c with rest := b ++ c.rest }

@[simp] theorem unread_nil (c : Cursor β) : unread [] c = c := rfl

@[simp] theorem unread_unread (a b : Bytes) (c : Cursor β) : unread a (unread b c) = unread (a ++ b) c := by
  simp [unread]

def take (eof : ε) (n : Nat) : Reader ε (Cursor β) Bytes := fun c =>
  match takeBytes n c.rest with
  | none => .error eof
  | some (b, rest) => .ok (b, { c with rest := rest })

def uint (eof : ε) (k : Nat) : Reader ε (Cursor β) Nat := do
  let b ← take eof k
  return ofBe b

def captured (r : Reader ε (Cursor β) α) : Reader ε (Cursor β) (α × Bytes) := fun c =>
  match r c with
  | .error e => .error e
  | .ok (a, c') => .ok ((a, c.rest.take (c.rest.length - c'.rest.length)), c')

theorem take_ok {eof : ε} {n : Nat} {b : Bytes} : take eof n c = .ok (b, c') ↔ b.length = n ∧ c = c'.unread b := by
  obtain ⟨rest, extra⟩ := c
  obtain ⟨rest', extra'⟩ := c'
  unfold take takeBytes unread
  by_cases hlen : rest.length < n
  · simp only [hlen, if_true, reduceCtorEq, mk.injEq, false_iff, not_and]
    rintro _ rfl
    simp at hlen
    omega
  · simp only [hlen, if_false, Except.ok.injEq, Prod.mk.injEq, mk.injEq]
    constructor
    · rintro ⟨rfl, rfl, rfl⟩
      simp
      omega
    · rintro ⟨rfl, rfl, rfl⟩
      simp

theorem uint_ok {eof : ε} {k n : Nat} : uint eof k c = .ok (n, c') ↔ n < 256 ^ k ∧ c = c'.unread (toBe k n) := by
  simp only [uint, Reader.bind_ok, take_ok, Reader.pure_ok]
  constructor
  · rintro ⟨b, c₁, ⟨hb, hc⟩, rfl, rfl⟩
    subst hb
    exact ⟨ofBe_lt b, by rw [toBe_ofBe]; exact hc⟩
  · rintro ⟨hn, hc⟩
    exact ⟨toBe k n, c', ⟨toBe_length k n, hc⟩, ofBe_toBe_of_lt k n hn, rfl⟩

variable {r : Reader ε (Cursor β) α}

theorem captured_ok {a : α} {b : Bytes}
    (hr : ∀ a, r c = .ok (a, c') → ∃ w, c.rest = w ++ c'.rest) :
    captured r c = .ok ((a, b), c') ↔ r c = .ok (a, c') ∧ c.rest = b ++ c'.rest := by
  unfold captured
  split
  · rename_i e he
    simp [he]
  · rename_i a₁ c₁ h₁
    simp only [Except.ok.injEq, Prod.mk.injEq, h₁]
    constructor
    · rintro ⟨⟨rfl, rfl⟩, rfl⟩
      obtain ⟨w, hw⟩ := hr a₁ h₁
      refine ⟨⟨rfl, rfl⟩, ?_⟩
      simp [hw]
    · rintro ⟨⟨rfl, rfl⟩, hb⟩
      refine ⟨⟨rfl, ?_⟩, rfl⟩
      simp [hb]

theorem times_unread {P : α → Prop} {wire : α → Bytes}
    (hr : ∀ c c' a, r c = .ok (a, c') ↔ P a ∧ c = c'.unread (wire a)) {n : Nat} {as : List α} : Reader.times n r c =
    .ok (as, c') ↔ as.length = n ∧ (∀ a ∈ as, P a) ∧ c = c'.unread (as.flatMap wire) := by
  induction n generalizing c as with
  | zero =>
    simp only [Reader.times_zero_ok, List.length_eq_zero_iff]
    constructor
    · rintro ⟨rfl, rfl⟩
      simp
    · rintro ⟨rfl, -, rfl⟩
      exact ⟨rfl, rfl⟩
  | succ n ih =>
    simp only [Reader.times_succ_ok, hr, ih]
    constructor
    · rintro ⟨a, c₁, rest, ⟨hPa, rfl⟩, ⟨hlen, hall, rfl⟩, rfl⟩
      refine ⟨by simp [hlen], ?_, by simp⟩
      simpa [hPa] using hall
    · rintro ⟨hlen, hall, rfl⟩
      cases as with
      | nil => simp at hlen
      | cons a rest =>
        simp only [List.length_cons, Nat.add_right_cancel_iff] at hlen
        simp only [List.mem_cons, forall_eq_or_imp] at hall
        exact ⟨a, c'.unread (rest.flatMap wire), rest, ⟨hall.1, by simp⟩, ⟨hlen, hall.2, rfl⟩, rfl⟩

/-- On `w`, whatever is behind it, the reader takes `w` and returns `a`. -/
def Decodes (r : Reader ε (Cursor β) α) (w : Bytes) (a : α) : Prop := ∀ c, r (c.unread w) = .ok (a, c)

section Decodes

variable {γ : Type} {r : Reader ε (Cursor β) α} {w w' : Bytes} {a : α}

theorem decodes_pure (a : α) : Decodes (pure a : Reader ε (Cursor β) α) [] a := fun _ => rfl

theorem decodes_take (eof : ε) (b : Bytes) : Decodes (take eof b.length : Reader ε (Cursor β) Bytes) b b :=
  fun _ => take_ok.mpr ⟨rfl, rfl⟩

theorem decodes_uint (eof : ε) {k n : Nat} (h : n < 256 ^ k) :
    Decodes (uint eof k : Reader ε (Cursor β) Nat) (toBe k n) n :=
  fun _ => uint_ok.mpr ⟨h, rfl⟩

theorem Decodes.bind {k : α → Reader ε (Cursor β) γ} {b : γ} (hr : Decodes r w a)
    (hk : Decodes (k a) w' b) : Decodes (r >>= k) (w ++ w') b := by
  intro c
  rw [← unread_unread]
  exact Reader.bind_ok.mpr ⟨a, _, hr _, hk c⟩

theorem Decodes.map (f : α → γ) (hr : Decodes r w a) : Decodes (r >>= fun x => pure (f x)) w (f a) :=
  fun c => Reader.bind_ok.mpr ⟨a, c, hr c, rfl⟩

theorem decodes_require {p : Prop} [Decidable p] (hp : p) (e : ε) :
    Decodes (Reader.require p e : Reader ε (Cursor β) Unit) [] () :=
  fun _ => Reader.require_ok.mpr ⟨hp, rfl⟩

theorem Decodes.append_inj [Inhabited β] {a' : α} {s s' : Bytes} (h : Decodes r w a)
    (h' : Decodes r w' a') (heq : w ++ s = w' ++ s') : a = a' ∧ s = s' := by
  have hread := h ⟨s, default⟩
  have hread' := h' ⟨s', default⟩
  simp only [unread, heq] at hread hread'
  rw [hread] at hread'
  cases hread'
  exact ⟨rfl, rfl⟩

theorem Decodes.times {ξ : Type} {f : ξ → α} {wire : ξ → Bytes} {xs : List ξ} (h : ∀ x ∈ xs, Decodes r (wire x) (f x))
    : Decodes (Reader.times xs.length r) (xs.flatMap wire) (xs.map f) := by
  induction xs with
  | nil => exact decodes_pure []
  | cons x xs ih =>
    simp only [List.mem_cons, forall_eq_or_imp] at h
    exact h.1.bind ((ih h.2).map fun rest => f x :: rest)

end Decodes

end Cursor

end Scry.Lib
