import Mathlib.Algebra.GroupWithZero.Nat
import Mathlib.Algebra.Ring.Int.Defs
import Mathlib.Data.List.Basic

/-! # Machines and their runs

A machine is a partial step function. A run is a list of actions, and it stops at the first
action that the machine does not allow.
-/

namespace Scry.Lib

variable {σ α : Type*} {step : σ → α → Option σ}

def run (step : σ → α → Option σ) : σ → List α → Option σ
  | s, [] => some s
  | s, a :: rest => (step s a).bind fun s' => run step s' rest

@[simp] theorem run_nil (s : σ) : run step s [] = some s := rfl

theorem run_cons (s : σ) (a : α) (rest : List α) :
    run step s (a :: rest) = (step s a).bind fun s' => run step s' rest := rfl

variable {s t : σ}

theorem run_cons_some {a : α} {rest : List α} (h : run step s (a :: rest) = some t) :
    ∃ s', step s a = some s' ∧ run step s' rest = some t := by
  rw [run_cons, Option.bind_eq_some_iff] at h
  exact h

theorem run_append (s : σ) (as bs : List α) :
    run step s (as ++ bs) = (run step s as).bind fun s' => run step s' bs := by
  induction as generalizing s with
  | nil => rfl
  | cons a as ih =>
    rw [List.cons_append, run_cons, run_cons]
    cases h : step s a with
    | none => rfl
    | some s' => simpa using ih s'

variable {as : List α}

theorem run_snoc_some {a : α} (h : run step s (as ++ [a]) = some t) :
    ∃ s', run step s as = some s' ∧ step s' a = some t := by
  rw [run_append, Option.bind_eq_some_iff] at h
  obtain ⟨s', hs', ht⟩ := h
  obtain ⟨t', ht', hrun⟩ := run_cons_some ht
  rw [run_nil] at hrun
  cases hrun
  exact ⟨s', hs', ht'⟩

variable {P : σ → Prop}

theorem run_invariant (hstep : ∀ s a s', P s → step s a = some s' → P s') (hs : P s) (h : run step s as = some t) : P t := by
  induction as generalizing s with
  | nil =>
    rw [run_nil] at h
    cases h
    exact hs
  | cons a as ih =>
    obtain ⟨s', hs', hrun⟩ := run_cons_some h
    exact ih (hstep s a s' hs hs') hrun

/-- Every step of the run starts in a state where its action meets `C`. -/
def Meets (step : σ → α → Option σ) (C : σ → α → Prop) : σ → List α → Prop
  | _, [] => True
  | s, a :: rest => C s a ∧ ∀ s', step s a = some s' → Meets step C s' rest

variable {C : σ → α → Prop}

theorem run_invariant_of_meets (hstep : ∀ s a s', P s → C s a → step s a = some s' →
    P s') (hs : P s) (hc : Meets step C s as) (h : run step s as = some t) : P t := by
  induction as generalizing s with
  | nil =>
    rw [run_nil] at h
    cases h
    exact hs
  | cons a as ih =>
    obtain ⟨s', hs', hrun⟩ := run_cons_some h
    exact ih (hstep s a s' hs hc.1 hs') (hc.2 s' hs') hrun

theorem meets_of_forall {C : α → Prop} {s : σ} (h : ∀ a ∈ as, C a) :
    Meets step (fun _ a => C a) s as := by
  induction as generalizing s with
  | nil => trivial
  | cons a as ih =>
    refine ⟨h a List.mem_cons_self, ?_⟩
    intro s' _
    exact ih fun b hb => h b (List.mem_cons_of_mem _ hb)

instance Meets.decidable {C : σ → α → Prop} [∀ s a, Decidable (C s a)] :
    ∀ s as, Decidable (Meets step C s as)
  | _, [] => isTrue trivial
  | s, a :: rest =>
    have (s' : σ) : Decidable (Meets step C s' rest) := Meets.decidable s' rest
    inferInstanceAs (Decidable (C s a ∧ ∀ s' ∈ step s a, Meets step C s' rest))

/-- Where in `I` a step keeps `P` just when it meets `C`, `P` holds throughout a run just when every step
meets `C`. -/
theorem forall_prefix_iff_meets {I P : σ → Prop} {A : α → Prop}
    (hI : ∀ s a s', I s → A a → step s a = some s' → I s') (hP : ∀ s a s', I s → A a → P s → step s a = some s' →
    (P s' ↔ C s a)) (hIs : I s) (hPs : P s) (hA : ∀ a ∈ as, A a) (h : run step s as = some t)
    : (∀ pre s', pre <+: as → run step s pre = some s' → P s') ↔ Meets step C s as := by
  induction as generalizing s with
  | nil =>
    simp only [List.prefix_nil, Meets, iff_true]
    rintro pre s' rfl hs'
    cases hs'
    exact hPs
  | cons a as ih =>
    obtain ⟨s₁, hs₁, hrun⟩ := run_cons_some h
    have hAa := hA a List.mem_cons_self
    have hone := hP s a s₁ hIs hAa hPs hs₁
    have hrest : P s₁ → _ := fun hPs₁ =>
      ih (hI s a s₁ hIs hAa hs₁) hPs₁ (fun b hb => hA b (List.mem_cons_of_mem _ hb)) hrun
    constructor
    · intro hall
      have hPs₁ : P s₁ := hall [a] s₁ (by simp) (by rw [run_cons, hs₁]; rfl)
      refine ⟨hone.mp hPs₁, ?_⟩
      intro s' hs'
      rw [hs₁] at hs'
      cases hs'
      apply (hrest hPs₁).mp
      intro pre s' hpre hs'
      exact hall (a :: pre) s' (by simpa using hpre) (by rw [run_cons, hs₁]; exact hs')
    · rintro ⟨hCa, hmeets⟩ pre s' hpre hs'
      have hPs₁ : P s₁ := hone.mpr hCa
      cases pre with
      | nil =>
        cases hs'
        exact hPs
      | cons b pre =>
        obtain ⟨rfl, htail⟩ := List.cons_prefix_cons.mp hpre
        rw [run_cons, hs₁] at hs'
        exact (hrest hPs₁).mpr (hmeets s₁ hs₁) pre s' htail hs'

end Scry.Lib
