import Mathlib.Logic.Relation
import Mathlib.Data.List.Basic

/-! # Programs that share a world

A program asks questions, and the world gives the answers and may change with each of them. Any number of
programs take their steps in any order.
-/

namespace Scry.Lib

/-- Over questions of type `Q`, each with its own answers. -/
inductive Program {Q : Type} (A : Q → Type) (α : Type) : Type
  | done (a : α)
  | ask (q : Q) (next : A q → Program A α)

section

variable {Q : Type} {A : Q → Type} {α β ε σ : Type}

namespace Program

def bind : Program A α → (α → Program A β) → Program A β
  | done a, f => f a
  | ask q next, f => ask q fun x => (next x).bind f

instance : Monad (Program A) where
  pure := done
  bind := bind

def question (q : Q) : Program A (A q) := ask q done

def attempt {ε' : Type} (x : ExceptT ε (Program A) α) : ExceptT ε' (Program A) (Except ε α) :=
  ExceptT.mk (x.run.bind fun r => done (.ok r))

def query (q : Q) : ExceptT ε (Program A) (A q) := ExceptT.mk (ask q fun x => done (.ok x))

/-! ## Executions -/

/-- In `w` the question may be answered by `a`, which leaves `w'`. -/
abbrev Answers (A : Q → Type) (σ : Type) := σ → (q : Q) → A q → σ → Prop

inductive Runs (answers : Answers A σ) : Program A α → σ → α → σ → Prop
  | done (a : α) (w : σ) : Runs answers (.done a) w a w
  | ask {q : Q} {next : A q → Program A α} {w w₁ w₂ : σ} {x : A q} {a : α}
      (h : answers w q x w₁) (rest : Runs answers (next x) w₁ a w₂) :
      Runs answers (.ask q next) w a w₂

inductive Stops (answers : Answers A σ) : Program A α → σ → σ → Prop
  | here (p : Program A α) (w : σ) : Stops answers p w w
  | ask {q : Q} {next : A q → Program A α} {w w₁ w₂ : σ} {x : A q}
      (h : answers w q x w₁) (rest : Stops answers (next x) w₁ w₂) :
      Stops answers (.ask q next) w w₂

variable {answers : Answers A σ}

theorem exists_runs (h : ∀ w q, ∃ x w', answers w q x w') (p : Program A α) (w : σ) :
    ∃ a w', Runs answers p w a w' := by
  induction p generalizing w with
  | done a => exact ⟨a, w, .done a w⟩
  | ask q next ih =>
    obtain ⟨x, w₁, hx⟩ := h w q
    obtain ⟨a, w₂, hrest⟩ := ih x w₁
    exact ⟨a, w₂, .ask hx hrest⟩

theorem Runs.mono {answers' : Answers A σ} (h : ∀ w q x w', answers w q x w' → answers' w q x w') {p : Program A α}
    {w w' : σ} {a : α} (hr : Runs answers p w a w') : Runs answers' p w a w' := by
  induction hr with
  | done a w => exact .done a w
  | ask hx _ ih => exact .ask (h _ _ _ _ hx) ih

end Program

/-! ## What the parties of a shared world may rely on -/

/-- What the others may do between two steps, and what one step does. -/
structure Sharing (σ : Type) where
  inv : σ → Prop
  rely : σ → σ → Prop
  guarantee : σ → σ → Prop
  stutter : ∀ w, guarantee w w
  refl : ∀ w, rely w w
  trans : ∀ w₁ w₂ w₃, rely w₁ w₂ → rely w₂ w₃ → rely w₁ w₃

def Sharing.alone (σ : Type) : Sharing σ where
  inv _ := True
  rely := Eq
  guarantee _ _ := True
  stutter _ := trivial
  refl _ := rfl
  trans _ _ _ := Eq.trans

/-- Nobody else is there, and `inv` holds at all times. -/
def Sharing.keeping (inv : σ → Prop) : Sharing σ where
  inv
  rely := Eq
  guarantee _ _ := True
  stutter _ := trivial
  refl _ := rfl
  trans _ _ _ := Eq.trans

namespace Program

variable {answers : Answers A σ} {S : Sharing σ}

/-- Each step keeps the invariant and the guarantee; the result meets `post` from then on. -/
def Safe (answers : Answers A σ) (S : Sharing σ) (post : α → σ → Prop) : Program A α → σ → Prop
  | done a, w => ∀ w', S.rely w w' → S.inv w' → post a w'
  | ask q next, w => ∀ w₁, S.rely w w₁ → S.inv w₁ → ∀ x w₂, answers w₁ q x w₂ →
      S.guarantee w₁ w₂ ∧ S.inv w₂ ∧ Safe answers S post (next x) w₂

variable {p : Program A α} {post : α → σ → Prop} {w : σ} {f : α → ExceptT ε (Program A) β}
  {x : ExceptT ε (Program A) α}

variable {w' : σ}

section

variable (h : Safe answers S post p w)
include h

theorem Safe.rely (hw : S.rely w w') : Safe answers S post p w' := by
  cases p with
  | done a => exact fun w₁ hw₁ => h w₁ (S.trans _ _ _ hw hw₁)
  | ask q next => exact fun w₁ hw₁ => h w₁ (S.trans _ _ _ hw hw₁)

theorem Safe.mono {post' : α → σ → Prop}
    (hpost : ∀ a w', S.inv w' → post a w' → post' a w') : Safe answers S post' p w := by
  induction p generalizing w with
  | done a => exact fun w' hw hinv => hpost a w' hinv (h w' hw hinv)
  | ask q next ih =>
    intro w₁ hw hinv x w₂ hx
    obtain ⟨hg, hinv₂, hnext⟩ := h w₁ hw hinv x w₂ hx
    exact ⟨hg, hinv₂, ih x hnext⟩

theorem Safe.stable :
    Safe answers S (fun a w' => ∀ w'', S.rely w' w'' → S.inv w'' → post a w'') p w := by
  induction p generalizing w with
  | done a => exact fun w' hw _ w'' hw' hinv => h w'' (S.trans _ _ _ hw hw') hinv
  | ask q next ih =>
    intro w₁ hw hinv x w₂ hx
    obtain ⟨hg, hinv₂, hnext⟩ := h w₁ hw hinv x w₂ hx
    exact ⟨hg, hinv₂, ih x hnext⟩

theorem Safe.answers_mono {answers' : Answers A σ}
    (hle : ∀ w q x w', answers' w q x w' → answers w q x w') : Safe answers' S post p w := by
  induction p generalizing w with
  | done a => exact h
  | ask q next ih =>
    intro w₁ hw hinv x w₂ hx
    obtain ⟨hg, hinv₂, hnext⟩ := h w₁ hw hinv x w₂ (hle w₁ q x w₂ hx)
    exact ⟨hg, hinv₂, ih x hnext⟩

end

theorem Safe.bind {post : β → σ → Prop} {f : α → Program A β} (h : Safe answers S (fun a => Safe answers S post (f a))
    p w) (hinv : S.inv w) : Safe answers S post (p.bind f) w := by
  induction p generalizing w with
  | done a => exact h w (S.refl w) hinv
  | ask q next ih =>
    intro w₁ hw hinv₁ x w₂ hx
    obtain ⟨hg, hinv₂, hnext⟩ := h w₁ hw hinv₁ x w₂ hx
    exact ⟨hg, hinv₂, ih x hnext hinv₂⟩

theorem run_bind_except (x : ExceptT ε (Program A) α) (f : α → ExceptT ε (Program A) β) :
    (x >>= f).run = x.run.bind fun r => match r with
      | .ok a => (f a).run
      | .error e => done (.error e) := by
  change Program.bind x.run _ = Program.bind x.run _
  congr 1
  funext r
  cases r <;> rfl

theorem Safe.bind_except {post : Except ε β → σ → Prop} (hinv : S.inv w)
    (h : Safe answers S (fun r w => match r with
      | .ok a => Safe answers S post (f a).run w
      | .error e => post (.error e) w) x.run w) :
    Safe answers S post (x >>= f).run w := by
  rw [run_bind_except]
  refine Safe.bind ?_ hinv
  -- A failure is the result as it is, and has to meet the post from then on.
  refine h.stable.mono fun r w' hinv' hr => ?_
  cases r with
  | ok a => exact hr w' (S.refl w') hinv'
  | error e => exact hr

theorem Safe.bind_attempt {ε' : Type} {post : Except ε' β → σ → Prop} {f : Except ε α → ExceptT ε' (Program A) β}
    (hinv : S.inv w) (h : Safe answers S (fun r => Safe answers S post (f r).run) x.run w) : Safe answers S post
    (attempt x >>= f).run w := by
  have hrun : (attempt x >>= f).run = x.run.bind fun r => (f r).run := by
    rw [run_bind_except]
    change (x.run.bind _).bind _ = _
    generalize x.run = p
    clear h
    induction p with
    | done r => rfl
    | ask q next ih => exact congrArg (ask q) (funext ih)
  rw [hrun]
  exact h.bind hinv

theorem Safe.bind_query {post : Except ε β → σ → Prop} {q : Q} {f : A q → ExceptT ε (Program A) β}
    (h : ∀ w₁, S.rely w w₁ → S.inv w₁ → ∀ x w₂, answers w₁ q x w₂ →
      S.guarantee w₁ w₂ ∧ S.inv w₂ ∧ Safe answers S post (f x).run w₂) :
    Safe answers S post (query q >>= f).run w := h

theorem Safe.frame {F : σ → Prop} (hrely : ∀ w w', S.rely w w' → F w → F w')
    (hown : ∀ w w', S.guarantee w w' → F w → F w') (h : Safe answers S post p w) (hF : F w) :
    Safe answers S (fun a w' => post a w' ∧ F w') p w := by
  induction p generalizing w with
  | done a => exact fun w' hw hinv => ⟨h w' hw hinv, hrely w w' hw hF⟩
  | ask q next ih =>
    intro w₁ hw hinv x w₂ hx
    obtain ⟨hg, hinv₂, hnext⟩ := h w₁ hw hinv x w₂ hx
    exact ⟨hg, hinv₂, ih x hnext (hown w₁ w₂ hg (hrely w w₁ hw hF))⟩

/-- Nothing is said of a failure. -/
def onOk (post : α → σ → Prop) (r : Except ε α) (w : σ) : Prop := ∀ a, r = .ok a → post a w

theorem Safe.throw {e : ε} : Safe answers S (onOk post) (throw e : ExceptT ε (Program A) α).run w :=
  fun _ _ _ _ h => by cases h

theorem Safe.pure {a : α} (h : ∀ w', S.rely w w' → S.inv w' → post a w') :
    Safe answers S (onOk post) (pure a : ExceptT ε (Program A) α).run w := by
  rintro w' hw hinv b ⟨⟩
  exact h w' hw hinv

theorem Safe.bind_onOk {post : β → σ → Prop} (hinv : S.inv w) (h : Safe answers S
    (onOk fun a => Safe answers S (onOk post) (f a).run) x.run w) : Safe answers S (onOk post) (x >>= f).run w := by
  refine Safe.bind_except hinv (h.mono fun r w' _ hr => ?_)
  cases r with
  | ok a => exact hr a rfl
  | error e => exact fun _ h => by cases h

theorem Safe.stops (h : Safe answers S post p w) (hinv : S.inv w) (hs : Stops answers p w w') :
    S.inv w' := by
  induction hs with
  | here => exact hinv
  | ask hx _ ih =>
    obtain ⟨-, hinv₁, hnext⟩ := h _ (S.refl _) hinv _ _ hx
    exact ih hnext hinv₁

theorem Safe.runs {a : α} (h : Safe answers S post p w) (hinv : S.inv w)
    (hr : Runs answers p w a w') : post a w' := by
  induction hr with
  | done a w => exact h w (S.refl w) hinv
  | ask hx _ ih =>
    obtain ⟨-, hinv₁, hnext⟩ := h _ (S.refl _) hinv _ _ hx
    exact ih hnext hinv₁

/-- `I` holds of the rounds done, the value they gave and the world. -/
theorem Safe.foldlM {I : List α → β → σ → Prop} {f : β → α → ExceptT ε (Program A) β} {l : List α}
    (hrely : ∀ done b w w', S.rely w w' → I done b w → I done b w')
    (hstep : ∀ done a rest b w, l = done ++ a :: rest → S.inv w → I done b w → Safe answers S
    (fun r w' => ∃ b', r = .ok b' ∧ I (done ++ [a]) b' w') (f b a).run w) {b : β} (hinv : S.inv w) (h : I [] b w) :
    Safe answers S (fun r w' => ∃ b', r = .ok b' ∧ I l b' w') (l.foldlM f b).run w := by
  have hloop : ∀ rest done b w, l = done ++ rest → S.inv w → I done b w →
      Safe answers S (fun r w' => ∃ b', r = .ok b' ∧ I l b' w') (rest.foldlM f b).run w := by
    intro rest
    induction rest with
    | nil =>
      intro done b w hl _ hI w' hw _
      rw [List.append_nil] at hl
      subst hl
      exact ⟨b, rfl, hrely _ _ _ _ hw hI⟩
    | cons a rest ih =>
      intro done b w hl hinv hI
      refine Safe.bind_except hinv ((hstep done a rest b w hl hinv hI).mono fun r w' hinv' hr => ?_)
      obtain ⟨b', rfl, hI'⟩ := hr
      exact ih (done ++ [a]) b' w' (by rw [hl, List.append_assoc, List.singleton_append]) hinv' hI'
  exact hloop l [] b w rfl hinv h

section Keeping

variable {inv : σ → Prop}

theorem Safe.keeping_done {post : α → σ → Prop} {a : α} {w : σ} (h : post a w) :
    Safe answers (.keeping inv) post (.done a) w := by
  rintro w' rfl -
  exact h

theorem Safe.keeping_query {post : Except ε β → σ → Prop} {q : Q} {f : A q → ExceptT ε (Program A) β} {w : σ}
    (h : ∀ x w', answers w q x w' → inv w' ∧ Safe answers (.keeping inv) post (f x).run w') : Safe answers
    (.keeping inv) post (query q >>= f).run w := by
  refine Safe.bind_query fun w₁ hw _ x w₂ hx => ?_
  obtain rfl : w = w₁ := hw
  exact ⟨trivial, h x w₂ hx⟩

end Keeping

abbrev Alone (answers : Answers A σ) (post : α → σ → Prop) (p : Program A α) (w : σ) : Prop :=
  Safe answers (Sharing.alone σ) post p w

theorem Alone.done {a : α} (h : post a w) : Alone answers post (.done a) w := by
  rintro w' rfl -
  exact h

theorem Alone.bind_ok {post : Except ε β → σ → Prop} {a : α} {Q : σ → Prop}
    (hx : Alone answers (fun r w' => r = .ok a ∧ Q w') x.run w) (hf : ∀ w', Q w' → Alone answers post (f a).run w') :
    Alone answers post (x >>= f).run w := by
  refine Safe.bind_except trivial (hx.mono fun r w' _ hr => ?_)
  obtain ⟨rfl, hq⟩ := hr
  exact hf w' hq

theorem Alone.bind_attempt {ε' : Type} {post : Except ε' β → σ → Prop} {f : Except ε α → ExceptT ε' (Program A) β}
    {r : Except ε α} {Q : σ → Prop} (hx : Alone answers (fun r' w' => r' = r ∧ Q w') x.run w)
    (hf : ∀ w', Q w' → Alone answers post (f r).run w') : Alone answers post (attempt x >>= f).run w := by
  refine Safe.bind_attempt trivial (hx.mono fun r' w' _ hr => ?_)
  obtain ⟨rfl, hq⟩ := hr
  exact hf w' hq

theorem Alone.bind_query {post : Except ε β → σ → Prop} {q : Q} {f : A q → ExceptT ε (Program A) β}
    (h : ∀ x w', answers w q x w' → Alone answers post (f x).run w') : Alone answers post (query q >>= f).run w := by
  refine Safe.bind_query fun w₁ hw _ x w₂ hx => ?_
  obtain rfl : w = w₁ := hw
  exact ⟨trivial, trivial, h x w₂ hx⟩

theorem Alone.exists_runs (h : Alone answers post p w) (htotal : ∀ w q, ∃ x w', answers w q x w') :
    ∃ a w', Runs answers p w a w' ∧ post a w' := by
  obtain ⟨a, w', hr⟩ := Program.exists_runs htotal p w
  exact ⟨a, w', hr, h.runs trivial hr⟩

end Program

end

/-! ## Any number of programs -/

/-- A world and the programs started in it, each with its call. -/
structure Pool {Q : Type} (A : Q → Type) (σ C ρ : Type) where
  world : σ
  threads : List (C × Program A ρ)

namespace Pool

variable {Q : Type} {A : Q → Type} {σ C ρ : Type}

/-- A call starts, a program takes a step, or the world changes from outside. -/
inductive Step (answers : Program.Answers A σ) (program : C → Program A ρ)
    (starts : σ → C → Prop) (outside : σ → σ → Prop) : Pool A σ C ρ → Pool A σ C ρ → Prop
  | start {w : σ} {threads : List (C × Program A ρ)} {c : C} (h : starts w c) :
      Step answers program starts outside ⟨w, threads⟩ ⟨w, threads ++ [(c, program c)]⟩
  | turn {w w' : σ} {before after : List (C × Program A ρ)} {c : C} {q : Q}
      {next : A q → Program A ρ} {x : A q} (h : answers w q x w') :
      Step answers program starts outside ⟨w, before ++ (c, .ask q next) :: after⟩
        ⟨w', before ++ (c, next x) :: after⟩
  | outside {w w' : σ} {threads : List (C × Program A ρ)} (h : outside w w') :
      Step answers program starts outside ⟨w, threads⟩ ⟨w', threads⟩

def Reachable (answers : Program.Answers A σ) (program : C → Program A ρ) (starts : σ → C → Prop)
    (outside : σ → σ → Prop) (w₀ : σ) (s : Pool A σ C ρ) : Prop :=
  Relation.ReflTransGen (Step answers program starts outside) ⟨w₀, []⟩ s

variable {answers : Program.Answers A σ} {program : C → Program A ρ} {starts : σ → C → Prop}
  {outside : σ → σ → Prop} {w₀ : σ} {s t : Pool A σ C ρ}

theorem Reachable.safe {S : Sharing σ} {post : C → ρ → σ → Prop} (hguarantee : ∀ w w', S.guarantee w w' → S.rely w w')
    (hstart : ∀ w c, S.inv w → starts w c → (program c).Safe answers S (post c) w)
    (houtside : ∀ w w', S.inv w → outside w w' → S.rely w w' ∧ S.inv w') (h₀ : S.inv w₀)
    (h : Reachable answers program starts outside w₀ s) : S.inv s.world ∧ ∀ th ∈ s.threads, th.2.Safe answers S
    (post th.1) s.world := by
  induction h with
  | refl => exact ⟨h₀, fun th hth => by cases hth⟩
  | tail _ hstep ih =>
    obtain ⟨hinv, hthreads⟩ := ih
    cases hstep with
    | start hc =>
      refine ⟨hinv, fun th hth => ?_⟩
      rcases List.mem_append.mp hth with hth | hth
      · exact hthreads th hth
      · obtain rfl := List.mem_singleton.mp hth
        exact hstart _ _ hinv hc
    | @turn w w' before after c q next x hx =>
      have hself := hthreads (c, .ask q next) (by simp)
      obtain ⟨hg, hinv', hnext⟩ := hself w (S.refl w) hinv x w' hx
      refine ⟨hinv', fun th hth => ?_⟩
      have hother : ∀ th ∈ before ++ after, th.2.Safe answers S (post th.1) w' := by
        intro th hth
        refine (hthreads th ?_).rely (hguarantee w w' hg)
        rcases List.mem_append.mp hth with hth | hth <;> simp [hth]
      rcases List.mem_append.mp hth with hth | hth
      · exact hother th (List.mem_append_left after hth)
      · rcases List.mem_cons.mp hth with rfl | hth
        · exact hnext
        · exact hother th (List.mem_append_right before hth)
    | outside hw =>
      obtain ⟨hrely, hinv'⟩ := houtside _ _ hinv hw
      exact ⟨hinv', fun th hth => (hthreads th hth).rely hrely⟩

def calls (s : Pool A σ C ρ) : List C := s.threads.map Prod.fst

theorem calls_subset_of_step (h : Step answers program starts outside s t) : s.calls ⊆ t.calls := by
  cases h with
  | start hc => simp [calls]
  | turn hx => simp [calls]
  | outside hw => exact List.Subset.refl _

theorem Reachable.of_calls (h : Reachable answers program starts outside w₀ s) :
    Reachable answers program (fun w c => starts w c ∧ c ∈ s.calls) outside w₀ s := by
  suffices hmore : ∀ cs : List C, s.calls ⊆ cs →
      Reachable answers program (fun w c => starts w c ∧ c ∈ cs) outside w₀ s from
    hmore s.calls (List.Subset.refl _)
  induction h with
  | refl => exact fun cs _ => .refl
  | tail _ hstep ih =>
    intro cs hcs
    refine (ih cs (List.Subset.trans (calls_subset_of_step hstep) hcs)).tail ?_
    cases hstep with
    | start hc => exact .start ⟨hc, hcs (by simp [calls])⟩
    | turn hx => exact .turn hx
    | outside hw => exact .outside hw

theorem Reachable.run {c : C} {r : ρ} {w' : σ} (h : Reachable answers program starts outside w₀ s)
    (hc : starts s.world c) (hr : (program c).Runs answers s.world r w') : Reachable answers program starts outside w₀
    ⟨w', s.threads ++ [(c, .done r)]⟩ := by
  have hgo : ∀ {p : Program A ρ} {w : σ}, p.Runs answers w r w' →
      Relation.ReflTransGen (Step answers program starts outside)
        ⟨w, s.threads ++ [(c, p)]⟩ ⟨w', s.threads ++ [(c, .done r)]⟩ := by
    intro p w hp
    induction hp with
    | done a w => exact .refl
    | ask hx _ ih => exact .head (.turn hx) (ih hr)
  exact (h.tail (.start hc)).trans (hgo hr)

end Pool

end Scry.Lib
