import Mathlib.Logic.Function.Basic
import Mathlib.Data.Fintype.EquivFin
import Mathlib.Data.List.Nodup
import Scry.Lib.Program

/-! # Object stores with conditional writes

A store is the log of what was written under each key, every write with a version of its own. The report of a
write need not tell whether it was applied.
-/

namespace Scry.Lib

inductive ObjectError
  | notFound
  | alreadyExists
  | precondition
  | notModified
  | generic
  deriving DecidableEq

/-- The writes of each key, the newest first, with their versions. -/
abbrev ObjectStore (K V B : Type) := K → List (V × B)

namespace ObjectStore

variable {K V B X : Type}

section

variable [DecidableEq K]

variable (w : ObjectStore K V B)

def write (key : K) (version : V) (body : B) : ObjectStore K V B :=
  Function.update w key ((version, body) :: w key)

@[simp] theorem write_same (key : K) (version : V) (body : B) :
    w.write key version body key = (version, body) :: w key :=
  Function.update_self key _ w

@[simp] theorem write_other {w : ObjectStore K V B} {key k : K} (h : k ≠ key) (version : V)
    (body : B) : w.write key version body k = w k :=
  Function.update_of_ne h _ w

end

/-! ## Requests -/

/-- A request to the store, or a question `X` to somebody else. -/
inductive Request (K V B X : Type)
  | get (key : K)
  | create (key : K) (body : B)
  | update (key : K) (body : B) (version : V)
  | outside (x : X)

@[reducible] def Reply (O : X → Type) : Request K V B X → Type
  | .get _ => Except ObjectError (B × V)
  | .create _ _ => Except ObjectError Unit
  | .update _ _ _ => Except ObjectError Unit
  | .outside x => O x

section

variable {O : X → Type} {ε : Type}

abbrev Client (K V B : Type) {X : Type} (O : X → Type) (ε α : Type) :=
  ExceptT ε (Program (Reply (K := K) (V := V) (B := B) O)) α

def get (key : K) : Client K V B O ε (Except ObjectError (B × V)) := Program.query (Request.get key)

def create (key : K) (body : B) : Client K V B O ε (Except ObjectError Unit) :=
  Program.query (Request.create key body)

def replace (key : K) (body : B) (version : V) : Client K V B O ε (Except ObjectError Unit) :=
  Program.query (Request.update key body version)

def outside (x : X) : Client K V B O ε (O x) := Program.query (Request.outside x)

end

/-- A failed write was applied or not; only an absent object is not found. -/
def answers [DecidableEq K] (O : X → Type) (w : ObjectStore K V B) :
    (q : Request K V B X) → Reply O q → ObjectStore K V B → Prop
  | .get key, r, w' => w' = w ∧ match r with
    | .ok (body, version) => (w key).head? = some (version, body)
    | .error e => e = .notFound → w key = []
  | .create key body, r, w' =>
    w' = w ∧ r ≠ .ok () ∨ w key = [] ∧ ∃ version, w' = w.write key version body
  | .update key body version, r, w' =>
    w' = w ∧ r ≠ .ok () ∨ ∃ old rest, w key = (version, old) :: rest ∧
      ∃ fresh, fresh ∉ (w key).map Prod.fst ∧ w' = w.write key fresh body
  | .outside _, _, w' => w' = w

variable (r : Except ObjectError Unit)

/-- A retry that finds its write applied is reported as refused. -/
def Acknowledges : Prop :=
  r = .ok () ∨ r = .error .alreadyExists ∨ r = .error .precondition

def Refuses : Prop :=
  r = .error .alreadyExists ∨ r = .error .precondition

/-- A store that works: every request is carried out. -/
def works [DecidableEq K] (O : X → Type) (w : ObjectStore K V B) :
    (q : Request K V B X) → Reply O q → ObjectStore K V B → Prop
  | .get key, r, w' => w' = w ∧ match (w key).head? with
    | some (version, body) => r = .ok (body, version)
    | none => r = .error .notFound
  | .create key body, r, w' =>
    (w key = [] ∧ Acknowledges r ∧ ∃ version, w' = w.write key version body) ∨
      (w key ≠ [] ∧ Refuses r ∧ w' = w)
  | .update key body version, r, w' =>
    (∃ old rest, w key = (version, old) :: rest ∧ Acknowledges r ∧
      ∃ fresh, fresh ∉ (w key).map Prod.fst ∧ w' = w.write key fresh body) ∨
      ((w key).head?.map Prod.fst ≠ some version ∧ Refuses r ∧ w' = w)
  | .outside _, _, w' => w' = w

variable {O : X → Type} {w : ObjectStore K V B} {reply : (x : X) → O x → Prop} {w' : ObjectStore K V B}

theorem answers_of_works [DecidableEq K] {q : Request K V B X} {x : Reply O q}
    (h : works O w q x w') : answers O w q x w' := by
  have href : ∀ r : Except ObjectError Unit, Refuses r → r ≠ .ok () := by
    rintro r (rfl | rfl) <;> exact fun h => by cases h
  cases q with
  | get key =>
    obtain ⟨rfl, h⟩ := h
    refine ⟨rfl, ?_⟩
    cases hw : w' key with
    | nil =>
      rw [hw] at h
      cases h
      exact fun _ => rfl
    | cons e rest =>
      rw [hw] at h
      cases h
      rfl
  | create key body =>
    rcases h with ⟨habs, -, hwrite⟩ | ⟨-, hr, rfl⟩
    · exact .inr ⟨habs, hwrite⟩
    · exact .inl ⟨rfl, href x hr⟩
  | update key body version =>
    rcases h with ⟨old, rest, hcur, -, hwrite⟩ | ⟨-, hr, rfl⟩
    · exact .inr ⟨old, rest, hcur, hwrite⟩
    · exact .inl ⟨rfl, href x hr⟩
  | outside x => exact h

theorem exists_works [DecidableEq K] [Infinite V] (hO : ∀ x, Nonempty (O x)) (w : ObjectStore K V B)
    (q : Request K V B X) : ∃ x w', works O w q x w' := by
  have hfresh : ∀ l : List V, ∃ v, v ∉ l := fun l => by
    classical
    obtain ⟨v, hv⟩ := Infinite.exists_notMem_finset l.toFinset
    exact ⟨v, fun h => hv (List.mem_toFinset.mpr h)⟩
  cases q with
  | get key =>
    cases hw : (w key).head? with
    | none => exact ⟨.error .notFound, w, rfl, by rw [hw]⟩
    | some e => exact ⟨.ok (e.2, e.1), w, rfl, by rw [hw]⟩
  | create key body =>
    obtain ⟨v, -⟩ := hfresh []
    by_cases hw : w key = []
    · exact ⟨.ok (), w.write key v body, .inl ⟨hw, .inl rfl, v, rfl⟩⟩
    · exact ⟨.error .alreadyExists, w, .inr ⟨hw, .inl rfl, rfl⟩⟩
  | update key body version =>
    obtain ⟨v, hv⟩ := hfresh ((w key).map Prod.fst)
    by_cases hcur : (w key).head?.map Prod.fst = some version
    · obtain ⟨⟨version, old⟩, he, rfl⟩ := Option.map_eq_some_iff.mp hcur
      exact ⟨.ok (), w.write key v body, .inl ⟨old, _, List.eq_cons_of_mem_head? he, .inl rfl, v, hv, rfl⟩⟩
    · exact ⟨.error .precondition, w, .inr ⟨hcur, .inr rfl, rfl⟩⟩
  | outside x =>
    obtain ⟨a⟩ := hO x
    exact ⟨a, w, rfl⟩

def answering {O : X → Type} (base : Program.Answers (Reply (K := K) (V := V) (B := B) O) (ObjectStore K V B))
    (reply : (x : X) → O x → Prop) (w : ObjectStore K V B) :
    (q : Request K V B X) → Reply O q → ObjectStore K V B → Prop
  | .outside x, r, w' => base w (.outside x) r w' ∧ reply x r
  | .get key, r, w' => base w (.get key) r w'
  | .create key body, r, w' => base w (.create key body) r w'
  | .update key body version, r, w' => base w (.update key body version) r w'

theorem base_of_answering {base : Program.Answers (Reply (K := K) (V := V) (B := B) O) (ObjectStore K V B)}
    (w : ObjectStore K V B) (q : Request K V B X) (r : Reply O q) (w' : ObjectStore K V B)
    (h : answering base reply w q r w') : base w q r w' := by
  cases q with
  | outside x => exact h.1
  | get key | create key body | update key body version => exact h

theorem answering_mono {base base' : Program.Answers (Reply (K := K) (V := V) (B := B) O) (ObjectStore K V B)}
    {reply' : (x : X) → O x → Prop} (hbase : ∀ w q r w', base w q r w' → base' w q r w')
    (hreply : ∀ x r, reply x r → reply' x r) (w : ObjectStore K V B) (q : Request K V B X) (r : Reply O q)
    (w' : ObjectStore K V B) (h : answering base reply w q r w') : answering base' reply' w q r w' := by
  cases q with
  | outside x => exact ⟨hbase w (.outside x) r w' h.1, hreply x r h.2⟩
  | get key => exact hbase w (.get key) r w' h
  | create key body => exact hbase w (.create key body) r w' h
  | update key body version => exact hbase w (.update key body version) r w' h

theorem exists_answering_works [DecidableEq K] [Infinite V] (hreply : ∀ x, ∃ r, reply x r)
    (w : ObjectStore K V B) (q : Request K V B X) : ∃ r w', answering (works O) reply w q r w' := by
  have hworks := exists_works (fun x => (hreply x).nonempty) w q
  cases q with
  | outside x =>
    obtain ⟨r, hr⟩ := hreply x
    exact ⟨r, w, rfl, hr⟩
  | get key | create key body | update key body version => exact hworks

/-! ## What any request keeps -/

def Extends (w w' : ObjectStore K V B) : Prop := ∀ k, w k <:+ w' k

theorem Extends.refl (w : ObjectStore K V B) : w.Extends w := fun k => List.suffix_refl (w k)

theorem Extends.trans {w₁ w₂ w₃ : ObjectStore K V B} (h : w₁.Extends w₂) (h' : w₂.Extends w₃) :
    w₁.Extends w₃ := fun k => (h k).trans (h' k)

theorem Extends.mem (h : w.Extends w') {k : K} {e : V × B} (he : e ∈ w k) :
    e ∈ w' k := (h k).subset he

theorem extends_write [DecidableEq K] (w : ObjectStore K V B) (key : K) (version : V) (body : B) :
    w.Extends (w.write key version body) := by
  intro k
  by_cases hk : k = key
  · subst hk
    rw [write_same]
    exact List.suffix_cons _ _
  · have hsame : w.write key version body k = w k := write_other hk version body
    exact hsame ▸ List.suffix_refl (w k)

def Distinct (w : ObjectStore K V B) : Prop := ∀ k, ((w k).map Prod.fst).Nodup

theorem Distinct.eq (h : w.Distinct) {k : K} {version : V} {a b : B} (ha : (version, a) ∈ w k)
    (hb : (version, b) ∈ w k) : a = b :=
  congrArg Prod.snd (List.inj_on_of_nodup_map (h k) ha hb rfl)

theorem Distinct.write [DecidableEq K] (h : w.Distinct) {key : K} {version : V} {body : B}
    (hfresh : version ∉ (w key).map Prod.fst) : (w.write key version body).Distinct := by
  intro k
  by_cases hk : k = key
  · subst hk
    rw [write_same, List.map_cons, List.nodup_cons]
    exact ⟨hfresh, h k⟩
  · rw [write_other hk]
    exact h k

end ObjectStore

end Scry.Lib
