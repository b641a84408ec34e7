import Scry.Alert.Records
import Scry.Lib.ObjectStore

/-! # The alert store

Each operation is a program of single requests to the object store. `create_identical` and `update` read an
object back when they cannot tell whether their write was applied.
-/

namespace Scry.Alert

open Scry.Lib ObjectStore Program Record

/-- A number here; what counts is that no write of a key repeats one. -/
abbrev Version := Nat

abbrev Store := ObjectStore String Version Document

inductive AlertStoreError
  | decode (path : String)
  | object (path : String) (source : ObjectError)
  | oversized (path : String)
  | collision (path : String)
  | missing (path : String)
  | conflict (path : String)
  | corrupt (path : String) (message : String)
  deriving DecidableEq

abbrev StoreM {X : Type} (O : X → Type) (α : Type) :=
  Client String Version Document O AlertStoreError α

structure Versioned (α : Type) where
  value : α
  version : Version

def maxControlObjectBytes : Nat := 1024 * 1024

section

variable {X : Type} {O : X → Type} {α : Type} [Record α] (P : Platform)

/-! ## Requests -/

def getBounded (key : String) : StoreM O (Document × Version) := do
  match ← get key with
  | .error .notFound => throw (.missing key)
  | .error e => throw (.object key e)
  | .ok (document, version) =>
    if (P.json document).length > maxControlObjectBytes then throw (.oversized key)
    else pure (document, version)

def boundedJson (key : String) (value : α) : Except AlertStoreError Document :=
  let document := toDocument value
  if (P.json document).length > maxControlObjectBytes then .error (.oversized key)
  else .ok document

def createIdentical (key : String) (value : α) : StoreM O Unit := do
  let document ← boundedJson P key value
  match ← create key document with
  | .ok () => pure ()
  -- A retried create that was applied ends here too, and finds its own text.
  | .error .alreadyExists | .error .precondition =>
    let (existing, _) ← getBounded P key
    if existing = document then pure () else throw (.collision key)
  | .error e => throw (.object key e)

def update (key : String) (value : α) (version : Version) : StoreM O Unit := do
  let document ← boundedJson P key value
  match ← replace key document version with
  | .ok () => pure ()
  | .error .precondition | .error .notModified | .error .alreadyExists =>
    match ← attempt (getBounded P key) with
    | .ok (existing, _) => if existing = document then pure () else throw (.conflict key)
    | .error (.missing _) => throw (.conflict key)
    | .error e => throw e
  | .error e => throw (.object key e)

variable (α) in
def readVersioned (key : String) : StoreM O (Versioned α) := do
  let (document, version) ← getBounded P key
  match ofDocument P document with
  | none => throw (.decode key)
  | some value => pure ⟨value, version⟩

/-- A head that is there already lost a race. -/
def collisionIsConflict : AlertStoreError → AlertStoreError
  | .collision path => .conflict path
  | e => e

def createHead (key : String) (value : α) : StoreM O Unit := do
  match ← attempt (createIdentical P key value) with
  | .ok () => pure ()
  | .error e => throw (collisionIsConflict e)

end

/-! ## What a request gives in a shared store -/

section Safe

variable {X : Type} {O : X → Type} {α : Type} [Record α] {P : Platform} {S : Sharing Store}
  {w : Store} {key : String}

/-- The object was the newest of its key at some time since `w`. -/
def ReadSince (w : Store) (key : String) (version : Version) (document : Document) (w' : Store) : Prop :=
  ∃ older, w key <:+ (version, document) :: older ∧ (version, document) :: older <:+ w' key

variable {document : Document} {version : Version}

theorem ReadSince.mem {w' : Store}
    (h : ReadSince w key version document w') : (version, document) ∈ w' key := by
  obtain ⟨older, -, hsuffix⟩ := h
  exact hsuffix.subset (List.mem_cons_self ..)

theorem ReadSince.extends {w' w'' : Store}
    (h : ReadSince w key version document w') (hw : w'.Extends w'') : ReadSince w key version document w'' := by
  obtain ⟨older, hsince, hsuffix⟩ := h
  exact ⟨older, hsince, hsuffix.trans (hw key)⟩

theorem getBounded_safe (hext : ∀ w w', S.rely w w' → w.Extends w') : (getBounded P key : StoreM O _).run.Safe
    (answers O) S (onOk fun dv => ReadSince w key dv.2 dv.1) w := by
  refine Safe.bind_query fun w₁ hrely hinv x w₂ hx => ?_
  obtain ⟨rfl, hx⟩ := hx
  refine ⟨S.stutter _, hinv, ?_⟩
  cases x with
  | error e => cases e <;> exact .throw
  | ok dv =>
    simp only
    split
    · exact .throw
    · refine .pure fun w' hrely' _ => ?_
      obtain ⟨older, holder⟩ : ∃ older, w₂ key = (dv.2, dv.1) :: older :=
        ⟨_, List.eq_cons_of_mem_head? hx⟩
      refine ⟨older, ?_, ?_⟩
      · rw [← holder]
        exact hext _ _ hrely key
      · rw [← holder]
        exact hext _ _ hrely' key

theorem readVersioned_safe (hext : ∀ w w', S.rely w w' → w.Extends w') (hinv : S.inv w) :
    (readVersioned α P key : StoreM O _).run.Safe (answers O) S (onOk fun r w' => ∃ document, ReadSince w key
    r.version document w' ∧ ofDocument P document = some r.value) w := by
  refine Safe.bind_onOk hinv ((getBounded_safe hext).mono fun r w' hinv' hr => ?_)
  intro dv hdv
  have hread := hr dv hdv
  cases hvalue : (ofDocument P dv.1 : Option α) with
  | none =>
    simp only [hvalue]
    exact .throw
  | some value =>
    simp only [hvalue]
    exact .pure fun w₁ hrely _ => ⟨dv.1, hread.extends (hext _ _ hrely), hvalue⟩

section Write

variable {value : α}

def Written (key : String) (value : α) (w : Store) : Prop :=
  ∃ version, (version, toDocument value) ∈ w key

theorem Written.extends {w w' : Store} (h : Written key value w) (hw : w.Extends w') : Written key value w' := by
  obtain ⟨version, hmem⟩ := h
  exact ⟨version, hw.mem hmem⟩

theorem written_write (w : Store) (version : Version) :
    Written key value (w.write key version (toDocument value)) :=
  ⟨version, by rw [write_same]; exact List.mem_cons_self ..⟩

section

variable (hext : ∀ w w', S.rely w w' → w.Extends w')
include hext

theorem readBack_safe {e : AlertStoreError} {dv : Document × Version}
    (hmem : (dv.2, dv.1) ∈ w key) : (if dv.1 = toDocument value then pure () else throw e : StoreM O
    Unit).run.Safe (answers O) S (onOk fun _ => Written key value) w := by
  split
  next heq =>
    refine .pure fun w' hrely _ => ⟨dv.2, ?_⟩
    rw [← heq]
    exact (hext _ _ hrely).mem hmem
  next => exact .throw

theorem createIdentical_safe
    (hwrite : ∀ w₁ version, S.rely w w₁ → S.inv w₁ → w₁ key = [] → S.guarantee w₁
    (w₁.write key version (toDocument value)) ∧ S.inv (w₁.write key version (toDocument value))) :
    (createIdentical P key value : StoreM O _).run.Safe (answers O) S (onOk fun _ => Written key value) w := by
  unfold createIdentical boundedJson
  dsimp only
  split
  · exact .throw
  · refine Safe.bind_query fun w₁ hrely hinv x w₂ hx => ?_
    have hstep : S.guarantee w₁ w₂ ∧ S.inv w₂ ∧ (x = .ok () → Written key value w₂) := by
      rcases hx with ⟨rfl, hne⟩ | ⟨habs, version, rfl⟩
      · exact ⟨S.stutter _, hinv, fun h => absurd h hne⟩
      · obtain ⟨hg, hinv₂⟩ := hwrite w₁ version hrely hinv habs
        exact ⟨hg, hinv₂, fun _ => written_write w₁ version⟩
    obtain ⟨hg, hinv₂, hdone⟩ := hstep
    refine ⟨hg, hinv₂, ?_⟩
    cases x with
    | ok u => exact .pure fun w' hrely' _ => (hdone rfl).extends (hext _ _ hrely')
    | error e =>
      cases e with
      | alreadyExists | precondition =>
        exact Safe.bind_onOk hinv₂ ((getBounded_safe hext).mono fun r w' _ hr dv hdv =>
          readBack_safe hext (hr dv hdv).mem)
      | notFound | notModified | generic => exact .throw

theorem update_safe {version : Version}
    (hwrite : ∀ w₁ old rest fresh, S.rely w w₁ → S.inv w₁ → w₁ key = (version, old) :: rest → fresh ∉ (w₁ key).map
    Prod.fst → S.guarantee w₁ (w₁.write key fresh (toDocument value)) ∧ S.inv
    (w₁.write key fresh (toDocument value))) : (update P key value version : StoreM O _).run.Safe (answers O) S
    (onOk fun _ => Written key value) w := by
  unfold update boundedJson
  dsimp only
  split
  · exact .throw
  · refine Safe.bind_query fun w₁ hrely hinv x w₂ hx => ?_
    have hstep : S.guarantee w₁ w₂ ∧ S.inv w₂ ∧ (x = .ok () → Written key value w₂) := by
      rcases hx with ⟨rfl, hne⟩ | ⟨old, rest, hcur, fresh, hfresh, rfl⟩
      · exact ⟨S.stutter _, hinv, fun h => absurd h hne⟩
      · obtain ⟨hg, hinv₂⟩ := hwrite w₁ old rest fresh hrely hinv hcur hfresh
        exact ⟨hg, hinv₂, fun _ => written_write w₁ fresh⟩
    obtain ⟨hg, hinv₂, hdone⟩ := hstep
    refine ⟨hg, hinv₂, ?_⟩
    cases x with
    | ok u => exact .pure fun w' hrely' _ => (hdone rfl).extends (hext _ _ hrely')
    | error e =>
      cases e with
      | precondition | notModified | alreadyExists =>
        refine Safe.bind_attempt hinv₂ ((getBounded_safe hext).mono fun r w' _ hr => ?_)
        cases r with
        | ok dv => exact readBack_safe hext (hr dv rfl).mem
        | error e => cases e <;> exact .throw
      | notFound | generic => exact .throw

theorem createHead_safe (hinv : S.inv w)
    (hwrite : ∀ w₁ version, S.rely w w₁ → S.inv w₁ → w₁ key = [] → S.guarantee w₁
    (w₁.write key version (toDocument value)) ∧ S.inv (w₁.write key version (toDocument value))) :
    (createHead P key value : StoreM O _).run.Safe (answers O) S (onOk fun _ => Written key value) w := by
  refine Safe.bind_attempt hinv
    ((createIdentical_safe hext hwrite).mono fun r w' _ hr => ?_)
  cases r with
  | ok u => exact .pure fun w'' hrely _ => (hr u rfl).extends (hext _ _ hrely)
  | error e => exact .throw

end

end Write

end Safe

section

variable {α : Type} [Record α] {P : Platform} {w : Store} {key : String}

def Fits (P : Platform) (document : Document) : Prop :=
  (P.json document).length ≤ maxControlObjectBytes

def Readable (P : Platform) (w : Store) (key : String) (r : Versioned α) : Prop :=
  ∃ document rest, w key = (r.version, document) :: rest ∧ Fits P document ∧
    ofDocument P document = some r.value

theorem Readable.unique {r r' : Versioned α} (h : Readable P w key r) (h' : Readable P w key r') : r = r' := by
  obtain ⟨document, rest, htop, -, hvalue⟩ := h
  obtain ⟨document', rest', htop', -, hvalue'⟩ := h'
  rw [htop] at htop'
  obtain ⟨hver, rfl⟩ := Prod.mk.inj (List.cons.inj htop').1
  rw [hvalue] at hvalue'
  obtain ⟨value, version⟩ := r
  obtain ⟨value', version'⟩ := r'
  obtain rfl : value = value' := Option.some.inj hvalue'
  obtain rfl : version = version' := hver
  rfl

variable {r : Versioned α}

theorem Readable.congr {w' : Store} (h : Readable P w key r)
    (hw : w' key = w key) : Readable P w' key r := by
  unfold Readable
  rw [hw]
  exact h

theorem Readable.ne_nil (h : Readable P w key r) : w key ≠ [] := by
  obtain ⟨document, rest, htop, -⟩ := h
  rw [htop]
  exact List.cons_ne_nil _ _

end

/-! ## What a request gives in a store that nobody else writes -/

section Keeping

variable {X : Type} {O : X → Type} {α : Type} [Record α] {P : Platform} {w : Store}
  {key : String} {inv : Store → Prop}

theorem getBounded_keeping : (getBounded P key : StoreM O _).run.Safe (answers O) (.keeping inv)
    (fun r w' => w' = w ∧ ∀ d, r = .ok d → ∃ rest, w key = (d.2, d.1) :: rest ∧ Fits P d.1) w := by
  refine Safe.bind_query fun w₁ hrely hinv x w₂ hx => ?_
  obtain rfl : w = w₁ := hrely
  obtain ⟨rfl, hx⟩ := hx
  refine ⟨trivial, hinv, ?_⟩
  cases x with
  | error e => cases e <;> exact .keeping_done ⟨rfl, (fun _ h => by cases h)⟩
  | ok d =>
    simp only
    split
    · exact .keeping_done ⟨rfl, (fun _ h => by cases h)⟩
    next hfits =>
      refine .keeping_done ⟨rfl, ?_⟩
      rintro d' ⟨⟩
      exact ⟨_, List.eq_cons_of_mem_head? hx, not_lt.mp hfits⟩

theorem readVersioned_keeping (hinv : inv w) : (readVersioned α P key : StoreM O _).run.Safe (answers O)
    (.keeping inv) (fun r w' => w' = w ∧ ∀ a, r = .ok a → Readable P w key a) w := by
  refine Safe.bind_except hinv (getBounded_keeping.mono fun r w' _ hr => ?_)
  obtain ⟨rfl, hr⟩ := hr
  cases r with
  | error e => exact ⟨rfl, (fun _ h => by cases h)⟩
  | ok d =>
    obtain ⟨rest, htop, hfits⟩ := hr d rfl
    cases hvalue : (ofDocument P d.1 : Option α) with
    | none =>
      simp only [hvalue]
      exact .keeping_done ⟨rfl, (fun _ h => by cases h)⟩
    | some value =>
      simp only [hvalue]
      refine .keeping_done ⟨rfl, ?_⟩
      rintro a ⟨⟩
      exact ⟨d.1, rest, htop, hfits, hvalue⟩

variable {value : α} {version : Version}

theorem createIdentical_keeping (hinv : inv w) (hwrite : ∀ version, w key = [] → Fits P (toDocument value) →
    inv (w.write key version (toDocument value))) : (createIdentical P key value : StoreM O _).run.Safe
    (answers O) (.keeping inv) (fun r w' => (∀ k ≠ key, w' k = w k) ∧
    (r = .ok () → Fits P (toDocument value) ∧ ∃ version rest, w' key = (version, toDocument value) ::
    rest)) w := by
  unfold createIdentical boundedJson
  dsimp only
  split
  · exact .keeping_done ⟨fun _ _ => rfl, (fun h => by cases h)⟩
  next hfits =>
    replace hfits : Fits P (toDocument value) := not_lt.mp hfits
    refine Safe.keeping_query fun x w' hx => ?_
    -- Whatever the report, the store is as it was or has the new object.
    have hstep : inv w' ∧ (∀ k ≠ key, w' k = w k) ∧
        (x = .ok () → ∃ version rest, w' key = (version, toDocument value) :: rest) := by
      rcases hx with ⟨rfl, hne⟩ | ⟨habs, version, rfl⟩
      · exact ⟨hinv, fun _ _ => rfl, fun h => absurd h hne⟩
      · exact ⟨hwrite version habs hfits, fun k hk => write_other hk _ _, fun _ => ⟨version, _, write_same ..⟩⟩
    obtain ⟨hinv', hsame, hdone⟩ := hstep
    refine ⟨hinv', ?_⟩
    cases x with
    | ok u => exact .keeping_done ⟨hsame, fun _ => ⟨hfits, hdone rfl⟩⟩
    | error e =>
      cases e with
      | alreadyExists | precondition =>
        refine Safe.bind_except hinv' (getBounded_keeping.mono fun r w'' _ hr => ?_)
        obtain ⟨rfl, hr⟩ := hr
        cases r with
        | error e => exact ⟨hsame, (fun h => by cases h)⟩
        | ok d =>
          obtain ⟨rest, htop, -⟩ := hr d rfl
          simp only
          split
          next heq => exact .keeping_done ⟨hsame, fun _ => ⟨hfits, d.2, rest, heq ▸ htop⟩⟩
          next => exact .keeping_done ⟨hsame, (fun h => by cases h)⟩
      | notFound | notModified | generic => exact .keeping_done ⟨hsame, (fun h => by cases h)⟩

theorem update_keeping (hinv : inv w) (hwrite : ∀ old rest fresh, w key = (version, old) :: rest → Fits P
    (toDocument value) → inv (w.write key fresh (toDocument value))) :
    (update P key value version : StoreM O _).run.Safe (answers O) (.keeping inv) (fun _ _ => True) w := by
  unfold update boundedJson
  dsimp only
  split
  · exact .keeping_done trivial
  next hfits =>
    refine Safe.keeping_query fun x w' hx => ?_
    have hinv' : inv w' := by
      rcases hx with ⟨rfl, -⟩ | ⟨old, rest, hcur, fresh, -, rfl⟩
      · exact hinv
      · exact hwrite old rest fresh hcur (not_lt.mp hfits)
    refine ⟨hinv', ?_⟩
    cases x with
    | ok u => exact .keeping_done trivial
    | error e =>
      cases e with
      | precondition | notModified | alreadyExists =>
        refine Safe.bind_attempt hinv' (getBounded_keeping.mono fun r w'' _ _ => ?_)
        cases r with
        | ok d =>
          simp only
          split <;> exact .keeping_done trivial
        | error e => cases e <;> exact .keeping_done trivial
      | notFound | generic => exact .keeping_done trivial

end Keeping

/-! ## What a request gives in a store that works and is not shared -/

section Alone

variable {X : Type} {O : X → Type} {α : Type} [Record α] {P : Platform} {w : Store}
  {key : String} {version : Version} {document : Document} {rest : List (Version × Document)}
  {value : α}

theorem getBounded_alone (h : w key = (version, document) :: rest) (hfits : Fits P document) :
    (getBounded P key : StoreM O _).run.Alone (works O) (fun r w' => r = .ok (document, version) ∧ w' = w) w := by
  refine Alone.bind_query fun x w' hx => ?_
  obtain ⟨rfl, hx⟩ := hx
  rw [h] at hx
  obtain rfl : x = .ok (document, version) := hx
  dsimp only
  rw [if_neg (not_lt.mpr hfits)]
  exact .done ⟨rfl, rfl⟩

theorem getBounded_oversized (h : w key = (version, document) :: rest) (hfits : ¬ Fits P document) :
    (getBounded P key : StoreM O _).run.Alone (works O) (fun r w' => r = .error (.oversized key) ∧ w' = w) w := by
  refine Alone.bind_query fun x w' hx => ?_
  obtain ⟨rfl, hx⟩ := hx
  rw [h] at hx
  obtain rfl : x = .ok (document, version) := hx
  dsimp only
  rw [if_pos (not_le.mp hfits)]
  exact .done ⟨rfl, rfl⟩

theorem getBounded_absent (h : w key = []) : (getBounded P key : StoreM O _).run.Alone (works O)
    (fun r w' => r = .error (.missing key) ∧ w' = w) w := by
  refine Alone.bind_query fun x w' hx => ?_
  obtain ⟨rfl, hx⟩ := hx
  rw [h] at hx
  obtain rfl : x = .error .notFound := hx
  exact .done ⟨rfl, rfl⟩

theorem readVersioned_alone (h : w key = (version, document) :: rest) (hfits : Fits P document)
    (hvalue : ofDocument P document = some value) : (readVersioned α P key : StoreM O _).run.Alone (works O)
    (fun r w' => r = .ok ⟨value, version⟩ ∧ w' = w) w := by
  refine Alone.bind_ok (getBounded_alone h hfits) ?_
  rintro w' rfl
  simp only [hvalue]
  exact .done ⟨rfl, rfl⟩

theorem Readable.alone {r : Versioned α} (h : Readable P w key r) : (readVersioned α P key : StoreM O _).run.Alone
    (works O) (fun x w' => x = .ok r ∧ w' = w) w := by
  obtain ⟨document, rest, htop, hfits, hvalue⟩ := h
  exact readVersioned_alone htop hfits hvalue

theorem readVersioned_absent (h : w key = []) : (readVersioned α P key : StoreM O _).run.Alone (works O)
    (fun r w' => r = .error (.missing key) ∧ w' = w) w := by
  refine Safe.bind_except trivial ((getBounded_absent h).mono fun r w' _ hr => ?_)
  obtain ⟨rfl, rfl⟩ := hr
  exact ⟨rfl, rfl⟩

variable {old : Document}

theorem readBack_alone {post : Except AlertStoreError Unit → Store → Prop}
    (h : w key = (version, old) :: rest) (hfits : Fits P old)
    (hpost : post (if old = toDocument value then .ok () else .error (.collision key)) w) :
    (do let (existing, _) ← getBounded P key
        if existing = toDocument value then pure () else throw (.collision key) :
      StoreM O Unit).run.Alone (works O) post w := by
  refine Alone.bind_ok (getBounded_alone h hfits) ?_
  rintro w' rfl
  dsimp only
  split at hpost
  next heq =>
    rw [if_pos heq]
    exact .done hpost
  next hne =>
    rw [if_neg hne]
    exact .done hpost

theorem createIdentical_alone (hfits : Fits P (toDocument value))
    (hold : ∀ e ∈ (w key).head?, Fits P e.2) :
    (createIdentical P key value : StoreM O _).run.Alone (works O)
      (fun r w' => match (w key).head? with
        | none => r = .ok () ∧ ∃ version, w' = w.write key version (toDocument value)
        | some (_, old) => w' = w ∧
            r = if old = toDocument value then .ok () else .error (.collision key)) w := by
  unfold createIdentical boundedJson
  dsimp only
  rw [if_neg (not_lt.mpr hfits)]
  refine Alone.bind_query fun x w' hx => ?_
  rcases hx with ⟨habs, hx, version, rfl⟩ | ⟨hpresent, hx, rfl⟩
  · -- The write is applied; where it is reported as refused, the object read back is its own.
    rw [habs]
    have hwritten := write_same w key version (toDocument value)
    rcases hx with rfl | rfl | rfl
    · exact .done ⟨rfl, version, rfl⟩
    · exact readBack_alone hwritten hfits ⟨if_pos rfl, version, rfl⟩
    · exact readBack_alone hwritten hfits ⟨if_pos rfl, version, rfl⟩
  · obtain ⟨⟨v, old⟩, rest, hold'⟩ := List.exists_cons_of_ne_nil hpresent
    rw [hold', List.head?_cons] at hold ⊢
    have hfits' := hold (v, old) rfl
    rcases hx with rfl | rfl
    · exact readBack_alone hold' hfits' ⟨rfl, rfl⟩
    · exact readBack_alone hold' hfits' ⟨rfl, rfl⟩

theorem createIdentical_refused (h : ¬ Fits P (toDocument value) ∨ ∃ e ∈ (w key).head?, e.2 ≠ toDocument
    value) : (createIdentical P key value : StoreM O _).run.Alone (works O)
    (fun r w' => (∃ e, r = .error e ∧ ∀ path, e ≠ .conflict path) ∧ w' = w) w := by
  unfold createIdentical boundedJson
  dsimp only
  by_cases hfits : Fits P (toDocument value)
  · rw [if_neg (not_lt.mpr hfits)]
    obtain ⟨⟨v, old⟩, hhead, hne⟩ := h.resolve_left (not_not.mpr hfits)
    obtain ⟨rest, htop⟩ : ∃ rest, w key = (v, old) :: rest := ⟨_, List.eq_cons_of_mem_head? hhead⟩
    refine Alone.bind_query fun x w' hx => ?_
    rcases hx with ⟨habs, -⟩ | ⟨-, hx, rfl⟩
    · rw [habs] at htop
      cases htop
    · have hback : (do let (existing, _) ← getBounded P key
                       if existing = toDocument value then pure ()
                       else throw (.collision key) : StoreM O Unit).run.Alone (works O)
          (fun r w'' => (∃ e, r = .error e ∧ ∀ path, e ≠ .conflict path) ∧ w'' = w') w' := by
        by_cases hold : Fits P old
        · exact readBack_alone htop hold ⟨⟨_, if_neg hne, fun path h => by cases h⟩, rfl⟩
        · refine Safe.bind_except trivial
            ((getBounded_oversized htop hold).mono fun r w'' _ hr => ?_)
          obtain ⟨rfl, rfl⟩ := hr
          exact ⟨⟨_, rfl, fun path h => by cases h⟩, rfl⟩
      rcases hx with rfl | rfl
      · exact hback
      · exact hback
  · rw [if_pos (not_le.mp hfits)]
    exact .done ⟨⟨_, rfl, fun path h => by cases h⟩, rfl⟩

theorem createIdentical_new (h : w key = []) (hfits : Fits P (toDocument value)) :
    (createIdentical P key value : StoreM O _).run.Alone (works O)
      (fun r w' => r = .ok () ∧ ∃ version, w' = w.write key version (toDocument value)) w := by
  refine (createIdentical_alone hfits ?_).mono fun r w' _ hr => ?_
  · rw [h]
    exact fun e he => by cases he
  · rw [h] at hr
    exact hr

theorem createHead_new (h : w key = []) (hfits : Fits P (toDocument value)) :
    (createHead P key value : StoreM O _).run.Alone (works O)
      (fun r w' => r = .ok () ∧ ∃ version, w' = w.write key version (toDocument value)) w := by
  refine Alone.bind_attempt (createIdentical_new h hfits) ?_
  rintro w' hw'
  exact .done ⟨rfl, hw'⟩

theorem createHead_oversized (hfits : ¬ Fits P (toDocument value)) :
    (createHead P key value : StoreM O _).run.Alone (works O)
      (fun r w' => (∃ e, r = .error e ∧ ∀ path, e ≠ .conflict path) ∧ w' = w) w := by
  unfold createHead createIdentical boundedJson
  dsimp only
  rw [if_pos (not_le.mp hfits)]
  exact .done ⟨⟨_, rfl, fun path h => by cases h⟩, rfl⟩

theorem update_oversized (hfits : ¬ Fits P (toDocument value)) :
    (update P key value version : StoreM O _).run.Alone (works O)
      (fun r w' => (∃ e, r = .error e ∧ ∀ path, e ≠ .conflict path) ∧ w' = w) w := by
  unfold update boundedJson
  dsimp only
  rw [if_pos (not_le.mp hfits)]
  exact .done ⟨⟨_, rfl, fun path h => by cases h⟩, rfl⟩

theorem update_alone (h : w key = (version, old) :: rest) (hfits : Fits P (toDocument value))
    : (update P key value version : StoreM O _).run.Alone (works O)
    (fun r w' => r = .ok () ∧ ∃ fresh, fresh ∉ (w key).map Prod.fst ∧ w' = w.write key fresh
    (toDocument value)) w := by
  unfold update boundedJson
  dsimp only
  rw [if_neg (not_lt.mpr hfits)]
  refine Alone.bind_query fun x w' hx => ?_
  rcases hx with ⟨-, -, -, hx, fresh, hfresh, rfl⟩ | ⟨hstale, -, -⟩
  · have hback : Alone (works O)
        (fun r w' => r = .ok () ∧ ∃ fresh, fresh ∉ (w key).map Prod.fst ∧
          w' = w.write key fresh (toDocument value))
        (do match ← attempt (getBounded P key) with
            | .ok (existing, _) =>
              if existing = toDocument value then pure () else throw (.conflict key)
            | .error (.missing _) => throw (.conflict key)
            | .error e => throw e : StoreM O Unit).run
        (w.write key fresh (toDocument value)) := by
      refine Alone.bind_attempt (getBounded_alone (write_same ..) hfits) ?_
      rintro w' rfl
      dsimp only
      rw [if_pos rfl]
      exact .done ⟨rfl, fresh, hfresh, rfl⟩
    rcases hx with rfl | rfl | rfl
    · exact .done ⟨rfl, fresh, hfresh, rfl⟩
    · exact hback
    · exact hback
  · rw [h] at hstale
    exact absurd rfl hstale

end Alone

section

variable {X : Type} {O : X → Type} (P : Platform)

/-! ## Rules and targets -/

def createRuleRevision (rule : Rule) (commandId : String) : StoreM O Unit := do
  let head := ruleHead P rule commandId
  createIdentical P head.revisionKey rule
  let path := ruleHeadKey rule.id
  match ← attempt (readVersioned RuleHead P path) with
  | .ok current =>
    if current.value = head then pure ()
    else if !current.value.deleted && current.value.revision.toNat + 1 == rule.revision.toNat then
      update P path head current.version
    else throw (.conflict path)
  | .error (.missing _) =>
    if rule.revision = 1 then createHead P path head else throw (.conflict path)
  | .error e => throw e

def deletedHead {kind : Kind} (tombstone : Tombstone kind) : Head kind where
  schemaVersion := alertRecordSchemaVersion
  id := tombstone.id
  revision := tombstone.revision
  revisionKey := ""
  updatedAtUnixNano := tombstone.deletedAtUnixNano
  deleted := true
  tombstoneKey := some (tombstoneKey P kind tombstone.id tombstone.commandId)

def tombstone {kind : Kind} (tombstone : Tombstone kind) (expectedHead : Version) :
    StoreM O Unit := do
  createIdentical P (tombstoneKey P kind tombstone.id tombstone.commandId) tombstone
  update P (headKey kind tombstone.id) (deletedHead P tombstone) expectedHead

def tombstoneRule : RuleTombstone → Version → StoreM O Unit := tombstone P

def createTargetRevision (target : NotificationTarget) (commandId : String)
    (expectedHead : Option Version) : StoreM O Unit := do
  let next := targetHead P target commandId
  createIdentical P next.revisionKey target
  let path := targetHeadKey target.id
  match ← attempt (readVersioned TargetHead P path) with
  | .ok current =>
    if current.value = next then pure ()
    else if !current.value.deleted && current.value.revision.toNat + 1 == target.revision.toNat then
      match expectedHead with
      | some version => update P path next version
      | none => throw (.conflict path)
    else throw (.conflict path)
  | .error (.missing _) =>
    if expectedHead.isNone && target.revision == 1 then createHead P path next
    else throw (.conflict path)
  | .error e => throw e

def tombstoneTarget : TargetTombstone → Version → StoreM O Unit := tombstone P

variable (head : StateHead) (target : NotificationTargetId) (logical : LogicalSecretId) (id : MonitorId)

def readRuleHead : StoreM O (Versioned RuleHead) := do
  let path := ruleHeadKey id
  let head ← readVersioned RuleHead P path
  if head.value.schemaVersion != alertRecordSchemaVersion || head.value.id != id then
    throw (.corrupt path "rule head does not match its key")
  else pure head

def readRuleRevision (head : RuleHead) : StoreM O (Versioned Rule) := do
  if head.deleted || !isRuleRevisionKey head.id head.revisionKey then
    throw (.corrupt (ruleHeadKey head.id) "rule head does not name one of its revisions")
  else
    let rule ← readVersioned Rule P head.revisionKey
    if rule.value.id != head.id || rule.value.revision != head.revision then
      throw (.corrupt head.revisionKey "rule revision does not match its head")
    else pure rule

def readTargetHead (id : NotificationTargetId) : StoreM O (Versioned TargetHead) := do
  let path := targetHeadKey id
  let head ← readVersioned TargetHead P path
  if head.value.schemaVersion != alertRecordSchemaVersion || head.value.id != id then
    throw (.corrupt path "target head does not match its key")
  else pure head

def readTargetRevision (head : TargetHead) : StoreM O (Versioned NotificationTarget) := do
  if head.deleted || !isTargetRevisionKey head.id head.revisionKey then
    throw (.corrupt (targetHeadKey head.id) "target head does not name one of its revisions")
  else
    let target ← readVersioned NotificationTarget P head.revisionKey
    if target.value.id != head.id || target.value.revision != head.revision then
      throw (.corrupt head.revisionKey "target revision does not match its head")
    else pure target

/-! ## Secrets -/

/-- The generation is published before the head that names it. -/
def commitSecretGeneration (record : SecretGenerationRecord) (head : SecretHead)
    (expectedHead : Option Version) : StoreM O Unit := do
  let key := secretGenerationKey record.targetId record.logicalSecretId record.generation
  if record.deploymentId != head.deploymentId || record.targetId != head.targetId ||
      record.logicalSecretId != head.logicalSecretId || record.generation != head.generation ||
      key != head.generationKey then
    throw (.corrupt key "secret generation and head do not match")
  else
    createIdentical P key record
    let path := secretHeadKey record.targetId record.logicalSecretId
    match expectedHead with
    | some version => update P path head version
    | none => createIdentical P path head

def readSecretHead :
    StoreM O (Option (Versioned SecretHead)) := do
  match ← attempt (readVersioned SecretHead P (secretHeadKey target logical)) with
  | .ok head => pure (some head)
  | .error (.missing _) => pure none
  | .error e => throw e

def readSecretGeneration
    (generation : UInt64) : StoreM O (Versioned SecretGenerationRecord) :=
  readVersioned SecretGenerationRecord P (secretGenerationKey target logical generation)

/-! ## States -/

def readStateHead (deploymentId : String) :
    StoreM O (Option (Versioned StateHead)) := do
  let path := stateHeadKey id
  match ← attempt (readVersioned StateHead P path) with
  | .ok head =>
    match head.value.validate deploymentId id with
    | .ok () => pure (some head)
    | .error message => throw (.corrupt path message)
  | .error (.missing _) => pure none
  | .error e => throw e

def publishTransition : Option TransitionRecord → StoreM O Unit
  | none => pure ()
  | some transition =>
    match head.verifyTransition P transition with
    | .ok () => createIdentical P (head.latestTransition.key head.monitorId) transition
    | .error message => throw (.corrupt (stateHeadKey head.monitorId) message)

def moveStateHead : Option Version → StoreM O Unit
  | some version => update P (stateHeadKey head.monitorId) head version
  | none => createHead P (stateHeadKey head.monitorId) head

/-- The transition is published before the head that names it. -/
def commitState (transition : Option TransitionRecord)
    (expectedHead : Option Version) : StoreM O Unit := do
  match head.validate head.deploymentId head.monitorId with
  | .error message => throw (.corrupt (stateHeadKey head.monitorId) message)
  | .ok () =>
    publishTransition P head transition
    moveStateHead P head expectedHead

def readLatestTransition : StoreM O (Versioned TransitionRecord) := do
  let key := head.latestTransition.key head.monitorId
  let transition ← readVersioned TransitionRecord P key
  match head.verifyTransition P transition.value with
  | .ok () => pure transition
  | .error message => throw (.corrupt key message)

end

end Scry.Alert
