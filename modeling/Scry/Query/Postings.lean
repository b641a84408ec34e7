import Mathlib.Data.List.MinMax
import Scry.Block.Postings
import Scry.Lib.Effects

/-! # Label matchers over the postings of a block

Sets of fingerprints are lists here; only membership is looked at.
-/

open Scry.Lib Scry.Block

namespace Scry.Query

open List

/-- What `build_postings` reads of a dictionary entry. -/
structure OwnedSeries where
  fingerprint : Nat
  labels : List LabelPair
  deriving DecidableEq

def labelRows (dict : List OwnedSeries) : List PostingsEntry :=
  dict.flatMap fun series => series.labels.map fun label => (label, [series.fingerprint])

/-- Metrics and logs build the same rows of their dictionaries. -/
def buildPostings (drain : List PostingsEntry → List PostingsEntry) (dict : List OwnedSeries) : List PostingsEntry :=
  mergePostings drain [labelRows dict]

/-- `PostingsIndex::lookup`: of two rows with one pair the later one is in the index. -/
def lookup (index : List PostingsEntry) (pair : LabelPair) : Option (List Nat) :=
  (index.reverse.find? fun row => row.1 = pair).map Prod.snd

/-- `acc.retain(..)`, left with nothing when the set runs empty. -/
def retain (acc fps : List Nat) : Option (List Nat) :=
  let acc := acc.filter fun fp => fps.contains fp
  if acc.isEmpty then none else some acc

def intersectMatchers (index : List PostingsEntry) (matchers : List LabelPair) : Option (List Nat) := do
  let perMatcher ← matchers.mapM fun pair => (lookup index pair).filter fun fps => !fps.isEmpty
  let (smallest, smallestIdx) ← perMatcher.zipIdx.argmin fun p => p.1.length
  perMatcher.zipIdx.foldlM (fun acc p => if p.2 = smallestIdx then some acc else retain acc p.1) smallest

/-! ## The resolved set -/

variable {fp : Nat}

theorem mem_retain {acc fps : List Nat} : fp ∈ (retain acc fps).getD [] ↔ fp ∈ acc ∧ fp ∈ fps := by
  have hmem : fp ∈ acc.filter (fun fp => fps.contains fp) ↔ fp ∈ acc ∧ fp ∈ fps := by simp
  rw [← hmem, retain]
  split <;> rename_i h
  · rw [isEmpty_iff.mp h]
    rfl
  · rfl

theorem mem_retainAll {lists : List (List Nat × Nat)} {acc : List Nat} {i fp : Nat} :
    fp ∈ (lists.foldlM (fun acc p => if p.2 = i then some acc else retain acc p.1) acc).getD [] ↔
      fp ∈ acc ∧ ∀ p ∈ lists, p.2 ≠ i → fp ∈ p.1 := by
  induction lists generalizing acc with
  | nil => simp
  | cons p lists ih =>
    rw [forall_mem_cons, foldlM_cons]
    by_cases hp : p.2 = i
    · simp [hp, ih]
    · have hretain : fp ∈ (retain acc p.1).getD [] ↔ fp ∈ acc ∧ fp ∈ p.1 := mem_retain
      simp only [hp, if_false, Option.bind_eq_bind, ne_eq, not_false_eq_true, true_imp_iff, ← and_assoc, ← hretain]
      cases retain acc p.1 with
      | none => simp
      | some kept => exact ih

variable {matchers : List LabelPair} {f : LabelPair → Option (List Nat)}

theorem mem_mapM {lists : List (List Nat)} (h : matchers.mapM f = some lists) :
    (lists = [] ↔ matchers = []) ∧ ∀ fp, (∀ l ∈ lists, fp ∈ l) ↔ ∀ pair ∈ matchers, fp ∈ (f pair).getD [] := by
  induction matchers generalizing lists with
  | nil => simp_all
  | cons pair matchers ih =>
    simp only [mapM_cons, Option.bind_eq_bind, Option.bind_eq_some_iff, Option.pure_def, Option.some.injEq] at h
    obtain ⟨l, hl, ls, hls, rfl⟩ := h
    simp [hl, (ih hls).2]

theorem mapM_eq_none (h : matchers.mapM f = none) :
    ∃ pair ∈ matchers, f pair = none := by
  by_contra hsome
  push Not at hsome
  have := mapM_isSome (f := f) fun pair hpair => Option.isSome_iff_ne_none.mpr (hsome pair hpair)
  simp [h] at this

theorem mem_intersectMatchers {index : List PostingsEntry} : fp ∈ (intersectMatchers index matchers).getD
    [] ↔ matchers ≠ [] ∧ ∀ pair ∈ matchers, fp ∈ (lookup index pair).getD [] := by
  have hfound (pair : LabelPair) :
      ((lookup index pair).filter fun fps => !fps.isEmpty).getD [] = (lookup index pair).getD [] := by
    rcases lookup index pair with _ | _ | _ <;> rfl
  unfold intersectMatchers
  cases hlists : matchers.mapM fun pair => (lookup index pair).filter fun fps => !fps.isEmpty with
  | none =>
    obtain ⟨pair, hpair, hnone⟩ := mapM_eq_none hlists
    have hlost : (lookup index pair).getD [] = [] := by rw [← hfound, hnone, Option.getD_none]
    refine ⟨fun h => absurd h not_mem_nil, fun h => ?_⟩
    have := h.2 pair hpair
    rwa [hlost] at this
  | some lists =>
    obtain ⟨hnil, hall⟩ := mem_mapM hlists
    simp only [← hfound, ← hall, ne_eq, ← hnil, Option.bind_eq_bind, Option.bind_some]
    cases hleast : lists.zipIdx.argmin fun p => p.1.length with
    | none =>
      have hlists : lists = [] := zipIdx_eq_nil_iff.mp (argmin_eq_none.mp hleast)
      simp [hlists]
    | some least =>
      have hmem := mem_zipIdx_iff_getElem?.mp (argmin_mem hleast)
      have hne : lists ≠ [] := ne_nil_of_mem (mem_of_getElem? hmem)
      simp only [Option.bind_some, mem_retainAll, hne, not_false_eq_true, true_and]
      constructor
      · rintro ⟨hseed, hrest⟩ l hl
        obtain ⟨i, hi⟩ := mem_iff_getElem?.mp hl
        by_cases heq : i = least.2
        · rw [heq, hmem] at hi
          exact Option.some.inj hi ▸ hseed
        · exact hrest (l, i) (mem_zipIdx_iff_getElem?.mpr hi) heq
      · intro h
        exact ⟨h _ (mem_of_getElem? hmem), fun p hp _ => h _ (mem_of_getElem? (mem_zipIdx_iff_getElem?.mp hp))⟩

variable {dict : List OwnedSeries} {drain : List PostingsEntry → List PostingsEntry}

theorem lookup_buildPostings (hdrain : ∀ l, (drain l).Perm l) {pair : LabelPair} : fp ∈ (lookup (buildPostings drain dict) pair).getD [] ↔
    ∃ series ∈ dict, series.fingerprint = fp ∧ pair ∈ series.labels := by
  have hunion : IsUnion [labelRows dict] (buildPostings drain dict) := mergePostings_isUnion hdrain _
  have hrows : (∃ row ∈ labelRows dict, row.1 = pair ∧ fp ∈ row.2) ↔
      ∃ series ∈ dict, series.fingerprint = fp ∧ pair ∈ series.labels := by
    simp only [labelRows, mem_flatMap, mem_map]
    constructor
    · rintro ⟨_, ⟨series, hseries, label, hlabel, rfl⟩, rfl, hfp⟩
      exact ⟨series, hseries, (mem_singleton.mp hfp).symm, hlabel⟩
    · rintro ⟨series, hseries, rfl, hlabel⟩
      exact ⟨_, ⟨series, hseries, pair, hlabel, rfl⟩, rfl, mem_singleton.mpr rfl⟩
  rw [← hrows]
  unfold lookup
  cases hrow : (buildPostings drain dict).reverse.find? fun row => row.1 = pair with
  | none =>
    have hmissing : ∀ row ∈ labelRows dict, row.1 ≠ pair := by
      intro row hmem heq
      obtain ⟨found, hfound, hkey⟩ := (hunion.key_iff pair).mpr ⟨_, mem_singleton.mpr rfl, row, hmem, heq⟩
      simpa [hkey] using find?_eq_none.mp hrow found (mem_reverse.mpr hfound)
    refine ⟨fun h => absurd h not_mem_nil, ?_⟩
    rintro ⟨row, hmem, heq, -⟩
    exact absurd heq (hmissing row hmem)
  | some row =>
    have hkey : row.1 = pair := by simpa using find?_some hrow
    have hmem := mem_reverse.mp (mem_of_find?_eq_some hrow)
    simpa [hkey] using hunion.value_iff row hmem fp

theorem mem_intersect_buildPostings (hdrain : ∀ l, (drain l).Perm l) : fp ∈ (intersectMatchers (buildPostings drain dict) matchers).getD [] ↔
    matchers ≠ [] ∧ ∀ pair ∈ matchers, ∃ series ∈ dict, series.fingerprint = fp ∧ pair ∈ series.labels := by
  simp only [mem_intersectMatchers, lookup_buildPostings hdrain]

end Scry.Query
