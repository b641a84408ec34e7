import Mathlib.Algebra.Order.BigOperators.Group.List
import Scry.Lib.Utf8
import Scry.Query.Postings

/-! # Metrics blocks and the table of a metrics query -/

open Scry.Lib Scry.Block

namespace Scry.Query

open List

structure Sample where
  fingerprint : Nat
  ts : Nat
  value : UInt64
  deriving DecidableEq

/-- `series_seen` is the set of the dictionary's keys. -/
structure MetricsBlockBuilder where
  samples : List Sample
  seriesDict : Table Nat OwnedSeries OwnedSeries.fingerprint

namespace MetricsBlockBuilder

def new : MetricsBlockBuilder := ⟨[], Table.empty⟩

/-- `String::from_utf8_lossy` -/
def lossyText (bytes : Bytes) : String := (String.fromUTF8? ⟨(utf8Lossy bytes).toArray⟩).getD ""

variable (b : MetricsBlockBuilder)

def observeSeries (fingerprint : Nat) (labels : List (Bytes × Bytes)) :
    MetricsBlockBuilder :=
  let owned := labels.map fun l => toLex (lossyText l.1, lossyText l.2)
  { b with seriesDict := b.seriesDict.insertIgnore ⟨fingerprint, owned⟩ }

def appendSample (sample : Sample) : MetricsBlockBuilder :=
  { b with samples := b.samples ++ [sample] }

def merge (b other : MetricsBlockBuilder) : MetricsBlockBuilder where
  samples := b.samples ++ other.samples
  seriesDict := other.seriesDict.rows.foldl Table.insertIgnore b.seriesDict

end MetricsBlockBuilder

/-- A merged scratch builder has calls of its own. -/
inductive BuildCalls where
  | new
  | observeSeries (calls : BuildCalls) (fingerprint : Nat) (labels : List (Bytes × Bytes))
  | appendSample (calls : BuildCalls) (sample : Sample)
  | merge (calls other : BuildCalls)

def BuildCalls.run : BuildCalls → MetricsBlockBuilder
  | new => .new
  | observeSeries calls fingerprint labels => calls.run.observeSeries fingerprint labels
  | appendSample calls sample => calls.run.appendSample sample
  | merge calls other => calls.run.merge other.run

structure MetricsBlock where
  rows : List Sample
  postings : List PostingsEntry
  allFingerprints : List Nat

def MetricsBlockBuilder.finishAndUpload (drain : List PostingsEntry → List PostingsEntry)
    (b : MetricsBlockBuilder) : Option MetricsBlock :=
  if b.samples.isEmpty then none
  else some {
    rows := sortBy (fun s => toLex (s.fingerprint, s.ts)) b.samples
    postings := buildPostings drain b.seriesDict.rows
    allFingerprints := b.seriesDict.rows.map OwnedSeries.fingerprint }

def resolveFingerprints (block : MetricsBlock) (matchers : List LabelPair) : Option (List Nat) :=
  if matchers.isEmpty then
    if block.allFingerprints.isEmpty then none else some block.allFingerprints
  else intersectMatchers block.postings matchers

/-- A surviving block and the fingerprints its scan is restricted to. -/
structure BlockEntry where
  block : MetricsBlock
  fpSet : Option (List Nat)

def buildMetricsTable (candidates : List MetricsBlock) (matchers : List LabelPair) : List BlockEntry :=
  candidates.filterMap fun block =>
    (resolveFingerprints block matchers).map fun set =>
      ⟨block, if matchers.isEmpty then none else some (set.insertionSort (· ≤ ·))⟩

def BlockEntry.scan (e : BlockEntry) : List Sample :=
  match e.fpSet with
  | none => e.block.rows
  | some fps => e.block.rows.filter fun s => fps.contains s.fingerprint

/-! ## What the postings prune -/

/-- Without matchers every sample comes back. -/
structure PrunesExactly (drain : List PostingsEntry → List PostingsEntry) (builders : List MetricsBlockBuilder) :
    Prop where
  resolved : ∀ matchers ≠ [], ∀ b ∈ builders, ∀ block, b.finishAndUpload drain = some block →
    ∀ fp, fp ∈ (resolveFingerprints block matchers).getD [] ↔
      ∃ series ∈ b.seriesDict.rows, series.fingerprint = fp ∧ ∀ pair ∈ matchers, pair ∈ series.labels
  pruned : ∀ matchers ≠ [], ∀ b ∈ builders, ∀ block, b.finishAndUpload drain = some block →
    resolveFingerprints block matchers = none →
      ∀ series ∈ b.seriesDict.rows, ∃ pair ∈ matchers, pair ∉ series.labels
  unmatched : ((buildMetricsTable (builders.filterMap (·.finishAndUpload drain)) []).flatMap BlockEntry.scan).Perm
    (builders.flatMap MetricsBlockBuilder.samples)

section Exact

variable {drain : List PostingsEntry → List PostingsEntry}

theorem resolveFingerprints_matched (hdrain : ∀ l, (drain l).Perm l) {b : MetricsBlockBuilder} {block : MetricsBlock}
    (hblock : b.finishAndUpload drain = some block) {matchers : List LabelPair} (hne : matchers ≠ []) {fp : Nat} : fp
    ∈ (resolveFingerprints block matchers).getD [] ↔ ∃ series ∈ b.seriesDict.rows, series.fingerprint = fp ∧ ∀ pair ∈
    matchers, pair ∈ series.labels := by
  simp only [MetricsBlockBuilder.finishAndUpload, Option.ite_none_left_eq_some, Option.some.injEq] at hblock
  obtain ⟨-, rfl⟩ := hblock
  rw [resolveFingerprints, if_neg (by simpa using hne), mem_intersect_buildPostings hdrain]
  constructor
  · rintro ⟨-, h⟩
    obtain ⟨pair, rest, rfl⟩ := exists_cons_of_ne_nil hne
    obtain ⟨series, hmem, hfp, -⟩ := h pair mem_cons_self
    refine ⟨series, hmem, hfp, fun other hother => ?_⟩
    -- A fingerprint has one entry in the dictionary, so every pair was found in the same one.
    obtain ⟨series', hmem', hfp', hlabel⟩ := h other hother
    have hsame := Table.lookup_of_mem hmem
    rw [hfp, ← hfp', Table.lookup_of_mem hmem'] at hsame
    exact Option.some.inj hsame ▸ hlabel
  · rintro ⟨series, hmem, hfp, hlabs⟩
    exact ⟨hne, fun pair hpair => ⟨series, hmem, hfp, hlabs pair hpair⟩⟩

def returnedOf (drain : List PostingsEntry → List PostingsEntry) (b : MetricsBlockBuilder) : List Sample :=
  (buildMetricsTable (b.finishAndUpload drain).toList []).flatMap BlockEntry.scan

theorem returnedOf_eq (b : MetricsBlockBuilder) :
    returnedOf drain b =
      if b.seriesDict.rows = [] then [] else sortBy (fun s => toLex (s.fingerprint, s.ts)) b.samples := by
  unfold returnedOf MetricsBlockBuilder.finishAndUpload
  by_cases hsamples : b.samples = [] <;> by_cases hdict : b.seriesDict.rows = [] <;>
    simp [hsamples, hdict, buildMetricsTable, resolveFingerprints, BlockEntry.scan, sortBy]

variable (builders : List MetricsBlockBuilder)

theorem unmatched_eq :
    (buildMetricsTable (builders.filterMap (·.finishAndUpload drain)) []).flatMap BlockEntry.scan =
      builders.flatMap (returnedOf drain) := by
  induction builders with
  | nil => rfl
  | cons b builders ih =>
    rw [flatMap_cons, ← ih, returnedOf]
    cases hblock : b.finishAndUpload drain with
    | none => simp [hblock, buildMetricsTable]
    | some block =>
      rw [filterMap_cons_some hblock, ← flatMap_append]
      unfold buildMetricsTable
      rw [← filterMap_append]
      rfl

theorem unmatched_iff : ((buildMetricsTable
    (builders.filterMap (·.finishAndUpload drain)) []).flatMap BlockEntry.scan).Perm
    (builders.flatMap MetricsBlockBuilder.samples) ↔ ∀ b ∈ builders, b.samples ≠ [] → b.seriesDict.rows ≠ [] := by
  rw [unmatched_eq]
  constructor
  · intro h b hb hsamples hdict
    have hle : ∀ b ∈ builders, (returnedOf drain b).length ≤ b.samples.length := by
      intro b _
      rw [returnedOf_eq]
      split
      · exact Nat.zero_le _
      · exact (sortBy_perm _ _).length_eq.le
    have hlt : (returnedOf drain b).length < b.samples.length := by
      rw [returnedOf_eq, if_pos hdict]
      exact length_pos_iff.mpr hsamples
    have hsum := sum_lt_sum _ _ hle ⟨b, hb, hlt⟩
    have hlen := h.length_eq
    simp only [length_flatMap] at hlen
    omega
  · intro h
    refine List.Perm.flatMap_left builders fun b hb => ?_
    rw [returnedOf_eq]
    split <;> rename_i hdict
    · have : b.samples = [] := by
        by_contra hsamples
        exact h b hb hsamples hdict
      rw [this]
    · exact sortBy_perm _ _

end Exact

theorem prunesExactly_iff (drain : List PostingsEntry → List PostingsEntry) (hdrain : ∀ l, (drain l).Perm l)
    (blocks : List BuildCalls) : PrunesExactly drain (blocks.map BuildCalls.run) ↔ ∀ calls ∈ blocks, calls.run.samples
    ≠ [] → calls.run.seriesDict.rows ≠ [] := by
  have hcalls : (∀ calls ∈ blocks, calls.run.samples ≠ [] → calls.run.seriesDict.rows ≠ []) ↔
      ∀ b ∈ blocks.map BuildCalls.run, b.samples ≠ [] → b.seriesDict.rows ≠ [] := by simp
  rw [hcalls, ← unmatched_iff]
  constructor
  · exact PrunesExactly.unmatched
  · intro h
    refine ⟨fun matchers hne b _ block hblock fp => resolveFingerprints_matched hdrain hblock hne, ?_, h⟩
    intro matchers hne b _ block hblock hnone series hseries
    by_contra hall
    push Not at hall
    have := (resolveFingerprints_matched hdrain hblock hne).mpr ⟨series, hseries, rfl, hall⟩
    simp [hnone] at this

theorem prunesExactly_observed :
    PrunesExactly id [(BuildCalls.new.appendSample ⟨7, 1, 0⟩ |>.observeSeries 7 []).run] :=
  (prunesExactly_iff id (fun _ => .refl _) [.observeSeries (.appendSample .new ⟨7, 1, 0⟩) 7 []]).mpr (by decide)

/-- A block without series lists no fingerprint, and is pruned. -/
theorem unobserved_sample_lost : ¬ PrunesExactly id [(BuildCalls.new.appendSample ⟨7, 1, 0⟩).run] := by
  intro h
  exact (unmatched_iff _).mp h.unmatched _ mem_cons_self (cons_ne_nil _ _) rfl

end Scry.Query
