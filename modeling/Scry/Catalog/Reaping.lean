import Scry.Catalog.Lineage

/-! # Staging superseded rows for the reaper

`stage_unstaged_superseded` passes over rows without `superseded_by`, and a row that arrives after
its claimers gets none.
-/

open Scry.Lib Scry.Block

namespace Scry.Catalog

open Option

open List

inductive Arrival where
  | insert (m : BlockMeta)
  | compaction (output : BlockMeta) (directInputs : List Uuid) (reapEligibleAt : Nat)
  | walkEnd (eligibleAt : Nat)
  deriving DecidableEq

namespace Arrival

def apply (c : Catalog) : Arrival → Catalog
  | insert m => c.insertBlock m
  | compaction output directInputs reapEligibleAt =>
    c.applyCompaction output directInputs reapEligibleAt
  | walkEnd eligibleAt => c.stageUnstagedSuperseded eligibleAt

def sidecar : Arrival → Option BlockMeta
  | insert m => some m
  | compaction output _ _ => some output
  | walkEnd _ => none

def Direct : Arrival → Prop
  | compaction output directInputs _ => directInputs ⊆ output.compactedFrom
  | _ => True

end Arrival

def sidecars (as : List Arrival) : List BlockMeta := as.filterMap Arrival.sidecar

def ClaimedAfter : List BlockMeta → Uuid → Prop
  | [], _ => False
  | m :: D, u => (m.uuid = u ∧ ∃ x ∈ D, u ∈ x.compactedFrom) ∨ ClaimedAfter D u

instance ClaimedAfter.decidable : ∀ D u, Decidable (ClaimedAfter D u)
  | [], _ => isFalse id
  | m :: D, u =>
    have : Decidable (ClaimedAfter D u) := ClaimedAfter.decidable D u
    inferInstanceAs (Decidable ((m.uuid = u ∧ ∃ x ∈ D, u ∈ x.compactedFrom) ∨ ClaimedAfter D u))

theorem claimedAfter_snoc (D : List BlockMeta) (m : BlockMeta) (u : Uuid) : ClaimedAfter (D ++ [m]) u ↔ ClaimedAfter D
    u ∨ (∃ x ∈ D, x.uuid = u) ∧ u ∈ m.compactedFrom := by
  induction D with
  | nil => simp [ClaimedAfter]
  | cons a D ih =>
    simp only [cons_append, ClaimedAfter, ih, mem_append, mem_cons, not_mem_nil,
      or_false, or_and_right, exists_or, exists_eq_left]
    rw [and_or_left, or_or_or_comm]

/-! ## What staging does to a row -/

/-- Deadline and output: both or neither, and only behind `superseded_by`. -/
structure Row.Staged (r : Row) : Prop where
  together : r.reapOutputUuid.isSome = r.reapEligibleAt.isSome
  pointed : r.reapEligibleAt.isSome = true → r.supersededBy.isSome = true
  bounded : ∀ e ∈ r.reapEligibleAt, e ≤ i64Max

theorem Row.Staged.ofMeta (m : BlockMeta) (sup : Bool) : (Row.ofMeta m sup).Staged where
  together := rfl
  pointed h := by cases h
  bounded e he := by cases he

variable {r : Row}

theorem Row.Staged.claim (h : r.Staged) (d : Uuid) : (r.claim d).Staged where
  together := h.together
  pointed _ := by simp [Row.claim]
  bounded := h.bounded

theorem Row.Staged.stage (h : r.Staged) (o : Uuid) (e : Nat) : (r.stage o (min e i64Max)).Staged where
  together := rfl
  pointed _ := rfl
  bounded x hx := by
    simp only [Row.stage, mem_def, some.injEq] at hx
    cases hr : r.reapEligibleAt with
    | none =>
      simp only [hr, getD_none] at hx
      omega
    | some y =>
      have := h.bounded y hr
      simp only [hr, getD_some] at hx
      omega

theorem Row.Staged.fillStage (h : r.Staged) (hun : r.unstaged = true) (e : Nat) :
    (r.fillStage (min e i64Max)).Staged := by
  simp only [Row.unstaged, Bool.and_eq_true, isNone_iff_eq_none] at hun
  obtain ⟨⟨-, hby⟩, hnone⟩ := hun
  have hout : r.reapOutputUuid = none := by
    have := h.together
    rw [hnone] at this
    simpa using this
  refine ⟨?_, ?_, ?_⟩
  · simp [Row.fillStage, hnone, hout, hby]
  · intro _
    exact hby
  · intro x hx
    simp only [Row.fillStage, hnone, none_or, mem_def, some.injEq] at hx
    omega

/-! ## One arrival -/

/-- `superseded_by` tells whether a claimer came after the row. -/
structure Pointers (D : List BlockMeta) (c : Catalog) : Prop where
  inserted : Inserted D c
  staged : ∀ u r, c.blocks.lookup u = some r → r.Staged
  pointer : ∀ u r, c.blocks.lookup u = some r →
    (r.supersededBy.isSome = true ↔ ClaimedAfter D u)

section Arrivals
variable {S D : List BlockMeta} {c : Catalog}

theorem pointers_empty : Pointers [] empty := by
  refine ⟨inserted_empty, ?_, ?_⟩
  all_goals
    intro u r hr
    cases hr

theorem Inserted.uuid_mem {u : Uuid} {r : Row} (h : Inserted D c) (hr : c.blocks.lookup u = some r) :
    ∃ x ∈ D, x.uuid = u := by
  obtain ⟨x, hx, hxu, -⟩ := h.origin u r hr
  exact ⟨x, hx, hxu⟩

theorem claimedAfter_mem {u : Uuid} (h : ClaimedAfter D u) : ∃ x ∈ D, x.uuid = u := by
  induction D with
  | nil => cases h
  | cons m D ih =>
    rcases h with ⟨hm, -⟩ | h
    · exact ⟨m, mem_cons_self, hm⟩
    · obtain ⟨x, hx, hxu⟩ := ih h
      exact ⟨x, mem_cons_of_mem _ hx, hxu⟩

section

variable (h : Pointers D c)
include h

theorem Pointers.insertBlock (hS : ClosedLineage S) (hD : D ⊆ S) {m : BlockMeta}
    (hm : m ∈ S) : Pointers (D ++ [m]) (c.insertBlock m) := by
  have hself := hS.acyclic m hm
  refine ⟨h.inserted.insertBlock hS hD hm, ?_, ?_⟩
  · intro u r hr
    rcases lookup_insertBlock_some hself hr with ⟨r₀, hr₀, rfl⟩ | ⟨-, -, rfl⟩
    · have := h.staged u r₀ hr₀
      split
      · exact this.claim m.uuid
      · exact this
    · exact Row.Staged.ofMeta m _
  · intro u r hr
    rw [claimedAfter_snoc]
    rcases lookup_insertBlock_some hself hr with ⟨r₀, hr₀, rfl⟩ | ⟨hnone, rfl, rfl⟩
    · have hptr := h.pointer u r₀ hr₀
      have hmem := h.inserted.uuid_mem hr₀
      split
      · rename_i hclaim
        simp [Row.claim, hmem, hclaim]
      · rename_i hclaim
        simp [hptr, hclaim]
    · have hnew : ¬ ∃ x ∈ D, x.uuid = m.uuid := by
        rintro ⟨x, hx, hxu⟩
        exact h.inserted.present x hx (hxu ▸ hnone)
      have hafter : ¬ ClaimedAfter D m.uuid := fun hc => hnew (claimedAfter_mem hc)
      simp [newRow, Row.ofMeta, hnew, hafter]

theorem Pointers.mapRows {c' : Catalog} {f : Uuid → Row → Row}
    (hlineage : c'.blockLineage = c.blockLineage) (hlook : ∀ u, c'.blocks.lookup u = (c.blocks.lookup u).map (f u))
    (hsup : ∀ u r, c.blocks.lookup u = some r → (f u r).superseded = r.superseded)
    (hlive : ∀ u r, c.blocks.lookup u = some r → r.superseded = false → f u r = r)
    (hdel : ∀ u r, (f u r).deletedAt = r.deletedAt) (hby : ∀ u r, c.blocks.lookup u = some r →
    (f u r).supersededBy.isSome = r.supersededBy.isSome) (hstaged : ∀ u r, r.Staged → (f u r).Staged) : Pointers D
    c' := by
  have hback : ∀ u r', c'.blocks.lookup u = some r' →
      ∃ r, c.blocks.lookup u = some r ∧ f u r = r' := by
    intro u r' hr'
    rw [hlook] at hr'
    exact map_eq_some_iff.mp hr'
  refine ⟨⟨?_, ?_, ?_, ?_, ?_⟩, ?_, ?_⟩
  · intro a d
    unfold Claims
    rw [hlineage]
    exact h.inserted.claims a d
  · intro m hm
    rw [hlook]
    simpa using h.inserted.present m hm
  all_goals
    intro u r' hr'
    obtain ⟨r, hr, rfl⟩ := hback u r' hr'
  · obtain ⟨m, hm, hmu, hrow⟩ := h.inserted.origin u r hr
    refine ⟨m, hm, hmu, ?_⟩
    intro hf
    rw [hsup u r hr] at hf
    rw [hlive u r hr hf]
    exact hrow hf
  · rw [hdel]
    exact h.inserted.undeleted u r hr
  · rw [hsup u r hr]
    exact h.inserted.superseded u r hr
  · exact hstaged u r (h.staged u r hr)
  · rw [hby u r hr]
    exact h.pointer u r hr

theorem Pointers.stageUnstagedSuperseded (e : Nat) : Pointers D (c.stageUnstagedSuperseded e) := by
  refine h.mapRows rfl (fun u => lookup_stageUnstagedSuperseded c u e) ?_ ?_ ?_ ?_ ?_
  · intro u r _
    split
    · rfl
    · rfl
  · intro u r _ hf
    rw [if_neg]
    simp [Row.unstaged, hf]
  · intro u r
    split
    · rfl
    · rfl
  · intro u r _
    split
    · rfl
    · rfl
  · intro u r hr
    split
    · rename_i hun
      exact hr.fillStage hun e
    · exact hr

theorem Pointers.stageSuperseded {inputs : List Uuid} {merged : Uuid} (e : Nat)
    (hin : ∀ u ∈ inputs, (∃ m ∈ D, u ∈ m.compactedFrom) ∧ (u ≠ merged → c.blocks.lookup u ≠ none → ClaimedAfter D u))
    : Pointers D (c.stageSuperseded inputs merged e) := by
  have hkey : ∀ u r, c.blocks.lookup u = some r → r.uuid = u := fun u r => Table.key_of_lookup
  refine h.mapRows rfl (fun u => lookup_stageSuperseded c u inputs merged e) ?_ ?_ ?_ ?_ ?_
  · intro u r hr
    split
    · rename_i hmem
      rw [hkey u r hr] at hmem
      have := (h.inserted.superseded u r hr).mpr (hin u hmem.1).1
      rw [this]
      rfl
    · rfl
  · intro u r hr hf
    rw [if_neg]
    rintro ⟨hmem, -⟩
    rw [hkey u r hr] at hmem
    rw [(h.inserted.superseded u r hr).mpr (hin u hmem).1] at hf
    cases hf
  · intro u r
    split
    · rfl
    · rfl
  · intro u r hr
    split
    · rename_i hmem
      rw [hkey u r hr] at hmem
      have := (h.pointer u r hr).mpr ((hin u hmem.1).2 hmem.2 (by rw [hr]; simp))
      rw [this]
      rfl
    · rfl
  · intro u r hr
    split
    · exact hr.stage merged e
    · exact hr

theorem Pointers.applyCompaction (hS : ClosedLineage S) (hD : D ⊆ S) {output : BlockMeta}
    (hm : output ∈ S) {directInputs : List Uuid} (hdir : directInputs ⊆ output.compactedFrom) (e : Nat) : Pointers
    (D ++ [output]) (c.applyCompaction output directInputs e) := by
  refine (h.insertBlock hS hD hm).stageSuperseded e ?_
  intro u hu
  refine ⟨⟨output, by simp, hdir hu⟩, ?_⟩
  intro hne hrow
  obtain ⟨r, hr⟩ := ne_none_iff_exists'.mp hrow
  rw [claimedAfter_snoc]
  rcases lookup_insertBlock_some (hS.acyclic output hm) hr with ⟨r₀, hr₀, -⟩ | ⟨-, heq, -⟩
  · exact .inr ⟨h.inserted.uuid_mem hr₀, hdir hu⟩
  · exact absurd heq.symm hne

theorem Pointers.apply (hS : ClosedLineage S) (hD : D ⊆ S) {a : Arrival} (hdir : a.Direct)
    (hm : ∀ m ∈ a.sidecar, m ∈ S) : Pointers (D ++ a.sidecar.toList) (a.apply c) := by
  cases a with
  | insert m => exact h.insertBlock hS hD (hm m rfl)
  | compaction output directInputs e => exact h.applyCompaction hS hD (hm output rfl) hdir e
  | walkEnd e =>
    rw [show (Arrival.walkEnd e).sidecar.toList = [] from rfl, append_nil]
    exact h.stageUnstagedSuperseded e

end

theorem sidecars_cons (a : Arrival) (as : List Arrival) : sidecars (a :: as) = a.sidecar.toList ++ sidecars as := by
  unfold sidecars
  rw [filterMap_cons]
  cases a.sidecar <;> rfl

theorem Pointers.foldl_apply (h : Pointers D c) (hS : ClosedLineage S) (hD : D ⊆ S)
    {as : List Arrival} (hdir : ∀ a ∈ as, a.Direct) (hsub : sidecars as ⊆ S) :
    Pointers (D ++ sidecars as) (as.foldl Arrival.apply c) := by
  induction as generalizing D c with
  | nil => simpa [sidecars] using h
  | cons a as ih =>
    rw [sidecars_cons] at hsub
    have hm : ∀ m ∈ a.sidecar, m ∈ S := by
      intro m hm
      exact hsub (mem_append_left _ (mem_toList.mpr hm))
    have hstep := h.apply hS hD (hdir a mem_cons_self) hm
    have hD' : D ++ a.sidecar.toList ⊆ S := by
      intro x hx
      rcases mem_append.mp hx with hx | hx
      · exact hD hx
      · exact hm x (mem_toList.mp hx)
    have hrest := ih hstep hD' (fun b hb => hdir b (mem_cons_of_mem _ hb))
      fun x hx => hsub (mem_append_right _ hx)
    rwa [append_assoc, ← sidecars_cons] at hrest

end Arrivals

/-! ## After the walk -/

/-- With an output and a deadline, and listed from the deadline on. -/
def Reapable (c : Catalog) (r : Row) : Prop :=
  ∃ output eligible, r.reapOutputUuid = some output ∧ r.reapEligibleAt = some eligible ∧
    ∀ now, eligible ≤ now → ⟨r.toEntry, output, eligible⟩ ∈ c.listPendingReaps now

theorem mem_listPendingReaps {c : Catalog} {r : Row} (hr : r ∈ c.blocks.rows) {now : Nat}
    {p : PendingReap} (hp : r.pendingReap now = some p) : p ∈ c.listPendingReaps now := by
  unfold listPendingReaps
  rw [mem_filterMap]
  exact ⟨r, by simpa using hr, hp⟩

theorem Pointers.reapable_iff {D : List BlockMeta} {c : Catalog} (h : Pointers D c) (d : Nat) {r : Row}
    (hr : r ∈ (c.stageUnstagedSuperseded d).blocks.rows) (hsup : r.superseded = true) :
    Reapable (c.stageUnstagedSuperseded d) r ↔ r.supersededBy.isSome = true := by
  have hst := (h.stageUnstagedSuperseded d).staged r.uuid r (Table.lookup_of_mem hr)
  constructor
  · rintro ⟨output, eligible, -, hel, -⟩
    exact hst.pointed (by rw [hel]; rfl)
  · intro hby
    have hsome : r.reapEligibleAt.isSome = true := by
      have hlook := Table.lookup_of_mem hr
      rw [lookup_stageUnstagedSuperseded] at hlook
      obtain ⟨r₀, hr₀, rfl⟩ := map_eq_some_iff.mp hlook
      have hdel := h.inserted.undeleted _ r₀ hr₀
      by_cases hun : r₀.unstaged = true
      · simp [hun, Row.fillStage]
      · simp only [hun, if_false, Bool.false_eq_true] at hsup hby ⊢
        simpa [Row.unstaged, hsup, hdel, hby, isSome_iff_ne_none] using hun
    obtain ⟨eligible, hel⟩ := isSome_iff_exists.mp hsome
    obtain ⟨output, hout⟩ := isSome_iff_exists.mp (hst.together.trans hsome)
    refine ⟨output, eligible, hout, hel, ?_⟩
    intro now hnow
    have hle := hst.bounded eligible hel
    apply mem_listPendingReaps hr
    unfold Row.pendingReap
    rw [hout, hel]
    simp [hsup, hnow, hle]

/-- Every superseded row is reapable just when every claimed sidecar has a claimer that arrived after it. -/
theorem superseded_reapable_iff (S : List BlockMeta) (hS : ClosedLineage S) (as : List Arrival)
    (hdirect : ∀ a ∈ as, a.Direct) (hsub : sidecars as ⊆ S) (d : Nat) :
    (∀ r ∈ ((as.foldl Arrival.apply empty).stageUnstagedSuperseded d).blocks.rows, r.superseded = true → r.deletedAt =
    none → Reapable ((as.foldl Arrival.apply empty).stageUnstagedSuperseded d) r) ↔ ∀ m ∈ sidecars as,
    (∃ x ∈ sidecars as, m.uuid ∈ x.compactedFrom) → ClaimedAfter (sidecars as) m.uuid := by
  have h := pointers_empty.foldl_apply hS (nil_subset S) hdirect hsub
  rw [nil_append] at h
  have h' := h.stageUnstagedSuperseded d
  constructor
  · intro hall m hm hclaim
    obtain ⟨r, hr⟩ := ne_none_iff_exists'.mp (h'.inserted.present m hm)
    have hsup := (h'.inserted.superseded m.uuid r hr).mpr hclaim
    have hmem := Table.mem_of_lookup hr
    have hreap := hall r hmem hsup (h'.inserted.undeleted m.uuid r hr)
    exact (h'.pointer m.uuid r hr).mp ((h.reapable_iff d hmem hsup).mp hreap)
  · intro hall r hmem hsup _
    have hr := Table.lookup_of_mem hmem
    obtain ⟨m, hm, hmu⟩ := h'.inserted.uuid_mem hr
    have hclaim := (h'.inserted.superseded r.uuid r hr).mp hsup
    have hafter := hall m hm (hmu ▸ hclaim)
    rw [hmu] at hafter
    exact (h.reapable_iff d hmem hsup).mpr ((h'.pointer r.uuid r hr).mpr hafter)

def inputsFirst : List Arrival :=
  [.insert (sampleBlock 1 0 []), .insert (sampleBlock 2 0 []),
    .compaction (sampleBlock 3 1 [1, 2]) [1, 2] 50, .insert (sampleBlock 5 2 [1, 2, 3, 4])]

theorem inputs_first_reapable : [1, 2, 3].Forall fun u => ∃ r ∈ ((inputsFirst.foldl Arrival.apply
    empty).stageUnstagedSuperseded 1000).blocks.rows, r.uuid = u ∧ Reapable
    ((inputsFirst.foldl Arrival.apply empty).stageUnstagedSuperseded 1000) r := by
  have hS : ClosedLineage (sidecars inputsFirst) := ⟨by decide, by decide, by decide⟩
  have hreap := (superseded_reapable_iff (sidecars inputsFirst) hS inputsFirst
    (by simp [inputsFirst, Arrival.Direct, sampleBlock]) (List.Subset.refl _) 1000).mpr (by decide)
  have hrows : ∀ u ∈ [1, 2, 3], ∃ r ∈
      ((inputsFirst.foldl Arrival.apply empty).stageUnstagedSuperseded 1000).blocks.rows,
      r.uuid = u ∧ r.superseded = true ∧ r.deletedAt = none := by decide
  rw [forall_iff_forall_mem]
  intro u hu
  obtain ⟨r, hr, hru, hsup, hdel⟩ := hrows u hu
  exact ⟨r, hr, hru, hreap r hr hsup hdel⟩

def outputFirst : List Arrival :=
  [.insert (sampleBlock 3 1 [1, 2]), .insert (sampleBlock 1 0 []), .insert (sampleBlock 2 0 [])]

theorem output_first_not_reapable : ∃ r ∈ ((outputFirst.foldl Arrival.apply empty).stageUnstagedSuperseded
    1000).blocks.rows, r.uuid = 1 ∧ r.superseded = true ∧ r.deletedAt = none ∧ ¬ Reapable
    ((outputFirst.foldl Arrival.apply empty).stageUnstagedSuperseded 1000) r := by
  have hrow : (outputFirst.foldl Arrival.apply empty).blocks.lookup 1 =
      some (Row.ofMeta (sampleBlock 1 0 []) true) := by decide
  have hafter : ((outputFirst.foldl Arrival.apply empty).stageUnstagedSuperseded 1000).blocks.lookup 1 =
      some (Row.ofMeta (sampleBlock 1 0 []) true) := by
    rw [lookup_stageUnstagedSuperseded, hrow]
    rfl
  refine ⟨_, Table.mem_of_lookup hafter, rfl, rfl, rfl, ?_⟩
  rintro ⟨output, eligible, hout, -⟩
  cases hout

end Scry.Catalog
