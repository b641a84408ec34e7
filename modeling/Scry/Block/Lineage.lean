import Scry.Block.Meta
import Mathlib.Data.Finset.Card
import Mathlib.Data.Finset.Max

/-! # Closed lineage

What `compacted_ancestor_closure` makes of the ancestries of a whole history of blocks.
-/

namespace Scry.Block

open List

/-- Distinct UUIDs; ancestries transitive and acyclic among themselves. -/
structure ClosedLineage (S : List BlockMeta) : Prop where
  uuid_nodup : (S.map BlockMeta.uuid).Nodup
  closed : ∀ x ∈ S, ∀ y ∈ S, y.uuid ∈ x.compactedFrom → y.compactedFrom ⊆ x.compactedFrom
  acyclic : ∀ x ∈ S, x.uuid ∉ x.compactedFrom

variable {S D : List BlockMeta}

variable {x : BlockMeta} {U : List BlockMeta} {y : BlockMeta}

theorem ClosedLineage.eq_of_uuid (h : ClosedLineage S) (hx : x ∈ S) (hy : y ∈ S)
    (huuid : x.uuid = y.uuid) : x = y :=
  inj_on_of_nodup_map h.uuid_nodup hx hy huuid

theorem ClosedLineage.card_lt (h : ClosedLineage S) (hx : x ∈ S) (hy : y ∈ S)
    (hclaim : x.uuid ∈ y.compactedFrom) : x.compactedFrom.toFinset.card < y.compactedFrom.toFinset.card := by
  apply Finset.card_lt_card
  rw [Finset.ssubset_iff_of_subset]
  · exact ⟨x.uuid, by simpa using hclaim, by simpa using h.acyclic x hx⟩
  · intro u hu
    simp only [mem_toFinset] at hu ⊢
    exact h.closed y hy x hx hclaim hu

theorem ClosedLineage.exists_top (h : ClosedLineage S) (hD : D ⊆ S) {u : Uuid} (hx : x ∈ D) (hu : u ∈ x.compactedFrom)
    : ∃ y ∈ D, u ∈ y.compactedFrom ∧ ∀ z ∈ D, y.uuid ∉ z.compactedFrom := by
  have hne : (D.toFinset.filter fun m => u ∈ m.compactedFrom).Nonempty :=
    ⟨x, by simp [hx, hu]⟩
  obtain ⟨y, hy, hmax⟩ :=
    Finset.exists_max_image _ (fun m => m.compactedFrom.toFinset.card) hne
  simp only [Finset.mem_filter, mem_toFinset] at hy hmax
  refine ⟨y, hy.1, hy.2, ?_⟩
  intro z hz hclaim
  have hzu := h.closed z (hD hz) y (hD hy.1) hclaim hy.2
  have hlt := h.card_lt (hD hy.1) (hD hz) hclaim
  have hle := hmax z ⟨hz, hzu⟩
  omega

/-! ## Histories -/

/-- Newest first: blocks without ancestry, and outputs of blocks that exist. -/
inductive History : List BlockMeta → Prop
  | nil : History []
  | write {U : List BlockMeta} {m : BlockMeta} (h : History U) (hfresh : ∀ x ∈ U, x.uuid ≠ m.uuid)
      (hcf : m.compactedFrom = []) : History (m :: U)
  | merge {U : List BlockMeta} {m : BlockMeta} (h : History U) (hfresh : ∀ x ∈ U, x.uuid ≠ m.uuid)
      (inputs : List BlockMeta) (hin : inputs ⊆ U)
      (hcf : compactedAncestorClosure m.uuid inputs = .ok m.compactedFrom) : History (m :: U)

variable {m : BlockMeta}

theorem mem_compactedFrom {inputs : List BlockMeta}
    (hcf : compactedAncestorClosure m.uuid inputs = .ok m.compactedFrom) (u : Uuid) :
    u ∈ m.compactedFrom ↔ ∃ i ∈ inputs, u = i.uuid ∨ u ∈ i.compactedFrom := by
  obtain ⟨direct, closure, hacc, heq, -⟩ := compactedAncestorClosure_ok hcf
  rw [heq, mem_insertionSort, hacc.mem_closure]

theorem History.ancestor_mem (h : History U) (hx : x ∈ U) {u : Uuid} (hu : u ∈ x.compactedFrom) :
    ∃ y ∈ U, y.uuid = u := by
  induction h generalizing x u with
  | nil => cases hx
  | write h hfresh hcf ih =>
    rcases mem_cons.mp hx with rfl | hx
    · rw [hcf] at hu
      cases hu
    · obtain ⟨y, hy, hyu⟩ := ih hx hu
      exact ⟨y, mem_cons_of_mem _ hy, hyu⟩
  | merge h hfresh inputs hin hcf ih =>
    rcases mem_cons.mp hx with rfl | hx
    · obtain ⟨i, hi, rfl | hu⟩ := (mem_compactedFrom hcf u).mp hu
      · exact ⟨i, mem_cons_of_mem _ (hin hi), rfl⟩
      · obtain ⟨y, hy, hyu⟩ := ih (hin hi) hu
        exact ⟨y, mem_cons_of_mem _ hy, hyu⟩
    · obtain ⟨y, hy, hyu⟩ := ih hx hu
      exact ⟨y, mem_cons_of_mem _ hy, hyu⟩

theorem History.not_claimed (h : History U) (hfresh : ∀ x ∈ U, x.uuid ≠ m.uuid) (hx : x ∈ U) :
    m.uuid ∉ x.compactedFrom := by
  intro hmem
  obtain ⟨y, hy, hyu⟩ := h.ancestor_mem hx hmem
  exact hfresh y hy hyu

theorem ClosedLineage.cons (h : ClosedLineage U) (hfresh : ∀ x ∈ U, x.uuid ≠ m.uuid)
    (hun : ∀ x ∈ U, m.uuid ∉ x.compactedFrom) (hself : m.uuid ∉ m.compactedFrom)
    (hclosed : ∀ y ∈ U, y.uuid ∈ m.compactedFrom → y.compactedFrom ⊆ m.compactedFrom) : ClosedLineage (m :: U) := by
  refine ⟨?_, ?_, ?_⟩
  · rw [map_cons, nodup_cons]
    refine ⟨?_, h.uuid_nodup⟩
    intro hmem
    obtain ⟨x, hx, hxu⟩ := mem_map.mp hmem
    exact hfresh x hx hxu
  · intro x hx y hy hclaim
    rcases mem_cons.mp hx with rfl | hxU
    · rcases mem_cons.mp hy with rfl | hyU
      · exact absurd hclaim hself
      · exact hclosed y hyU hclaim
    · rcases mem_cons.mp hy with rfl | hyU
      · exact absurd hclaim (hun x hxU)
      · exact h.closed x hxU y hyU hclaim
  · intro x hx
    rcases mem_cons.mp hx with rfl | hx
    · exact hself
    · exact h.acyclic x hx

theorem History.closedLineage (h : History U) : ClosedLineage U := by
  induction h with
  | nil => exact ⟨nodup_nil, by simp, by simp⟩
  | write h hfresh hcf ih =>
    refine ih.cons hfresh (fun x hx => h.not_claimed hfresh hx) ?_ ?_
    · rw [hcf]
      exact not_mem_nil
    · intro y _ hclaim
      rw [hcf] at hclaim
      cases hclaim
  | merge h hfresh inputs hin hcf ih =>
    refine ih.cons hfresh (fun x hx => h.not_claimed hfresh hx) ?_ ?_
    · intro hself
      obtain ⟨direct, closure, hacc, -⟩ := compactedAncestorClosure_ok hcf
      obtain ⟨i, hi, hor⟩ := (mem_compactedFrom hcf _).mp hself
      rcases hor with heq | hmem
      · exact (hacc.output_fresh i hi).1 heq.symm
      · exact (hacc.output_fresh i hi).2 hmem
    · intro y hy hclaim u hu
      obtain ⟨i, hi, hor⟩ := (mem_compactedFrom hcf _).mp hclaim
      rw [mem_compactedFrom hcf]
      rcases hor with heq | hmem
      · have : y = i := ih.eq_of_uuid hy (hin hi) heq
        exact ⟨i, hi, .inr (this ▸ hu)⟩
      · exact ⟨i, hi, .inr (ih.closed i (hin hi) y hy hmem hu)⟩

theorem ClosedLineage.sublist (h : ClosedLineage S) (hD : D.Sublist S) : ClosedLineage D where
  uuid_nodup := h.uuid_nodup.sublist (hD.map _)
  closed x hx y hy := h.closed x (hD.subset hx) y (hD.subset hy)
  acyclic x hx := h.acyclic x (hD.subset hx)

theorem History.sorted (h : History U) (hm : m ∈ U) :
    unsortedOrDuplicate m.compactedFrom = false := by
  induction h with
  | nil => cases hm
  | write h hfresh hcf ih =>
    rcases mem_cons.mp hm with rfl | hm
    · rw [hcf]
      rfl
    · exact ih hm
  | merge h hfresh inputs hin hcf ih =>
    rcases mem_cons.mp hm with rfl | hm
    · exact compactedAncestorClosure_sorted hcf
    · exact ih hm

/-! ## A sample history -/

def sampleBlock (uuid level : Nat) (compactedFrom : List Uuid) : BlockMeta where
  uuid := uuid
  signal := .logs
  writerId := 7
  tsMinUnixNano := 0
  tsMaxUnixNano := 1
  rowCount := 1
  byteSize := 100
  schemaVersion := 1
  level := level
  compactedFrom := compactedFrom
  walSegMax := none
  walShard := none

def sampleHistory : List BlockMeta :=
  [sampleBlock 5 2 [1, 2, 3, 4], sampleBlock 4 1 [], sampleBlock 3 1 [1, 2], sampleBlock 2 0 [], sampleBlock 1 0 []]

theorem history_sampleHistory : History sampleHistory := by
  have h2 : History [sampleBlock 2 0 [], sampleBlock 1 0 []] :=
    .write (.write .nil (by simp) rfl) (by decide) rfl
  have h3 : History [sampleBlock 3 1 [1, 2], sampleBlock 2 0 [], sampleBlock 1 0 []] :=
    .merge h2 (by decide) [sampleBlock 1 0 [], sampleBlock 2 0 []] (by decide) (by decide)
  have h4 := History.write (m := sampleBlock 4 1 []) h3 (by decide) rfl
  exact .merge h4 (by decide) [sampleBlock 3 1 [1, 2], sampleBlock 4 1 []] (by decide) (by decide)

end Scry.Block
