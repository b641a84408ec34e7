import Scry.Block.Lineage
import Scry.Catalog.Insert
import Mathlib.Tactic.Tauto

/-! # Liveness from lineage

Inserting sidecars with closed lineage leaves a catalog whose live rows depend on the set of
sidecars only.
-/

open Scry.Lib Scry.Block

namespace Scry.Catalog

open List

structure Inserted (D : List BlockMeta) (c : Catalog) : Prop where
  claims : ∀ a d, c.Claims a d ↔ ∃ m ∈ D, m.uuid = d ∧ a ∈ m.compactedFrom
  present : ∀ m ∈ D, c.blocks.lookup m.uuid ≠ none
  origin : ∀ u r, c.blocks.lookup u = some r →
    ∃ m ∈ D, m.uuid = u ∧ (r.superseded = false → r = Row.ofMeta m false)
  undeleted : ∀ u r, c.blocks.lookup u = some r → r.deletedAt = none
  superseded : ∀ u r, c.blocks.lookup u = some r →
    (r.superseded = true ↔ ∃ m ∈ D, u ∈ m.compactedFrom)

theorem inserted_empty : Inserted [] empty := by
  refine ⟨?_, ?_, ?_, ?_, ?_⟩
  · intro a d
    constructor
    · intro hclaim
      cases hclaim
    · rintro ⟨m, hm, -⟩
      cases hm
  · intro m hm
    cases hm
  all_goals
    intro u r hr
    cases hr

section Insert
variable {S D : List BlockMeta} {c : Catalog} {m : BlockMeta}

theorem Inserted.hasLiveDescendant_iff (h : Inserted D c) (hS : ClosedLineage S) (hD : D ⊆ S)
    (u : Uuid) : c.hasLiveDescendant u = true ↔ ∃ x ∈ D, u ∈ x.compactedFrom := by
  rw [Catalog.hasLiveDescendant_iff]
  constructor
  · rintro ⟨d, r, hclaim, -⟩
    obtain ⟨x, hx, -, hu⟩ := (h.claims u d).mp hclaim
    exact ⟨x, hx, hu⟩
  · rintro ⟨x, hx, hu⟩
    obtain ⟨y, hy, hyu, htop⟩ := hS.exists_top hD hx hu
    obtain ⟨r, hr⟩ := Option.ne_none_iff_exists'.mp (h.present y hy)
    refine ⟨y.uuid, r, (h.claims u y.uuid).mpr ⟨y, hy, rfl, hyu⟩, hr, ?_⟩
    have hsup : r.superseded ≠ true := by
      rw [ne_eq, h.superseded y.uuid r hr]
      rintro ⟨z, hz, hclaim⟩
      exact htop z hz hclaim
    simp [Row.live, h.undeleted y.uuid r hr, hsup]

theorem claimedBy_of_acyclic (hself : m.uuid ∉ m.compactedFrom) (r : Row) :
    claimedBy m r = if r.uuid ∈ m.compactedFrom then r.claim m.uuid else r := by
  unfold claimedBy
  by_cases hmem : r.uuid ∈ m.compactedFrom
  · have hne : r.uuid ≠ m.uuid := fun heq => hself (heq ▸ hmem)
    simp [hmem, hne]
  · simp [hmem]

theorem lookup_insertBlock_some (hself : m.uuid ∉ m.compactedFrom) {u : Uuid} {r : Row}
    (hr : (c.insertBlock m).blocks.lookup u = some r) :
    (∃ r₀, c.blocks.lookup u = some r₀ ∧
        r = if u ∈ m.compactedFrom then r₀.claim m.uuid else r₀) ∨
      c.blocks.lookup u = none ∧ m.uuid = u ∧ r = c.newRow m := by
  rw [lookup_insertBlock] at hr
  cases hl : c.blocks.lookup u with
  | some r₀ =>
    left
    rw [hl, Option.some_or, Option.map_some, Option.some.injEq, claimedBy_of_acyclic hself,
      Table.key_of_lookup hl] at hr
    exact ⟨r₀, rfl, hr.symm⟩
  | none =>
    right
    rw [hl, Option.none_or] at hr
    split at hr
    · rename_i heq
      rw [Option.map_some, Option.some.injEq, claimedBy_of_acyclic hself] at hr
      have huuid : (c.newRow m).uuid = m.uuid := rfl
      rw [huuid, if_neg hself] at hr
      exact ⟨rfl, heq, hr.symm⟩
    · cases hr

theorem Inserted.insertBlock (h : Inserted D c) (hS : ClosedLineage S) (hD : D ⊆ S) (hm : m ∈ S) :
    Inserted (D ++ [m]) (c.insertBlock m) := by
  have hself := hS.acyclic m hm
  refine ⟨?_, ?_, ?_, ?_, ?_⟩
  · intro a d
    rw [claims_insertBlock, h.claims]
    simp only [mem_append, mem_singleton, or_and_right, exists_or, exists_eq_left]
    rw [and_comm (a := a ∈ m.compactedFrom), eq_comm (a := d)]
  · intro x hx
    rw [lookup_insertBlock]
    rcases mem_append.mp hx with hx | hx
    · obtain ⟨r, hr⟩ := Option.ne_none_iff_exists'.mp (h.present x hx)
      simp [hr]
    · rw [mem_singleton] at hx
      subst hx
      cases c.blocks.lookup x.uuid <;> simp
  · intro u r hr
    rcases lookup_insertBlock_some hself hr with ⟨r₀, hr₀, rfl⟩ | ⟨-, hu, rfl⟩
    · obtain ⟨x, hx, hxu, hrow⟩ := h.origin u r₀ hr₀
      refine ⟨x, mem_append_left _ hx, hxu, ?_⟩
      split
      · intro hf
        cases hf
      · exact hrow
    · refine ⟨m, mem_append_right _ mem_cons_self, hu, ?_⟩
      intro hf
      have hf : c.hasLiveDescendant m.uuid = false := hf
      rw [newRow, hf]
  · intro u r hr
    rcases lookup_insertBlock_some hself hr with ⟨r₀, hr₀, rfl⟩ | ⟨-, -, rfl⟩
    · have := h.undeleted u r₀ hr₀
      split
      · exact this
      · exact this
    · rfl
  · intro u r hr
    simp only [mem_append, mem_singleton, or_and_right, exists_or, exists_eq_left]
    rcases lookup_insertBlock_some hself hr with ⟨r₀, hr₀, rfl⟩ | ⟨-, rfl, rfl⟩
    · have := h.superseded u r₀ hr₀
      split
      · rename_i hmem
        simp [Row.claim, hmem]
      · rename_i hmem
        simp [this, hmem]
    · have : (c.newRow m).superseded = c.hasLiveDescendant m.uuid := rfl
      rw [this, h.hasLiveDescendant_iff hS hD]
      simp [hself]

theorem Inserted.foldl_insertBlock (h : Inserted D c) (hS : ClosedLineage S) (hD : D ⊆ S) {order : List BlockMeta}
    (horder : order ⊆ S) : Inserted (D ++ order) (order.foldl Catalog.insertBlock c) := by
  induction order generalizing D c with
  | nil => simpa using h
  | cons m order ih =>
    have hm : m ∈ S := horder mem_cons_self
    have hD' : D ++ [m] ⊆ S := forall_mem_snoc (fun _ hx => hD hx) hm
    have := ih (h.insertBlock hS hD hm) hD' fun x hx => horder (mem_cons_of_mem _ hx)
    rwa [append_assoc] at this

end Insert

/-! ## The listing -/

def topRows (S : List BlockMeta) : List Row :=
  (((S.filter fun m => ∀ x ∈ S, x ≠ m → m.uuid ∉ x.compactedFrom).map
    fun m => Row.ofMeta m false).insertionSort listOrder)

instance : Std.Total listOrder where
  total a b := by
    unfold listOrder Uuid
    omega

instance : IsTrans Row listOrder where
  trans a b c := by
    unfold listOrder Uuid
    omega

theorem insertionSort_listOrder_eq {l₁ l₂ : List Row} (h : l₁.Perm l₂)
    (huuid : ∀ a ∈ l₁, ∀ b ∈ l₁, a.uuid = b.uuid → a = b) :
    l₁.insertionSort listOrder = l₂.insertionSort listOrder := by
  apply List.Perm.eq_of_pairwise ?_ (pairwise_insertionSort _ _)
    (pairwise_insertionSort _ _)
  · exact ((perm_insertionSort _ l₁).trans h).trans (perm_insertionSort _ l₂).symm
  · intro a b ha hb hab hba
    rw [mem_insertionSort] at ha hb
    refine huuid a ha b (h.mem_iff.mpr hb) ?_
    unfold listOrder at hab hba
    unfold Uuid at *
    omega

theorem mem_live_rows {S D : List BlockMeta} {c : Catalog} (h : Inserted D c) (hS : ClosedLineage S)
    (hD : ∀ m, m ∈ D ↔ m ∈ S) (r : Row) : r ∈ c.blocks.rows.filter Row.live ↔ ∃ m ∈ S,
    (∀ x ∈ S, x ≠ m → m.uuid ∉ x.compactedFrom) ∧ Row.ofMeta m false = r := by
  rw [mem_filter, Table.mem_rows_iff]
  constructor
  · rintro ⟨hr, hlive⟩
    have hsup : r.superseded = false := by
      cases hs : r.superseded
      · rfl
      · simp [Row.live, hs] at hlive
    obtain ⟨m, hm, hmu, hrow⟩ := h.origin r.uuid r hr
    refine ⟨m, (hD m).mp hm, ?_, (hrow hsup).symm⟩
    intro x hx _ hclaim
    rw [hmu] at hclaim
    rw [(h.superseded r.uuid r hr).mpr ⟨x, (hD x).mpr hx, hclaim⟩] at hsup
    cases hsup
  · rintro ⟨m, hm, htop, rfl⟩
    obtain ⟨r, hr⟩ := Option.ne_none_iff_exists'.mp (h.present m ((hD m).mpr hm))
    have hsup : r.superseded = false := by
      rw [Bool.eq_false_iff, ne_eq, h.superseded m.uuid r hr]
      rintro ⟨x, hx, hclaim⟩
      by_cases hxm : x = m
      · exact hS.acyclic m hm (hxm ▸ hclaim)
      · exact htop x ((hD x).mp hx) hxm hclaim
    obtain ⟨m', hm', hmu, hrow⟩ := h.origin m.uuid r hr
    have : m' = m := hS.eq_of_uuid ((hD m').mp hm') hm hmu
    subst this
    rw [hrow hsup] at hr
    exact ⟨hr, rfl⟩

theorem Inserted.listBlocks_eq {S D : List BlockMeta} {c : Catalog} (h : Inserted D c) (hS : ClosedLineage S)
    (hD : ∀ m, m ∈ D ↔ m ∈ S) : c.listBlocks = (topRows S).map Row.toEntry := by
  have hmem := mem_live_rows h hS hD
  unfold listBlocks topRows
  congr 1
  apply insertionSort_listOrder_eq
  · rw [perm_ext_iff_of_nodup]
    · intro r
      rw [hmem, mem_map]
      simp only [mem_filter, decide_eq_true_eq, and_assoc]
    · exact (List.Nodup.of_map _ c.blocks.nodup).filter _
    · apply List.Nodup.of_map Row.uuid
      rw [map_map]
      exact hS.uuid_nodup.sublist (filter_sublist.map _)
  · intro a ha b hb huuid
    have ha := (mem_filter.mp ha).1
    have hb := (mem_filter.mp hb).1
    exact inj_on_of_nodup_map c.blocks.nodup ha hb huuid

theorem inserted_foldl_insertBlock {S order : List BlockMeta} (hS : ClosedLineage S)
    (horder : order ⊆ S) : Inserted order (order.foldl insertBlock empty) := by
  have h := inserted_empty.foldl_insertBlock hS (nil_subset S) horder
  rwa [nil_append] at h

/-- Whatever the order, the members that are in no other member's ancestry. -/
theorem listBlocks_foldl_insertBlock (S order : List BlockMeta) (hS : ClosedLineage S)
    (horder : ∀ m, m ∈ order ↔ m ∈ S) : (order.foldl insertBlock empty).listBlocks = (topRows S).map Row.toEntry := by
  apply (inserted_foldl_insertBlock hS _).listBlocks_eq hS horder
  exact fun m hm => (horder m).mp hm

theorem listBlocks_output_first : ([sampleBlock 5 2 [1, 2, 3, 4], sampleBlock 1 0 [], sampleBlock 2 0 [], sampleBlock
    1 0 []].foldl insertBlock empty).listBlocks.map (fun e => e.blockMeta.uuid) = [5] := by
  rw [listBlocks_foldl_insertBlock [sampleBlock 5 2 [1, 2, 3, 4], sampleBlock 2 0 [], sampleBlock 1 0 []]]
  · decide
  · exact history_sampleHistory.closedLineage.sublist (by decide)
  · intro m
    simp only [mem_cons, not_mem_nil, or_false]
    tauto

end Scry.Catalog
