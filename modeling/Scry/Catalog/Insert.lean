import Scry.Catalog.Store

/-! # What the writes do to the rows

One equation per write, in terms of `lookup`. Later proofs use these and never unfold a write.
-/

open Scry.Lib Scry.Block

namespace Scry.Catalog

open Table

variable (c : Catalog) (m : BlockMeta) (u : Uuid)

@[simp] theorem claim_claim (d : Uuid) (r : Row) : (r.claim d).claim d = r.claim d := by
  cases h : r.supersededBy <;> simp [Row.claim, h]

/-! ## Lineage -/

def claimedBy (r : Row) : Row :=
  if r.uuid ∈ m.compactedFrom ∧ r.uuid ≠ m.uuid then r.claim m.uuid else r

variable (uuids : List Uuid) (l : List Uuid) (a d : Uuid) (deletedAt e : Nat)

theorem blocks_foldl_claimAncestor : (l.foldl (claimAncestor m) c).blocks = c.blocks.updateKeys l
    (fun r => r.uuid ≠ m.uuid) (Row.claim m.uuid) (Row.uuid_claim m.uuid) := by
  induction l generalizing c with
  | nil => rfl
  | cons a l ih => exact ih (claimAncestor m c a)

theorem lookup_applyLineage : (c.applyLineage m).blocks.lookup u = (c.blocks.lookup u).map (claimedBy m) := by
  rw [applyLineage, blocks_foldl_claimAncestor, lookup_updateKeys _ _ _ _ _ fun r _ => claim_claim m.uuid r]
  rfl

theorem lineage_foldl_claimAncestor :
    ((l.foldl (claimAncestor m) c).blockLineage.lookup (a, d)).isSome =
      ((c.blockLineage.lookup (a, d)).isSome || decide (a ∈ l ∧ d = m.uuid)) := by
  induction l generalizing c with
  | nil => simp
  | cons b l ih =>
    rw [List.foldl_cons, ih, claimAncestor, lookup_insertIgnore, Option.isSome_or, Bool.or_assoc]
    congr 1
    by_cases hab : b = a
    · by_cases hd : m.uuid = d
      · simp [LineageRow.key, hab, hd]
      · simp [LineageRow.key, hd, Ne.symm hd]
    · simp [LineageRow.key, hab, Ne.symm hab]

theorem watermarks_foldl_claimAncestor :
    (l.foldl (claimAncestor m) c).walWatermarks = c.walWatermarks := by
  induction l generalizing c with
  | nil => rfl
  | cons a l ih => rw [List.foldl_cons, ih, claimAncestor]

/-! ## `insert_block` -/

@[simp] theorem blocks_advanceMetaWatermark : (c.advanceMetaWatermark m).blocks = c.blocks := by
  unfold advanceMetaWatermark
  split <;> rfl

@[simp] theorem lineage_advanceMetaWatermark : (c.advanceMetaWatermark m).blockLineage = c.blockLineage := by
  unfold advanceMetaWatermark
  split <;> rfl

theorem lookup_insertBlock : (c.insertBlock m).blocks.lookup u = ((c.blocks.lookup u).or
    (if m.uuid = u then some (c.newRow m) else none)).map (claimedBy m) := by
  rw [insertBlock, lookup_applyLineage, blocks_advanceMetaWatermark, insertRow, lookup_insertIgnore]
  rfl

def Claims : Prop := (c.blockLineage.lookup (a, d)).isSome = true

theorem claims_insertBlock :
    (c.insertBlock m).Claims a d ↔ c.Claims a d ∨ a ∈ m.compactedFrom ∧ d = m.uuid := by
  unfold Claims insertBlock applyLineage
  rw [lineage_foldl_claimAncestor, lineage_advanceMetaWatermark, insertRow]
  simp

theorem hasLiveDescendant_iff : c.hasLiveDescendant u = true ↔ ∃ d r, c.Claims u d ∧ c.blocks.lookup d = some r ∧
    r.live = true := by
  unfold hasLiveDescendant Claims
  simp only [List.any_eq_true, Bool.and_eq_true, decide_eq_true_eq, Option.any_eq_true]
  constructor
  · rintro ⟨l, hl, rfl, r, hr, hlive⟩
    refine ⟨l.descendant, r, ?_, hr, hlive⟩
    rw [show (l.ancestor, l.descendant) = l.key from rfl, lookup_of_mem hl]
    rfl
  · rintro ⟨d, r, hd, hr, hlive⟩
    obtain ⟨l, hl⟩ := Option.isSome_iff_exists.mp hd
    have hkey := key_of_lookup hl
    simp only [LineageRow.key, Prod.mk.injEq] at hkey
    exact ⟨l, mem_of_lookup hl, hkey.1, r, hkey.2 ▸ hr, hlive⟩

/-! ## Staging and deletion -/

theorem lookup_stageSuperseded (inputs : List Uuid) (merged : Uuid) (e : Nat) :
    (c.stageSuperseded inputs merged e).blocks.lookup u =
      (c.blocks.lookup u).map fun r =>
        if r.uuid ∈ inputs ∧ r.uuid ≠ merged then r.stage merged (min e i64Max) else r :=
  lookup_updateKeys _ _ _ _ _ (fun r _ => by simp [Row.stage]) _

theorem lookup_stageUnstagedSuperseded (e : Nat) :
    (c.stageUnstagedSuperseded e).blocks.lookup u =
      (c.blocks.lookup u).map fun r => if r.unstaged then r.fillStage (min e i64Max) else r :=
  lookup_updateWhere _ _ _ (Row.uuid_fillStage _) _

theorem lookup_adoptPeerDeletion :
    (c.adoptPeerDeletion uuids deletedAt e).blocks.lookup u =
      (c.blocks.lookup u).map fun r =>
        if r.uuid ∈ uuids ∧ r.deletedAt = none then r.adoptPeerDeletion deletedAt (min e i64Max)
        else r :=
  lookup_updateKeys _ _ _ _ _ (fun _ h => by cases h) _

theorem lookup_markDeleted :
    (c.markDeleted uuids deletedAt e).blocks.lookup u =
      (c.blocks.lookup u).map fun r =>
        if r.uuid ∈ uuids then r.markDeleted deletedAt (min e i64Max) else r := by
  have := lookup_updateKeys c.blocks uuids (fun _ => True)
    (Row.markDeleted deletedAt (min e i64Max)) (Row.uuid_markDeleted _ _)
    (fun r _ => by cases h : r.deletedAt <;> simp [Row.markDeleted, h]) u
  simp only [and_true] at this
  exact this

theorem lookup_deleteBlocks :
    (c.deleteBlocks uuids).blocks.lookup u =
      if u ∈ uuids then none else c.blocks.lookup u := by
  unfold deleteBlocks
  rw [lookup_deleteWhere]
  cases hl : c.blocks.lookup u with
  | none => simp
  | some r =>
    have hkey := key_of_lookup hl
    by_cases hmem : u ∈ uuids <;> simp [hkey, hmem]

/-! ## Watermarks -/

theorem getWatermark_advanceWatermark (w : Uuid) (sg : SignalName) (sh seg : Nat) :
    (c.advanceWatermark w sg sh seg).getWatermark w sg sh = some (max ((c.getWatermark w sg sh).getD 0) seg) := by
  unfold getWatermark advanceWatermark
  simp only [lookup_updateWhere, lookup_insertIgnore, Option.map_map]
  cases h : c.walWatermarks.lookup (w, sg, sh) with
  | none => simp [Watermark.key]
  | some x =>
    have hkey := key_of_lookup h
    simp only [Option.some_or, Option.map_some, Function.comp_apply, Option.getD_some, hkey]
    by_cases hlt : x.segMax < seg
    · simp [hlt, Watermark.raise, Nat.max_eq_right (Nat.le_of_lt hlt)]
    · simp [hlt, Nat.max_eq_left (Nat.not_lt.mp hlt)]

@[simp] theorem walWatermarks_insertBlock :
    (c.insertBlock m).walWatermarks = (c.advanceMetaWatermark m).walWatermarks := by
  unfold insertBlock applyLineage
  rw [watermarks_foldl_claimAncestor]
  unfold advanceMetaWatermark insertRow
  split <;> rfl

theorem getWatermark_insertBlock {seg shard : Nat} (hseg : m.walSegMax = some seg) (hshard : m.walShard = some shard)
    : (c.insertBlock m).getWatermark m.writerId m.signal shard = some
    (max ((c.getWatermark m.writerId m.signal shard).getD 0) seg) := by
  rw [← getWatermark_advanceWatermark]
  unfold getWatermark
  rw [walWatermarks_insertBlock]
  unfold advanceMetaWatermark
  rw [hseg, hshard]

/-! ## Listings -/

theorem mem_listBlocks (e : CatalogEntry) :
    e ∈ c.listBlocks ↔ ∃ r, c.blocks.lookup r.uuid = some r ∧ r.live = true ∧ r.toEntry = e := by
  unfold listBlocks
  rw [List.mem_map]
  simp only [List.mem_insertionSort, List.mem_filter, mem_rows_iff, and_assoc]

theorem mem_listPendingDeletions (now : Nat) (e : CatalogEntry) : e ∈ c.listPendingDeletions now ↔ ∃ r,
    c.blocks.lookup r.uuid = some r ∧ r.deletionDue now = true ∧ r.toEntry = e := by
  unfold listPendingDeletions
  rw [List.mem_map]
  simp only [List.mem_insertionSort, List.mem_filter, mem_rows_iff, and_assoc]

def Lists : Prop := ∃ r, c.blocks.lookup u = some r ∧ r.live = true

theorem mem_listBlocks_uuid : u ∈ c.listBlocks.map (fun e => e.blockMeta.uuid) ↔ c.Lists u := by
  simp only [List.mem_map, mem_listBlocks]
  constructor
  · rintro ⟨e, ⟨r, hr, hlive, rfl⟩, rfl⟩
    exact ⟨r, hr, hlive⟩
  · rintro ⟨r, hr, hlive⟩
    have hu := key_of_lookup hr
    subst hu
    exact ⟨_, ⟨r, hr, hlive, rfl⟩, rfl⟩

end Scry.Catalog
