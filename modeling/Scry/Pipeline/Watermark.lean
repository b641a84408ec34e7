import Scry.Catalog.Insert
import Scry.Pipeline.Durability
import Mathlib.Tactic.Tauto

/-! # The watermark between history and live

A merged query reads the catalogued blocks and, from the live ring, the records whose segment lies above the
catalog's high-water mark.
-/

open Scry.Lib Scry.Block Scry.Wal Scry.Catalog

namespace Scry.Pipeline

open Option Shard

open List

variable {sig : Signal}

/-! ## The query side -/

def liveRecordIsDurable (walSeg : Nat) (watermark : Option Nat) : Bool :=
  match watermark with
  | some h => walSeg ≤ h
  | none => false

variable (env : Env) (s : Shard sig) (key : Uuid × Nat) (hw : Option Nat) (c : Catalog) (signal : SignalName)
   (selects : CatalogEntry → Bool)

def listCandidatesAndWatermarks :
    List CatalogEntry × List (Uuid × Nat × Nat) :=
  (c.listBlocks.filter fun e => e.blockMeta.signal = signal && selects e, c.listWatermarks signal)

/-- One turn of the loop over the candidates in `fetch_live_logs`. -/
def raiseWatermark (e : CatalogEntry) : Option Nat :=
  match e.blockMeta.walSegMax, e.blockMeta.walShard with
  | some segment, some shard =>
    if (e.blockMeta.writerId, shard) = key then some (max (hw.getD 0) segment) else hw
  | _, _ => hw

def wmCache (snapshot : List CatalogEntry × List (Uuid × Nat × Nat)) (key : Uuid × Nat) : Option Nat :=
  snapshot.1.foldl (raiseWatermark key)
    ((snapshot.2.find? fun w => (w.1, w.2.1) = key).map fun w => w.2.2)

/-- The query drops the live records of segment `seg`. -/
def dropsLive (seg : Nat) : Bool :=
  liveRecordIsDurable seg
    (wmCache (listCandidatesAndWatermarks s.store.catalog sig.name selects)
      (env.writerUuid, env.shardIndex))

def Catalogued (n : Nat) : Prop :=
  ∃ b ∈ s.store.blocks, b.uuid ∈ s.store.catalog.listBlocks.map (fun e => e.blockMeta.uuid) ∧
    n ∈ b.batches

/-- Every acknowledged batch comes from one half of every query. -/
def SeamExact : Prop :=
  ∀ selects, ∀ a ∈ s.acked, (dropsLive env s selects a.seg = true ↔ Catalogued s a.batch)

def Shard.committing : Action → Option (UploadTask sig)
  | .insertBlock i =>
    match s.process with
    | .live l => l.pipe.inFlight[i]?
    | _ => none
  | _ => none

/-- Acknowledged batches at or below the sealed segment are in this block or catalogued. -/
def CommitInOrder (action : Action) : Prop :=
  ∀ t ∈ s.committing action, ∀ a ∈ s.acked, a.seg ≤ t.sealedSeg →
    a.batch ∈ t.block.batches ∨ Catalogued s a.batch

instance (s : Shard sig) (n : Nat) : Decidable (Catalogued s n) :=
  inferInstanceAs (Decidable (∃ b ∈ s.store.blocks, _ ∧ _))

instance (s : Shard sig) (action : Action) : Decidable (CommitInOrder s action) :=
  inferInstanceAs (Decidable (∀ t ∈ s.committing action, _))

def Action.isLive : Action → Bool
  | .crash _ | .open | .replayFrame _ _ | .uploadRest _ | .unlinkReplayed _ | .finishOpen => false
  | _ => true

/-! ## The cache entry is the persistent watermark -/

theorem find_listWatermarks (writer : Uuid) (shard : Nat) :
    ((c.listWatermarks signal).find? fun w => (w.1, w.2.1) = (writer, shard)).map (fun w => w.2.2) =
      c.getWatermark writer signal shard := by
  unfold listWatermarks getWatermark Table.lookup
  rw [find?_map, find?_filter, Option.map_map]
  change Option.map Watermark.segMax (find? _ c.walWatermarks.rows) = _
  congr 2
  funext w
  simp only [Function.comp_apply, Watermark.key, Prod.mk.injEq, decide_eq_decide, decide_eq_true_eq]
  tauto

theorem foldl_raiseWatermark (es : List CatalogEntry)
    (h : ∀ e ∈ es, ∀ seg shard, e.blockMeta.walSegMax = some seg → e.blockMeta.walShard = some shard →
      (e.blockMeta.writerId, shard) = key → ∃ n, hw = some n ∧ seg ≤ n) :
    es.foldl (raiseWatermark key) hw = hw := by
  induction es with
  | nil => rfl
  | cons e es ih =>
    have he : raiseWatermark key hw e = hw := by
      unfold raiseWatermark
      split
      · rename_i seg shard hseg hshard
        split
        · rename_i hkey
          obtain ⟨n, rfl, hle⟩ := h e mem_cons_self seg shard hseg hshard hkey
          simp [Nat.max_eq_left hle]
        · rfl
      · rfl
    rw [foldl_cons, he]
    exact ih fun e' he' => h e' (mem_cons_of_mem _ he')

def highWater : Option Nat :=
  s.store.catalog.getWatermark env.writerUuid sig.name env.shardIndex

/-- Live rows of this shard's blocks, none above the watermark. -/
structure CatalogInv (env : Env) (s : Shard sig) : Prop where
  no_lineage : ∀ a d, ¬ s.store.catalog.Claims a d
  rows : ∀ u r, s.store.catalog.blocks.lookup u = some r →
    r.live = true ∧ r.walSegMax.all (fun seg => (highWater env s).any fun h => seg ≤ h) = true

theorem CatalogInv.of_eq {env : Env} {s s' : Shard sig} (h : CatalogInv env s)
    (hcat : s'.store.catalog = s.store.catalog) : CatalogInv env s' := by
  obtain ⟨hno, hrows⟩ := h
  constructor
  · rw [hcat]
    exact hno
  · unfold highWater
    rw [hcat]
    exact hrows

theorem dropsLive_eq {env : Env} {s : Shard sig} (h : CatalogInv env s) (selects : CatalogEntry → Bool)
    (seg : Nat) : dropsLive env s selects seg = liveRecordIsDurable seg (highWater env s) := by
  unfold dropsLive wmCache listCandidatesAndWatermarks
  simp only
  rw [find_listWatermarks, foldl_raiseWatermark]
  · rfl
  · intro e he seg' shard hseg _ _
    obtain ⟨r, hr, -, rfl⟩ := (mem_listBlocks _ e).mp (mem_of_mem_filter he)
    obtain ⟨-, hle⟩ := h.rows r.uuid r hr
    have hseg : r.walSegMax = some seg' := hseg
    rw [hseg, all_some, Option.any_eq_true] at hle
    simpa [highWater] using hle

theorem dropsLive_iff {env : Env} {s : Shard sig} (h : CatalogInv env s)
    (selects : CatalogEntry → Bool) (seg : Nat) :
    dropsLive env s selects seg = true ↔ ∃ n, highWater env s = some n ∧ seg ≤ n := by
  rw [dropsLive_eq h]
  unfold liveRecordIsDurable
  cases highWater env s <;> simp

theorem listed_iff {env : Env} {s : Shard sig} (h : CatalogInv env s) (u : Uuid) :
    u ∈ s.store.catalog.listBlocks.map (fun e => e.blockMeta.uuid) ↔
      s.store.catalog.blocks.lookup u ≠ none := by
  rw [mem_listBlocks_uuid]
  constructor
  · rintro ⟨r, hr, -⟩ hnone
    rw [hr] at hnone
    cases hnone
  · intro hne
    obtain ⟨r, hr⟩ := ne_none_iff_exists'.mp hne
    exact ⟨r, hr, (h.rows u r hr).1⟩

/-! ## Committing a block -/

def commit (b : sig.Builder) (uuid : Uuid) (sealedSeg : Nat) : Catalog :=
  s.store.catalog.insertBlock (stampMeta env sig b uuid (some sealedSeg))

section Commit
variable {env : Env} {s s' : Shard sig} {b : sig.Builder} {uuid : Uuid} {seg : Nat}

theorem highWater_commit (hcat : s'.store.catalog = commit env s b uuid seg) :
    highWater env s' = some (max ((highWater env s).getD 0) seg) := by
  unfold highWater
  rw [hcat]
  exact getWatermark_insertBlock s.store.catalog (stampMeta env sig b uuid (some seg)) rfl rfl

theorem lookup_commit (hcat : s'.store.catalog = commit env s b uuid seg) (u : Uuid) :
    s'.store.catalog.blocks.lookup u =
      (s.store.catalog.blocks.lookup u).or (if uuid = u then
        some (s.store.catalog.newRow (stampMeta env sig b uuid (some seg))) else none) := by
  rw [hcat, commit, lookup_insertBlock]
  have : claimedBy (stampMeta env sig b uuid (some seg)) = id := by
    funext r
    rw [claimedBy, if_neg]
    · rfl
    · rintro ⟨hmem, -⟩
      cases hmem
  rw [this, Option.map_id]
  rfl

theorem CatalogInv.commit (h : CatalogInv env s) (hcat : s'.store.catalog = commit env s b uuid seg) :
    CatalogInv env s' := by
  have hhigh := highWater_commit hcat
  refine ⟨?_, ?_⟩
  · intro a d hclaim
    rw [hcat, Pipeline.commit, claims_insertBlock] at hclaim
    rcases hclaim with hclaim | ⟨hmem, -⟩
    · exact h.no_lineage a d hclaim
    · cases hmem
  · intro u r hr
    rw [lookup_commit hcat] at hr
    cases hl : s.store.catalog.blocks.lookup u with
    | some r' =>
      rw [hl, some_or] at hr
      cases hr
      obtain ⟨hlive, hle⟩ := h.rows u r hl
      refine ⟨hlive, ?_⟩
      rw [hhigh]
      cases hseg : r.walSegMax with
      | none => rfl
      | some n =>
        rw [hseg] at hle
        cases hw : highWater env s with
        | none => simp [hw] at hle
        | some k =>
          simp only [hw, all_some, any_some, decide_eq_true_eq] at hle
          simp
          omega
    | none =>
      rw [hl, none_or] at hr
      split at hr
      · cases hr
        have hnew : s.store.catalog.hasLiveDescendant uuid = false := by
          rw [Bool.eq_false_iff]
          intro hd
          obtain ⟨d, r', hclaim, -⟩ := (hasLiveDescendant_iff _ _).mp hd
          exact h.no_lineage _ _ hclaim
        have hnew : s.store.catalog.hasLiveDescendant
            (stampMeta env sig b uuid (some seg)).uuid = false := hnew
        refine ⟨by simp [newRow, Row.live, Row.ofMeta, hnew], ?_⟩
        rw [hhigh]
        simp [newRow, Row.ofMeta, stampMeta]
      · cases hr

end Commit

/-! ## Where each batch is -/

/-- Batches below `bound` may be in closed blocks, each in its block's segments. -/
structure Numbering (env : Env) (p : State sig) (bound : Nat) (s : Shard sig) : Prop where
  low_le : p.blockLowSeg ≤ p.wal.currentSeq
  sealed_lt : ∀ t ∈ p.inFlight, t.sealedSeg < p.blockLowSeg
  high_lt : ∀ h, highWater env s = some h → h < p.blockLowSeg
  current_lt : ∀ n ∈ p.current.batches, n < s.merged
  acked_lt : ∀ a ∈ s.acked, a.batch < bound
  task_lt : ∀ t ∈ p.inFlight, ∀ n ∈ t.block.batches, n < bound
  block_lt : ∀ b ∈ s.store.blocks, ∀ n ∈ b.batches, n < bound
  current_seg : ∀ a ∈ s.acked, a.batch ∈ p.current.batches → a.seg ≤ p.wal.currentSeq
  task_seg : ∀ t ∈ p.inFlight, ∀ a ∈ s.acked, a.batch ∈ t.block.batches → a.seg ≤ t.sealedSeg
  task_block : ∀ t ∈ p.inFlight, ∀ uuid, t.uploaded = some uuid →
    ∃ b ∈ s.store.blocks, b.uuid = uuid ∧ b.batches = t.block.batches
  uuid_nodup : (s.store.blocks.map StoredBlock.uuid).Nodup

def IngestSeg (p : State sig) (merged : Nat) : Ingest sig → Prop
  | .written _ _ seg => p.blockLowSeg ≤ seg ∧ seg ≤ p.wal.currentSeq
  | .appended _ _ seg => p.blockLowSeg ≤ seg ∧ seg ≤ p.wal.currentSeq
  | .merged _ seg => p.blockLowSeg ≤ seg ∧ seg ≤ p.wal.currentSeq ∧ 0 < merged
  | _ => True

/-- The last merged batch is in no closed block while its call is under way. -/
def closedBelow (merged : Nat) : Ingest sig → Nat
  | .merged _ _ => merged - 1
  | _ => merged

structure SeamInv (env : Env) (l : Live sig) (s : Shard sig) : Prop where
  numbering : Numbering env l.pipe (closedBelow s.merged l.ingest) s
  ingest : IngestSeg l.pipe s.merged l.ingest
  catalog : CatalogInv env s

def IsSeam (env : Env) (s : Shard sig) : Prop := ∃ l, s.process = .live l ∧ SeamInv env l s

section Numbering
variable {env : Env} {p : State sig} {bound : Nat} {s : Shard sig}

theorem Numbering.spawn (h : Numbering env p s.merged s) : Numbering env (spawned p) s.merged s where
  low_le := Nat.le_refl _
  sealed_lt t ht := by
    have := h.low_le
    simp only [spawned]
    rcases mem_spawned ht with ht | rfl
    · have := h.sealed_lt t ht
      omega
    · simp only
      omega
  high_lt n hn := by
    have := h.low_le
    have := h.high_lt n hn
    simp only [spawned]
    omega
  current_lt n hn := by cases hn
  acked_lt := h.acked_lt
  task_lt t ht := by
    rcases mem_spawned ht with ht | rfl
    · exact h.task_lt t ht
    · exact h.current_lt
  block_lt := h.block_lt
  current_seg a _ hn := by cases hn
  task_seg t ht a ha hn := by
    rcases mem_spawned ht with ht | rfl
    · exact h.task_seg t ht a ha hn
    · exact h.current_seg a ha hn
  task_block t ht uuid hup := by
    rcases mem_spawned ht with ht | rfl
    · exact h.task_block t ht uuid hup
    · cases hup
  uuid_nodup := h.uuid_nodup

theorem Numbering.spawnUpload (h : Numbering env p s.merged s) {p' : State sig}
    (hs : p.spawnUpload = .ok p') : Numbering env p' s.merged s := by
  rcases (spawnUpload_ok hs).2 with rfl | ⟨-, rfl⟩
  · exact h
  · exact h.spawn

theorem Numbering.withWal (h : Numbering env p bound s) {wal : Wal}
    (hle : p.wal.currentSeq ≤ wal.currentSeq) : Numbering env { p with wal := wal } bound s :=
  { h with
    low_le := Nat.le_trans h.low_le hle
    current_seg := fun a ha hn => Nat.le_trans (h.current_seg a ha hn) hle }

theorem Numbering.merge (h : Numbering env p s.merged s) (b : sig.Builder) (process : Process sig) :
    Numbering env { p with current := ⟨b, p.current.batches ++ [s.merged]⟩ } s.merged
      { s with process := process, merged := s.merged + 1 } := by
  refine { h with current_lt := ?_, current_seg := fun a ha hn => ?_ }
  · exact forall_mem_snoc (fun n hn => Nat.lt_succ_of_lt (h.current_lt n hn)) (Nat.lt_succ_self _)
  · rcases mem_append.mp hn with hn | hn
    · exact h.current_seg a ha hn
    · exact absurd (mem_singleton.mp hn) (Nat.ne_of_lt (h.acked_lt a ha))

theorem Numbering.ack (h : Numbering env p (s.merged - 1) s) (hpos : 0 < s.merged) {seg : Nat}
    (hseg : seg ≤ p.wal.currentSeq) (payload : Bytes) (process : Process sig) :
    Numbering env p s.merged
      { s with process := process, acked := s.acked ++ [⟨s.merged - 1, payload, seg⟩] } := by
  have hle : s.merged - 1 ≤ s.merged := Nat.sub_le _ _
  refine { h with
    acked_lt := forall_mem_snoc (fun a ha => Nat.lt_of_lt_of_le (h.acked_lt a ha) hle)
      (Nat.sub_lt hpos Nat.one_pos)
    task_lt := fun t ht n hn => Nat.lt_of_lt_of_le (h.task_lt t ht n hn) hle
    block_lt := fun b hb n hn => Nat.lt_of_lt_of_le (h.block_lt b hb n hn) hle
    current_seg := forall_mem_snoc h.current_seg fun _ => hseg
    task_seg := fun t ht => forall_mem_snoc (h.task_seg t ht) fun hn => ?_ }
  exact absurd (h.task_lt t ht _ hn) (Nat.lt_irrefl _)

theorem Numbering.eraseTask (h : Numbering env p bound s) (i : Nat) (process : Process sig)
    (catalog : Catalog)
    (hhigh : ∀ n, catalog.getWatermark env.writerUuid sig.name env.shardIndex = some n →
      n < p.blockLowSeg) :
    Numbering env { p with inFlight := p.inFlight.eraseIdx i } bound
      { s with process := process, store := { s.store with catalog := catalog } } :=
  { h with
    sealed_lt := fun t ht => h.sealed_lt t (mem_of_mem_eraseIdx ht)
    high_lt := hhigh
    task_lt := fun t ht => h.task_lt t (mem_of_mem_eraseIdx ht)
    task_seg := fun t ht => h.task_seg t (mem_of_mem_eraseIdx ht)
    task_block := fun t ht => h.task_block t (mem_of_mem_eraseIdx ht) }

theorem Numbering.uploadOk (h : Numbering env p bound s) {i : Nat} {t : UploadTask sig}
    (ht : p.inFlight[i]? = some t) {uuid : Uuid} (hfresh : ∀ b ∈ s.store.blocks, b.uuid ≠ uuid)
    (process : Process sig) :
    Numbering env { p with inFlight := p.inFlight.set i { t with uploaded := some uuid } } bound
      { s with
        process := process
        store := { s.store with
          blocks := s.store.blocks ++ [⟨uuid, sig.records t.block.builder, t.block.batches⟩] } } := by
  have htmem := mem_of_getElem? ht
  have hset : ∀ x ∈ p.inFlight.set i { t with uploaded := some uuid },
      ∃ y ∈ p.inFlight, x.block = y.block ∧ x.sealedSeg = y.sealedSeg := by
    intro x hx
    rcases mem_or_eq_of_mem_set hx with hx | rfl
    · exact ⟨x, hx, rfl, rfl⟩
    · exact ⟨t, htmem, rfl, rfl⟩
  refine { h with
    sealed_lt := ?_, task_lt := ?_, task_seg := ?_, task_block := ?_, uuid_nodup := ?_
    block_lt := forall_mem_snoc h.block_lt (h.task_lt t htmem) }
  · intro x hx
    obtain ⟨y, hy, -, hseg⟩ := hset x hx
    rw [hseg]
    exact h.sealed_lt y hy
  · intro x hx
    obtain ⟨y, hy, hb, -⟩ := hset x hx
    rw [hb]
    exact h.task_lt y hy
  · intro x hx a ha hn
    obtain ⟨y, hy, hb, hseg⟩ := hset x hx
    rw [hseg]
    rw [hb] at hn
    exact h.task_seg y hy a ha hn
  · intro x hx u hup
    rcases mem_or_eq_of_mem_set hx with hx | rfl
    · obtain ⟨b, hb, hrest⟩ := h.task_block x hx u hup
      exact ⟨b, mem_append_left _ hb, hrest⟩
    · cases hup
      exact ⟨_, mem_append_right _ mem_cons_self, rfl, rfl⟩
  · rw [map_append]
    exact pairwise_snoc h.uuid_nodup (forall_mem_map.mpr hfresh)

end Numbering

/-! ## Steps -/

section Steps
variable {env : Env} {s s' : Shard sig} {l : Live sig}

theorem isSeam_setLive (h : SeamInv env l s) {p : State sig} {ing : Ingest sig}
    (hnum : Numbering env p (closedBelow s.merged ing) s) (hing : IngestSeg p s.merged ing) :
    IsSeam env (s.setLive ⟨p, ing⟩) :=
  ⟨_, rfl, { hnum with }, hing, h.catalog.of_eq rfl⟩

variable {l' : Live sig}

section

variable (h : SeamInv env l s)
include h

theorem SeamInv.sealOnSchemaChange
    (hs : l.sealOnSchemaChange = some l') : IsSeam env (s.setLive l') := by
  have hnum := h.numbering
  obtain ⟨payload, scratch, heq, rfl | ⟨pipe, hspawn | rfl, -, rfl⟩⟩ := sealOnSchemaChange_some hs <;>
    rw [heq] at hnum
  · exact isSeam_setLive h hnum trivial
  · exact isSeam_setLive h (hnum.spawnUpload hspawn) trivial
  · exact isSeam_setLive h hnum trivial

theorem SeamInv.writeFrame
    (hs : l.writeFrame env = some l') : IsSeam env (s.setLive l') := by
  have hnum := h.numbering
  obtain ⟨payload, scratch, heq, rfl | ⟨-, rfl⟩⟩ := writeFrame_some hs <;> rw [heq] at hnum
  · exact isSeam_setLive h hnum trivial
  · exact isSeam_setLive h (hnum.withWal (Nat.le_refl _)) ⟨hnum.low_le, Nat.le_refl _⟩

theorem SeamInv.rotateIfFull
    (hs : l.rotateIfFull = some l') : IsSeam env (s.setLive l') := by
  have hnum := h.numbering
  have hing := h.ingest
  obtain ⟨payload, scratch, seg, heq, rfl | ⟨wal, hwal, rfl⟩⟩ := rotateIfFull_some hs <;>
    rw [heq] at hnum hing
  · exact isSeam_setLive h hnum trivial
  · obtain ⟨hlow, hle⟩ := hing
    have hgrow : l.pipe.wal.currentSeq ≤ wal.currentSeq := by
      rcases rotateIfFull_ok hwal with rfl | ⟨-, rfl⟩
      · exact Nat.le_refl _
      · exact Nat.le_succ _
    exact isSeam_setLive h (hnum.withWal hgrow) ⟨hlow, Nat.le_trans hle hgrow⟩

theorem SeamInv.mergeScratch (hs : s.mergeScratch l = some s') :
    IsSeam env s' := by
  have hnum := h.numbering
  have hing := h.ingest
  obtain ⟨payload, scratch, seg, heq, ⟨-, rfl⟩ | ⟨m, -, rfl⟩⟩ := mergeScratch_some hs <;>
    rw [heq] at hnum hing
  · exact isSeam_setLive h hnum trivial
  · exact ⟨_, rfl, hnum.merge m _, ⟨hing.1, hing.2, Nat.succ_pos _⟩, h.catalog.of_eq rfl⟩

theorem SeamInv.flush (hs : s.flush l = some s') : IsSeam env s' := by
  have hnum := h.numbering
  obtain ⟨heq, pipe, hspawn, rfl⟩ := flush_some hs
  rw [heq] at hnum
  exact isSeam_setLive h (hnum.spawnUpload hspawn) trivial

theorem SeamInv.finishIngest (hs : s.finishIngest l = some s') :
    IsSeam env s' := by
  have hnum := h.numbering
  have hing := h.ingest
  obtain ⟨payload, seg, heq, rfl | ⟨pipe, hpipe, rfl⟩⟩ := finishIngest_some hs <;> rw [heq] at hnum hing
  · refine isSeam_setLive h ?_ trivial
    -- The block did not close: the batch keeps its number and is never acknowledged.
    exact { hnum with
      acked_lt := fun a ha => Nat.lt_of_lt_of_le (hnum.acked_lt a ha) (Nat.sub_le _ _)
      task_lt := fun t ht n hn => Nat.lt_of_lt_of_le (hnum.task_lt t ht n hn) (Nat.sub_le _ _)
      block_lt := fun b hb n hn => Nat.lt_of_lt_of_le (hnum.block_lt b hb n hn) (Nat.sub_le _ _) }
  · obtain ⟨-, hle, hpos⟩ := hing
    have hack := hnum.ack hpos hle payload (.live ⟨pipe, .idle⟩)
    rcases hpipe with hspawn | rfl
    · exact ⟨_, rfl, hack.spawnUpload hspawn, trivial, h.catalog.of_eq rfl⟩
    · exact ⟨_, rfl, hack, trivial, h.catalog.of_eq rfl⟩

end

variable {i : Nat} {uuid : Uuid}

section

variable (h : SeamInv env l s)
include h

theorem SeamInv.uploadOk
    (hs : s.uploadOk l i uuid = some s') : IsSeam env s' := by
  obtain ⟨t, ht, -, -, hfresh, rfl⟩ := uploadOk_some hs
  exact ⟨_, rfl, h.numbering.uploadOk ht hfresh _, h.ingest, h.catalog.of_eq rfl⟩

theorem SeamInv.uploadFailed (hs : s.uploadFailed l i = some s') :
    IsSeam env s' := by
  obtain ⟨t, -, -, rfl⟩ := uploadFailed_some hs
  exact ⟨_, rfl, h.numbering.eraseTask i _ _ h.numbering.high_lt, h.ingest, h.catalog.of_eq rfl⟩

theorem SeamInv.unlink {i seq : Nat} (hs : s.unlink l i seq = some s') :
    IsSeam env s' := by
  obtain ⟨t, -, -, -, -, rfl⟩ := unlink_some hs
  exact isSeam_setLive h (h.numbering.withWal (Nat.le_refl _)) h.ingest

theorem SeamInv.endUpload {inserted : Bool}
    (hs : s.endUpload env l i inserted = some s') : IsSeam env s' := by
  obtain ⟨t, uuid, ht, -, rfl⟩ := endUpload_some hs
  have hnum := h.numbering
  refine ⟨_, rfl, hnum.eraseTask i _ _ ?_, h.ingest, ?_⟩
  · intro n hn
    cases inserted with
    | false => exact hnum.high_lt n hn
    | true =>
      have hlt := hnum.sealed_lt t (mem_of_getElem? ht)
      have hmax : highWater env
          { s with store := { s.store with catalog := commit env s t.block.builder uuid t.sealedSeg } } =
          some (max ((highWater env s).getD 0) t.sealedSeg) := highWater_commit rfl
      have hn : highWater env
          { s with store := { s.store with catalog := commit env s t.block.builder uuid t.sealedSeg } } =
          some n := hn
      rw [hmax] at hn
      cases hn
      cases hw : highWater env s with
      | none =>
        simp only [getD_none]
        omega
      | some k =>
        have := hnum.high_lt k hw
        simp only [getD_some]
        omega
  · cases inserted with
    | false => exact h.catalog.of_eq rfl
    | true => exact h.catalog.commit rfl

end

theorem isSeam_step {a : Action} (h : IsSeam env s) (ha : a.isLive = true)
    (hs : s.step env a = some s') : IsSeam env s' := by
  obtain ⟨l, _, h⟩ := h
  have hs : s.stepLive env l a = some s' := by
    cases a <;> simp_all [step, Action.isLive]
  cases a with
  | ingest payload =>
    have hnum := h.numbering
    obtain ⟨heq, scratch, -, rfl⟩ := ingest_some hs
    rw [heq] at hnum
    exact isSeam_setLive h hnum trivial
  | sealOnSchemaChange =>
    obtain ⟨l', hl', rfl⟩ := map_eq_some_iff.mp hs
    exact h.sealOnSchemaChange hl'
  | writeFrame =>
    obtain ⟨l', hl', rfl⟩ := map_eq_some_iff.mp hs
    exact h.writeFrame hl'
  | rotateIfFull =>
    obtain ⟨l', hl', rfl⟩ := map_eq_some_iff.mp hs
    exact h.rotateIfFull hl'
  | merge => exact h.mergeScratch hs
  | finishIngest => exact h.finishIngest hs
  | flush => exact h.flush hs
  | uploadOk i uuid => exact h.uploadOk hs
  | uploadFailed i => exact h.uploadFailed hs
  | unlink i seq => exact h.unlink hs
  | insertBlock i => exact h.endUpload hs
  | insertFailed i => exact h.endUpload hs
  | _ => cases ha

/-! ## One step keeps the seam exact, or a commit breaks it -/

def InCatalog (s : Shard sig) (n : Nat) : Prop :=
  ∃ b ∈ s.store.blocks, s.store.catalog.blocks.lookup b.uuid ≠ none ∧ n ∈ b.batches

theorem catalogued_iff (h : CatalogInv env s) (n : Nat) : Catalogued s n ↔ InCatalog s n := by
  simp only [Catalogued, InCatalog, listed_iff h]

theorem seamExact_iff (h : CatalogInv env s) :
    SeamExact env s ↔ ∀ a ∈ s.acked,
      ((∃ n, highWater env s = some n ∧ a.seg ≤ n) ↔ InCatalog s a.batch) := by
  unfold SeamExact
  simp only [dropsLive_iff h, catalogued_iff h, forall_const]

theorem seamExact_congr (hstore : s'.store = s.store) (hacked : s'.acked = s.acked) :
    SeamExact env s' ↔ SeamExact env s := by
  unfold SeamExact dropsLive Catalogued
  rw [hstore, hacked]

section

variable (h : SeamInv env l s)
include h

theorem SeamInv.exact_finishIngest (hex : SeamExact env s)
    (hs : s.finishIngest l = some s') : SeamExact env s' := by
  have hnum := h.numbering
  have hing := h.ingest
  have hack : ∀ payload seg, l.ingest = .merged payload seg →
      ∀ process, SeamExact env
        { s with process := process, acked := s.acked ++ [⟨s.merged - 1, payload, seg⟩] } := by
    intro payload seg heq process
    rw [heq] at hnum hing
    rw [seamExact_iff h.catalog] at hex
    refine Iff.mpr (seamExact_iff (h.catalog.of_eq rfl)) ?_
    refine forall_mem_snoc hex ⟨?_, ?_⟩
    · rintro ⟨n, hn, hle⟩
      have := hnum.high_lt n hn
      have := hing.1
      simp only at hle
      omega
    · rintro ⟨b, hb, -, hmem⟩
      exact absurd (hnum.block_lt b hb _ hmem) (Nat.lt_irrefl _)
  obtain ⟨payload, seg, heq, rfl | ⟨pipe, -, rfl⟩⟩ := finishIngest_some hs
  · exact (seamExact_congr rfl rfl).mpr hex
  · exact hack payload seg heq _

theorem SeamInv.exact_uploadOk (hex : SeamExact env s)
    (hs : s.uploadOk l i uuid = some s') : SeamExact env s' := by
  rw [seamExact_iff h.catalog] at hex
  obtain ⟨t, -, -, hrow, -, rfl⟩ := uploadOk_some hs
  have hnone : s.store.catalog.blocks.lookup uuid = none := by
    simpa [hasBlock, Table.contains] using hrow
  refine Iff.mpr (seamExact_iff (h.catalog.of_eq rfl)) ?_
  intro a ha
  refine (hex a ha).trans ?_
  constructor
  · rintro ⟨b, hb, hrest⟩
    exact ⟨b, mem_append_left _ hb, hrest⟩
  · rintro ⟨b, hb, hrow, hmem⟩
    rcases mem_append.mp hb with hb | hb
    · exact ⟨b, hb, hrow, hmem⟩
    · rw [mem_singleton] at hb
      subst hb
      exact absurd hnone hrow

theorem SeamInv.inCatalog_insertBlock {t : UploadTask sig}
    (ht : l.pipe.inFlight[i]? = some t) (hup : t.uploaded = some uuid)
    (hcat : s'.store.catalog = commit env s t.block.builder uuid t.sealedSeg)
    (hblocks : s'.store.blocks = s.store.blocks) (n : Nat) :
    InCatalog s' n ↔ n ∈ t.block.batches ∨ InCatalog s n := by
  obtain ⟨b, hb, huuid, hbatches⟩ := h.numbering.task_block t (mem_of_getElem? ht) uuid hup
  unfold InCatalog
  simp only [hblocks, lookup_commit hcat]
  constructor
  · rintro ⟨b', hb', hrow, hmem⟩
    by_cases heq : uuid = b'.uuid
    · have : b' = b := inj_on_of_nodup_map h.numbering.uuid_nodup hb' hb (heq ▸ huuid.symm)
      rw [this, hbatches] at hmem
      exact .inl hmem
    · rw [if_neg heq, or_none] at hrow
      exact .inr ⟨b', hb', hrow, hmem⟩
  · rintro (hmem | ⟨b', hb', hrow, hmem⟩)
    · refine ⟨b, hb, ?_, hbatches ▸ hmem⟩
      rw [if_pos huuid.symm]
      cases s.store.catalog.blocks.lookup b.uuid <;> simp
    · refine ⟨b', hb', ?_, hmem⟩
      obtain ⟨r, hr⟩ := ne_none_iff_exists'.mp hrow
      simp [hr]

theorem SeamInv.exact_insertBlock (hp : s.process = .live l)
    (hex : SeamExact env s) (hs : s.endUpload env l i true = some s') :
    SeamExact env s' ↔ CommitInOrder s (.insertBlock i) := by
  obtain ⟨t, uuid, ht, hup, heq⟩ := endUpload_some hs
  have hcat : s'.store.catalog = commit env s t.block.builder uuid t.sealedSeg := by rw [heq]; rfl
  have hblocks : s'.store.blocks = s.store.blocks := by rw [heq]
  have hacked : s'.acked = s.acked := by rw [heq]
  have hseg := h.numbering.task_seg t (mem_of_getElem? ht)
  have horder : CommitInOrder s (.insertBlock i) ↔
      ∀ a ∈ s.acked, a.seg ≤ t.sealedSeg → a.batch ∈ t.block.batches ∨ InCatalog s a.batch := by
    simp only [CommitInOrder, committing, hp, ht, mem_def, Option.some.injEq, forall_eq',
      catalogued_iff h.catalog]
  rw [seamExact_iff h.catalog] at hex
  rw [seamExact_iff (h.catalog.commit hcat), horder, hacked]
  refine forall₂_congr fun a ha => ?_
  rw [h.inCatalog_insertBlock ht hup hcat hblocks, highWater_commit hcat]
  have hex := hex a ha
  have hseg := hseg a ha
  -- The old watermark accounts for what was catalogued, the sealed segment for the block's own.
  have hmax : (∃ n, some (max ((highWater env s).getD 0) t.sealedSeg) = some n ∧ a.seg ≤ n) ↔
      InCatalog s a.batch ∨ a.seg ≤ t.sealedSeg := by
    rw [← hex]
    cases highWater env s with
    | none => simp
    | some k =>
      simp only [getD_some, Option.some.injEq, exists_eq_left']
      omega
  rw [hmax]
  constructor
  · intro hexact hle
    exact hexact.mp (.inr hle)
  · intro hcov
    constructor
    · rintro (hin | hle)
      · exact .inr hin
      · exact hcov hle
    · rintro (hbatch | hin)
      · exact .inr (hseg hbatch)
      · exact .inl hin

end

theorem seamExact_step {a : Action} (h : IsSeam env s) (ha : a.isLive = true) (hex : SeamExact env s)
    (hs : s.step env a = some s') : SeamExact env s' ↔ CommitInOrder s a := by
  obtain ⟨l, hp, h⟩ := h
  have hs : s.stepLive env l a = some s' := by
    cases a <;> simp_all [step, Action.isLive]
  by_cases hins : ∃ i, a = .insertBlock i
  · obtain ⟨i, rfl⟩ := hins
    exact h.exact_insertBlock hp hex hs
  have hother : CommitInOrder s a := by
    intro t ht
    cases a with
    | insertBlock i => exact absurd ⟨i, rfl⟩ hins
    | _ => cases ht
  refine iff_of_true ?_ hother
  rcases (stepLive_some hs).2 with ⟨hstore, hacked⟩ | rfl | ⟨i, uuid, rfl⟩ | hi
  · exact (seamExact_congr hstore hacked).mpr hex
  · exact h.exact_finishIngest hex hs
  · exact h.exact_uploadOk hex hs
  · exact absurd hi hins

end Steps

/-! ## Every run of one WAL instance -/

def Shard.opened (env : Env) (sig : Signal) : Shard sig :=
  let wal := Wal.openWal .empty env.maxSegmentBytes
  { fresh sig with
    process := .live ⟨⟨wal, newFilling sig, wal.currentSeq, []⟩, .idle⟩ }

theorem isSeam_opened (env : Env) (sig : Signal) : IsSeam env (opened env sig) := by
  refine ⟨_, rfl, ?_, trivial, ?_, ?_⟩
  · refine ⟨Nat.le_refl _, ?_, ?_, ?_, ?_, ?_, ?_, ?_, ?_, ?_, nodup_nil⟩
    all_goals intro x hx
    all_goals cases hx
  · intro a d hclaim
    cases hclaim
  · intro u r hr
    cases hr

/-- Every acknowledged batch counts once just when blocks commit after the acknowledged batches below their
sealed segments. -/
theorem seam_exact_iff (sig : Signal) (env : Env) (as : List Action) (s : Shard sig)
    (hlive : ∀ a ∈ as, a.isLive = true)
    (h : run (step env) (opened env sig) as = some s) :
    (∀ pre s', pre <+: as → run (step env) (opened env sig) pre = some s' →
        SeamExact env s') ↔
      Meets (step env) CommitInOrder (opened env sig) as := by
  refine forall_prefix_iff_meets (fun _ _ _ hI ha hs => isSeam_step hI ha hs)
    (fun _ _ _ hI ha hex hs => seamExact_step hI ha hex hs) (isSeam_opened env sig) ?_ hlive h
  intro selects a ha
  cases ha

def logsSample : Signal := { sampleSignal with name := .logs }

def twoBlocks : List Action := ingestOne (sampleBatch 2) ++ ingestOne (sampleBatch 2)

def inOrderRun : List Action :=
  twoBlocks ++ [.uploadOk 1 101, .uploadOk 0 100, .insertBlock 0, .insertBlock 0]

theorem seam_exact_in_order :
    ∃ s, run (step sampleEnv) (opened sampleEnv logsSample) inOrderRun = some s ∧
      s.acked.map Ack.seg = [0, 1] ∧ SeamExact sampleEnv s := by
  have hout : (run (step sampleEnv) (opened sampleEnv logsSample) inOrderRun).map
      (fun s => s.acked.map Ack.seg) = some [0, 1] := by decide +kernel
  obtain ⟨s, hs, hseg⟩ := map_eq_some_iff.mp hout
  refine ⟨s, hs, hseg, ?_⟩
  exact (seam_exact_iff logsSample sampleEnv inOrderRun s (by decide) hs).mpr (by decide +kernel)
    inOrderRun s (prefix_refl _) hs

def overtakingRun : List Action := twoBlocks ++ [.uploadOk 1 101, .insertBlock 1]

def seamOutline (s : Shard logsSample) : List (Nat × Nat) × Bool × Bool :=
  (s.acked.map fun a => (a.batch, a.seg), dropsLive sampleEnv s (fun _ => true) 0,
    decide (Catalogued s 0))

theorem overtaken_batch_lost :
    ∃ s, run (step sampleEnv) (opened sampleEnv logsSample) overtakingRun = some s ∧
      ¬ SeamExact sampleEnv s := by
  have hout : (run (step sampleEnv) (opened sampleEnv logsSample) overtakingRun).map
      seamOutline = some ([(0, 0), (1, 1)], true, false) := by decide +kernel
  obtain ⟨s, hs, hseam⟩ := map_eq_some_iff.mp hout
  obtain ⟨hacked, hdrop, hcat⟩ :
      s.acked.map (fun a => (a.batch, a.seg)) = [(0, 0), (1, 1)] ∧
        dropsLive sampleEnv s (fun _ => true) 0 = true ∧ decide (Catalogued s 0) = false := by
    simpa [seamOutline] using hseam
  refine ⟨s, hs, ?_⟩
  intro hex
  obtain ⟨a, ha, heq⟩ := mem_map.mp (hacked ▸ mem_cons_self :
    (0, 0) ∈ s.acked.map fun a => (a.batch, a.seg))
  obtain ⟨hbatch, hseg⟩ := Prod.mk.inj heq
  have hiff := hex (fun _ => true) a ha
  rw [hbatch, hseg] at hiff
  exact of_decide_eq_false hcat (hiff.mp hdrop)

end Scry.Pipeline
