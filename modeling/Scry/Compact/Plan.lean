import Scry.Catalog.Lineage
import Mathlib.Data.Fintype.EquivFin

/-! # The compaction planner

`plan_merges` works on catalog entries, which carry no ancestry. `merge_blocks` builds the ancestry
from the sidecars.
-/

open Scry.Lib Scry.Block Scry.Catalog

namespace Scry.Compact

open List Row

structure CompactConfig where
  fanout : Nat
  maxLevel : Nat
  signalFilter : Option SignalName
  deriving DecidableEq

/-- It stops long before the products could overflow. -/
def ancestryFits (fanout : Nat) : Nat → Nat → Nat → Bool
  | 0, _, _ => true
  | levels + 1, width, represented =>
    let width' := width * fanout
    let represented' := represented + width'
    represented' ≤ maxCompactedAncestors && ancestryFits fanout levels width' represented'

variable (cfg : CompactConfig) (blocks : List CatalogEntry) (e : CatalogEntry)

def CompactConfig.validate : Bool :=
  2 ≤ cfg.fanout && 1 ≤ cfg.maxLevel && ancestryFits cfg.fanout cfg.maxLevel 1 0

structure PlannedMerge where
  signal : SignalName
  date : Nat
  inputLevel : Nat
  inputs : List CatalogEntry
  deriving DecidableEq

def PlannedMerge.outputLevel (p : PlannedMerge) : Nat := p.inputLevel + 1

structure OversizedPartition where
  signal : SignalName
  date : Nat
  inputLevel : Nat
  projectedAncestors : Nat
  deriving DecidableEq

structure CompactionPlan where
  merges : List PlannedMerge
  oversized : List OversizedPartition
  deriving DecidableEq

def projectedAncestryLen (inputs : List CatalogEntry) : Nat :=
  (ancestrySet (inputs.map CatalogEntry.blockMeta)).length

/-! ## Grouping -/

structure GroupKey where
  signal : SignalName
  schemaVersion : Nat
  date : Nat
  level : Nat
  deriving DecidableEq

def signalRank : SignalName → Nat
  | .dummy => 0
  | .logs => 1
  | .metrics => 2
  | .profiles => 3
  | .traces => 4

def GroupKey.le (a b : GroupKey) : Prop :=
  signalRank a.signal < signalRank b.signal ∨ signalRank a.signal = signalRank b.signal ∧
    (a.schemaVersion < b.schemaVersion ∨ a.schemaVersion = b.schemaVersion ∧
      (a.date < b.date ∨ a.date = b.date ∧ a.level ≤ b.level))

instance : DecidableRel GroupKey.le :=
  fun _ _ => inferInstanceAs (Decidable (_ ∨ _ ∧ (_ ∨ _ ∧ (_ ∨ _ ∧ _))))

def GroupKey.of : GroupKey :=
  ⟨e.blockMeta.signal, e.blockMeta.schemaVersion, e.date, e.level⟩

def CompactConfig.considers : Bool :=
  cfg.signalFilter.all (fun filter => e.blockMeta.signal = filter) && e.level < cfg.maxLevel

def groups (cfg : CompactConfig) : List (GroupKey × List CatalogEntry) :=
  let kept := blocks.filter cfg.considers
  ((kept.map GroupKey.of).dedup.insertionSort GroupKey.le).map fun key =>
    (key, kept.filter fun e => GroupKey.of e = key)

/-- `sort_by_key(byte_size)`, which is stable, and `truncate`. -/
def smallest (n : Nat) (entries : List CatalogEntry) : List CatalogEntry :=
  (entries.insertionSort fun a b => a.blockMeta.byteSize ≤ b.blockMeta.byteSize).take n

/-! ## Planning -/

def planGroup (plan : CompactionPlan) (group : GroupKey × List CatalogEntry) :
    CompactionPlan :=
  let (key, entries) := group
  if entries.length < cfg.fanout then plan
  else
    let entries := smallest cfg.fanout entries
    let projected := projectedAncestryLen entries
    if maxCompactedAncestors < projected then
      { plan with oversized := plan.oversized ++ [⟨key.signal, key.date, key.level, projected⟩] }
    else { plan with merges := plan.merges ++ [⟨key.signal, key.date, key.level, entries⟩] }

def planMerges (cfg : CompactConfig) : CompactionPlan :=
  (groups blocks cfg).foldl (planGroup cfg) ⟨[], []⟩

/-! ## Building the ancestry -/

inductive MergeError where
  | metaMissing (input : Uuid)
  | uuidMismatch (requested fetched : Uuid)
  | signalMismatch (input : Uuid)
  | schemaMismatch (input : Uuid)
  | ancestry (e : AncestryError)
  deriving DecidableEq

variable (bucket : List BlockMeta)

def fetchMeta (e : BlockMeta) : Option BlockMeta :=
  bucket.find? fun m => m.signal = e.signal ∧ formatDate m.tsMinUnixNano = formatDate e.tsMinUnixNano ∧
    m.writerId = e.writerId ∧ m.uuid = e.uuid

def loadInput (signal : SignalName) (e : CatalogEntry) :
    Except MergeError BlockMeta :=
  match fetchMeta bucket e.blockMeta with
  | none => .error (.metaMissing e.blockMeta.uuid)
  | some fetched =>
    if fetched.uuid ≠ e.blockMeta.uuid then .error (.uuidMismatch e.blockMeta.uuid fetched.uuid)
    else if fetched.signal ≠ signal then .error (.signalMismatch fetched.uuid)
    else if fetched.schemaVersion ≠ e.blockMeta.schemaVersion then .error (.schemaMismatch fetched.uuid)
    else .ok fetched

def mergeAncestry (outputUuid : Uuid) (p : PlannedMerge) :
    Except MergeError (List Uuid) := do
  let inputMetas ← p.inputs.mapM (loadInput bucket p.signal)
  match compactedAncestorClosure outputUuid inputMetas with
  | .ok ancestors => return ancestors
  | .error e => throw (.ancestry e)

/-! ## What is planned -/

section Plan
variable {blocks : List CatalogEntry} {cfg : CompactConfig}

def Qualifies (blocks : List CatalogEntry) (cfg : CompactConfig) (g : GroupKey × List CatalogEntry) :
    Prop :=
  g ∈ groups blocks cfg ∧ cfg.fanout ≤ g.2.length

def GroupKey.merge (key : GroupKey) (entries : List CatalogEntry) : PlannedMerge :=
  ⟨key.signal, key.date, key.level, entries⟩

theorem foldl_planGroup (gs : List (GroupKey × List CatalogEntry)) (plan : CompactionPlan) :
    gs.foldl (planGroup cfg) plan =
      { merges := plan.merges ++ (gs.filter fun g => cfg.fanout ≤ g.2.length ∧
          projectedAncestryLen (smallest cfg.fanout g.2) ≤ maxCompactedAncestors).map
            fun g => g.1.merge (smallest cfg.fanout g.2)
        oversized := plan.oversized ++ (gs.filter fun g => cfg.fanout ≤ g.2.length ∧
          maxCompactedAncestors < projectedAncestryLen (smallest cfg.fanout g.2)).map
            fun g => ⟨g.1.signal, g.1.date, g.1.level,
              projectedAncestryLen (smallest cfg.fanout g.2)⟩ } := by
  induction gs generalizing plan with
  | nil => simp
  | cons g gs ih =>
    rw [foldl_cons, ih]
    unfold planGroup
    by_cases hlen : g.2.length < cfg.fanout
    · have : ¬ cfg.fanout ≤ g.2.length := by omega
      simp [hlen, this]
    · have hge : cfg.fanout ≤ g.2.length := by omega
      by_cases hbig : maxCompactedAncestors < projectedAncestryLen (smallest cfg.fanout g.2)
      · have : ¬ projectedAncestryLen (smallest cfg.fanout g.2) ≤ maxCompactedAncestors := by omega
        simp [hlen, hge, hbig, this]
      · have : projectedAncestryLen (smallest cfg.fanout g.2) ≤ maxCompactedAncestors := by omega
        simp [hlen, hge, hbig, this, GroupKey.merge]

theorem mem_merges (p : PlannedMerge) :
    p ∈ (planMerges blocks cfg).merges ↔ ∃ g, Qualifies blocks cfg g ∧
      projectedAncestryLen (smallest cfg.fanout g.2) ≤ maxCompactedAncestors ∧
      p = g.1.merge (smallest cfg.fanout g.2) := by
  simp only [planMerges, Qualifies, foldl_planGroup, nil_append, mem_map, mem_filter,
    decide_eq_true_eq, and_assoc, @eq_comm _ p]

theorem mem_oversized (o : OversizedPartition) :
    o ∈ (planMerges blocks cfg).oversized ↔ ∃ g, Qualifies blocks cfg g ∧
      maxCompactedAncestors < projectedAncestryLen (smallest cfg.fanout g.2) ∧
      o = ⟨g.1.signal, g.1.date, g.1.level, projectedAncestryLen (smallest cfg.fanout g.2)⟩ := by
  simp only [planMerges, Qualifies, foldl_planGroup, nil_append, mem_map, mem_filter,
    decide_eq_true_eq, and_assoc, @eq_comm _ o]

variable {e : CatalogEntry}

theorem mem_group {g : GroupKey × List CatalogEntry} (hg : g ∈ groups blocks cfg)
    (he : e ∈ g.2) : e ∈ blocks ∧ GroupKey.of e = g.1 := by
  obtain ⟨key, -, rfl⟩ := mem_map.mp hg
  obtain ⟨hkept, hkey⟩ := mem_filter.mp he
  exact ⟨mem_of_mem_filter hkept, by simpa using hkey⟩

theorem input_of_plan {p : PlannedMerge} (hp : p ∈ (planMerges blocks cfg).merges)
    (he : e ∈ p.inputs) :
    e ∈ blocks ∧ e.blockMeta.signal = p.signal ∧ e.date = p.date ∧ e.level = p.inputLevel := by
  obtain ⟨g, ⟨hg, -⟩, -, rfl⟩ := (mem_merges p).mp hp
  have heg : e ∈ g.2 := by
    simpa using mem_of_mem_take (l := g.2.insertionSort _) he
  obtain ⟨hmem, hkey⟩ := mem_group hg heg
  rw [← hkey]
  exact ⟨hmem, rfl, rfl, rfl⟩

end Plan

/-! ## Entries and their sidecars -/

def sidecarsOf (bucket : List BlockMeta) (es : List CatalogEntry) : List BlockMeta :=
  es.filterMap fun e => fetchMeta bucket e.blockMeta

structure ListingOf (S : List BlockMeta) (blocks : List CatalogEntry) : Prop where
  entry : ∀ e ∈ blocks, ∃ m ∈ S, e = (ofMeta m false).toEntry
  uuid_nodup : (blocks.map fun e => e.blockMeta.uuid).Nodup

section Sidecars
variable {S : List BlockMeta} {blocks es : List CatalogEntry} {cfg : CompactConfig}

theorem listingOf_listBlocks {order : List BlockMeta} (hS : ClosedLineage S)
    (horder : ∀ m, m ∈ order ↔ m ∈ S) : ListingOf S (order.foldl insertBlock empty).listBlocks := by
  have hins := inserted_foldl_insertBlock hS fun m hm => (horder m).mp hm
  rw [hins.listBlocks_eq hS horder]
  unfold topRows
  constructor
  · intro e he
    obtain ⟨r, hr, rfl⟩ := mem_map.mp he
    rw [mem_insertionSort] at hr
    obtain ⟨m, hm, rfl⟩ := mem_map.mp hr
    exact ⟨m, (mem_filter.mp hm).1, rfl⟩
  · rw [map_map]
    apply ((perm_insertionSort listOrder _).map _).nodup_iff.mpr
    rw [map_map]
    exact hS.uuid_nodup.sublist (filter_sublist.map _)

theorem ListingOf.sublist (h : ListingOf S blocks) (hes : es.Sublist blocks) : ListingOf S es where
  entry e he := h.entry e (hes.subset he)
  uuid_nodup := h.uuid_nodup.sublist (hes.map _)

theorem ListingOf.perm (h : ListingOf S blocks) (hes : es.Perm blocks) : ListingOf S es where
  entry e he := h.entry e (hes.mem_iff.mp he)
  uuid_nodup := (hes.map _).nodup_iff.mpr h.uuid_nodup

theorem ListingOf.smallest (h : ListingOf S es) (n : Nat) : ListingOf S (smallest n es) :=
  (h.perm (perm_insertionSort _ es)).sublist (take_sublist n _)

theorem ListingOf.group (h : ListingOf S blocks) {g : GroupKey × List CatalogEntry}
    (hg : g ∈ groups blocks cfg) : ListingOf S g.2 ∧ ∀ e ∈ g.2, GroupKey.of e = g.1 := by
  refine ⟨?_, fun e he => (mem_group hg he).2⟩
  obtain ⟨key, -, rfl⟩ := mem_map.mp hg
  exact h.sublist (filter_sublist.trans filter_sublist)

theorem ListingOf.projectedAncestryLen_eq (h : ListingOf S es) : projectedAncestryLen es = es.length := by
  unfold projectedAncestryLen
  rw [← length_map fun e : CatalogEntry => e.blockMeta.uuid]
  apply List.Perm.length_eq
  rw [perm_ext_iff_of_nodup (nodup_ancestrySet _) h.uuid_nodup]
  intro u
  rw [mem_ancestrySet]
  simp only [mem_map]
  constructor
  · rintro ⟨-, ⟨e, he, rfl⟩, hu⟩
    obtain ⟨m, -, rfl⟩ := h.entry e he
    rcases hu with rfl | hu
    · exact ⟨_, he, rfl⟩
    · cases hu
  · rintro ⟨e, he, rfl⟩
    exact ⟨_, ⟨e, he, rfl⟩, .inl rfl⟩

theorem fetchMeta_entry (hS : ClosedLineage S) {m : BlockMeta} (hm : m ∈ S) :
    fetchMeta S (ofMeta m false).toEntry.blockMeta = some m := by
  unfold fetchMeta
  cases hf : S.find? _ with
  | none =>
    have := find?_eq_none.mp hf m hm
    simp [toEntry, ofMeta] at this
  | some m' =>
    have huuid := find?_some hf
    simp only [decide_eq_true_eq] at huuid
    rw [hS.eq_of_uuid (mem_of_find?_eq_some hf) hm huuid.2.2.2]

theorem mapM_loadInput (hS : ClosedLineage S) (h : ListingOf S es) {signal : SignalName}
    (hsig : ∀ e ∈ es, e.blockMeta.signal = signal) :
    es.mapM (loadInput S signal) = .ok (sidecarsOf S es) := by
  induction es with
  | nil => rfl
  | cons e es ih =>
    obtain ⟨m, hm, rfl⟩ := h.entry e mem_cons_self
    have hmsig : m.signal = signal := hsig _ mem_cons_self
    have hload : loadInput S signal (ofMeta m false).toEntry = .ok m := by
      unfold loadInput
      rw [fetchMeta_entry hS hm]
      simp [toEntry, ofMeta, hmsig]
    have hrest := ih (h.sublist (sublist_cons_self _ _))
      fun e' he' => hsig e' (mem_cons_of_mem _ he')
    rw [mapM_cons, hload, hrest]
    unfold sidecarsOf
    rw [filterMap_cons, fetchMeta_entry hS hm]
    rfl

theorem ListingOf.uuid_sidecarsOf (h : ListingOf S es) (hS : ClosedLineage S) :
    (sidecarsOf S es).map BlockMeta.uuid = es.map fun e => e.blockMeta.uuid := by
  induction es with
  | nil => rfl
  | cons e es ih =>
    obtain ⟨m, hm, rfl⟩ := h.entry e mem_cons_self
    have hrest := ih (h.sublist (sublist_cons_self _ _))
    unfold sidecarsOf at hrest ⊢
    rw [filterMap_cons, fetchMeta_entry hS hm, map_cons, map_cons, hrest]
    rfl

def Fresh (S : List BlockMeta) (outputUuid : Uuid) : Prop :=
  ∀ m ∈ S, m.uuid ≠ outputUuid ∧ outputUuid ∉ m.compactedFrom

theorem exists_fresh (S : List BlockMeta) : ∃ u, Fresh S u := by
  obtain ⟨u, hu⟩ := Infinite.exists_notMem_finset (ancestrySet S).toFinset
  rw [mem_toFinset, mem_ancestrySet] at hu
  refine ⟨u, ?_⟩
  intro m hm
  refine ⟨?_, ?_⟩
  · intro heq
    exact hu ⟨m, hm, .inl heq.symm⟩
  · intro hmem
    exact hu ⟨m, hm, .inr hmem⟩

variable {outputUuid : Uuid}

theorem ListingOf.mergeable (h : ListingOf S es) (hS : ClosedLineage S)
    (hsort : ∀ m ∈ S, unsortedOrDuplicate m.compactedFrom = false)
    (hfresh : Fresh S outputUuid) : Mergeable outputUuid (sidecarsOf S es) := by
  have hmem : ∀ m ∈ sidecarsOf S es, m ∈ S := by
    intro m hm
    obtain ⟨e, -, hf⟩ := mem_filterMap.mp hm
    exact mem_of_find?_eq_some hf
  refine ⟨?_, ?_, ?_, ?_⟩
  · rw [h.uuid_sidecarsOf hS]
    exact h.uuid_nodup
  · intro m hm
    exact hfresh m (hmem m hm)
  · intro m hm
    exact hS.acyclic m (hmem m hm)
  · intro m hm
    exact hsort m (hmem m hm)

theorem mergeAncestry_isOk_iff (h : ListingOf S es) (hS : ClosedLineage S)
    (hsort : ∀ m ∈ S, unsortedOrDuplicate m.compactedFrom = false)
    (hfresh : Fresh S outputUuid) {key : GroupKey}
    (hsig : ∀ e ∈ es, e.blockMeta.signal = key.signal) :
    (∃ cf, mergeAncestry S outputUuid (key.merge es) = .ok cf) ↔
      es ≠ [] ∧ (ancestrySet (sidecarsOf S es)).length ≤ maxCompactedAncestors := by
  have hload := mapM_loadInput hS h hsig
  have hok := compactedAncestorClosure_isOk_iff (h.mergeable hS hsort hfresh)
  have hne : sidecarsOf S es ≠ [] ↔ es ≠ [] := by
    have := congrArg length (h.uuid_sidecarsOf hS)
    rw [length_map, length_map] at this
    rw [← length_pos_iff, ← length_pos_iff, this]
  rw [hne] at hok
  rw [← hok]
  unfold mergeAncestry
  simp only [GroupKey.merge, hload]
  constructor
  · rintro ⟨cf, hcf⟩
    cases hc : compactedAncestorClosure outputUuid (sidecarsOf S es) with
    | ok l => exact ⟨l, rfl⟩
    | error e =>
      simp only [bind, Except.bind, hc] at hcf
      cases hcf
  · rintro ⟨cf, hcf⟩
    refine ⟨cf, ?_⟩
    simp only [bind, Except.bind, hcf]
    rfl

end Sidecars

/-! ## Planner and block layer -/

/-- Planned merges build their ancestry; groups with too large ones are reported. -/
structure PlannerAgrees (S : List BlockMeta) (blocks : List CatalogEntry) (cfg : CompactConfig) : Prop
    where
  accepted : ∀ p ∈ (planMerges blocks cfg).merges, ∀ outputUuid, Fresh S outputUuid →
    ∃ cf, mergeAncestry S outputUuid p = .ok cf
  reported : ∀ g, Qualifies blocks cfg g →
    maxCompactedAncestors < (ancestrySet (sidecarsOf S (smallest cfg.fanout g.2))).length →
    (∃ o ∈ (planMerges blocks cfg).oversized,
        o.signal = g.1.signal ∧ o.date = g.1.date ∧ o.inputLevel = g.1.level) ∧
      g.1.merge (smallest cfg.fanout g.2) ∉ (planMerges blocks cfg).merges

/-- Just when no group is planned without inputs, and each has real ancestry within the cap. -/
theorem planner_agrees_iff (S order : List BlockMeta) (hS : ClosedLineage S)
    (hsorted : ∀ m ∈ S, unsortedOrDuplicate m.compactedFrom = false)
    (horder : ∀ m, m ∈ order ↔ m ∈ S) (cfg : CompactConfig) :
    PlannerAgrees S (order.foldl insertBlock empty).listBlocks cfg ↔
      ∀ g, Qualifies (order.foldl insertBlock empty).listBlocks cfg g →
        cfg.fanout ≠ 0 ∧ (maxCompactedAncestors < cfg.fanout ∨
          (ancestrySet (sidecarsOf S (smallest cfg.fanout g.2))).length ≤ maxCompactedAncestors) := by
  have hlists := listingOf_listBlocks hS horder
  generalize (order.foldl insertBlock empty).listBlocks = blocks at hlists
  have hlen : ∀ g, Qualifies blocks cfg g → (smallest cfg.fanout g.2).length = cfg.fanout := by
    intro g hg
    have := hg.2
    simp only [smallest, length_take, length_insertionSort]
    omega
  have hproj : ∀ g, Qualifies blocks cfg g →
      projectedAncestryLen (smallest cfg.fanout g.2) = cfg.fanout := by
    intro g hg
    rw [((hlists.group hg.1).1.smallest _).projectedAncestryLen_eq, hlen g hg]
  have hok : ∀ g, Qualifies blocks cfg g → ∀ outputUuid, Fresh S outputUuid →
      ((∃ cf, mergeAncestry S outputUuid (g.1.merge (smallest cfg.fanout g.2)) = .ok cf) ↔
        cfg.fanout ≠ 0 ∧
          (ancestrySet (sidecarsOf S (smallest cfg.fanout g.2))).length ≤ maxCompactedAncestors) := by
    intro g hg outputUuid hfresh
    obtain ⟨hgl, hkey⟩ := hlists.group hg.1
    rw [mergeAncestry_isOk_iff (hgl.smallest _) hS hsorted hfresh, ← length_pos_iff, hlen g hg,
      Nat.pos_iff_ne_zero]
    intro e he
    have he : e ∈ g.2 := by
      have := mem_of_mem_take he
      rwa [mem_insertionSort] at this
    rw [← hkey e he]
    rfl
  constructor
  · intro hagree g hg
    by_cases hbig : maxCompactedAncestors < cfg.fanout
    · exact ⟨by omega, .inl hbig⟩
    · obtain ⟨u, hu⟩ := exists_fresh S
      have hplanned : g.1.merge (smallest cfg.fanout g.2) ∈ (planMerges blocks cfg).merges := by
        rw [mem_merges]
        exact ⟨g, hg, by rw [hproj g hg]; omega, rfl⟩
      obtain ⟨hne, hle⟩ := (hok g hg u hu).mp (hagree.accepted _ hplanned u hu)
      exact ⟨hne, .inr hle⟩
  · intro hall
    refine ⟨?_, ?_⟩
    · intro p hp u hu
      obtain ⟨g, hg, hle, rfl⟩ := (mem_merges p).mp hp
      rw [hproj g hg] at hle
      obtain ⟨hne, hor⟩ := hall g hg
      refine (hok g hg u hu).mpr ⟨hne, ?_⟩
      rcases hor with hbig | hsmall
      · omega
      · exact hsmall
    · intro g hg _
      have hbig : maxCompactedAncestors < cfg.fanout := by
        rcases (hall g hg).2 with hbig | hsmall
        · exact hbig
        · omega
      refine ⟨⟨_, (mem_oversized _).mpr ⟨g, hg, by rw [hproj g hg]; exact hbig, rfl⟩, rfl, rfl, rfl⟩,
        ?_⟩
      intro hp
      obtain ⟨g', hg', hle, -⟩ := (mem_merges _).mp hp
      rw [hproj g' hg'] at hle
      omega

def levelOne : List BlockMeta := [sampleBlock 4 1 [], sampleBlock 3 1 [1, 2]]

theorem planner_agrees_levelOne :
    PlannerAgrees levelOne (levelOne.foldl insertBlock empty).listBlocks ⟨2, 3, none⟩ := by
  have hsub : levelOne.Sublist sampleHistory := by decide
  refine (planner_agrees_iff levelOne levelOne (history_sampleHistory.closedLineage.sublist hsub)
    (fun m hm => history_sampleHistory.sorted (hsub.subset hm)) (fun _ => Iff.rfl) _).mpr ?_
  have hgroups : ∀ g ∈ groups (levelOne.foldl insertBlock empty).listBlocks ⟨2, 3, none⟩,
      (ancestrySet (sidecarsOf levelOne (smallest 2 g.2))).length ≤ maxCompactedAncestors := by
    decide +kernel
  intro g hg
  exact ⟨by decide, .inr (hgroups g hg.1)⟩

/-! ## A merge that is planned and refused -/

variable (first n : Nat)

def writes : List BlockMeta := (range' first n).map fun u => sampleBlock u 0 []

def wideMerge (outputUuid first : Nat) : BlockMeta :=
  sampleBlock outputUuid 1 (range' first 300)

def wideOutputs : List BlockMeta := [wideMerge 2001 301, wideMerge 2000 1]

def wideHistory : List BlockMeta :=
  wideMerge 2001 301 :: wideMerge 2000 1 :: (writes 1 600).reverse

theorem mem_writes {first n : Nat} {x : BlockMeta} (hx : x ∈ writes first n) :
    (first ≤ x.uuid ∧ x.uuid < first + n) ∧ x.compactedFrom = [] := by
  obtain ⟨u, hu, rfl⟩ := mem_map.mp hx
  exact ⟨mem_range'_1.mp hu, rfl⟩

theorem uuid_writes : (writes first n).map BlockMeta.uuid = range' first n := by
  unfold writes
  rw [map_map]
  exact map_id _

theorem history_writes : History (writes first n).reverse := by
  induction n with
  | zero => exact .nil
  | succ n ih =>
    have hsnoc : writes first (n + 1) = writes first n ++ [sampleBlock (first + n) 0 []] := by
      simp [writes, range'_concat]
    rw [hsnoc, reverse_append]
    refine .write ih ?_ rfl
    intro x hx
    exact Nat.ne_of_lt (mem_writes (mem_reverse.mp hx)).1.2

theorem compactedAncestorClosure_writes {outputUuid first n : Nat} (hn : n ≠ 0)
    (hle : n ≤ maxCompactedAncestors) (hout : first + n ≤ outputUuid) :
    compactedAncestorClosure outputUuid (writes first n) = .ok (range' first n) := by
  have hmem : ∀ u, u ∈ range' first n ↔
      ∃ i ∈ writes first n, u = i.uuid ∨ u ∈ i.compactedFrom := by
    intro u
    simp [writes, sampleBlock]
  have hm : Mergeable outputUuid (writes first n) := by
    refine ⟨by rw [uuid_writes]; exact nodup_range', ?_, ?_, ?_⟩
    all_goals
      intro i hi
      obtain ⟨⟨-, hlt⟩, hcf⟩ := mem_writes hi
      rw [hcf]
    · exact ⟨Nat.ne_of_lt (Nat.lt_of_lt_of_le hlt hout), not_mem_nil⟩
    · exact not_mem_nil
    · rfl
  have hlen : (ancestrySet (writes first n)).length = n := by
    have hperm : (ancestrySet (writes first n)).Perm (range' first n) := by
      rw [perm_ext_iff_of_nodup (nodup_ancestrySet _) nodup_range']
      intro u
      rw [mem_ancestrySet, hmem]
    rw [hperm.length_eq, length_range']
  have hne : writes first n ≠ [] := by
    rw [ne_eq, writes, map_eq_nil_iff, range'_eq_nil_iff]
    exact hn
  obtain ⟨cf, hcf⟩ := (compactedAncestorClosure_isOk_iff hm).mpr ⟨hne, by rw [hlen]; exact hle⟩
  rw [hcf, compactedAncestorClosure_eq hcf pairwise_lt_range' hmem]

theorem closure_wideMerge {outputUuid first : Nat} (h : first + 300 ≤ outputUuid) :
    compactedAncestorClosure (wideMerge outputUuid first).uuid (writes first 300) =
      .ok (wideMerge outputUuid first).compactedFrom :=
  compactedAncestorClosure_writes (by decide) (by decide) h

theorem history_wideHistory : History wideHistory := by
  have hmem : ∀ first, 1 ≤ first → first + 300 ≤ 601 → writes first 300 ⊆ (writes 1 600).reverse := by
    intro first _ _ x hx
    obtain ⟨u, hu, rfl⟩ := mem_map.mp hx
    rw [mem_range'_1] at hu
    rw [mem_reverse]
    apply mem_map_of_mem
    rw [mem_range'_1]
    omega
  have hfresh : ∀ out first, 601 ≤ out →
      ∀ x ∈ (writes 1 600).reverse, x.uuid ≠ (wideMerge out first).uuid := by
    intro out first hout x hx
    have hlt := (mem_writes (mem_reverse.mp hx)).1.2
    exact Nat.ne_of_lt (Nat.lt_of_lt_of_le hlt hout)
  have h1 : History (wideMerge 2000 1 :: (writes 1 600).reverse) :=
    .merge (history_writes 1 600) (hfresh 2000 1 (by omega)) _ (hmem 1 (by omega) (by omega))
      (closure_wideMerge (by omega))
  refine .merge h1 ?_ _
    (fun x hx => mem_cons_of_mem _ (hmem 301 (by omega) (by omega) hx))
    (closure_wideMerge (by omega))
  intro x hx
  rcases mem_cons.mp hx with rfl | hx
  · have h2000 : (wideMerge 2000 1).uuid = 2000 := rfl
    have h2001 : (wideMerge 2001 301).uuid = 2001 := rfl
    rw [h2000, h2001]
    decide
  · exact hfresh 2001 301 (by omega) x hx

/-- The planner counts two ancestors, the block layer 602. -/
theorem wide_merge_planned_and_refused :
    History wideHistory ∧ wideOutputs ⊆ wideHistory ∧
      ∃ p ∈ (planMerges (wideOutputs.foldl insertBlock empty).listBlocks ⟨2, 3, none⟩).merges,
        (∀ outputUuid, Fresh wideOutputs outputUuid →
          ¬ ∃ cf, mergeAncestry wideOutputs outputUuid p = .ok cf) ∧
        (planMerges (wideOutputs.foldl insertBlock empty).listBlocks ⟨2, 3, none⟩).oversized = [] := by
  have hsub : wideOutputs.Sublist wideHistory := ((nil_sublist _).cons_cons _).cons_cons _
  have hS := history_wideHistory.closedLineage.sublist hsub
  have hlists := listingOf_listBlocks hS fun _ => Iff.rfl
  have hlist : (wideOutputs.foldl insertBlock empty).listBlocks =
      [(ofMeta (wideMerge 2000 1) false).toEntry,
        (ofMeta (wideMerge 2001 301) false).toEntry] := by
    rw [(inserted_foldl_insertBlock hS (List.Subset.refl _)).listBlocks_eq hS fun _ => Iff.rfl]
    decide +kernel
  refine ⟨history_wideHistory, hsub.subset, ?_⟩
  rw [hlist] at hlists ⊢
  have hplan : planMerges [(ofMeta (wideMerge 2000 1) false).toEntry,
      (ofMeta (wideMerge 2001 301) false).toEntry] ⟨2, 3, none⟩ =
      { merges := [GroupKey.merge ⟨.logs, 1, 0, 1⟩
          [(ofMeta (wideMerge 2000 1) false).toEntry,
            (ofMeta (wideMerge 2001 301) false).toEntry]]
        oversized := [] } := by decide +kernel
  rw [hplan]
  refine ⟨_, mem_singleton_self _, ?_, rfl⟩
  intro outputUuid hfresh
  rw [mergeAncestry_isOk_iff hlists hS
    (fun m hm => history_wideHistory.sorted (hsub.subset hm)) hfresh (by decide +kernel)]
  rintro ⟨-, hle⟩
  have hfetch : sidecarsOf wideOutputs [(ofMeta (wideMerge 2000 1) false).toEntry,
      (ofMeta (wideMerge 2001 301) false).toEntry] = [wideMerge 2000 1, wideMerge 2001 301] := by
    have hA := fetchMeta_entry hS (m := wideMerge 2000 1) (by simp [wideOutputs])
    have hB := fetchMeta_entry hS (m := wideMerge 2001 301) (by simp [wideOutputs])
    unfold sidecarsOf
    rw [filterMap_cons, hA, filterMap_cons, hB]
    rfl
  -- The 600 blocks at the bottom alone are too many.
  have hmany : (range' 1 600).length ≤
      (ancestrySet [wideMerge 2000 1, wideMerge 2001 301]).length := by
    apply List.Subperm.length_le
    apply subperm_of_subset nodup_range'
    intro u hu
    rw [mem_range'_1] at hu
    rw [mem_ancestrySet]
    rcases Nat.lt_or_ge u 301 with _ | hge
    · exact ⟨_, mem_cons_self, .inr (mem_range'_1.mpr ⟨hu.1, by omega⟩)⟩
    · exact ⟨_, mem_cons_of_mem _ mem_cons_self,
        .inr (mem_range'_1.mpr ⟨hge, by omega⟩)⟩
  rw [hfetch] at hle
  rw [length_range'] at hmany
  unfold maxCompactedAncestors at hle
  omega

end Scry.Compact
