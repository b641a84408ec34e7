import Scry.Compact.Plan
import Scry.Lib.Machine
import Mathlib.Algebra.BigOperators.Group.Finset.Basic
import Mathlib.Algebra.BigOperators.Ring.Finset
import Mathlib.Tactic.Ring

/-! # Compaction runs under one policy

The merges of a plan are carried out in any order. New plans replace what is left of old ones.
-/

open Scry.Lib Scry.Block Scry.Catalog

namespace Scry.Compact

open List

/-! ## The size of a uniform tree -/

/-- `fanout + fanout² + … + fanoutⁿ` -/
def uniformAncestors (fanout n : Nat) : Nat := ∑ k ∈ Finset.range n, fanout ^ (k + 1)

theorem uniformAncestors_succ (fanout n : Nat) :
    uniformAncestors fanout (n + 1) = fanout * (1 + uniformAncestors fanout n) := by
  unfold uniformAncestors
  rw [Finset.sum_range_succ', Nat.mul_add, Finset.mul_sum, Nat.add_comm]
  congr 1
  · simp
  · exact Finset.sum_congr rfl fun k _ => by rw [pow_succ' fanout (k + 1)]

theorem ancestryFits_le {fanout levels width represented : Nat} (h : ancestryFits fanout levels width represented)
    (hle : represented ≤ maxCompactedAncestors) {n : Nat} (hn : n ≤ levels) : represented + width * uniformAncestors
    fanout n ≤ maxCompactedAncestors := by
  induction levels generalizing width represented n with
  | zero =>
    obtain rfl : n = 0 := by omega
    simpa [uniformAncestors] using hle
  | succ levels ih =>
    rw [ancestryFits, Bool.and_eq_true, decide_eq_true_eq] at h
    cases n with
    | zero => simpa [uniformAncestors] using hle
    | succ n =>
      have := ih h.2 h.1 (by omega : n ≤ levels)
      rw [uniformAncestors_succ]
      calc represented + width * (fanout * (1 + uniformAncestors fanout n))
          = represented + width * fanout + width * fanout * uniformAncestors fanout n := by ring
        _ ≤ maxCompactedAncestors := this

theorem CompactConfig.uniformAncestors_le {cfg : CompactConfig} (h : cfg.validate) {n : Nat}
    (hn : n ≤ cfg.maxLevel) : uniformAncestors cfg.fanout n ≤ maxCompactedAncestors := by
  simp only [CompactConfig.validate, Bool.and_eq_true, decide_eq_true_eq] at h
  simpa using ancestryFits_le h.2 (Nat.zero_le _) hn

/-! ## Families -/

def family (m : BlockMeta) : List Uuid := m.uuid :: m.compactedFrom

variable {live : List BlockMeta}

theorem disjoint_family (h : (live.flatMap family).Nodup) {x y : BlockMeta} (hx : x ∈ live) (hy : y ∈ live)
    (hne : x ≠ y) : List.Disjoint (family x) (family y) := by
  have : Std.Symm (Function.onFun List.Disjoint family) := ⟨fun _ _ hd => hd.symm⟩
  exact (nodup_flatMap.mp h).2.forall hx hy hne

theorem nodup_flatMap_family {blocks : List BlockMeta} (h : (live.flatMap family).Nodup)
    (hmem : ∀ m ∈ blocks, m ∈ live) (hnodup : blocks.Nodup) : (blocks.flatMap family).Nodup := by
  rw [nodup_flatMap]
  refine ⟨fun m hm => (nodup_flatMap.mp h).1 m (hmem m hm), ?_⟩
  refine hnodup.pairwise_of_forall_ne fun x hx y hy hne => ?_
  exact disjoint_family h (hmem x hx) (hmem y hy) hne

theorem ancestrySet_perm {blocks : List BlockMeta} (h : (blocks.flatMap family).Nodup) :
    (ancestrySet blocks).Perm (blocks.flatMap family) := by
  rw [perm_ext_iff_of_nodup (nodup_ancestrySet _) h]
  intro u
  rw [mem_ancestrySet]
  simp [family]

theorem closedLineage_of_families (h : (live.flatMap family).Nodup) : ClosedLineage live := by
  have hself : ∀ x ∈ live, x.uuid ∉ x.compactedFrom := fun x hx =>
    (nodup_cons.mp ((nodup_flatMap.mp h).1 x hx)).1
  refine ⟨?_, fun x hx y hy hclaim => ?_, hself⟩
  · have hsub : (live.map BlockMeta.uuid).Sublist (live.flatMap family) := by
      induction live with
      | nil => exact List.Sublist.refl _
      | cons m live ih =>
        rw [flatMap_cons, nodup_append] at h
        rw [map_cons, flatMap_cons]
        exact ((ih h.2.1 fun x hx => hself x (mem_cons_of_mem _ hx)).trans (sublist_append_right _ _)).cons_cons _
    exact h.sublist hsub
  · by_cases hxy : x = y
    · subst hxy
      exact absurd hclaim (hself x hx)
    · exact absurd mem_cons_self
        (disjoint_family h hx hy hxy (mem_cons_of_mem _ hclaim))

/-! ## Runs -/

structure Pass where
  live : List BlockMeta
  /-- Every UUID that was ever given out. -/
  used : List Uuid
  pending : List PlannedMerge

def Pass.start : Pass := ⟨[], [], []⟩

inductive PassAction where
  | arrive (m : BlockMeta)
  | plan
  | merge (i : Nat) (output : BlockMeta)

def listing (live : List BlockMeta) : List CatalogEntry :=
  ((live.map fun m => Row.ofMeta m false).insertionSort listOrder).map Row.toEntry

def PlannedMerge.uuids (p : PlannedMerge) : List Uuid := p.inputs.map fun e => e.blockMeta.uuid

def Pass.merge (s : Pass) (i : Nat) (p : PlannedMerge) (output : BlockMeta) : Pass where
  live := s.live.filter (fun m => m.uuid ∉ p.uuids) ++ [output]
  used := output.uuid :: s.used
  pending := s.pending.eraseIdx i

def passStep (cfg : CompactConfig) (s : Pass) : PassAction → Option Pass
  | .arrive m =>
    if m.level = 0 ∧ m.compactedFrom = [] ∧ m.uuid ∉ s.used then
      some { s with live := s.live ++ [m], used := m.uuid :: s.used }
    else none
  | .plan => some { s with pending := (planMerges (listing s.live) cfg).merges }
  | .merge i output =>
    match s.pending[i]? with
    | none => none
    | some p =>
      if output.uuid ∉ s.used ∧ output.level = p.outputLevel ∧
          mergeAncestry s.live output.uuid p = .ok output.compactedFrom then
        some (s.merge i p output)
      else none

/-! ## What a plan holds -/

structure Planned (cfg : CompactConfig) (live : List BlockMeta) (p : PlannedMerge) : Prop where
  listed : ListingOf live p.inputs
  length : p.inputs.length = cfg.fanout
  level_lt : p.inputLevel < cfg.maxLevel
  same : ∀ e ∈ p.inputs, e.blockMeta.signal = p.signal ∧ e.level = p.inputLevel

theorem listingOf_listing (h : (live.map BlockMeta.uuid).Nodup) : ListingOf live (listing live) := by
  have hperm : (listing live).Perm (live.map fun m => (Row.ofMeta m false).toEntry) := by
    have := (perm_insertionSort listOrder (live.map fun m => Row.ofMeta m false)).map Row.toEntry
    rwa [map_map] at this
  refine ⟨fun e he => ?_, ?_⟩
  · obtain ⟨m, hm, rfl⟩ := mem_map.mp (hperm.mem_iff.mp he)
    exact ⟨m, hm, rfl⟩
  · apply (hperm.map _).nodup_iff.mpr
    rw [map_map]
    exact h

theorem ListingOf.mono {S T : List BlockMeta} {es : List CatalogEntry} (h : ListingOf S es)
    (hmem : ∀ m ∈ S, (Row.ofMeta m false).toEntry ∈ es → m ∈ T) : ListingOf T es := by
  refine ⟨fun e he => ?_, h.uuid_nodup⟩
  obtain ⟨m, hm, rfl⟩ := h.entry e he
  exact ⟨m, hmem m hm he, rfl⟩

section Plans
variable {cfg : CompactConfig} {live : List BlockMeta} {blocks : List CatalogEntry} {e : CatalogEntry}

theorem mem_of_mem_smallest {n : Nat} {es : List CatalogEntry}
    (h : e ∈ smallest n es) : e ∈ es := by
  have := mem_of_mem_take h
  rwa [mem_insertionSort] at this

theorem considers_of_mem_group {g : GroupKey × List CatalogEntry} (hg : g ∈ groups blocks cfg) (he : e ∈ g.2) : e.level < cfg.maxLevel := by
  obtain ⟨key, -, rfl⟩ := mem_map.mp hg
  have hkept := (mem_filter.mp (mem_of_mem_filter he)).2
  rw [CompactConfig.considers, Bool.and_eq_true, decide_eq_true_eq] at hkept
  exact hkept.2

variable {p : PlannedMerge}

theorem planned_of_mem_merges (hblocks : ListingOf live blocks) (hfanout : 0 < cfg.fanout)
    (hp : p ∈ (planMerges blocks cfg).merges) : Planned cfg live p := by
  obtain ⟨g, ⟨hg, _⟩, -, rfl⟩ := (mem_merges p).mp hp
  obtain ⟨hlisted, hkey⟩ := hblocks.group hg
  have hlen : (smallest cfg.fanout g.2).length = cfg.fanout := by
    rw [smallest, length_take, length_insertionSort]
    omega
  refine ⟨hlisted.smallest _, hlen, ?_, fun e he => ?_⟩
  · -- The level of the group is that of any of its entries.
    obtain ⟨e, he⟩ := exists_mem_of_length_pos (by omega : 0 < g.2.length)
    have hlt := considers_of_mem_group hg he
    rwa [show e.level = g.1.level from congrArg GroupKey.level (hkey e he)] at hlt
  · have hke := hkey e (mem_of_mem_smallest he)
    exact ⟨congrArg GroupKey.signal hke, congrArg GroupKey.level hke⟩

theorem merges_pairwise_disjoint (hblocks : ListingOf live blocks) :
    (planMerges blocks cfg).merges.Pairwise fun p q => List.Disjoint p.uuids q.uuids := by
  unfold planMerges
  rw [foldl_planGroup, nil_append, pairwise_map]
  apply List.Pairwise.filter
  have hkeys : (groups blocks cfg).Pairwise fun a b => a.1 ≠ b.1 := by
    unfold groups
    rw [pairwise_map]
    exact ((perm_insertionSort GroupKey.le _).nodup_iff.mpr (nodup_dedup _)).imp
      fun hne => hne
  refine hkeys.imp_of_mem fun {a b} ha hb hne u hu hu' => hne ?_
  obtain ⟨e, he, rfl⟩ := mem_map.mp hu
  obtain ⟨e', he', huuid⟩ := mem_map.mp hu'
  obtain ⟨hmem, hkey⟩ := mem_group ha (mem_of_mem_smallest he)
  obtain ⟨hmem', hkey'⟩ := mem_group hb (mem_of_mem_smallest he')
  obtain rfl : e' = e := inj_on_of_nodup_map hblocks.uuid_nodup hmem' hmem huuid
  rw [← hkey, ← hkey']

/-! ## One merge -/

section

variable (hp : Planned cfg live p) (hlive : ClosedLineage live)
include hp hlive

theorem Planned.mem_sidecarsOf {m : BlockMeta}
    (hm : m ∈ sidecarsOf live p.inputs) : m ∈ live ∧ m.uuid ∈ p.uuids ∧ m.level = p.inputLevel := by
  obtain ⟨e, he, hfetch⟩ := mem_filterMap.mp hm
  obtain ⟨m', hm', rfl⟩ := hp.listed.entry e he
  rw [fetchMeta_entry hlive hm'] at hfetch
  cases hfetch
  exact ⟨hm', mem_map.mpr ⟨_, he, rfl⟩, (hp.same _ he).2⟩

theorem Planned.nodup_sidecarsOf :
    (sidecarsOf live p.inputs).Nodup := by
  apply List.Nodup.of_map BlockMeta.uuid
  rw [hp.listed.uuid_sidecarsOf hlive]
  exact hp.listed.uuid_nodup

theorem Planned.length_sidecarsOf :
    (sidecarsOf live p.inputs).length = cfg.fanout := by
  have := congrArg List.length (hp.listed.uuid_sidecarsOf hlive)
  rw [length_map, length_map] at this
  rw [this, hp.length]

end

theorem Planned.length_ancestrySet (hp : Planned cfg live p) (hfamilies : (live.flatMap family).Nodup)
    (hsize : ∀ m ∈ live, m.compactedFrom.length = uniformAncestors cfg.fanout m.level) :
    (ancestrySet (sidecarsOf live p.inputs)).length = uniformAncestors cfg.fanout (p.inputLevel + 1) := by
  have hlive := closedLineage_of_families hfamilies
  have hnodup := nodup_flatMap_family hfamilies (fun m hm => (hp.mem_sidecarsOf hlive hm).1)
    (hp.nodup_sidecarsOf hlive)
  have heach : ∀ m ∈ sidecarsOf live p.inputs,
      (family m).length = 1 + uniformAncestors cfg.fanout p.inputLevel := by
    intro m hm
    obtain ⟨hmem, -, hlevel⟩ := hp.mem_sidecarsOf hlive hm
    rw [family, length_cons, hsize m hmem, hlevel, Nat.add_comm]
  rw [(ancestrySet_perm hnodup).length_eq, length_flatMap, map_congr_left heach,
    map_const', sum_replicate, hp.length_sidecarsOf hlive, uniformAncestors_succ]
  rfl

end Plans

/-! ## What every run keeps -/

/-- Live blocks share no ancestors, and each carries a full uniform tree. -/
structure UniformTrees (cfg : CompactConfig) (s : Pass) : Prop where
  families : (s.live.flatMap family).Nodup
  used : ∀ u ∈ s.live.flatMap family, u ∈ s.used
  sorted : ∀ m ∈ s.live, unsortedOrDuplicate m.compactedFrom = false
  size : ∀ m ∈ s.live, m.compactedFrom.length = uniformAncestors cfg.fanout m.level
  planned : ∀ p ∈ s.pending, Planned cfg s.live p
  disjoint : s.pending.Pairwise fun p q => List.Disjoint p.uuids q.uuids

namespace UniformTrees

variable {cfg : CompactConfig} {s : Pass}

theorem start : UniformTrees cfg .start := by
  constructor <;> simp [Pass.start]

variable {m : BlockMeta} {u : Uuid}

theorem mem_used (h : UniformTrees cfg s) (hm : m ∈ s.live)
    (hu : u ∈ family m) : u ∈ s.used :=
  h.used u (mem_flatMap.mpr ⟨m, hm, hu⟩)

theorem fresh (h : UniformTrees cfg s) (hu : u ∉ s.used) : Fresh s.live u := by
  intro m hm
  refine ⟨?_, ?_⟩
  · rintro rfl
    exact hu (h.mem_used hm mem_cons_self)
  · intro hmem
    exact hu (h.mem_used hm (mem_cons_of_mem _ hmem))

variable {p : PlannedMerge}

section

variable (h : UniformTrees cfg s)
include h

theorem closure_ok (hcfg : cfg.validate) (hp : p ∈ s.pending) (hu : u ∉ s.used) :
    ∃ cf, compactedAncestorClosure u (sidecarsOf s.live p.inputs) = .ok cf := by
  have hplan := h.planned p hp
  have hlive := closedLineage_of_families h.families
  rw [compactedAncestorClosure_isOk_iff (hplan.listed.mergeable hlive h.sorted (h.fresh hu)),
    hplan.length_ancestrySet h.families h.size]
  refine ⟨?_, cfg.uniformAncestors_le hcfg hplan.level_lt⟩
  rw [← length_pos_iff, hplan.length_sidecarsOf hlive]
  simp only [CompactConfig.validate, Bool.and_eq_true, decide_eq_true_eq] at hcfg
  omega

theorem mapM_loadInput_ok (hp : p ∈ s.pending) :
    p.inputs.mapM (loadInput s.live p.signal) = .ok (sidecarsOf s.live p.inputs) :=
  mapM_loadInput (closedLineage_of_families h.families) (h.planned p hp).listed
    fun e he => ((h.planned p hp).same e he).1

theorem closure_of_mergeAncestry (hp : p ∈ s.pending) {cf : List Uuid}
    (hcf : mergeAncestry s.live u p = .ok cf) : compactedAncestorClosure u (sidecarsOf s.live p.inputs) = .ok cf := by
  unfold mergeAncestry at hcf
  rw [h.mapM_loadInput_ok hp] at hcf
  simp only [bind, Except.bind] at hcf
  split at hcf
  · cases hcf
    assumption
  · cases hcf

theorem arrive (hlevel : m.level = 0) (hcf : m.compactedFrom = [])
    (hfresh : m.uuid ∉ s.used) : UniformTrees cfg { s with live := s.live ++ [m], used := m.uuid :: s.used } where
  families := by
    rw [flatMap_append, nodup_append]
    refine ⟨h.families, by simp [family, hcf], ?_⟩
    rintro a ha b hb rfl
    simp only [flatMap_cons, flatMap_nil, append_nil, family, hcf, mem_singleton] at hb
    exact hfresh (hb ▸ h.used a ha)
  used u hu := by
    rw [flatMap_append, mem_append] at hu
    rcases hu with hu | hu
    · exact mem_cons_of_mem _ (h.used u hu)
    · simp only [flatMap_cons, flatMap_nil, append_nil, family, hcf, mem_singleton] at hu
      exact hu ▸ mem_cons_self
  sorted := by
    refine forall_mem_snoc h.sorted ?_
    rw [hcf]
    rfl
  size := by
    refine forall_mem_snoc h.size ?_
    rw [hcf, hlevel]
    rfl
  planned p hp :=
    { h.planned p hp with
      listed := (h.planned p hp).listed.mono fun x hx _ => mem_append_left _ hx }
  disjoint := h.disjoint

theorem plan (hcfg : cfg.validate) :
    UniformTrees cfg { s with pending := (planMerges (listing s.live) cfg).merges } := by
  have hlisted := listingOf_listing (closedLineage_of_families h.families).uuid_nodup
  have hfanout : 0 < cfg.fanout := by
    simp only [CompactConfig.validate, Bool.and_eq_true, decide_eq_true_eq] at hcfg
    omega
  exact { h with
    planned := fun p hp => planned_of_mem_merges hlisted hfanout hp
    disjoint := merges_pairwise_disjoint hlisted }

theorem disjoint_eraseIdx {i : Nat} {q : PlannedMerge}
    (hp : s.pending[i]? = some p) (hq : q ∈ s.pending.eraseIdx i) : List.Disjoint p.uuids q.uuids := by
  obtain ⟨hi, rfl⟩ := List.getElem?_eq_some_iff.mp hp
  obtain ⟨j, hj, _, rfl⟩ := mem_eraseIdx_iff_getElem.mp hq
  have hpair := pairwise_iff_getElem.mp h.disjoint
  rcases Nat.lt_or_ge i j with hlt | _
  · exact hpair i j hi hj hlt
  · exact (hpair j i hj hi (by omega)).symm

theorem merge {i : Nat} {output : BlockMeta} (hp : s.pending[i]? = some p)
    (hfresh : output.uuid ∉ s.used) (hlevel : output.level = p.outputLevel)
    (hcf : mergeAncestry s.live output.uuid p = .ok output.compactedFrom) :
    UniformTrees cfg (s.merge i p output) := by
  have hmem : p ∈ s.pending := mem_of_getElem? hp
  have hplan := h.planned p hmem
  have hlive := closedLineage_of_families h.families
  have hclosure := h.closure_of_mergeAncestry hmem hcf
  have hsort := compactedAncestorClosure_sorted hclosure
  have hkept : ∀ m ∈ s.live.filter (fun m => m.uuid ∉ p.uuids), m ∈ s.live :=
    fun m hm => mem_of_mem_filter hm
  have hancestor : ∀ u ∈ output.compactedFrom, ∃ x ∈ s.live, x.uuid ∈ p.uuids ∧ u ∈ family x := by
    intro u hu
    obtain ⟨x, hx, hor⟩ := (mem_compactedFrom hclosure u).mp hu
    obtain ⟨hxl, hxp, -⟩ := hplan.mem_sidecarsOf hlive hx
    refine ⟨x, hxl, hxp, ?_⟩
    rcases hor with rfl | hor
    · exact mem_cons_self
    · exact mem_cons_of_mem _ hor
  have hself : output.uuid ∉ output.compactedFrom := by
    intro hu
    obtain ⟨x, hx, -, hfam⟩ := hancestor _ hu
    exact hfresh (h.mem_used hx hfam)
  refine ⟨?_, ?_, ?_, ?_, ?_, ?_⟩
  · rw [Pass.merge, flatMap_append, nodup_append]
    refine ⟨nodup_flatMap_family h.families hkept (hlive.uuid_nodup.of_map.filter _), ?_, ?_⟩
    · have hnodup : output.compactedFrom.Nodup :=
        ((unsortedOrDuplicate_iff _).mp hsort).imp fun hlt => Nat.ne_of_lt hlt
      simpa [family] using And.intro hself hnodup
    · -- What the output claims belonged to blocks that are gone.
      rintro u hu v hv rfl
      obtain ⟨m, hm, hum⟩ := mem_flatMap.mp hu
      obtain ⟨hml, hmp⟩ := mem_filter.mp hm
      simp only [flatMap_cons, flatMap_nil, append_nil] at hv
      rcases mem_cons.mp hv with rfl | hv
      · exact hfresh (h.mem_used hml hum)
      · obtain ⟨x, hx, hxp, hux⟩ := hancestor u hv
        have hne : m ≠ x := by
          rintro rfl
          simp [hxp] at hmp
        exact disjoint_family h.families hml hx hne hum hux
  · intro u hu
    rw [Pass.merge, flatMap_append, mem_append] at hu
    rcases hu with hu | hu
    · obtain ⟨m, hm, hum⟩ := mem_flatMap.mp hu
      exact mem_cons_of_mem _ (h.mem_used (hkept m hm) hum)
    · simp only [flatMap_cons, flatMap_nil, append_nil] at hu
      rcases mem_cons.mp hu with rfl | hu
      · exact mem_cons_self
      · obtain ⟨x, hx, -, hux⟩ := hancestor u hu
        exact mem_cons_of_mem _ (h.mem_used hx hux)
  · exact forall_mem_snoc (fun m hm => h.sorted m (hkept m hm)) hsort
  · refine forall_mem_snoc (fun m hm => h.size m (hkept m hm)) ?_
    rw [hlevel, PlannedMerge.outputLevel, ← hplan.length_ancestrySet h.families h.size]
    obtain ⟨direct, closure, hacc, heq, -⟩ := compactedAncestorClosure_ok hclosure
    rw [heq, length_insertionSort, hacc.length_eq]
  · intro q hq
    have hqp := h.planned q (mem_of_mem_eraseIdx hq)
    refine { hqp with listed := hqp.listed.mono fun m hm hmq => ?_ }
    -- Its inputs are none of the merged ones.
    apply mem_append_left
    rw [mem_filter, decide_eq_true_eq]
    refine ⟨hm, fun hmp => ?_⟩
    exact h.disjoint_eraseIdx hp hq hmp (mem_map.mpr ⟨_, hmq, rfl⟩)
  · exact h.disjoint.sublist (eraseIdx_sublist _ _)

theorem used_subset_merge (hused : s.used ⊆ s.live.flatMap family) {i : Nat} {output : BlockMeta} (hp : p ∈ s.pending)
    (hcf : mergeAncestry s.live output.uuid p = .ok output.compactedFrom) :
    (s.merge i p output).used ⊆ (s.merge i p output).live.flatMap family := by
  have hlive := closedLineage_of_families h.families
  have hplan := h.planned p hp
  intro u hu
  rw [Pass.merge, flatMap_append, mem_append, flatMap_singleton]
  rcases mem_cons.mp hu with rfl | hu
  · exact .inr mem_cons_self
  obtain ⟨m, hm, hum⟩ := mem_flatMap.mp (hused hu)
  by_cases hmp : m.uuid ∈ p.uuids
  · -- The family of an input goes to the output.
    rw [PlannedMerge.uuids, ← hplan.listed.uuid_sidecarsOf hlive] at hmp
    obtain ⟨x, hx, hxm⟩ := mem_map.mp hmp
    obtain rfl := hlive.eq_of_uuid (hplan.mem_sidecarsOf hlive hx).1 hm hxm
    have hclosure := h.closure_of_mergeAncestry hp hcf
    exact .inr (mem_cons_of_mem _ ((mem_compactedFrom hclosure u).mpr ⟨x, hx, mem_cons.mp hum⟩))
  · exact .inl (mem_flatMap.mpr ⟨m, mem_filter.mpr ⟨hm, decide_eq_true hmp⟩, hum⟩)

end

theorem step (hcfg : cfg.validate) {s' : Pass} {a : PassAction} (h : UniformTrees cfg s)
    (hstep : passStep cfg s a = some s') : UniformTrees cfg s' := by
  cases a with
  | arrive m =>
    simp only [passStep] at hstep
    split at hstep
    next hm =>
      cases hstep
      exact h.arrive hm.1 hm.2.1 hm.2.2
    next => cases hstep
  | plan =>
    cases hstep
    exact h.plan hcfg
  | merge i output =>
    simp only [passStep] at hstep
    split at hstep
    next => cases hstep
    next p hp =>
      split at hstep
      next hm =>
        cases hstep
        exact h.merge hp hm.1 hm.2.1 hm.2.2
      next => cases hstep

theorem used_subset_step {s' : Pass} {a : PassAction} (h : UniformTrees cfg s)
    (hused : s.used ⊆ s.live.flatMap family) (hstep : passStep cfg s a = some s') : s'.used ⊆ s'.live.flatMap family := by
  cases a with
  | arrive m =>
    obtain ⟨-, hs⟩ := Option.ite_none_right_eq_some.mp hstep
    cases hs
    rw [flatMap_append, flatMap_singleton, cons_subset]
    exact ⟨mem_append_right _ mem_cons_self, subset_append_of_subset_left _ hused⟩
  | plan =>
    cases hstep
    exact hused
  | merge i output =>
    simp only [passStep] at hstep
    split at hstep
    · cases hstep
    next p hp =>
      obtain ⟨hm, hs⟩ := Option.ite_none_right_eq_some.mp hstep
      cases hs
      exact h.used_subset_merge hused (mem_of_getElem? hp) hm.2.2

end UniformTrees

/-- **A validated policy can always encode its lineage.** Planned merges build their ancestry, and a live
block of level `n` has `fanout + … + fanoutⁿ` ancestors. -/
theorem validated_policy_fits (cfg : CompactConfig) (hcfg : cfg.validate) (actions : List PassAction) (s : Pass)
    (h : run (passStep cfg) .start actions = some s) : (∀ p ∈ s.pending, ∀ outputUuid ∉ s.used, ∃ inputs cf,
    p.inputs.mapM (loadInput s.live p.signal) = .ok inputs ∧ compactedAncestorClosure outputUuid inputs = .ok cf) ∧
    ∀ m ∈ s.live, m.compactedFrom.Nodup ∧ m.compactedFrom.length = ∑ k ∈ Finset.range m.level, cfg.fanout ^
    (k + 1) := by
  have hinv : UniformTrees cfg s :=
    run_invariant (fun s a s' hs hstep => hs.step hcfg hstep) UniformTrees.start h
  refine ⟨fun p hp u hu => ?_, fun m hm => ⟨?_, hinv.size m hm⟩⟩
  · obtain ⟨cf, hcf⟩ := hinv.closure_ok hcfg hp hu
    exact ⟨_, cf, hinv.mapM_loadInput_ok hp, hcf⟩
  · exact ((unsortedOrDuplicate_iff _).mp (hinv.sorted m hm)).imp fun hlt => Nat.ne_of_lt hlt

theorem validated_policy_fits_two_levels : ∃ s, run (passStep ⟨2, 2, none⟩) .start
    [.arrive (sampleBlock 1 0 []), .arrive (sampleBlock 2 0 []), .plan, .arrive (sampleBlock 3 0 []), .arrive
    (sampleBlock 4 0 []), .merge 0 (sampleBlock 5 1 [1, 2]), .plan, .merge 0 (sampleBlock 6 1 [3, 4]), .plan, .merge 0
    (sampleBlock 7 2 [1, 2, 3, 4, 5, 6])] = some s ∧ s.live = [sampleBlock 7 2 [1, 2, 3, 4, 5, 6]] ∧ ∀ m ∈ s.live,
    m.compactedFrom.length = ∑ k ∈ Finset.range m.level, 2 ^ (k + 1) := by
  obtain ⟨s, hs⟩ : ∃ s, run (passStep ⟨2, 2, none⟩) .start
        [.arrive (sampleBlock 1 0 []), .arrive (sampleBlock 2 0 []), .plan,
          .arrive (sampleBlock 3 0 []), .arrive (sampleBlock 4 0 []),
          .merge 0 (sampleBlock 5 1 [1, 2]), .plan, .merge 0 (sampleBlock 6 1 [3, 4]), .plan,
          .merge 0 (sampleBlock 7 2 [1, 2, 3, 4, 5, 6])] = some s := by
    rw [← Option.isSome_iff_exists]
    decide +kernel
  have hlive : s.live = [sampleBlock 7 2 [1, 2, 3, 4, 5, 6]] := by
    have := congrArg (Option.map Pass.live) hs
    rw [Option.map_some] at this
    exact Option.some.inj (this.symm.trans (by decide +kernel))
  exact ⟨s, hs, hlive, fun m hm =>
    ((validated_policy_fits ⟨2, 2, none⟩ (by decide) _ s hs).2 m hm).2⟩

/-- **Compaction loses no block and doubles none.** Each block that was ever live is in the family of one that is. -/
theorem families_account (cfg : CompactConfig) (hcfg : cfg.validate) (actions : List PassAction) (s : Pass)
    (h : run (passStep cfg) .start actions = some s) :
    (s.live.flatMap family).Nodup ∧ ∀ u, u ∈ s.used ↔ u ∈ s.live.flatMap family := by
  obtain ⟨ht, hused⟩ := run_invariant (P := fun s => UniformTrees cfg s ∧ s.used ⊆ s.live.flatMap family)
    (fun _ _ _ hs hstep => ⟨hs.1.step hcfg hstep, hs.1.used_subset_step hs.2 hstep⟩) ⟨.start, nil_subset _⟩ h
  exact ⟨ht.families, fun u => ⟨fun hu => hused hu, ht.used u⟩⟩

theorem families_account_merged :
    let actions := [.arrive (sampleBlock 1 0 []), .arrive (sampleBlock 2 0 []), .plan, .merge 0 (sampleBlock 3 1 [1, 2])]
    ∃ s, run (passStep ⟨2, 1, none⟩) .start actions = some s ∧ (s.live.flatMap family).Nodup := by
  intro actions
  have hsome : (run (passStep ⟨2, 1, none⟩) .start actions).isSome := by decide +kernel
  obtain ⟨s, hs⟩ := Option.isSome_iff_exists.mp hsome
  exact ⟨s, hs, (families_account _ (by decide) _ s hs).1⟩

end Scry.Compact
