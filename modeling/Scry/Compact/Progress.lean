import Mathlib.Data.List.Perm.Subperm
import Scry.Compact.Plan
import Scry.Lib.Sorting

/-! # Passes of the planner

What one plan takes from the live blocks, and that passes without new blocks come to an end.
-/

open Scry.Lib Scry.Block Scry.Catalog

namespace Scry.Compact

open List GroupKey

variable (blocks : List CatalogEntry) (cfg : CompactConfig) (key : GroupKey)

def CompactConfig.admits : Bool :=
  cfg.signalFilter.all (fun filter => key.signal = filter) && key.level < cfg.maxLevel

def members : List CatalogEntry :=
  blocks.filter fun e => of e = key

def groupKeys : List GroupKey :=
  ((blocks.filter cfg.considers).map of).dedup.insertionSort le

def CompactConfig.plans (entries : List CatalogEntry) : Prop :=
  cfg.fanout ≤ entries.length ∧ projectedAncestryLen (smallest cfg.fanout entries) ≤ maxCompactedAncestors

instance (cfg : CompactConfig) (entries : List CatalogEntry) : Decidable (cfg.plans entries) :=
  inferInstanceAs (Decidable (_ ∧ _))

section Keys

variable {blocks : List CatalogEntry} {cfg : CompactConfig} {key : GroupKey}

theorem nodup_groupKeys : (groupKeys blocks cfg).Nodup :=
  (perm_insertionSort le _).nodup_iff.mpr (nodup_dedup _)

theorem mem_groupKeys : key ∈ groupKeys blocks cfg ↔ members blocks key ≠ [] ∧ cfg.admits key = true := by
  unfold groupKeys members
  rw [mem_insertionSort, mem_dedup, mem_map, ne_eq, filter_eq_nil_iff]
  simp only [mem_filter, decide_eq_true_eq, not_forall, not_not]
  constructor
  · rintro ⟨e, ⟨he, hconsiders⟩, rfl⟩
    exact ⟨⟨e, he, rfl⟩, hconsiders⟩
  · rintro ⟨⟨e, he, rfl⟩, hadmits⟩
    exact ⟨e, ⟨he, hadmits⟩, rfl⟩

theorem groups_eq : groups blocks cfg = (groupKeys blocks cfg).map fun key => (key, members blocks key) := by
  unfold groups
  refine map_congr_left fun key hkey => ?_
  have hadmits := (mem_groupKeys.mp hkey).2
  rw [filter_filter, members]
  congr 1
  refine filter_congr fun e _ => ?_
  by_cases he : of e = key
  · have hconsiders : cfg.considers e = true := by rw [← hadmits, ← he]; rfl
    simp [he, hconsiders]
  · simp [he]

theorem merges_eq : (planMerges blocks cfg).merges = ((groupKeys blocks cfg).filter fun key => cfg.plans
    (members blocks key)).map fun key => key.merge (smallest cfg.fanout (members blocks key)) := by
  unfold planMerges
  rw [foldl_planGroup, groups_eq, nil_append, filter_map, map_map]
  rfl

end Keys

/-! ## The smallest blocks -/

section Smallest

variable {n : Nat} {entries : List CatalogEntry}

theorem length_smallest (h : n ≤ entries.length) : (smallest n entries).length = n := by
  rw [smallest, length_take, length_insertionSort, Nat.min_eq_left h]

theorem exists_left (n : Nat) (entries : List CatalogEntry) : ∃ left, entries.Perm (smallest n entries ++ left) ∧ ∀ i
    ∈ smallest n entries, ∀ e ∈ left, i.blockMeta.byteSize ≤ e.blockMeta.byteSize := by
  have hsort := pairwise_sortBy (fun e : CatalogEntry => e.blockMeta.byteSize) entries
  rw [← take_append_drop n (sortBy _ entries)] at hsort
  refine ⟨(sortBy (fun e : CatalogEntry => e.blockMeta.byteSize) entries).drop n, ?_, ?_⟩
  · exact (sortBy_perm _ entries).symm.trans (.of_eq (take_append_drop n _).symm)
  · exact (pairwise_append.mp hsort).2.2

theorem smallest_subperm (n : Nat) (entries : List CatalogEntry) : (smallest n entries).Subperm entries := by
  obtain ⟨left, hperm, -⟩ := exists_left n entries
  exact (sublist_append_left _ left).subperm.trans hperm.symm.subperm

end Smallest

/-! ## One plan -/

structure PlanSound (blocks : List CatalogEntry) (cfg : CompactConfig) : Prop where
  disjoint : (planMerges blocks cfg).merges.Pairwise fun p q => p.inputs.Disjoint q.inputs
  inputs : ∀ p ∈ (planMerges blocks cfg).merges, ∃ key left,
    p.signal = key.signal ∧ p.date = key.date ∧ p.inputLevel = key.level ∧ key.level < cfg.maxLevel ∧
      p.inputs.length = cfg.fanout ∧ (members blocks key).Perm (p.inputs ++ left) ∧
        ∀ i ∈ p.inputs, ∀ e ∈ left, i.blockMeta.byteSize ≤ e.blockMeta.byteSize
  covered : ∀ key, cfg.admits key = true → cfg.fanout ≤ (members blocks key).length →
    (∃ p ∈ (planMerges blocks cfg).merges, p.inputs ⊆ members blocks key ∧ p.inputs ≠ []) ∨
      ∃ o ∈ (planMerges blocks cfg).oversized,
        o.signal = key.signal ∧ o.date = key.date ∧ o.inputLevel = key.level ∧
          o.projectedAncestors = projectedAncestryLen (smallest cfg.fanout (members blocks key)) ∧
          maxCompactedAncestors < o.projectedAncestors

section Sound

variable {blocks : List CatalogEntry} {cfg : CompactConfig}

theorem mem_members_of_mem_smallest {key : GroupKey} {e : CatalogEntry}
    (he : e ∈ smallest cfg.fanout (members blocks key)) : of e = key := by
  have hmem := (smallest_subperm _ _).subset he
  simpa using (mem_filter.mp hmem).2

theorem planSound (hfanout : 2 ≤ cfg.fanout) : PlanSound blocks cfg where
  disjoint := by
    rw [merges_eq, pairwise_map]
    refine (nodup_groupKeys.filter _).imp fun {key key'} hne e he he' => hne ?_
    rw [← mem_members_of_mem_smallest he, mem_members_of_mem_smallest he']
  inputs p hp := by
    rw [merges_eq] at hp
    obtain ⟨key, hkey, rfl⟩ := mem_map.mp hp
    obtain ⟨hkey, hplans⟩ := mem_filter.mp hkey
    have hadmits := (mem_groupKeys.mp hkey).2
    rw [CompactConfig.admits, Bool.and_eq_true, decide_eq_true_eq] at hadmits
    obtain ⟨left, hperm, hle⟩ := exists_left cfg.fanout (members blocks key)
    exact ⟨key, left, rfl, rfl, rfl, hadmits.2, length_smallest (of_decide_eq_true hplans).1, hperm, hle⟩
  covered key hadmits hlen := by
    have hne : members blocks key ≠ [] := by
      intro hnil
      rw [hnil, length_nil] at hlen
      omega
    have hkey := mem_groupKeys.mpr ⟨hne, hadmits⟩
    by_cases hproj : projectedAncestryLen (smallest cfg.fanout (members blocks key)) ≤ maxCompactedAncestors
    · left
      refine ⟨key.merge (smallest cfg.fanout (members blocks key)), ?_, ?_, ?_⟩
      · rw [merges_eq]
        exact mem_map_of_mem (mem_filter.mpr ⟨hkey, decide_eq_true ⟨hlen, hproj⟩⟩)
      · exact (smallest_subperm _ _).subset
      · intro hnil
        have hlength := length_smallest hlen
        rw [show smallest cfg.fanout (members blocks key) = [] from hnil, length_nil] at hlength
        omega
    · right
      refine ⟨_, (mem_oversized _).mpr ⟨(key, members blocks key), ⟨?_, hlen⟩, not_le.mp hproj, rfl⟩, rfl, rfl,
        rfl, rfl, not_le.mp hproj⟩
      rw [groups_eq]
      exact mem_map_of_mem hkey

end Sound

/-! ## Passes -/

structure Replaces (p : PlannedMerge) (output : CatalogEntry) : Prop where
  level : output.level = p.outputLevel
  signal : output.blockMeta.signal = p.signal
  date : output.date = p.date
  schema : ∀ e ∈ p.inputs, output.blockMeta.schemaVersion = e.blockMeta.schemaVersion

/-- Without new blocks: each planned merge's inputs are replaced by one block. -/
def CompactPass (cfg : CompactConfig) (blocks blocks' : List CatalogEntry) : Prop :=
  ∃ outputs left, blocks.Perm ((planMerges blocks cfg).merges.flatMap PlannedMerge.inputs ++ left) ∧
    List.Forall₂ Replaces (planMerges blocks cfg).merges outputs ∧ blocks'.Perm (outputs ++ left)

theorem flatMap_subperm {α κ : Type} [DecidableEq κ] {f : α → κ} {pick : κ → List α} {ks : List κ} {l : List α}
    (hks : ks.Nodup) (hpick : ∀ k ∈ ks, (pick k).Subperm (l.filter fun a => f a = k)) :
    (ks.flatMap pick).Subperm l := by
  induction ks generalizing l with
  | nil => exact nil_subperm
  | cons k ks ih =>
    obtain ⟨hk, hks⟩ := nodup_cons.mp hks
    have hrest : (ks.flatMap pick).Subperm (l.filter fun a => !(decide (f a = k))) := by
      refine ih hks fun k' hk' => ?_
      have hne : k' ≠ k := fun heq => hk (heq ▸ hk')
      have hfilter : (l.filter fun a => !(decide (f a = k))).filter (fun a => f a = k') =
          l.filter fun a => f a = k' := by
        rw [filter_filter]
        refine filter_congr fun a _ => ?_
        by_cases ha : f a = k'
        · simp [ha, hne]
        · simp [ha]
      rw [hfilter]
      exact hpick k' (mem_cons_of_mem _ hk')
    exact ((hpick k mem_cons_self).append hrest).trans (filter_append_perm _ l).subperm

section Passes

variable {cfg : CompactConfig} {blocks blocks' : List CatalogEntry}

theorem inputs_subperm (blocks : List CatalogEntry) (cfg : CompactConfig) :
    ((planMerges blocks cfg).merges.flatMap PlannedMerge.inputs).Subperm blocks := by
  rw [merges_eq, flatMap_map]
  exact flatMap_subperm (nodup_groupKeys.filter _) fun key _ => smallest_subperm _ _

theorem exists_compactPass (hfanout : 2 ≤ cfg.fanout) (blocks : List CatalogEntry) :
    ∃ blocks', CompactPass cfg blocks blocks' := by
  obtain ⟨taken, htaken, hsublist⟩ := inputs_subperm blocks cfg
  obtain ⟨left, hleft⟩ := hsublist.exists_perm_append
  have houts : ∃ outputs, List.Forall₂ Replaces (planMerges blocks cfg).merges outputs := by
    have heach : ∀ p ∈ (planMerges blocks cfg).merges, ∃ output, Replaces p output := by
      intro p hp
      obtain ⟨key, left, hsignal, hdate, _, -, _, hperm, -⟩ := (planSound hfanout).inputs p hp
      obtain ⟨e, he⟩ := exists_mem_of_length_pos (by omega : 0 < p.inputs.length)
      have hkey : ∀ i ∈ p.inputs, of i = key := by
        intro i hi
        have hmem := hperm.mem_iff.mpr (mem_append_left _ hi)
        simpa using (mem_filter.mp hmem).2
      refine ⟨{ e with level := p.outputLevel }, rfl, ?_, ?_, fun i hi => ?_⟩
      · exact (congrArg signal (hkey e he)).trans hsignal.symm
      · exact (congrArg date (hkey e he)).trans hdate.symm
      · exact congrArg schemaVersion ((hkey e he).trans (hkey i hi).symm)
    generalize (planMerges blocks cfg).merges = merges at heach
    induction merges with
    | nil => exact ⟨[], .nil⟩
    | cons p merges ih =>
      obtain ⟨output, hout⟩ := heach p mem_cons_self
      obtain ⟨outputs, houts⟩ := ih fun q hq => heach q (mem_cons_of_mem _ hq)
      exact ⟨output :: outputs, .cons hout houts⟩
  obtain ⟨outputs, houts⟩ := houts
  exact ⟨outputs ++ left, outputs, left, hleft.trans (htaken.append_right left), houts, .refl _⟩

theorem CompactPass.length_le (hfanout : 2 ≤ cfg.fanout) (h : CompactPass cfg blocks blocks') :
    blocks'.length + (planMerges blocks cfg).merges.length ≤ blocks.length := by
  obtain ⟨outputs, left, hblocks, houts, hblocks'⟩ := h
  have hins : (planMerges blocks cfg).merges.length * 2 ≤
      ((planMerges blocks cfg).merges.flatMap PlannedMerge.inputs).length := by
    have heach : ∀ p ∈ (planMerges blocks cfg).merges, 2 ≤ p.inputs.length := by
      intro p hp
      obtain ⟨key, left, -, -, -, -, _, -, -⟩ := (planSound hfanout).inputs p hp
      omega
    generalize (planMerges blocks cfg).merges = merges at heach
    induction merges with
    | nil => exact Nat.le_refl _
    | cons p merges ih =>
      have hp := heach p mem_cons_self
      have hrest := ih fun q hq => heach q (mem_cons_of_mem _ hq)
      rw [flatMap_cons, length_append, length_cons]
      omega
  rw [hblocks.length_eq, hblocks'.length_eq, length_append, length_append, ← houts.length_eq]
  omega

theorem exists_idle (hfanout : 2 ≤ cfg.fanout) {run : Nat → List CatalogEntry}
    (hrun : ∀ n, CompactPass cfg (run n) (run (n + 1))) :
    ∃ n ≤ (run 0).length, (planMerges (run n) cfg).merges = [] := by
  by_contra hbusy
  have hlen : ∀ n ≤ (run 0).length + 1, (run n).length + n ≤ (run 0).length := by
    intro n
    induction n with
    | zero => exact fun _ => Nat.le_refl _
    | succ n ih =>
      intro _
      have hle := (hrun n).length_le hfanout
      have hsome : 0 < (planMerges (run n) cfg).merges.length := by
        refine length_pos_iff.mpr fun hnil => hbusy ⟨n, by omega, hnil⟩
      have hprev := ih (by omega)
      omega
  have := hlen _ (Nat.le_refl _)
  omega

end Passes

/-- A plan takes the smallest blocks of disjoint groups and reports each large group it leaves out; and passes
without new blocks come to one that plans nothing. -/
theorem plans_partition_and_terminate (cfg : CompactConfig) (hfanout : 2 ≤ cfg.fanout) (blocks : List CatalogEntry) :
    PlanSound blocks cfg ∧ (∃ blocks', CompactPass cfg blocks blocks') ∧ ∀ run : Nat → List CatalogEntry, run 0 =
    blocks → (∀ n, CompactPass cfg (run n) (run (n + 1))) → ∃ n, (planMerges (run n) cfg).merges = [] := by
  refine ⟨planSound hfanout, exists_compactPass hfanout blocks, fun run _ hrun => ?_⟩
  obtain ⟨n, -, hidle⟩ := exists_idle hfanout hrun
  exact ⟨n, hidle⟩

theorem plans_partition_and_terminate_levelOne : 2 ≤ (⟨2, 3, none⟩ : CompactConfig).fanout ∧ PlanSound
    (levelOne.foldl insertBlock empty).listBlocks ⟨2, 3, none⟩ :=
  ⟨by decide, (plans_partition_and_terminate ⟨2, 3, none⟩ (by decide) _).1⟩

theorem filtered_group_left_out :
    let blocks := (levelOne.foldl insertBlock empty).listBlocks
    let cfg : CompactConfig := ⟨2, 3, some .metrics⟩
    let key : GroupKey := ⟨.logs, 1, 0, 1⟩
    key.level < cfg.maxLevel ∧ cfg.fanout ≤ (members blocks key).length ∧
      (planMerges blocks cfg).merges = [] ∧ (planMerges blocks cfg).oversized = [] := by
  decide +kernel

end Scry.Compact
