import Scry.Cluster.Maintain
import Scry.Block.Lineage
import Mathlib.Logic.Relation

/-! # Everything that was committed

If no block is a direct input twice, the log is a forest, and each block has one root above it.
-/

open Scry.Lib Scry.Block Scry.Catalog Scry.Compact

namespace Scry.Cluster

open List

def Consumed (log : List Commit) (u : Uuid) : Prop := ∃ x ∈ log, u ∈ x.inputs

def Exclusive (log : List Commit) : Prop :=
  ∀ x ∈ log, ∀ y ∈ log, ∀ u, u ∈ x.inputs → u ∈ y.inputs → x = y

def SamePrefix (a b : BlockMeta) : Prop :=
  a.signal = b.signal ∧ formatDate a.tsMinUnixNano = formatDate b.tsMinUnixNano

inductive Wellformed : List Commit → Prop
  | nil : Wellformed []
  | write {log : List Commit} {m : BlockMeta} (h : Wellformed log)
      (hfresh : ∀ x ∈ log, x.block.uuid ≠ m.uuid) (hcf : m.compactedFrom = []) :
      Wellformed (⟨m, []⟩ :: log)
  | merge {log : List Commit} {m : BlockMeta} (h : Wellformed log)
      (hfresh : ∀ x ∈ log, x.block.uuid ≠ m.uuid) (inputs : List BlockMeta)
      (hin : inputs ⊆ blocksOf log)
      (hcf : compactedAncestorClosure m.uuid inputs = .ok m.compactedFrom)
      (hshared : ∀ i ∈ inputs, SamePrefix i m) :
      Wellformed (⟨m, inputs.map BlockMeta.uuid⟩ :: log)

namespace Wellformed

variable {log : List Commit}

theorem history (h : Wellformed log) : History (blocksOf log) := by
  have hfresh : ∀ {log : List Commit} {m : BlockMeta}, (∀ x ∈ log, x.block.uuid ≠ m.uuid) →
      ∀ b ∈ blocksOf log, b.uuid ≠ m.uuid := by
    intro log m hfresh b hb
    obtain ⟨x, hx, rfl⟩ := mem_map.mp hb
    exact hfresh x hx
  induction h with
  | nil => exact .nil
  | write h hf hcf ih => exact .write ih (hfresh hf) hcf
  | merge h hf inputs hin hcf _ ih => exact .merge ih (hfresh hf) inputs hin hcf

theorem closedLineage (h : Wellformed log) : ClosedLineage (blocksOf log) := h.history.closedLineage

theorem eq_of_uuid (h : Wellformed log) {x y : Commit} (hx : x ∈ log) (hy : y ∈ log)
    (huuid : x.block.uuid = y.block.uuid) : x = y := by
  have hnodup := h.closedLineage.uuid_nodup
  unfold blocksOf at hnodup
  rw [map_map] at hnodup
  exact inj_on_of_nodup_map hnodup hx hy huuid

variable {x : Commit}

theorem inputs_subset (h : Wellformed log) (hx : x ∈ log) : x.inputs ⊆ x.block.compactedFrom := by
  induction h generalizing x with
  | nil => cases hx
  | write h hfresh hcf ih =>
    rcases mem_cons.mp hx with rfl | hx
    · exact nil_subset _
    · exact ih hx
  | merge h hfresh inputs hin hcf hshared ih =>
    rcases mem_cons.mp hx with rfl | hx
    · intro u hu
      obtain ⟨i, hi, rfl⟩ := mem_map.mp hu
      exact (mem_compactedFrom hcf _).mpr ⟨i, hi, .inl rfl⟩
    · exact ih hx

theorem inputs_mem (h : Wellformed log) (hx : x ∈ log) {u : Uuid} (hu : u ∈ x.inputs) :
    ∃ y ∈ log, y.block.uuid = u := by
  obtain ⟨m, hm, rfl⟩ := h.history.ancestor_mem (mem_map_of_mem hx) (h.inputs_subset hx hu)
  obtain ⟨y, hy, rfl⟩ := mem_map.mp hm
  exact ⟨y, hy, rfl⟩

def Reaches (log : List Commit) (x : Commit) (u : Uuid) : Prop :=
  ∃ y ∈ log, y.block.uuid ∈ x.inputs ∧ (u = y.block.uuid ∨ u ∈ y.block.compactedFrom)

theorem reaches_cons (h : Wellformed log) {x new : Commit} (hx : x ∈ log)
    (hfresh : ∀ x ∈ log, x.block.uuid ≠ new.block.uuid) (u : Uuid) : Reaches (new :: log) x u ↔ Reaches log x u := by
  constructor
  · rintro ⟨y, hy, hyx, hor⟩
    rcases mem_cons.mp hy with rfl | hylog
    · obtain ⟨z, hz, hzu⟩ := h.inputs_mem hx hyx
      exact absurd hzu (hfresh z hz)
    · exact ⟨y, hylog, hyx, hor⟩
  · rintro ⟨y, hy, hyx⟩
    exact ⟨y, mem_cons_of_mem _ hy, hyx⟩

theorem mem_compactedFrom_iff (h : Wellformed log) (hx : x ∈ log) (u : Uuid) :
    u ∈ x.block.compactedFrom ↔ Reaches log x u := by
  induction h generalizing x with
  | nil => cases hx
  | write h hfresh hcf ih =>
    rcases mem_cons.mp hx with rfl | hxlog
    · simp [hcf, Reaches]
    · rw [ih hxlog, reaches_cons h hxlog hfresh]
  | @merge log m h hfresh inputs hin hcf hshared ih =>
    rcases mem_cons.mp hx with rfl | hxlog
    · rw [mem_compactedFrom hcf]
      have hclosed := h.closedLineage
      constructor
      · rintro ⟨i, hi, hor⟩
        obtain ⟨y, hy, rfl⟩ := mem_map.mp (hin hi)
        exact ⟨y, mem_cons_of_mem _ hy, mem_map_of_mem hi, hor⟩
      · rintro ⟨y, hy, hyx, hor⟩
        obtain ⟨i, hi, hiy⟩ := mem_map.mp hyx
        obtain ⟨z, hz, rfl⟩ := mem_map.mp (hin hi)
        rcases mem_cons.mp hy with rfl | hylog
        · exact absurd hiy (hfresh z hz)
        · obtain rfl := h.eq_of_uuid hz hylog hiy
          exact ⟨z.block, hi, hor⟩
    · rw [ih hxlog, reaches_cons h hxlog hfresh]

theorem samePrefix (h : Wellformed log) {x y : Commit} (hx : x ∈ log) (hy : y ∈ log)
    (hclaim : y.block.uuid ∈ x.block.compactedFrom) : SamePrefix y.block x.block := by
  induction h generalizing x y with
  | nil => cases hx
  | write h hfresh hcf ih =>
    rename_i log m
    rcases mem_cons.mp hx with rfl | hxlog
    · rw [hcf] at hclaim
      cases hclaim
    · rcases mem_cons.mp hy with rfl | hylog
      · obtain ⟨z, hz, hzu⟩ := h.history.ancestor_mem (mem_map_of_mem hxlog) hclaim
        obtain ⟨w, hw, rfl⟩ := mem_map.mp hz
        exact absurd hzu (hfresh w hw)
      · exact ih hxlog hylog hclaim
  | @merge log m h hfresh inputs hin hcf hshared ih =>
    have hold : ∀ {z : Commit}, z ∈ ⟨m, inputs.map BlockMeta.uuid⟩ :: log → ∀ {w : Commit}, w ∈ log →
        z.block.uuid = w.block.uuid ∨ z.block.uuid ∈ w.block.compactedFrom → z ∈ log := by
      intro z hz w hw hor
      rcases mem_cons.mp hz with rfl | hzlog
      · rcases hor with heq | hmem
        · exact absurd heq.symm (hfresh w hw)
        · obtain ⟨b, hb, hbu⟩ := h.history.ancestor_mem (mem_map_of_mem hw) hmem
          obtain ⟨v, hv, rfl⟩ := mem_map.mp hb
          exact absurd hbu (hfresh v hv)
      · exact hzlog
    rcases mem_cons.mp hx with rfl | hxlog
    · obtain ⟨i, hi, hor⟩ := (mem_compactedFrom hcf _).mp hclaim
      obtain ⟨z, hz, rfl⟩ := mem_map.mp (hin hi)
      have hylog := hold hy hz hor
      have hzm := hshared _ hi
      rcases hor with heq | hmem
      · rw [h.eq_of_uuid hylog hz heq]
        exact hzm
      · have hyz := ih hz hylog hmem
        exact ⟨hyz.1.trans hzm.1, hyz.2.trans hzm.2⟩
    · exact ih hxlog (hold hy hxlog (.inr hclaim)) hclaim

end Wellformed

/-! ## The forest -/

def Parent (log : List Commit) (u v : Uuid) : Prop := ∃ x ∈ log, x.block.uuid = v ∧ u ∈ x.inputs

def Maximal (log : List Commit) (m : BlockMeta) : Prop :=
  m ∈ blocksOf log ∧ ∀ z ∈ blocksOf log, m.uuid ∉ z.compactedFrom

variable {log : List Commit}

theorem Exclusive.parent_unique (h : Exclusive log) : Relator.RightUnique (Parent log) := by
  rintro u v w ⟨x, hx, rfl, hux⟩ ⟨y, hy, rfl, huy⟩
  rw [h x hx y hy u hux huy]

theorem Wellformed.chain (h : Wellformed log) {x : Commit} (hx : x ∈ log) {u : Uuid}
    (hu : u ∈ x.block.compactedFrom) : Relation.TransGen (Parent log) u x.block.uuid := by
  -- On the size of the ancestry: each direct input has a smaller one.
  induction hn : x.block.compactedFrom.toFinset.card using Nat.strong_induction_on generalizing x with
  | _ n ih =>
    obtain ⟨y, hy, hyx, hor⟩ := (h.mem_compactedFrom_iff hx u).mp hu
    have hpar : Parent log y.block.uuid x.block.uuid := ⟨x, hx, rfl, hyx⟩
    rcases hor with rfl | hmem
    · exact .single hpar
    · have hlt := h.closedLineage.card_lt (mem_map_of_mem hy) (mem_map_of_mem hx)
        (h.inputs_subset hx hyx)
      rw [hn] at hlt
      exact (ih _ hlt hy hmem rfl).tail hpar

theorem Maximal.no_parent (h : Wellformed log) {m : BlockMeta} (hm : Maximal log m) (v : Uuid) :
    ¬ Parent log m.uuid v := by
  rintro ⟨x, hx, -, hmx⟩
  exact hm.2 x.block (mem_map_of_mem hx) (h.inputs_subset hx hmx)

variable {b : BlockMeta}

theorem Wellformed.exists_maximal (h : Wellformed log) (hb : b ∈ blocksOf log) :
    ∃ m, Maximal log m ∧ (b = m ∨ b.uuid ∈ m.compactedFrom) := by
  by_cases htop : ∀ z ∈ blocksOf log, b.uuid ∉ z.compactedFrom
  · exact ⟨b, ⟨hb, htop⟩, .inl rfl⟩
  · push Not at htop
    obtain ⟨z, hz, hbz⟩ := htop
    obtain ⟨m, hm, hbm, hmax⟩ := h.closedLineage.exists_top (List.Subset.refl _) hz hbz
    exact ⟨m, ⟨hm, hmax⟩, .inr hbm⟩

theorem Wellformed.existsUnique_maximal (h : Wellformed log) (hex : Exclusive log)
    (hb : b ∈ blocksOf log) : ∃! m, Maximal log m ∧ (b = m ∨ b.uuid ∈ m.compactedFrom) := by
  have hchain : ∀ m, Maximal log m → b = m ∨ b.uuid ∈ m.compactedFrom →
      Relation.ReflTransGen (Parent log) b.uuid m.uuid := by
    rintro m hm (rfl | hmem)
    · exact .refl
    · obtain ⟨x, hx, rfl⟩ := mem_map.mp hm.1
      exact (h.chain hx hmem).to_reflTransGen
  have hstuck : ∀ m m', Maximal log m → Maximal log m' →
      Relation.ReflTransGen (Parent log) m.uuid m'.uuid → m = m' := by
    intro m m' hm hm' hpath
    rcases Relation.ReflTransGen.cases_head hpath with heq | ⟨v, hv, -⟩
    · exact h.closedLineage.eq_of_uuid hm.1 hm'.1 heq
    · exact absurd hv (hm.no_parent h v)
  obtain ⟨m, hm, hbm⟩ := h.exists_maximal hb
  refine ⟨m, ⟨hm, hbm⟩, ?_⟩
  rintro m' ⟨hm', hbm'⟩
  have htotal := Relation.ReflTransGen.total_of_right_unique hex.parent_unique (hchain m hm hbm)
    (hchain m' hm' hbm')
  rcases htotal with hpath | hpath
  · exact (hstuck m m' hm hm' hpath).symm
  · exact hstuck m' m hm' hm hpath

end Scry.Cluster
