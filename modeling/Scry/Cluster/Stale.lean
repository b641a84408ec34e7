import Scry.Cluster.Consume

/-! # What a stale catalog still gets right

A catalog that has heard only part of the history may list blocks that were merged long ago.
-/

open Scry.Lib Scry.Block Scry.Catalog

namespace Scry.Cluster

open Option

def entryOf (c : Catalog) (u : Uuid) : Option CatalogEntry := (c.blocks.lookup u).map Row.toEntry

def Live (c : Catalog) (u : Uuid) : Prop := flags c u = some (false, false)

def metaEntry (m : BlockMeta) : CatalogEntry := (Row.ofMeta m false).toEntry

/-- A hidden row is claimed by a block of `U`; a live row claims no live one. -/
structure Tracks (U : List BlockMeta) (c : Catalog) : Prop where
  entry : ∀ u e, entryOf c u = some e → ∃ m ∈ U, m.uuid = u ∧ e = metaEntry m
  claims : ∀ a d, c.Claims a d → ∃ m ∈ U, m.uuid = d ∧ a ∈ m.compactedFrom
  recorded : ∀ m ∈ U, flags c m.uuid ≠ none → ∀ a ∈ m.compactedFrom, c.Claims a m.uuid
  hidden : ∀ u, flags c u ≠ none → ¬ Live c u → ∃ m ∈ U, u ∈ m.compactedFrom
  shadowed : ∀ m ∈ U, Live c m.uuid → ∀ a ∈ m.compactedFrom, ¬ Live c a

/-- Rows of `B` stay, hidden rows stay hidden, and what becomes known hides what it claims. -/
structure Learns (U B : List BlockMeta) (c c' : Catalog) : Prop where
  keeps : ∀ m ∈ B, flags c m.uuid ≠ none → flags c' m.uuid ≠ none
  hides : ∀ u, flags c u ≠ none → Live c' u → Live c u
  claims : ∀ m ∈ U, flags c m.uuid = none → flags c' m.uuid ≠ none →
    ∀ a ∈ m.compactedFrom, flags c a ≠ none → ¬ Live c' a

variable {U V B : List BlockMeta} {c c' : Catalog}

theorem Learns.refl (U B : List BlockMeta) (c : Catalog) : Learns U B c c where
  keeps _ _ h := h
  hides _ _ h := h
  claims _ _ hnone hsome := absurd hnone hsome

theorem tracks_empty (U : List BlockMeta) : Tracks U Catalog.empty := by
  refine ⟨?_, ?_, ?_, ?_, ?_⟩
  · intro u e he
    cases he
  · intro a d hclaim
    cases hclaim
  · intro m _ hne
    exact absurd rfl hne
  · intro u hne
    exact absurd rfl hne
  · intro m _ hlive
    cases hlive

theorem Tracks.mono (h : Tracks U c) (hsub : U ⊆ V)
    (hnew : ∀ m ∈ V, m ∉ U → ∀ x ∈ U, x.uuid ≠ m.uuid) : Tracks V c := by
  have hknown : ∀ m ∈ V, flags c m.uuid ≠ none → m ∈ U := by
    intro m hm hne
    by_contra hmU
    obtain ⟨f, hf⟩ := ne_none_iff_exists'.mp hne
    obtain ⟨r, hr, -⟩ := map_eq_some_iff.mp hf
    obtain ⟨x, hx, hxu, -⟩ := h.entry m.uuid r.toEntry (by rw [entryOf, hr]; rfl)
    exact hnew m hm hmU x hx hxu
  refine ⟨?_, ?_, ?_, ?_, ?_⟩
  · intro u e he
    obtain ⟨m, hm, hmu⟩ := h.entry u e he
    exact ⟨m, hsub hm, hmu⟩
  · intro a d hclaim
    obtain ⟨m, hm, hmd⟩ := h.claims a d hclaim
    exact ⟨m, hsub hm, hmd⟩
  · intro m hm hne
    exact h.recorded m (hknown m hm hne) hne
  · intro u hne hlive
    obtain ⟨m, hm, hmu⟩ := h.hidden u hne hlive
    exact ⟨m, hsub hm, hmu⟩
  · intro m hm hlive
    refine h.shadowed m (hknown m hm ?_) hlive
    rw [hlive]
    simp

/-! ## Writes -/

theorem entryOf_insertBlock (c : Catalog) (m : BlockMeta) (u : Uuid) : entryOf (c.insertBlock m) u = (entryOf c u).or
    (if m.uuid = u then some (metaEntry m) else none) := by
  have hentry : ∀ r, (claimedBy m r).toEntry = r.toEntry := by
    intro r
    unfold claimedBy
    split
    · rfl
    · rfl
  unfold entryOf
  rw [lookup_insertBlock, map_map]
  cases c.blocks.lookup u with
  | some r => simp [hentry]
  | none =>
    rw [none_or, map_none, none_or]
    split
    · rw [map_some, Function.comp_apply, hentry]
      rfl
    · rfl

variable {m : BlockMeta} {u : Uuid}

section

variable (hself : m.uuid ∉ m.compactedFrom)
include hself

theorem live_insertBlock_iff (hknown : flags c u ≠ none) :
    Live (c.insertBlock m) u ↔ Live c u ∧ u ∉ m.compactedFrom := by
  obtain ⟨f, hf⟩ := ne_none_iff_exists'.mp hknown
  obtain ⟨s, d⟩ := f
  unfold Live
  rw [flags_insertBlock hself, hf]
  simp only [map_some, some_or, some.injEq, Prod.mk.injEq, Bool.or_eq_false_iff, decide_eq_false_iff_not]
  rw [and_right_comm]

theorem live_insertBlock_new (hnew : flags c u = none) :
    Live (c.insertBlock m) u ↔ m.uuid = u ∧ c.hasLiveDescendant u = false := by
  unfold Live
  rw [flags_insertBlock hself, hnew, map_none, none_or]
  by_cases hu : m.uuid = u
  · simp [hu]
  · simp [hu]

theorem known_insertBlock_iff :
    flags (c.insertBlock m) u ≠ none ↔ flags c u ≠ none ∨ m.uuid = u := by
  rw [flags_insertBlock hself]
  cases hf : flags c u with
  | some f => simp
  | none =>
    by_cases hu : m.uuid = u
    · simp [hu]
    · simp [hu]

end

theorem live_iff_row : Live c u ↔ ∃ r, c.blocks.lookup u = some r ∧ r.live = true := by
  unfold Live
  rw [← lists_iff, mem_listBlocks_uuid]
  rfl

theorem Tracks.insertBlock (h : Tracks U c) (hU : ClosedLineage U) (hm : m ∈ U) : Tracks U (c.insertBlock m) := by
  have hself := hU.acyclic m hm
  refine ⟨?_, ?_, ?_, ?_, ?_⟩
  · intro u e he
    rw [entryOf_insertBlock] at he
    cases hc : entryOf c u with
    | some e' =>
      rw [hc, some_or] at he
      cases he
      exact h.entry u e hc
    | none =>
      rw [hc, none_or] at he
      split at he
      · rename_i hu
        cases he
        exact ⟨m, hm, hu, rfl⟩
      · cases he
  · intro a d hclaim
    rcases (claims_insertBlock c m a d).mp hclaim with hclaim | ⟨hmem, rfl⟩
    · exact h.claims a d hclaim
    · exact ⟨m, hm, rfl, hmem⟩
  · intro x hx hne a ha
    rw [claims_insertBlock]
    rcases (known_insertBlock_iff hself).mp hne with hne | hu
    · exact .inl (h.recorded x hx hne a ha)
    · obtain rfl := hU.eq_of_uuid hm hx hu
      exact .inr ⟨ha, rfl⟩
  · intro u hne hlive
    by_cases hknown : flags c u = none
    · rw [live_insertBlock_new hself hknown] at hlive
      rcases (known_insertBlock_iff hself).mp hne with hne | hu
      · exact absurd hknown hne
      · have hdesc : c.hasLiveDescendant u = true := by
          rw [← Bool.not_eq_false]
          exact fun hf => hlive ⟨hu, hf⟩
        obtain ⟨d, r, hclaim, -⟩ := (hasLiveDescendant_iff c u).mp hdesc
        obtain ⟨x, hx, -, hmem⟩ := h.claims u d hclaim
        exact ⟨x, hx, hmem⟩
    · rw [live_insertBlock_iff hself hknown] at hlive
      by_cases hmem : u ∈ m.compactedFrom
      · exact ⟨m, hm, hmem⟩
      · exact h.hidden u hknown fun hl => hlive ⟨hl, hmem⟩
  · intro x hx hlive a ha halive
    by_cases hax : flags c a = none
    · -- `a` is the new row: a live claimer would have hidden it.
      obtain ⟨rfl, hdesc⟩ := (live_insertBlock_new hself hax).mp halive
      by_cases hxn : flags c x.uuid = none
      · obtain ⟨hmx, -⟩ := (live_insertBlock_new hself hxn).mp hlive
        obtain rfl := hU.eq_of_uuid hm hx hmx
        exact hself ha
      · obtain ⟨hlx, -⟩ := (live_insertBlock_iff hself hxn).mp hlive
        obtain ⟨r, hr, hrl⟩ := live_iff_row.mp hlx
        have : c.hasLiveDescendant m.uuid = true :=
          (hasLiveDescendant_iff c m.uuid).mpr ⟨x.uuid, r, h.recorded x hx hxn _ ha, hr, hrl⟩
        rw [hdesc] at this
        cases this
    · obtain ⟨hla, hnot⟩ := (live_insertBlock_iff hself hax).mp halive
      by_cases hxn : flags c x.uuid = none
      · obtain ⟨hmx, -⟩ := (live_insertBlock_new hself hxn).mp hlive
        obtain rfl := hU.eq_of_uuid hm hx hmx
        exact hnot ha
      · exact h.shadowed x hx ((live_insertBlock_iff hself hxn).mp hlive).1 a ha hla

theorem learns_insertBlock (hU : ClosedLineage U) (B : List BlockMeta) (c : Catalog) (hm : m ∈ U) :
    Learns U B c (c.insertBlock m) := by
  have hself := hU.acyclic m hm
  refine ⟨?_, ?_, ?_⟩
  · intro x _ hne
    exact (known_insertBlock_iff hself).mpr (.inl hne)
  · intro u hne hlive
    exact ((live_insertBlock_iff hself hne).mp hlive).1
  · intro x hx hnone hne a ha hknown hlive
    rcases (known_insertBlock_iff hself).mp hne with hne | hu
    · exact absurd hnone hne
    · obtain rfl := hU.eq_of_uuid hm hx hu
      exact ((live_insertBlock_iff hself hknown).mp hlive).2 ha

theorem Tracks.congr (h : Tracks U c) (hflags : ∀ u, flags c' u = flags c u)
    (hentry : ∀ u, entryOf c' u = entryOf c u) (hclaims : ∀ a d, c'.Claims a d ↔ c.Claims a d) : Tracks U c' := by
  have hlive : ∀ u, Live c' u ↔ Live c u := by
    intro u
    unfold Live
    rw [hflags]
  refine ⟨?_, ?_, ?_, ?_, ?_⟩
  · intro u e he
    exact h.entry u e (hentry u ▸ he)
  · intro a d hclaim
    exact h.claims a d ((hclaims a d).mp hclaim)
  · intro m hm hne a ha
    rw [hflags] at hne
    exact (hclaims a m.uuid).mpr (h.recorded m hm hne a ha)
  · intro u hne hl
    rw [hflags] at hne
    rw [hlive] at hl
    exact h.hidden u hne hl
  · intro m hm hl a ha
    rw [hlive] at hl ⊢
    exact h.shadowed m hm hl a ha

theorem Learns.congr {c'' : Catalog} (h : Learns U B c c') (hflags : ∀ u, flags c'' u = flags c' u) :
    Learns U B c c'' := by
  refine ⟨?_, ?_, ?_⟩
  · intro m hm hne
    rw [hflags]
    exact h.keeps m hm hne
  · intro u hne hlive
    unfold Live at hlive
    rw [hflags] at hlive
    exact h.hides u hne hlive
  · intro m hm hnone hne a ha hknown hlive
    rw [hflags] at hne
    unfold Live at hlive
    rw [hflags] at hlive
    exact h.claims m hm hnone hne a ha hknown hlive

theorem entryOf_stageSuperseded (c : Catalog) (inputs : List Uuid) (merged : Uuid) (e : Nat)
    (u : Uuid) : entryOf (c.stageSuperseded inputs merged e) u = entryOf c u := by
  unfold entryOf
  rw [lookup_stageSuperseded, map_map]
  congr 1
  funext r
  simp only [Function.comp_apply]
  split
  · rfl
  · rfl

variable {inputs : List Uuid}

theorem Tracks.applyCompaction (h : Tracks U c) (hU : ClosedLineage U) (hm : m ∈ U)
    (hin : inputs ⊆ m.compactedFrom) (e : Nat) : Tracks U (c.applyCompaction m inputs e) := by
  refine (h.insertBlock hU hm).congr ?_ ?_ ?_
  · intro u
    exact flags_applyCompaction (hU.acyclic m hm) hin e
  · intro u
    exact entryOf_stageSuperseded _ _ _ _ _
  · intro a d
    rfl

theorem learns_applyCompaction (hU : ClosedLineage U) (B : List BlockMeta) (c : Catalog) (hm : m ∈ U) (hin : inputs ⊆ m.compactedFrom) (e : Nat) : Learns U B c (c.applyCompaction m inputs e) :=
  (learns_insertBlock hU B c hm).congr fun _ => flags_applyCompaction (hU.acyclic m hm) hin e

theorem flags_stageUnstagedSuperseded (c : Catalog) (e : Nat) (u : Uuid) :
    flags (c.stageUnstagedSuperseded e) u = flags c u := by
  unfold flags
  rw [lookup_stageUnstagedSuperseded, map_map]
  congr 1
  funext r
  simp only [Function.comp_apply]
  split
  · rfl
  · rfl

theorem Tracks.stageUnstagedSuperseded (h : Tracks U c) (e : Nat) : Tracks U (c.stageUnstagedSuperseded e) := by
  refine h.congr (flags_stageUnstagedSuperseded c e) ?_ ?_
  · intro u
    unfold entryOf
    rw [lookup_stageUnstagedSuperseded, map_map]
    congr 1
    funext r
    simp only [Function.comp_apply]
    split
    · rfl
    · rfl
  · intro a d
    rfl

theorem learns_stageUnstagedSuperseded (U B : List BlockMeta) (c : Catalog) (e : Nat) :
    Learns U B c (c.stageUnstagedSuperseded e) :=
  (Learns.refl U B c).congr (flags_stageUnstagedSuperseded c e)

theorem Tracks.deleteBlocks (h : Tracks U c) (uuids : List Uuid) : Tracks U (c.deleteBlocks uuids) := by
  have hback : ∀ u f, flags (c.deleteBlocks uuids) u = some f → flags c u = some f := by
    intro u f hf
    rw [flags_deleteBlocks] at hf
    split at hf
    · cases hf
    · exact hf
  have hknown : ∀ u, flags (c.deleteBlocks uuids) u ≠ none →
      flags (c.deleteBlocks uuids) u = flags c u := by
    intro u hne
    obtain ⟨f, hf⟩ := ne_none_iff_exists'.mp hne
    rw [hf, hback u f hf]
  refine ⟨?_, ?_, ?_, ?_, ?_⟩
  · intro u e he
    unfold entryOf at he
    rw [lookup_deleteBlocks] at he
    split at he
    · cases he
    · exact h.entry u e he
  · exact h.claims
  · intro m hm hne
    rw [hknown m.uuid hne] at hne
    exact h.recorded m hm hne
  · intro u hne hlive
    have heq := hknown u hne
    unfold Live at hlive
    rw [heq] at hne hlive
    exact h.hidden u hne hlive
  · intro m hm hlive a ha halive
    exact h.shadowed m hm (hback _ _ hlive) a ha (hback _ _ halive)

theorem learns_deleteBlocks (U : List BlockMeta) (c : Catalog) {uuids : List Uuid}
    (hgone : ∀ u ∈ uuids, ∀ m ∈ B, m.uuid ≠ u) : Learns U B c (c.deleteBlocks uuids) := by
  refine ⟨?_, ?_, ?_⟩
  · intro m hm hne
    have hnot : m.uuid ∉ uuids := fun hmem => hgone m.uuid hmem m hm rfl
    rw [flags_deleteBlocks, if_neg hnot]
    exact hne
  · intro u _ hlive
    unfold Live at hlive
    rw [flags_deleteBlocks] at hlive
    split at hlive
    · cases hlive
    · exact hlive
  · intro m _ hnone hne
    rw [flags_deleteBlocks, hnone, ite_self] at hne
    exact absurd rfl hne

/-! ## Events -/

/-- An event of a compaction in the history `U`, about a bucket with the blocks `B`. -/
def BlockEvent.OfCompaction (U B : List BlockMeta) : BlockEvent → Prop
  | created m => m ∈ U
  | superseded inputs byMeta _ => byMeta ∈ U ∧ inputs ⊆ byMeta.compactedFrom
  | softDeleted _ _ _ => False
  | deleted uuids => ∀ u ∈ uuids, ∀ m ∈ B, m.uuid ≠ u

variable {e : BlockEvent}

theorem Tracks.applyEvent (h : Tracks U c) (hU : ClosedLineage U)
    (he : e.OfCompaction U B) (grace now : Nat) : Tracks U (applyEventWithGrace c grace now e).1 := by
  have hcurs : ∀ {c : Catalog} (m : BlockMeta), Tracks U c → Tracks U (advanceMetaCursor c m) := by
    intro c m hc
    refine hc.congr ?_ ?_ ?_
    · intro u
      exact flags_congr (blocks_advanceMetaCursor c m)
    · intro u
      rw [entryOf, blocks_advanceMetaCursor, entryOf]
    · intro a d
      unfold Claims
      rw [lineage_advanceMetaCursor]
  cases e with
  | created m => exact hcurs m (h.insertBlock hU he)
  | superseded inputs m n => exact hcurs m (h.applyCompaction hU he.1 he.2 _)
  | softDeleted uuids t n => exact he.elim
  | deleted uuids => exact h.deleteBlocks uuids

theorem learns_applyEvent (hU : ClosedLineage U) (c : Catalog) (he : e.OfCompaction U B)
    (grace now : Nat) : Learns U B c (applyEventWithGrace c grace now e).1 := by
  cases e with
  | created m =>
    exact (learns_insertBlock hU B c he).congr fun _ => flags_congr (blocks_advanceMetaCursor _ m)
  | superseded inputs m n =>
    exact (learns_applyCompaction hU B c he.1 he.2 _).congr fun _ =>
      flags_congr (blocks_advanceMetaCursor _ m)
  | softDeleted uuids t n => exact he.elim
  | deleted uuids => exact learns_deleteBlocks U c he

end Scry.Cluster
