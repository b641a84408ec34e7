import Scry.Catalog.Lineage
import Scry.Lib.Machine
import Mathlib.Tactic.Tauto

/-! # Applying block events

`apply_event_with_grace`, and what a catalog lists after any sequence of deliveries.
-/

open Scry.Lib Scry.Block Scry.Catalog

namespace Scry.Cluster

open Option

inductive BlockEvent where
  | created (m : BlockMeta)
  | superseded (inputs : List Uuid) (byMeta : BlockMeta) (reapEligibleAt : Nat)
  | softDeleted (uuids : List Uuid) (deletedAt deleteEligibleAt : Nat)
  | deleted (uuids : List Uuid)
  deriving DecidableEq

structure ApplyOutcome where
  inserted : Nat
  superseded : Nat
  softDeleted : Nat
  deleted : Nat
  deriving DecidableEq

def u64Max : Nat := 2 ^ 64 - 1

def saturatingAdd (a b : Nat) : Nat := min (a + b) u64Max

def advanceMetaCursor (c : Catalog) (m : BlockMeta) : Catalog :=
  c.advanceCursor m.signal m.writerId (formatDate m.tsMinUnixNano) m.uuid

/-- The deadline that a `Superseded` event gets here. Events without one carry 0. -/
def localReapDeadline (now localGrace reapEligibleAt : Nat) : Nat :=
  let localEligible := saturatingAdd now (localGrace % 2 ^ 64)
  let eventEligible := if reapEligibleAt = 0 then localEligible else reapEligibleAt
  if localGrace = 0 then eventEligible else max eventEligible localEligible

/-- Times are nanoseconds; `now` is the clock reading of this call. -/
def applyEventWithGrace (c : Catalog) (localGrace now : Nat) : BlockEvent → Catalog × ApplyOutcome
  | .created m =>
    (advanceMetaCursor (c.insertBlock m) m, ⟨if c.insertBlockIsNew m then 1 else 0, 0, 0, 0⟩)
  | .superseded inputs byMeta reapEligibleAt =>
    let eligible := localReapDeadline now localGrace reapEligibleAt
    (advanceMetaCursor (c.applyCompaction byMeta inputs eligible) byMeta,
      ⟨if c.insertBlockIsNew byMeta then 1 else 0, inputs.length, 0, 0⟩)
  | .softDeleted uuids deletedAt deleteEligibleAt =>
    let grace := deleteEligibleAt - deletedAt
    (c.adoptPeerDeletion uuids now (saturatingAdd now grace), ⟨0, 0, uuids.length, 0⟩)
  | .deleted uuids => (c.deleteBlocks uuids, ⟨0, 0, 0, uuids.length⟩)

/-! ## Deliveries -/

namespace BlockEvent

def sidecar : BlockEvent → Option BlockMeta
  | created m => some m
  | superseded _ byMeta _ => some byMeta
  | _ => none

def removed : BlockEvent → List Uuid
  | softDeleted uuids _ _ => uuids
  | deleted uuids => uuids
  | _ => []

def EmittedBy (U : List BlockMeta) : BlockEvent → Prop
  | created m => m ∈ U
  | superseded inputs byMeta _ => byMeta ∈ U ∧ inputs ⊆ byMeta.compactedFrom
  | softDeleted uuids _ _ => ∀ u ∈ uuids, ∃ m ∈ U, m.uuid = u
  | deleted uuids => ∀ u ∈ uuids, ∃ m ∈ U, m.uuid = u

end BlockEvent

variable (D : List BlockEvent) (u : Uuid)

def deliveredMetas : List BlockMeta := D.filterMap BlockEvent.sidecar

def Announced : Prop := ∃ m ∈ deliveredMetas D, m.uuid = u

def Claimed : Prop := ∃ m ∈ deliveredMetas D, u ∈ m.compactedFrom

def Removed : Prop := ∃ e ∈ D, u ∈ e.removed

/-- The listing shows what was announced, not removed and not claimed. -/
def Converged (c : Catalog) : Prop :=
  ∀ u, u ∈ c.listBlocks.map (fun e => e.blockMeta.uuid) ↔
    Announced D u ∧ ¬ Removed D u ∧ ¬ Claimed D u

structure Peer where
  catalog : Catalog
  delivered : List BlockEvent

structure Delivery where
  event : BlockEvent
  now : Nat
  deriving DecidableEq

def Peer.empty : Peer := ⟨.empty, []⟩

def Peer.deliver (localGrace : Nat) (p : Peer) (d : Delivery) : Option Peer :=
  some ⟨(applyEventWithGrace p.catalog localGrace d.now d.event).1, p.delivered ++ [d.event]⟩

/-- What is inserted is neither removed nor claimed, or claimed by a live block. -/
def InsertsInOrder (p : Peer) (d : Delivery) : Prop :=
  ∀ m ∈ d.event.sidecar, p.catalog.hasBlock m.uuid = false →
    Removed p.delivered m.uuid ∨ Claimed p.delivered m.uuid →
    p.catalog.hasLiveDescendant m.uuid = true

instance (D : List BlockEvent) (u : Uuid) : Decidable (Claimed D u) :=
  inferInstanceAs (Decidable (∃ m ∈ deliveredMetas D, u ∈ m.compactedFrom))

instance (D : List BlockEvent) (u : Uuid) : Decidable (Removed D u) :=
  inferInstanceAs (Decidable (∃ e ∈ D, u ∈ e.removed))

instance (p : Peer) (d : Delivery) : Decidable (InsertsInOrder p d) :=
  inferInstanceAs (Decidable (∀ m ∈ d.event.sidecar, _ → _ ∨ _ → _))

/-! ## Reading off a longer delivery -/

section Snoc
variable (D : List BlockEvent) (e : BlockEvent) (u : Uuid)

theorem mem_deliveredMetas_snoc (m : BlockMeta) :
    m ∈ deliveredMetas (D ++ [e]) ↔ m ∈ deliveredMetas D ∨ e.sidecar = some m := by
  simp [deliveredMetas]

theorem announced_snoc : Announced (D ++ [e]) u ↔ Announced D u ∨ ∃ m ∈ e.sidecar, m.uuid = u := by
  simp only [Announced, mem_deliveredMetas_snoc, or_and_right, exists_or, mem_def]

theorem claimed_snoc : Claimed (D ++ [e]) u ↔ Claimed D u ∨ ∃ m ∈ e.sidecar, u ∈ m.compactedFrom := by
  simp only [Claimed, mem_deliveredMetas_snoc, or_and_right, exists_or, mem_def]

theorem removed_snoc : Removed (D ++ [e]) u ↔ Removed D u ∨ u ∈ e.removed := by
  simp only [Removed, List.mem_append, List.mem_singleton, or_and_right, exists_or, exists_eq_left]

end Snoc

/-! ## What one event does to the rows -/

variable (c : Catalog) (m : BlockMeta)

@[simp] theorem blocks_advanceMetaCursor :
    (advanceMetaCursor c m).blocks = c.blocks := by
  unfold advanceMetaCursor advanceCursor
  split
  · rfl
  · rfl

@[simp] theorem lineage_advanceMetaCursor :
    (advanceMetaCursor c m).blockLineage = c.blockLineage := by
  unfold advanceMetaCursor advanceCursor
  split
  · rfl
  · rfl

def flags (u : Uuid) : Option (Bool × Bool) :=
  (c.blocks.lookup u).map fun r => (r.superseded, r.deletedAt.isSome)

section Flags
variable {c : Catalog} {u : Uuid}

theorem lists_iff : u ∈ c.listBlocks.map (fun e => e.blockMeta.uuid) ↔ flags c u = some (false, false) := by
  rw [mem_listBlocks_uuid]
  unfold Catalog.Lists flags
  simp only [map_eq_some_iff, Prod.mk.injEq]
  constructor
  · rintro ⟨r, hr, hlive⟩
    simp only [Row.live, Bool.and_eq_true, Bool.not_eq_true', isNone_iff_eq_none] at hlive
    exact ⟨r, hr, hlive.2, by simp [hlive.1]⟩
  · rintro ⟨r, hr, hsup, hdel⟩
    refine ⟨r, hr, ?_⟩
    simp only [isSome_eq_false_iff, isNone_iff_eq_none] at hdel
    simp [Row.live, hsup, hdel]

theorem flags_eq_none_iff : flags c u = none ↔ c.hasBlock u = false := by
  unfold flags hasBlock Table.contains
  rw [map_eq_none_iff, isSome_eq_false_iff, isNone_iff_eq_none]

theorem flags_congr {c' : Catalog} (h : c'.blocks = c.blocks) : flags c' u = flags c u := by
  unfold flags
  rw [h]

variable {m : BlockMeta}

theorem flags_insertBlock (hself : m.uuid ∉ m.compactedFrom) : flags (c.insertBlock m) u =
    ((flags c u).map fun f => (f.1 || decide (u ∈ m.compactedFrom), f.2)).or
    (if m.uuid = u then some (c.hasLiveDescendant u, false) else none) := by
  unfold flags
  rw [lookup_insertBlock]
  cases hl : c.blocks.lookup u with
  | some r =>
    have hkey := Table.key_of_lookup hl
    rw [some_or, map_some, map_some, claimedBy_of_acyclic hself, hkey]
    by_cases hmem : u ∈ m.compactedFrom <;> simp [hmem, Row.claim]
  | none =>
    rw [none_or]
    by_cases hu : m.uuid = u
    · subst hu
      have huuid : (c.newRow m).uuid = m.uuid := rfl
      simp only [if_true, map_some, map_none, none_or, claimedBy_of_acyclic hself, huuid, if_neg hself]
      rfl
    · simp [hu]

theorem flags_applyCompaction (hself : m.uuid ∉ m.compactedFrom) {inputs : List Uuid}
    (hin : inputs ⊆ m.compactedFrom) (e : Nat) :
    flags (c.applyCompaction m inputs e) u = flags (c.insertBlock m) u := by
  have hclaimed := flags_insertBlock (c := c) (u := u) hself
  unfold flags at hclaimed ⊢
  unfold applyCompaction
  rw [lookup_stageSuperseded]
  cases hl : (c.insertBlock m).blocks.lookup u with
  | none => rfl
  | some r =>
    have hkey := Table.key_of_lookup hl
    simp only [map_some, hkey]
    split
    · rename_i hmem
      have hcf := hin hmem.1
      have hsup : r.superseded = true := by
        rw [hl] at hclaimed
        cases hc : c.blocks.lookup u with
        | none => simp [hc, Ne.symm hmem.2] at hclaimed
        | some r₀ => simp [hc, hcf] at hclaimed; exact hclaimed.1
      rw [hsup]
      rfl
    · rfl

theorem flags_adoptPeerDeletion (uuids : List Uuid) (t e : Nat) : flags (c.adoptPeerDeletion uuids t e) u =
    (flags c u).map fun f => (f.1, f.2 || decide (u ∈ uuids)) := by
  unfold flags
  rw [lookup_adoptPeerDeletion]
  cases hl : c.blocks.lookup u with
  | none => rfl
  | some r =>
    have hkey := Table.key_of_lookup hl
    simp only [map_some, hkey]
    by_cases hmem : u ∈ uuids
    · cases hdel : r.deletedAt with
      | none => simp [hmem, Row.adoptPeerDeletion]
      | some t' => simp [hmem, hdel]
    · simp [hmem]

theorem flags_deleteBlocks (uuids : List Uuid) :
    flags (c.deleteBlocks uuids) u = if u ∈ uuids then none else flags c u := by
  unfold flags
  rw [lookup_deleteBlocks]
  split
  · rfl
  · rfl

end Flags

/-! ## What any sequence of deliveries leaves -/

/-- The lineage table has every claim delivered; flags never say more than the deliveries. -/
structure Delivered (D : List BlockEvent) (c : Catalog) : Prop where
  claims : ∀ a d, c.Claims a d ↔ ∃ m ∈ deliveredMetas D, m.uuid = d ∧ a ∈ m.compactedFrom
  announced : ∀ u, flags c u ≠ none → Announced D u
  present : ∀ u, Announced D u → ¬ Removed D u → flags c u ≠ none
  claimed : ∀ u d, flags c u = some (true, d) → Claimed D u
  removed : ∀ u s, flags c u = some (s, true) → Removed D u

theorem delivered_empty : Delivered [] Catalog.empty := by
  refine ⟨?_, ?_, ?_, ?_, ?_⟩
  · intro a d
    constructor
    · intro hclaim
      cases hclaim
    · rintro ⟨m, hm, -⟩
      cases hm
  · intro u hne
    exact absurd rfl hne
  · rintro u ⟨m, hm, -⟩
    cases hm
  all_goals
    intro u x hx
    cases hx

section Deliver
variable {D : List BlockEvent} {c : Catalog} {grace now : Nat} {e : BlockEvent} {m : BlockMeta}

theorem flags_apply_sidecar (he : e.sidecar = some m) (hself : m.uuid ∉ m.compactedFrom)
    (hin : ∀ inputs b n, e = .superseded inputs b n → inputs ⊆ b.compactedFrom) (u : Uuid) : flags
    (applyEventWithGrace c grace now e).1 u = flags (c.insertBlock m) u := by
  cases e with
  | created m' =>
    cases he
    exact flags_congr (blocks_advanceMetaCursor _ _)
  | superseded inputs m' n =>
    cases he
    refine (flags_congr (blocks_advanceMetaCursor _ _)).trans ?_
    exact flags_applyCompaction hself (hin inputs m n rfl) _
  | softDeleted uuids t n => cases he
  | deleted uuids => cases he

theorem claims_apply_sidecar (he : e.sidecar = some m) (a d : Uuid) :
    (applyEventWithGrace c grace now e).1.Claims a d ↔ (c.insertBlock m).Claims a d := by
  cases e with
  | created m' =>
    cases he
    unfold applyEventWithGrace Claims
    rw [lineage_advanceMetaCursor]
  | superseded inputs m' n =>
    cases he
    unfold applyEventWithGrace Claims
    rw [lineage_advanceMetaCursor]
    rfl
  | softDeleted uuids t n => cases he
  | deleted uuids => cases he

theorem Delivered.sidecar (h : Delivered D c) (he : e.sidecar = some m) (hrem : e.removed = [])
    (hself : m.uuid ∉ m.compactedFrom) (hin : ∀ inputs b n, e = .superseded inputs b n → inputs ⊆ b.compactedFrom) :
    Delivered (D ++ [e]) (applyEventWithGrace c grace now e).1 := by
  have hflags : ∀ u, flags (applyEventWithGrace c grace now e).1 u = flags (c.insertBlock m) u :=
    flags_apply_sidecar he hself hin
  refine ⟨?_, ?_, ?_, ?_, ?_⟩
  · intro a d
    rw [claims_apply_sidecar he, claims_insertBlock, h.claims]
    simp only [mem_deliveredMetas_snoc, he, some.injEq, or_and_right, exists_or, exists_eq_left']
    rw [and_comm (b := d = m.uuid), eq_comm (a := d)]
  · intro u hne
    rw [hflags, flags_insertBlock hself] at hne
    rw [announced_snoc, he]
    cases hf : flags c u with
    | some f => exact .inl (h.announced u (by rw [hf]; simp))
    | none =>
      right
      rw [hf, map_none, none_or] at hne
      split at hne
      · rename_i hu
        exact ⟨m, rfl, hu⟩
      · exact absurd rfl hne
  · intro u hann hnrem
    rw [removed_snoc, hrem] at hnrem
    rw [announced_snoc, he] at hann
    rw [hflags, flags_insertBlock hself]
    rcases hann with hann | ⟨m', hm', hu⟩
    · obtain ⟨f, hf⟩ := ne_none_iff_exists'.mp
        (h.present u hann fun hr => hnrem (.inl hr))
      simp [hf]
    · cases hm'
      rw [if_pos hu]
      cases flags c u <;> simp
  · intro u d hf
    rw [hflags, flags_insertBlock hself] at hf
    rw [claimed_snoc, he]
    cases hc : flags c u with
    | some f =>
      obtain ⟨s, d'⟩ := f
      simp only [hc, map_some, some_or, some.injEq, Prod.mk.injEq, Bool.or_eq_true, decide_eq_true_eq] at hf
      rcases hf.1 with rfl | hmem
      · exact .inl (h.claimed u d' hc)
      · exact .inr ⟨m, rfl, hmem⟩
    | none =>
      left
      rw [hc, map_none, none_or] at hf
      split at hf
      · simp only [some.injEq, Prod.mk.injEq] at hf
        obtain ⟨x, r, hclaim, -⟩ := (hasLiveDescendant_iff c u).mp hf.1
        obtain ⟨m', hm', -, hmem⟩ := (h.claims u x).mp hclaim
        exact ⟨m', hm', hmem⟩
      · cases hf
  · intro u s hf
    rw [hflags, flags_insertBlock hself] at hf
    rw [removed_snoc]
    left
    cases hc : flags c u with
    | some f =>
      obtain ⟨s', d'⟩ := f
      simp only [hc, map_some, some_or, some.injEq, Prod.mk.injEq] at hf
      obtain ⟨-, rfl⟩ := hf
      exact h.removed u s' hc
    | none =>
      rw [hc, map_none, none_or] at hf
      split at hf
      · simp at hf
      · cases hf

variable {c' : Catalog}

theorem Delivered.removal (h : Delivered D c) (he : e.sidecar = none)
    (hlineage : c'.blockLineage = c.blockLineage) (hflags : ∀ u, u ∉ e.removed → flags c' u = flags c u)
    (hgone : ∀ u ∈ e.removed, flags c' u = none ∨ ∃ s d, flags c u = some (s, d) ∧ flags c' u = some (s, true)) :
    Delivered (D ++ [e]) c' := by
  have hback : ∀ u f, flags c' u = some f → ∃ d, flags c u = some (f.1, d) ∧
      (f.2 = d ∨ u ∈ e.removed) := by
    intro u f hf
    by_cases hu : u ∈ e.removed
    · rcases hgone u hu with hnone | ⟨s, d, hc, hc'⟩
      · rw [hnone] at hf
        cases hf
      · rw [hc'] at hf
        cases hf
        exact ⟨d, hc, .inr hu⟩
    · rw [hflags u hu] at hf
      exact ⟨f.2, hf, .inl rfl⟩
  refine ⟨?_, ?_, ?_, ?_, ?_⟩
  · intro a d
    unfold Claims
    rw [hlineage]
    refine (h.claims a d).trans ?_
    simp only [mem_deliveredMetas_snoc, he, reduceCtorEq, or_false]
  · intro u hne
    obtain ⟨f, hf⟩ := ne_none_iff_exists'.mp hne
    obtain ⟨d, hc, -⟩ := hback u f hf
    rw [announced_snoc]
    exact .inl (h.announced u (by rw [hc]; simp))
  · intro u hann hnrem
    rw [removed_snoc, not_or] at hnrem
    rw [announced_snoc, he] at hann
    rw [hflags u hnrem.2]
    rcases hann with hann | ⟨m, hm, -⟩
    · exact h.present u hann hnrem.1
    · cases hm
  · intro u d hf
    obtain ⟨d', hc, -⟩ := hback u _ hf
    rw [claimed_snoc]
    exact .inl (h.claimed u d' hc)
  · intro u s hf
    rw [removed_snoc]
    obtain ⟨d', hc, hor⟩ := hback u _ hf
    rcases hor with heq | hmem
    · have heq : true = d' := heq
      exact .inl (h.removed u s (heq ▸ hc))
    · exact .inr hmem

theorem removal_adoptPeerDeletion (uuids : List Uuid) (t n u : Nat) :
    (u ∉ uuids → flags (c.adoptPeerDeletion uuids t n) u = flags c u) ∧
    (u ∈ uuids → flags (c.adoptPeerDeletion uuids t n) u = none ∨ ∃ s d, flags c u = some (s, d) ∧ flags
    (c.adoptPeerDeletion uuids t n) u = some (s, true)) := by
  rw [flags_adoptPeerDeletion]
  cases hf : flags c u with
  | none => simp
  | some f =>
    obtain ⟨s, d⟩ := f
    refine ⟨?_, ?_⟩
    · intro hmem
      simp [hmem]
    · intro hmem
      right
      exact ⟨s, d, rfl, by simp [hmem]⟩

theorem removal_deleteBlocks (uuids : List Uuid) (u : Uuid) : (u ∉ uuids → flags (c.deleteBlocks uuids) u = flags c u)
    ∧ (u ∈ uuids → flags (c.deleteBlocks uuids) u = none ∨ ∃ s d, flags c u = some (s, d) ∧ flags
    (c.deleteBlocks uuids) u = some (s, true)) := by
  rw [flags_deleteBlocks]
  by_cases hmem : u ∈ uuids <;> simp [hmem]

theorem Delivered.apply {U : List BlockMeta} (hU : History U) (h : Delivered D c)
    (he : e.EmittedBy U) : Delivered (D ++ [e]) (applyEventWithGrace c grace now e).1 := by
  cases e with
  | created m =>
    refine h.sidecar rfl rfl (hU.closedLineage.acyclic m he) ?_
    intro inputs b n heq
    cases heq
  | superseded inputs m n =>
    refine h.sidecar rfl rfl (hU.closedLineage.acyclic m he.1) ?_
    intro inputs' b n' heq
    cases heq
    exact he.2
  | softDeleted uuids t n =>
    exact h.removal rfl rfl (fun u => (removal_adoptPeerDeletion uuids _ _ u).1)
      fun u => (removal_adoptPeerDeletion uuids _ _ u).2
  | deleted uuids =>
    exact h.removal rfl rfl (fun u => (removal_deleteBlocks uuids u).1)
      fun u => (removal_deleteBlocks uuids u).2

/-! ## One delivery keeps the catalog converged, or inserts too late -/

theorem converged_iff (h : Delivered D c) :
    Converged D c ↔ ∀ u, flags c u = some (false, false) → ¬ Removed D u ∧ ¬ Claimed D u := by
  unfold Converged
  simp only [lists_iff]
  constructor
  · intro hconv u hf
    exact ((hconv u).mp hf).2
  · intro hright u
    constructor
    · intro hf
      exact ⟨h.announced u (by rw [hf]; simp), hright u hf⟩
    · rintro ⟨hann, hnrem, hncl⟩
      obtain ⟨⟨s, d⟩, hf⟩ := ne_none_iff_exists'.mp (h.present u hann hnrem)
      cases s with
      | true => exact absurd (h.claimed u d hf) hncl
      | false =>
        cases d with
        | true => exact absurd (h.removed u false hf) hnrem
        | false => exact hf

theorem Delivered.converged_sidecar (h : Delivered D c) (h' : Delivered (D ++ [e]) c')
    (he : e.sidecar = some m) (hrem : e.removed = []) (hself : m.uuid ∉ m.compactedFrom)
    (hflags : ∀ u, flags c' u = flags (c.insertBlock m) u) (hconv : Converged D c) : Converged (D ++ [e]) c' ↔
    (c.hasBlock m.uuid = false → Removed D m.uuid ∨ Claimed D m.uuid → c.hasLiveDescendant m.uuid = true) := by
  rw [converged_iff h] at hconv
  rw [converged_iff h']
  simp only [hflags, flags_insertBlock hself, removed_snoc, claimed_snoc, he, hrem]
  constructor
  · intro hright hmissing hor
    cases hlive : c.hasLiveDescendant m.uuid with
    | true => rfl
    | false =>
      have hnew := hright m.uuid (by rw [flags_eq_none_iff.mpr hmissing, hlive]; simp)
      rcases hor with hr | hcl
      · exact absurd (.inl hr) hnew.1
      · exact absurd (.inl hcl) hnew.2
  · intro hcond u hf
    cases hc : flags c u with
    | some f =>
      obtain ⟨s, d⟩ := f
      simp only [hc, map_some, some_or, some.injEq, Prod.mk.injEq,
        Bool.or_eq_false_iff, decide_eq_false_iff_not] at hf
      obtain ⟨⟨rfl, hncf⟩, rfl⟩ := hf
      obtain ⟨hnr, hncl⟩ := hconv u hc
      simp [hnr, hncl, hncf]
    | none =>
      rw [hc, map_none, none_or] at hf
      split at hf
      · rename_i heq
        subst heq
        simp only [some.injEq, Prod.mk.injEq, and_true] at hf
        have hnor : ¬ (Removed D m.uuid ∨ Claimed D m.uuid) := by
          intro hor
          rw [hcond (flags_eq_none_iff.mp hc) hor] at hf
          cases hf
        rw [not_or] at hnor
        simp [hnor.1, hnor.2, hself]
      · cases hf

theorem Delivered.converged_removal (h : Delivered D c) (h' : Delivered (D ++ [e]) c')
    (he : e.sidecar = none) (hflags : ∀ u, u ∉ e.removed → flags c' u = flags c u)
    (hgone : ∀ u ∈ e.removed, flags c' u = none ∨ ∃ s d, flags c u = some (s, d) ∧ flags c' u = some (s, true))
    (hconv : Converged D c) : Converged (D ++ [e]) c' := by
  rw [converged_iff h] at hconv
  rw [converged_iff h']
  intro u hf
  have hkept : u ∉ e.removed := by
    intro hmem
    rcases hgone u hmem with hnone | ⟨s, d, -, hc'⟩
    · rw [hnone] at hf
      cases hf
    · rw [hc'] at hf
      cases hf
  rw [hflags u hkept] at hf
  obtain ⟨hnr, hncl⟩ := hconv u hf
  simp only [removed_snoc, claimed_snoc, he]
  simp [hnr, hncl, hkept]

end Deliver

/-! ## Every order of delivery -/

def IsDelivered (p : Peer) : Prop := Delivered p.delivered p.catalog

variable {U : List BlockMeta} {d : Delivery}

theorem isDelivered_deliver (hU : History U) {grace : Nat} {p p' : Peer}
    (h : IsDelivered p) (he : d.event.EmittedBy U) (hs : p.deliver grace d = some p') : IsDelivered p' := by
  cases hs
  exact Delivered.apply hU h he

theorem converged_deliver (hU : History U) {grace : Nat} {p p' : Peer}
    (h : IsDelivered p) (he : d.event.EmittedBy U) (hconv : Converged p.delivered p.catalog)
    (hs : p.deliver grace d = some p') : Converged p'.delivered p'.catalog ↔ InsertsInOrder p d := by
  have h' := isDelivered_deliver hU h he hs
  cases hs
  obtain ⟨event, now⟩ := d
  cases event with
  | created m =>
    have hself := hU.closedLineage.acyclic m he
    rw [Delivered.converged_sidecar h h' rfl rfl hself
      (flags_apply_sidecar rfl hself fun _ _ _ heq => by cases heq) hconv]
    simp [InsertsInOrder, BlockEvent.sidecar]
  | superseded inputs m n =>
    have hself := hU.closedLineage.acyclic m he.1
    rw [Delivered.converged_sidecar h h' rfl rfl hself
      (flags_apply_sidecar rfl hself fun _ _ _ heq => by cases heq; exact he.2) hconv]
    simp [InsertsInOrder, BlockEvent.sidecar]
  | softDeleted uuids t n =>
    refine iff_of_true ?_ ?_
    · exact Delivered.converged_removal h h' rfl
        (fun u => (removal_adoptPeerDeletion uuids _ _ u).1)
        (fun u => (removal_adoptPeerDeletion uuids _ _ u).2) hconv
    · intro m hm
      cases hm
  | deleted uuids =>
    refine iff_of_true ?_ ?_
    · exact Delivered.converged_removal h h' rfl (fun u => (removal_deleteBlocks uuids u).1)
        (fun u => (removal_deleteBlocks uuids u).2) hconv
    · intro m hm
      cases hm

theorem run_deliver_some (grace : Nat) (p : Peer) (ds : List Delivery) :
    ∃ p', run (Peer.deliver grace) p ds = some p' := by
  induction ds generalizing p with
  | nil => exact ⟨p, rfl⟩
  | cons d ds ih =>
    rw [run_cons]
    exact ih _

/-- The listing stays right just when no delivery inserts a removed or claimed block without a live claimer.
-/
theorem converged_iff_inserts_in_order (U : List BlockMeta) (hU : History U) (localGrace : Nat) (ds : List Delivery)
    (hds : ∀ d ∈ ds, d.event.EmittedBy U) : (∀ pre p, pre <+: ds → run (Peer.deliver localGrace) Peer.empty pre = some
    p → Converged p.delivered p.catalog) ↔ Meets (Peer.deliver localGrace) InsertsInOrder Peer.empty ds := by
  obtain ⟨p', hrun⟩ := run_deliver_some localGrace Peer.empty ds
  refine forall_prefix_iff_meets (fun _ _ _ h he hs => isDelivered_deliver hU h he hs)
    (fun _ _ _ h he hconv hs => converged_deliver hU h he hconv hs) delivered_empty ?_ hds hrun
  refine (converged_iff delivered_empty).mpr ?_
  intro u hf
  cases hf

def compactionDeliveries : List Delivery :=
  [⟨.created (sampleBlock 1 0 []), 10⟩, ⟨.created (sampleBlock 3 1 [1, 2]), 20⟩, ⟨.created (sampleBlock 2 0 []), 30⟩,
    ⟨.superseded [1, 2] (sampleBlock 3 1 [1, 2]) 0, 40⟩, ⟨.deleted [1, 2], 50⟩, ⟨.softDeleted [2] 45 60, 60⟩]

theorem converged_compactionDeliveries : ∃ p, run (Peer.deliver 5) Peer.empty compactionDeliveries = some p ∧
    Converged p.delivered p.catalog := by
  obtain ⟨p, hp⟩ := run_deliver_some 5 Peer.empty compactionDeliveries
  refine ⟨p, hp, ?_⟩
  exact (converged_iff_inserts_in_order sampleHistory history_sampleHistory 5 compactionDeliveries
    (by simp [compactionDeliveries, BlockEvent.EmittedBy, sampleHistory, sampleBlock])).mpr
    (by decide) compactionDeliveries p (List.prefix_refl _) hp

def listedAfter (ds : List Delivery) : Option (List Uuid) :=
  (run (Peer.deliver 0) Peer.empty ds).map fun p => p.catalog.listBlocks.map fun e => e.blockMeta.uuid

theorem deleted_before_created_listed : listedAfter [⟨.created (sampleBlock 1 0 []), 10⟩, ⟨.deleted [1], 20⟩] = some
    [] ∧ listedAfter [⟨.deleted [1], 20⟩, ⟨.created (sampleBlock 1 0 []), 10⟩] = some [1] := by
  decide

end Scry.Cluster
