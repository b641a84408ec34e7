import Scry.Compact.Plan
import Scry.Lib.Machine

/-! # Retention passes

Peer adoptions, new blocks and crashes come between any two statements of a pass. What a pass has written to the
catalog stays.
-/

open Scry.Lib Scry.Block Scry.Catalog
open Scry.Compact (signalRank)

namespace Scry.Retention

/-! ## Policy -/

def u64Max : Nat := 2 ^ 64 - 1

structure RetentionConfig where
  defaultTtl : Option Nat
  overrides : List (SignalName × Nat)
  grace : Nat
  apply : Bool
  deriving DecidableEq

variable (cfg : RetentionConfig) (s : State) (p : Pass)

def RetentionConfig.ttlFor (signal : SignalName) : Option Nat :=
  (cfg.overrides.lookup signal).or cfg.defaultTtl

def RetentionConfig.expired (now : Nat) (b : CatalogEntry) : Bool :=
  match cfg.ttlFor b.blockMeta.signal with
  | some ttl => b.blockMeta.tsMaxUnixNano < now - min ttl u64Max
  | none => false

def planOrder (a b : CatalogEntry) : Prop :=
  signalRank a.blockMeta.signal < signalRank b.blockMeta.signal ∨
    signalRank a.blockMeta.signal = signalRank b.blockMeta.signal ∧
      (a.date < b.date ∨ a.date = b.date ∧ a.blockMeta.uuid ≤ b.blockMeta.uuid)

instance : DecidableRel planOrder := fun _ _ => inferInstanceAs (Decidable (_ ∨ _ ∧ (_ ∨ _ ∧ _)))

def planReaping (blocks : List CatalogEntry) (cfg : RetentionConfig) (now : Nat) :
    List CatalogEntry :=
  (blocks.filter (cfg.expired now)).insertionSort planOrder

/-! ## One pass -/

inductive Phase where
  /-- `list_pending_deletions`, before anything is staged. -/
  | listing
  /-- The loop of `reap_pending_deletions`; `own` after the pass's own staging. -/
  | reaping (queue : List CatalogEntry) (own : Bool)
  /-- The objects are gone, the row is next. -/
  | dropping (e : CatalogEntry) (queue : List CatalogEntry) (own : Bool)
  /-- Acquire the lease, and the first fence check. -/
  | leasing
  | staging
  /-- The second fence check. -/
  | staged
  deriving DecidableEq

def Phase.queue : Phase → List CatalogEntry
  | reaping queue _ => queue
  | dropping e queue _ => e :: queue
  | _ => []

structure Pass where
  cfg : RetentionConfig
  now : Nat
  expired : List CatalogEntry
  phase : Phase
  deriving DecidableEq

def Pass.eligibleAt : Nat := min (p.now + min p.cfg.grace u64Max) u64Max

def Pass.expiredUuids : List Uuid := p.expired.map fun e => e.blockMeta.uuid

structure State where
  catalog : Catalog
  /-- Every sidecar that was offered to the catalog. -/
  sidecars : List BlockMeta
  /-- Blocks whose objects retention has deleted. -/
  deleted : List Uuid
  pass : Option Pass

def State.start : State := ⟨.empty, [], [], none⟩

def State.row (u : Uuid) : Option Row := s.catalog.blocks.lookup u

inductive Action where
  | insert (m : BlockMeta)
  | adoptPeerDeletion (uuids : List Uuid) (deletedAt eligibleAt : Nat)
  | beginPass (cfg : RetentionConfig) (now : Nat)
  | listPending
  | deleteObjects (ok : Bool)
  | dropRow (ok : Bool)
  | endReap
  | acquire (ok : Bool)
  | stage
  | recheck (held : Bool)
  | crash
  deriving DecidableEq

def passStep : Action → Option State
  | .listPending =>
    match p.phase with
    | .listing =>
      some { s with pass := some { p with
        phase := .reaping (s.catalog.listPendingDeletions p.now) false } }
    | _ => none
  | .deleteObjects ok =>
    match p.phase with
    | .reaping (e :: queue) own =>
      if ok then
        some { s with
          deleted := e.blockMeta.uuid :: s.deleted
          pass := some { p with phase := .dropping e queue own } }
      else some { s with pass := some { p with phase := .reaping queue own } }
    | _ => none
  | .dropRow ok =>
    match p.phase with
    | .dropping e queue own =>
      some { s with
        catalog := if ok then s.catalog.deleteBlocks [e.blockMeta.uuid] else s.catalog
        pass := some { p with phase := .reaping queue own } }
    | _ => none
  | .endReap =>
    match p.phase with
    | .reaping [] own =>
      if own || p.expired.isEmpty then some { s with pass := none }
      else some { s with pass := some { p with phase := .leasing } }
    | _ => none
  | .acquire ok =>
    match p.phase with
    | .leasing =>
      if ok then some { s with pass := some { p with phase := .staging } }
      else some { s with pass := none }
    | _ => none
  | .stage =>
    match p.phase with
    | .staging =>
      some { s with
        catalog := s.catalog.markDeleted p.expiredUuids p.now p.eligibleAt
        pass := some { p with phase := .staged } }
    | _ => none
  | .recheck held =>
    match p.phase with
    | .staged =>
      if p.cfg.grace = 0 ∧ held then
        some { s with pass := some { p with
          phase := .reaping (s.catalog.listPendingDeletions p.now) true } }
      else some { s with pass := none }
    | _ => none
  | _ => none

def step : Action → Option State
  | .insert m =>
    -- A UUID names one sidecar.
    if ∀ x ∈ s.sidecars, x.uuid = m.uuid → x = m then
      some { s with catalog := s.catalog.insertBlock m, sidecars := m :: s.sidecars }
    else none
  | .adoptPeerDeletion uuids deletedAt eligibleAt =>
    some { s with catalog := s.catalog.adoptPeerDeletion uuids deletedAt eligibleAt }
  | .beginPass cfg now =>
    match s.pass with
    | some _ => none
    | none =>
      if cfg.apply then
        some { s with pass := some ⟨cfg, now, planReaping s.catalog.listBlocks cfg now, .listing⟩ }
      else some s
  | .crash => some { s with pass := none }
  | a => s.pass.bind fun p => passStep s p a

/-! ## What a step does -/

inductive Steps (s : State) : Action → State → Prop where
  | insert (m : BlockMeta) (hone : ∀ x ∈ s.sidecars, x.uuid = m.uuid → x = m) :
      Steps s (.insert m)
        { s with catalog := s.catalog.insertBlock m, sidecars := m :: s.sidecars }
  | adopt (uuids : List Uuid) (deletedAt eligibleAt : Nat) :
      Steps s (.adoptPeerDeletion uuids deletedAt eligibleAt)
        { s with catalog := s.catalog.adoptPeerDeletion uuids deletedAt eligibleAt }
  | dryRun (cfg : RetentionConfig) (now : Nat) : Steps s (.beginPass cfg now) s
  | beginPass (cfg : RetentionConfig) (now : Nat) :
      Steps s (.beginPass cfg now)
        { s with pass := some ⟨cfg, now, planReaping s.catalog.listBlocks cfg now, .listing⟩ }
  | listPending (p : Pass) (hp : s.pass = some p) :
      Steps s .listPending { s with pass := some { p with
        phase := .reaping (s.catalog.listPendingDeletions p.now) false } }
  | deleteObjects (p : Pass) (e : CatalogEntry) (queue : List CatalogEntry) (own : Bool)
      (hp : s.pass = some p) (hphase : p.phase = .reaping (e :: queue) own) :
      Steps s (.deleteObjects true) { s with
        deleted := e.blockMeta.uuid :: s.deleted
        pass := some { p with phase := .dropping e queue own } }
  | deleteFailed (p : Pass) (e : CatalogEntry) (queue : List CatalogEntry) (own : Bool)
      (hp : s.pass = some p) (hphase : p.phase = .reaping (e :: queue) own) :
      Steps s (.deleteObjects false)
        { s with pass := some { p with phase := .reaping queue own } }
  | dropRow (p : Pass) (e : CatalogEntry) (queue : List CatalogEntry) (own : Bool)
      (hp : s.pass = some p) (hphase : p.phase = .dropping e queue own) :
      Steps s (.dropRow true) { s with
        catalog := s.catalog.deleteBlocks [e.blockMeta.uuid]
        pass := some { p with phase := .reaping queue own } }
  | dropFailed (p : Pass) (e : CatalogEntry) (queue : List CatalogEntry) (own : Bool)
      (hp : s.pass = some p) (hphase : p.phase = .dropping e queue own) :
      Steps s (.dropRow false) { s with pass := some { p with phase := .reaping queue own } }
  | reapDone (p : Pass) (hp : s.pass = some p) :
      Steps s .endReap { s with pass := some { p with phase := .leasing } }
  | acquired (p : Pass) (hp : s.pass = some p) :
      Steps s (.acquire true) { s with pass := some { p with phase := .staging } }
  | stage (p : Pass) (hp : s.pass = some p) (hphase : p.phase = .staging) :
      Steps s .stage { s with
        catalog := s.catalog.markDeleted p.expiredUuids p.now p.eligibleAt
        pass := some { p with phase := .staged } }
  | reapOwn (p : Pass) (held : Bool) (hp : s.pass = some p) :
      Steps s (.recheck held) { s with pass := some { p with
        phase := .reaping (s.catalog.listPendingDeletions p.now) true } }
  | nothingExpired : Steps s .endReap { s with pass := none }
  | refused : Steps s (.acquire false) { s with pass := none }
  | waiting (held : Bool) : Steps s (.recheck held) { s with pass := none }
  | crash : Steps s .crash { s with pass := none }

theorem passStep_cases {s s' : State} {p : Pass} {a : Action} (hp : s.pass = some p)
    (h : passStep s p a = some s') : Steps s a s' := by
  unfold passStep at h
  split at h
  · split at h
    · cases h
      exact .listPending p hp
    · cases h
  · split at h
    next e queue own hphase =>
      split at h
      next hok =>
        cases h
        subst hok
        exact .deleteObjects p e queue own hp hphase
      next hok =>
        cases h
        rw [Bool.not_eq_true] at hok
        subst hok
        exact .deleteFailed p e queue own hp hphase
    · cases h
  next ok =>
    split at h
    next e queue own hphase =>
      cases h
      cases ok with
      | true => exact .dropRow p e queue own hp hphase
      | false => exact .dropFailed p e queue own hp hphase
    · cases h
  · split at h
    · split at h
      · cases h
        exact .nothingExpired
      · cases h
        exact .reapDone p hp
    · cases h
  next ok =>
    split at h
    · cases ok with
      | true =>
        cases h
        exact .acquired p hp
      | false =>
        cases h
        exact .refused
    · cases h
  · split at h
    next hphase =>
      cases h
      exact .stage p hp hphase
    · cases h
  · split at h
    · split at h
      · cases h
        exact .reapOwn p _ hp
      · cases h
        exact .waiting _
    · cases h
  · cases h

theorem step_cases {s s' : State} {a : Action} (h : step s a = some s') : Steps s a s' := by
  unfold step at h
  split at h
  · split at h
    next hone =>
      cases h
      exact .insert _ hone
    · cases h
  · cases h
    exact .adopt _ _ _
  · split at h
    · cases h
    · split at h
      · cases h
        exact .beginPass _ _
      · cases h
        exact .dryRun _ _
  · cases h
    exact .crash
  · obtain ⟨p, hp, hstep⟩ := Option.bind_eq_some_iff.mp h
    exact passStep_cases hp hstep

/-! ## What a step does to one row -/

/-- Two rows that differ in nothing retention reads. -/
structure Alike (r r' : Row) : Prop where
  signal : r'.signal = r.signal
  tsMax : r'.tsMax = r.tsMax
  deletedAt : r'.deletedAt = r.deletedAt
  deleteEligibleAt : r'.deleteEligibleAt = r.deleteEligibleAt

theorem Alike.refl (r : Row) : Alike r r := ⟨rfl, rfl, rfl, rfl⟩

theorem alike_claimedBy (m : BlockMeta) (r : Row) : Alike r (claimedBy m r) := by
  unfold claimedBy
  split
  · exact ⟨rfl, rfl, rfl, rfl⟩
  · exact .refl r

inductive RowChange (s : State) (a : Action) (u : Uuid) : Option Row → Option Row → Prop where
  | absent : RowChange s a u none none
  | kept {r r' : Row} (halike : Alike r r') : RowChange s a u (some r) (some r')
  | inserted {m : BlockMeta} {r : Row} (ha : a = .insert m) (hm : m.uuid = u)
      (halike : Alike (Row.ofMeta m false) r) : RowChange s a u none (some r)
  | staged {p : Pass} {r : Row} (ha : a = .stage) (hp : s.pass = some p)
      (hphase : p.phase = .staging) (hu : u ∈ p.expiredUuids) :
      RowChange s a u (some r) (some (r.markDeleted p.now (min p.eligibleAt i64Max)))
  | adopted {uuids : List Uuid} {deletedAt eligibleAt : Nat} {r : Row}
      (ha : a = .adoptPeerDeletion uuids deletedAt eligibleAt) (hu : u ∈ uuids)
      (hlive : r.deletedAt = none) :
      RowChange s a u (some r) (some (r.adoptPeerDeletion deletedAt (min eligibleAt i64Max)))
  | dropped {p : Pass} {e : CatalogEntry} {queue : List CatalogEntry} {own : Bool} {r : Row}
      (ha : a = .dropRow true) (hp : s.pass = some p) (hphase : p.phase = .dropping e queue own)
      (hu : e.blockMeta.uuid = u) : RowChange s a u (some r) none

section Rows
variable {s : State} {a : Action} {u : Uuid}

theorem RowChange.same (o : Option Row) : RowChange s a u o o := by
  cases o with
  | none => exact .absent
  | some r => exact .kept (.refl r)

theorem insert_row (m : BlockMeta) :
    RowChange s (.insert m) u (s.row u) ((s.catalog.insertBlock m).blocks.lookup u) := by
  rw [lookup_insertBlock]
  unfold State.row
  cases hl : s.catalog.blocks.lookup u with
  | some r => exact .kept (alike_claimedBy m r)
  | none =>
    rw [Option.none_or]
    split
    next hm =>
      refine .inserted rfl hm ?_
      obtain ⟨h1, h2, h3, h4⟩ := alike_claimedBy m (s.catalog.newRow m)
      exact ⟨h1, h2, h3, h4⟩
    next => exact .absent

theorem adopt_row (uuids : List Uuid) (deletedAt eligibleAt : Nat) :
    RowChange s (.adoptPeerDeletion uuids deletedAt eligibleAt) u (s.row u)
      ((s.catalog.adoptPeerDeletion uuids deletedAt eligibleAt).blocks.lookup u) := by
  rw [lookup_adoptPeerDeletion]
  unfold State.row
  cases hl : s.catalog.blocks.lookup u with
  | none => exact .absent
  | some r =>
    have hu : r.uuid = u := Table.key_of_lookup hl
    rw [Option.map_some]
    split
    next hadopt => exact .adopted rfl (hu ▸ hadopt.1) hadopt.2
    next => exact .kept (.refl r)

theorem stage_row {p : Pass} (hp : s.pass = some p) (hphase : p.phase = .staging) :
    RowChange s .stage u (s.row u)
      ((s.catalog.markDeleted p.expiredUuids p.now p.eligibleAt).blocks.lookup u) := by
  rw [lookup_markDeleted]
  unfold State.row
  cases hl : s.catalog.blocks.lookup u with
  | none => exact .absent
  | some r =>
    have hu : r.uuid = u := Table.key_of_lookup hl
    rw [Option.map_some]
    split
    next hmem => exact .staged rfl hp hphase (hu ▸ hmem)
    next => exact .kept (.refl r)

theorem drop_row {p : Pass} {e : CatalogEntry} {queue : List CatalogEntry} {own : Bool}
    (hp : s.pass = some p) (hphase : p.phase = .dropping e queue own) :
    RowChange s (.dropRow true) u (s.row u)
      ((s.catalog.deleteBlocks [e.blockMeta.uuid]).blocks.lookup u) := by
  rw [lookup_deleteBlocks]
  unfold State.row
  split
  next hmem =>
    cases s.catalog.blocks.lookup u with
    | none => exact .absent
    | some r => exact .dropped rfl hp hphase (List.mem_singleton.mp hmem).symm
  next => exact .same _

theorem step_row {s' : State} (h : Steps s a s') (u : Uuid) : RowChange s a u (s.row u) (s'.row u) := by
  cases h with
  | insert m hone => exact insert_row m
  | adopt uuids deletedAt eligibleAt => exact adopt_row uuids deletedAt eligibleAt
  | stage p hp hphase => exact stage_row hp hphase
  | dropRow p e queue own hp hphase => exact drop_row hp hphase
  | dryRun | beginPass | listPending | deleteObjects | deleteFailed | dropFailed | reapDone
  | acquired | reapOwn | nothingExpired | refused | waiting | crash => exact .same _

end Rows

end Scry.Retention
