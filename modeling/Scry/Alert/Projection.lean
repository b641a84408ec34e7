import Mathlib.Data.List.MinMax
import Mathlib.Data.List.TakeWhile
import Scry.Alert.Records
import Scry.Lib.Table

/-! # The local projection

A record may come late, twice or not at all, so each fold takes over only what is newer than what it finds.
-/

namespace Scry.Alert

open Scry.Lib List Option Table

/-! ## Tables -/

/-- The columns of the projection; `json` is the text of all fields. -/
structure ProjectedMonitor where
  id : MonitorId
  revision : UInt64
  enabled : Bool
  everySeconds : UInt64
  jitterSeconds : UInt64
  name : String
  updatedAtUnixNano : UInt64
  json : List UInt8
  deriving DecidableEq

structure MonitorRow where
  monitorId : MonitorId
  revision : UInt64
  deleted : Bool
  enabled : Bool
  everySeconds : UInt64
  jitterSeconds : UInt64
  name : String
  updatedAtUnixNano : UInt64
  recordJson : Option (List UInt8)
  localSeq : Nat
  deriving DecidableEq

structure StateRow where
  monitorId : MonitorId
  monitorRevision : UInt64
  lastSlotId : UInt64
  sequence : UInt64
  status : AlertStatus
  stale : Bool
  sinceUnixNano : UInt64
  lastEvaluatedAtUnixNano : UInt64
  stateJson : List UInt8
  deriving DecidableEq

structure AlertsDb where
  monitors : Table MonitorId MonitorRow MonitorRow.monitorId
  currentState : Table MonitorId StateRow StateRow.monitorId
  localSeq : Nat

/-- An INTEGER column is a signed number of 64 bits. -/
def storable (n : UInt64) : Bool := n.toNat < 2 ^ 63

def ProjectedMonitor.storable (m : ProjectedMonitor) : Bool :=
  Alert.storable m.revision && Alert.storable m.everySeconds && Alert.storable m.jitterSeconds &&
    Alert.storable m.updatedAtUnixNano

def AlertState.storable (s : AlertState) : Bool :=
  Alert.storable s.monitorRevision && Alert.storable s.lastSlotId &&
    Alert.storable s.transitionSequence && Alert.storable s.sinceUnixNano &&
    Alert.storable s.lastEvaluatedAtUnixNano

inductive AlertsDbError
  | sqlite
  deriving DecidableEq

/-! ## Folds -/

def liveRow (m : ProjectedMonitor) (seq : Nat) : MonitorRow where
  monitorId := m.id
  revision := m.revision
  deleted := false
  enabled := m.enabled
  everySeconds := m.everySeconds
  jitterSeconds := m.jitterSeconds
  name := m.name
  updatedAtUnixNano := m.updatedAtUnixNano
  recordJson := some m.json
  localSeq := seq

def stateRow (json : AlertState → List UInt8) (id : MonitorId) (s : AlertState) : StateRow where
  monitorId := id
  monitorRevision := s.monitorRevision
  lastSlotId := s.lastSlotId
  sequence := s.transitionSequence
  status := s.status
  stale := s.stale
  sinceUnixNano := s.sinceUnixNano
  lastEvaluatedAtUnixNano := s.lastEvaluatedAtUnixNano
  stateJson := json s

def StateRow.slot (row : StateRow) : ℕ ×ₗ ℕ := AlertState.slotOf row.monitorRevision row.lastSlotId

namespace AlertsDb

variable (json : AlertState → List UInt8)

variable (db : AlertsDb) (id : MonitorId)

def foldRule (m : ProjectedMonitor) : Except AlertsDbError Bool × AlertsDb :=
  let seq := db.localSeq + 1
  if m.storable then
    let newer (row : MonitorRow) : Bool := !row.deleted && row.revision < m.revision
    (.ok ((db.monitors.lookup m.id).all newer),
      { db with
        monitors := db.monitors.upsert (liveRow m seq) newer
          (fun row => { liveRow m seq with monitorId := row.monitorId, deleted := row.deleted })
          fun _ => rfl
        localSeq := seq })
  else (.error .sqlite, { db with localSeq := seq })

/-- The schedule and the name of a live row stay in its tombstone. -/
def tombstoneMonitor (revision deletedAtUnixNano : UInt64) :
    Except AlertsDbError Unit × AlertsDb :=
  let seq := db.localSeq + 1
  if storable revision && storable deletedAtUnixNano then
    (.ok (),
      { monitors := db.monitors.upsert
          { monitorId := id, revision, deleted := true, enabled := false, everySeconds := 0,
            jitterSeconds := 0, name := "", updatedAtUnixNano := deletedAtUnixNano,
            recordJson := none, localSeq := seq }
          (fun row => !row.deleted)
          (fun row => { row with
            revision := max row.revision revision, deleted := true, enabled := false,
            updatedAtUnixNano := deletedAtUnixNano, recordJson := none, localSeq := seq })
          fun _ => rfl
        currentState := db.currentState.deleteWhere (·.monitorId = id)
        localSeq := seq })
  else (.error .sqlite, { db with localSeq := seq })

def foldState (s : AlertState) : Except AlertsDbError Bool × AlertsDb :=
  if s.storable then
    if (db.monitors.lookup id).any (·.deleted) then (.ok false, db)
    else
      let newer (row : StateRow) : Bool := row.slot < s.slot
      (.ok ((db.currentState.lookup id).all newer),
        { db with
          currentState := db.currentState.upsert (stateRow json id s) newer
            (fun row => { stateRow json id s with monitorId := row.monitorId }) fun _ => rfl })
  else (.error .sqlite, db)

end AlertsDb

/-! ## Runs of folds -/

inductive FoldCall
  | rule (m : ProjectedMonitor)
  | tombstone (id : MonitorId) (revision deletedAtUnixNano : UInt64)
  | state (id : MonitorId) (s : AlertState)
  deriving DecidableEq

namespace FoldCall

def id : FoldCall → MonitorId
  | rule m => m.id
  | tombstone id _ _ => id
  | state id _ => id

variable (id : MonitorId)

def deletes : FoldCall → Bool
  | tombstone id' revision deletedAt => id' = id && storable revision && storable deletedAt
  | _ => false

def rule? : FoldCall → Option ProjectedMonitor
  | rule m => if m.id = id ∧ m.storable then some m else none
  | _ => none

def state? : FoldCall → Option AlertState
  | state id' s => if id' = id ∧ s.storable then some s else none
  | _ => none

end FoldCall

namespace AlertsDb

variable (json : AlertState → List UInt8)

def apply (db : AlertsDb) : FoldCall → AlertsDb
  | .rule m => (db.foldRule m).2
  | .tombstone id revision deletedAt => (db.tombstoneMonitor id revision deletedAt).2
  | .state id s => (db.foldState json id s).2

def run (db : AlertsDb) (calls : List FoldCall) : AlertsDb := calls.foldl (apply json) db

end AlertsDb

def MonitorRow.content (row : MonitorRow) : MonitorRow := { row with localSeq := 0 }

def AlertsDb.rows (db : AlertsDb) (id : MonitorId) : Option MonitorRow × Option StateRow :=
  ((db.monitors.lookup id).map MonitorRow.content, db.currentState.lookup id)

variable (id : MonitorId) (calls : List FoldCall)

def newestRule : Option ProjectedMonitor :=
  (calls.filterMap (FoldCall.rule? id)).argmax (·.revision.toNat)

def newestState : Option AlertState :=
  (calls.filterMap (FoldCall.state? id)).argmax AlertState.slot

def deletedRow (revision deletedAtUnixNano : UInt64) (m : Option ProjectedMonitor) : MonitorRow where
  monitorId := id
  revision := (m.map fun m => max m.revision revision).getD revision
  deleted := true
  enabled := false
  everySeconds := (m.map (·.everySeconds)).getD 0
  jitterSeconds := (m.map (·.jitterSeconds)).getD 0
  name := (m.map (·.name)).getD ""
  updatedAtUnixNano := deletedAtUnixNano
  recordJson := none
  localSeq := 0

/-! ## Before a tombstone -/

section Live

variable {json : AlertState → List UInt8} {id : MonitorId} {db : AlertsDb} {calls : List FoldCall}

def takeNewer {α β : Type} [LinearOrder β] (f : α → β) : Option α → α → Option α
  | none, a => some a
  | some b, a => if f b < f a then some a else some b

theorem argmax_filterMap_concat {α β : Type} [LinearOrder β] (g : FoldCall → Option α) (f : α → β)
    (c : FoldCall) :
    ((calls ++ [c]).filterMap g).argmax f = match g c with
      | none => (calls.filterMap g).argmax f
      | some a => takeNewer f ((calls.filterMap g).argmax f) a := by
  rw [filterMap_append]
  cases h : g c with
  | none => simp [h]
  | some a =>
    rw [show [c].filterMap g = [a] by simp [h], argmax_concat]
    cases (calls.filterMap g).argmax f <;> rfl

def liveRows (json : AlertState → List UInt8) (id : MonitorId) (calls : List FoldCall) :
    Option MonitorRow × Option StateRow :=
  ((newestRule id calls).map (liveRow · 0), (newestState id calls).map (stateRow json id))

variable {c : FoldCall} {m : ProjectedMonitor}

theorem rule?_eq_some (h : c.rule? id = some m) :
    c = .rule m ∧ m.id = id ∧ m.storable = true := by
  cases c with
  | rule m' =>
    obtain ⟨hm, heq⟩ := ite_none_right_eq_some.mp h
    cases heq
    exact ⟨rfl, hm⟩
  | tombstone id' revision deletedAt => cases h
  | state id' s => cases h

variable {s : AlertState}

theorem state?_eq_some (h : c.state? id = some s) :
    c = .state id s ∧ s.storable = true := by
  cases c with
  | state id' s' =>
    obtain ⟨⟨rfl, hs⟩, heq⟩ := ite_none_right_eq_some.mp h
    cases heq
    exact ⟨rfl, hs⟩
  | tombstone id' revision deletedAt => cases h
  | rule m => cases h

theorem rows_apply_other (hrule : c.rule? id = none) (hstate : c.state? id = none)
    (hdel : c.deletes id = false) : (db.apply json c).rows id = db.rows id := by
  cases c with
  | rule m =>
    simp only [AlertsDb.apply, AlertsDb.foldRule]
    by_cases hm : m.storable
    · have hid : m.id ≠ id := by
        rintro rfl
        rw [FoldCall.rule?, if_pos ⟨rfl, hm⟩] at hrule
        cases hrule
      rw [if_pos hm]
      simp only [AlertsDb.rows]
      rw [lookup_upsert_other (show (liveRow m _).monitorId ≠ id from hid)]
    · rw [if_neg hm]
      rfl
  | tombstone id' revision deletedAt =>
    simp only [AlertsDb.apply, AlertsDb.tombstoneMonitor]
    by_cases hstor : storable revision && storable deletedAt
    · have hid : id' ≠ id := by
        rintro rfl
        simp only [FoldCall.deletes, decide_true, Bool.true_and] at hdel
        rw [hstor] at hdel
        cases hdel
      rw [if_pos hstor]
      simp only [AlertsDb.rows]
      rw [lookup_upsert_other hid, lookup_deleteKey, if_neg hid.symm]
    · rw [if_neg hstor]
      rfl
  | state id' s =>
    simp only [AlertsDb.apply, AlertsDb.foldState]
    by_cases hs : s.storable
    · have hid : id' ≠ id := by
        rintro rfl
        rw [FoldCall.state?, if_pos ⟨rfl, hs⟩] at hstate
        cases hstate
      rw [if_pos hs]
      split
      · rfl
      · simp only [AlertsDb.rows]
        rw [lookup_upsert_other (show (stateRow json id' s).monitorId ≠ id from hid)]
    · rw [if_neg hs]

theorem content_eq_live {row : MonitorRow} (h : row.content = liveRow m 0) :
    row.monitorId = m.id ∧ row.deleted = false ∧ row.revision = m.revision :=
  ⟨congrArg MonitorRow.monitorId h, congrArg MonitorRow.deleted h, congrArg MonitorRow.revision h⟩

theorem rows_foldRule (hm : m.storable) (hid : m.id = id) {newest : Option ProjectedMonitor}
    {state : Option StateRow} (h : db.rows id = (newest.map (liveRow · 0), state)) : (db.apply json (.rule m)).rows id
    = ((takeNewer (·.revision.toNat) newest m).map (liveRow · 0), state) := by
  obtain ⟨hrow, hstate⟩ := Prod.mk.inj h
  simp only [AlertsDb.apply, AlertsDb.foldRule, if_pos hm, AlertsDb.rows]
  rw [lookup_upsert_self (show (liveRow m _).monitorId = id from hid), hstate, map_some]
  congr 1
  cases hl : db.monitors.lookup id with
  | none =>
    rw [hl] at hrow
    obtain rfl : newest = none := map_eq_none_iff.mp hrow.symm
    rfl
  | some row =>
    rw [hl] at hrow
    obtain ⟨x, rfl, hx⟩ := map_eq_some_iff.mp hrow.symm
    obtain ⟨_, hlive, hrev⟩ := content_eq_live hx.symm
    have hrowid : row.monitorId = m.id := (key_of_lookup hl).trans hid.symm
    simp only [hlive, Bool.not_false, Bool.true_and, hrev, decide_eq_true_eq, UInt64.lt_iff_toNat_lt, takeNewer]
    split
    · rw [hrowid]
      rfl
    · exact congrArg some hx.symm

theorem rows_foldState (hs : s.storable) {newest : Option AlertState} {row : Option MonitorRow}
    (hrow : ∀ r ∈ row, r.deleted = false) (h : db.rows id = (row, newest.map (stateRow json id))) :
    (db.apply json (.state id s)).rows id = (row, (takeNewer AlertState.slot newest s).map (stateRow json id)) := by
  obtain ⟨hmon, hstate⟩ := Prod.mk.inj h
  have hlive : (db.monitors.lookup id).any (·.deleted) = false := by
    cases hl : db.monitors.lookup id with
    | none => rfl
    | some r =>
      rw [hl] at hmon
      exact hrow r.content hmon.symm
  simp only [AlertsDb.apply, AlertsDb.foldState, if_pos hs, hlive, Bool.false_eq_true, if_false, AlertsDb.rows]
  rw [lookup_upsert_self (show (stateRow json id s).monitorId = id from rfl), hmon, hstate]
  congr 1
  cases newest with
  | none => rfl
  | some x =>
    dsimp only [map_some, takeNewer]
    rw [show (stateRow json id x).slot = x.slot from rfl]
    by_cases hlt : x.slot < s.slot
    · rw [if_pos (decide_eq_true hlt), if_pos hlt]
      rfl
    · rw [if_neg (by simpa using hlt), if_neg hlt]
      rfl

theorem rows_run_live (h₀ : db.rows id = (none, none)) (hlive : ∀ c ∈ calls, c.deletes id = false) :
    (db.run json calls).rows id = liveRows json id calls := by
  induction calls using reverseRecOn with
  | nil => exact h₀
  | append_singleton calls c ih =>
    have hrows := ih fun c hc => hlive c (mem_append_left _ hc)
    have hc := hlive c (by simp)
    rw [AlertsDb.run, foldl_append, foldl_cons, foldl_nil, ← AlertsDb.run]
    unfold liveRows newestRule newestState at hrows ⊢
    rw [argmax_filterMap_concat, argmax_filterMap_concat]
    cases hrule : c.rule? id with
    | some m =>
      obtain ⟨rfl, hid, hm⟩ := rule?_eq_some hrule
      rw [rows_foldRule hm hid hrows]
      rfl
    | none =>
      cases hstate : c.state? id with
      | some s =>
        obtain ⟨rfl, hs⟩ := state?_eq_some hstate
        refine rows_foldState hs (fun r hr => ?_) hrows
        obtain ⟨m, -, rfl⟩ := map_eq_some_iff.mp hr
        rfl
      | none => rw [rows_apply_other hrule hstate hc, hrows]

end Live

/-! ## After a tombstone -/

section Deleted

variable {json : AlertState → List UInt8} {id : MonitorId} {db : AlertsDb} {calls : List FoldCall}

theorem rows_tombstone {revision deletedAt : UInt64} (hc : (FoldCall.tombstone id revision deletedAt).deletes id)
    (h : db.rows id = liveRows json id calls) : (db.apply json (.tombstone id revision deletedAt)).rows id =
    (some (deletedRow id revision deletedAt (newestRule id calls)), none) := by
  obtain ⟨hrow, -⟩ := Prod.mk.inj h
  have hstor : (storable revision && storable deletedAt) = true := by
    simpa [FoldCall.deletes] using hc
  simp only [AlertsDb.apply, AlertsDb.tombstoneMonitor, if_pos hstor, AlertsDb.rows]
  rw [lookup_deleteKey, if_pos rfl, lookup_upsert_self rfl, map_some]
  congr 2
  cases hl : db.monitors.lookup id with
  | none =>
    rw [hl] at hrow
    rw [map_eq_none_iff.mp hrow.symm]
    rfl
  | some row =>
    rw [hl] at hrow
    obtain ⟨m, hm, hx⟩ := map_eq_some_iff.mp hrow.symm
    obtain ⟨-, hlive, hrev⟩ := content_eq_live hx.symm
    have hid : row.monitorId = id := key_of_lookup hl
    rw [hm]
    simp only [hlive, Bool.not_false, if_true]
    have hevery : row.everySeconds = m.everySeconds := congrArg MonitorRow.everySeconds hx.symm
    have hjitter : row.jitterSeconds = m.jitterSeconds := congrArg MonitorRow.jitterSeconds hx.symm
    have hname : row.name = m.name := congrArg MonitorRow.name hx.symm
    simp [MonitorRow.content, deletedRow, hid, hrev, hevery, hjitter, hname]

variable {row : MonitorRow}

theorem rows_apply_deleted (hdeleted : row.deleted = true) (h : db.rows id = (some row, none))
    (c : FoldCall) : (db.apply json c).rows id = (some row, none) := by
  obtain ⟨hrow, hstate⟩ := Prod.mk.inj h
  obtain ⟨stored, hstored, hcont⟩ := map_eq_some_iff.mp hrow
  have hd : stored.deleted = true := (congrArg MonitorRow.deleted hcont).trans hdeleted
  cases hdel : c.deletes id with
  | true =>
    cases c with
    | tombstone id' revision deletedAt =>
      simp only [FoldCall.deletes, Bool.and_eq_true, decide_eq_true_eq] at hdel
      obtain ⟨⟨rfl, hr⟩, ha⟩ := hdel
      simp only [AlertsDb.apply, AlertsDb.tombstoneMonitor, hr, ha, Bool.and_self, if_true, AlertsDb.rows]
      rw [lookup_deleteKey, if_pos rfl, lookup_upsert_self rfl]
      simp [hstored, hd, hcont]
    | rule m => cases hdel
    | state id' s => cases hdel
  | false =>
    cases hrule : c.rule? id with
    | some m =>
      obtain ⟨rfl, hid, hm⟩ := rule?_eq_some hrule
      simp only [AlertsDb.apply, AlertsDb.foldRule, if_pos hm, AlertsDb.rows]
      rw [lookup_upsert_self (show (liveRow m _).monitorId = id from hid), hstate]
      simp [hstored, hd, hcont]
    | none =>
      cases hs : c.state? id with
      | some s =>
        obtain ⟨rfl, hstor⟩ := state?_eq_some hs
        simp only [AlertsDb.apply, AlertsDb.foldState, if_pos hstor, hstored, any_some, hd, if_true]
        exact h
      | none => rw [rows_apply_other hrule hs hdel, h]

theorem rows_run_deleted (hdel : row.deleted = true)
    (h : db.rows id = (some row, none)) : (db.run json calls).rows id = (some row, none) := by
  induction calls generalizing db with
  | nil => exact h
  | cons c calls ih => exact ih (rows_apply_deleted hdel h c)

def beforeTombstone (id : MonitorId) (calls : List FoldCall) : List FoldCall :=
  calls.takeWhile fun c => !c.deletes id

theorem rows_run_tombstone (h₀ : db.rows id = (none, none)) (hdeleted : ∃ c ∈ calls, c.deletes id = true) : ∃ revision
    deletedAt, FoldCall.tombstone id revision deletedAt ∈ calls ∧ (FoldCall.tombstone id revision deletedAt).deletes
    id = true ∧ (db.run json calls).rows id = (some (deletedRow id revision deletedAt
    (newestRule id (beforeTombstone id calls))), none) := by
  have hsplit := takeWhile_append_dropWhile (p := fun c => !FoldCall.deletes id c) (l := calls)
  cases hrest : calls.dropWhile fun c => !FoldCall.deletes id c with
  | nil =>
    obtain ⟨c, hc, hdel⟩ := hdeleted
    have := dropWhile_eq_nil_iff.mp hrest c hc
    rw [hdel] at this
    cases this
  | cons c rest =>
    have hc : c.deletes id = true := by
      have := head_dropWhile_not (fun c => !FoldCall.deletes id c) (l := calls) (by rw [hrest]; simp)
      simpa [hrest] using this
    rw [hrest] at hsplit
    cases c with
    | tombstone id' revision deletedAt =>
      obtain rfl : id' = id := by
        simp only [FoldCall.deletes, Bool.and_eq_true, decide_eq_true_eq] at hc
        exact hc.1.1
      refine ⟨revision, deletedAt, ?_, hc, ?_⟩
      · rw [← hsplit]
        simp
      · have hlive : ∀ c ∈ beforeTombstone id' calls, c.deletes id' = false := by
          intro c hmem
          simpa using mem_takeWhile_imp hmem
        conv_lhs => rw [← hsplit]
        rw [AlertsDb.run, foldl_append, foldl_cons]
        refine rows_run_deleted rfl ?_
        exact rows_tombstone hc (rows_run_live h₀ hlive)
    | rule m => cases hc
    | state id' s => cases hc

end Deleted

/-! ## Any order, any repetition -/

/-- One body per live revision, at most one tombstone, the newest record, and states of different slots. -/
structure History (id : MonitorId) (calls : List FoldCall) : Prop where
  body : ∀ m m', .rule m ∈ calls → .rule m' ∈ calls → m.id = id → m'.id = id →
    m.revision = m'.revision → m = m'
  tombstone : ∀ revision deletedAt revision' deletedAt', .tombstone id revision deletedAt ∈ calls →
    .tombstone id revision' deletedAt' ∈ calls → revision = revision' ∧ deletedAt = deletedAt'
  last : ∀ m revision deletedAt, .rule m ∈ calls → m.id = id →
    .tombstone id revision deletedAt ∈ calls → m.revision ≤ revision
  states : ∀ s s', .state id s ∈ calls → .state id s' ∈ calls → s.slot = s'.slot → s = s'

def keptColumns (id : MonitorId) (calls : List FoldCall) : UInt64 × UInt64 × String :=
  ((newestRule id (beforeTombstone id calls)).map fun m =>
    (m.everySeconds, m.jitterSeconds, m.name)).getD (0, 0, "")

def tombstoneRow (id : MonitorId) (revision deletedAtUnixNano : UInt64)
    (columns : UInt64 × UInt64 × String) : MonitorRow where
  monitorId := id
  revision
  deleted := true
  enabled := false
  everySeconds := columns.1
  jitterSeconds := columns.2.1
  name := columns.2.2
  updatedAtUnixNano := deletedAtUnixNano
  recordJson := none
  localSeq := 0

section Converge

variable {json : AlertState → List UInt8} {id : MonitorId} {db : AlertsDb}
  {calls calls' : List FoldCall}

theorem argmax_congr {α β : Type} [LinearOrder β] {f : α → β} {l l' : List α} (hmem : ∀ a, a ∈ l ↔ a ∈ l')
    (hinj : ∀ a ∈ l, ∀ b ∈ l, f a = f b → a = b) : l.argmax f = l'.argmax f := by
  cases h : l.argmax f with
  | none =>
    rw [argmax_eq_none] at h
    symm
    rw [argmax_eq_none]
    refine eq_nil_iff_forall_not_mem.mpr fun a ha => ?_
    have hnil := (hmem a).mpr ha
    rw [h] at hnil
    cases hnil
  | some a =>
    have ha : a ∈ l := argmax_mem h
    cases h' : l'.argmax f with
    | none =>
      rw [argmax_eq_none] at h'
      have hnil := (hmem a).mp ha
      rw [h'] at hnil
      cases hnil
    | some b =>
      have hb : b ∈ l := (hmem b).mpr (argmax_mem h')
      have hle := le_of_mem_argmax hb h
      have hge := le_of_mem_argmax ((hmem a).mp ha) h'
      rw [hinj a ha b hb (le_antisymm hge hle)]

theorem mem_rules {m : ProjectedMonitor} (h : m ∈ calls.filterMap (FoldCall.rule? id)) :
    .rule m ∈ calls ∧ m.id = id := by
  obtain ⟨c, hc, hm⟩ := mem_filterMap.mp h
  obtain ⟨rfl, hid, -⟩ := rule?_eq_some hm
  exact ⟨hc, hid⟩

theorem mem_states {s : AlertState} (h : s ∈ calls.filterMap (FoldCall.state? id)) : .state id s ∈ calls := by
  obtain ⟨c, hc, hs⟩ := mem_filterMap.mp h
  obtain ⟨rfl, -⟩ := state?_eq_some hs
  exact hc

def SameRecords (id : MonitorId) (calls calls' : List FoldCall) : Prop :=
  ∀ c : FoldCall, c.id = id → (c ∈ calls ↔ c ∈ calls')

theorem SameRecords.filterMap (hsame : SameRecords id calls calls') {α : Type} {g : FoldCall → Option α}
    (hg : ∀ c a, g c = some a → c.id = id) (a : α) : a ∈ calls.filterMap g ↔ a ∈ calls'.filterMap g := by
  simp only [mem_filterMap]
  constructor
  · rintro ⟨c, hc, ha⟩
    exact ⟨c, (hsame c (hg c a ha)).mp hc, ha⟩
  · rintro ⟨c, hc, ha⟩
    exact ⟨c, (hsame c (hg c a ha)).mpr hc, ha⟩

theorem liveRows_congr (hhist : History id calls) (hsame : SameRecords id calls calls') :
    liveRows json id calls = liveRows json id calls' := by
  have hrule : newestRule id calls = newestRule id calls' := by
    refine argmax_congr (hsame.filterMap fun c m hm => ?_) fun m hm m' hm' heq => ?_
    · obtain ⟨rfl, hid, -⟩ := rule?_eq_some hm
      exact hid
    · obtain ⟨hmem, hid⟩ := mem_rules hm
      obtain ⟨hmem', hid'⟩ := mem_rules hm'
      exact hhist.body m m' hmem hmem' hid hid' (UInt64.toNat_inj.mp heq)
  have hstate : newestState id calls = newestState id calls' := by
    refine argmax_congr (hsame.filterMap fun c s hs => ?_) fun s hs s' hs' heq => ?_
    · obtain ⟨rfl, -⟩ := state?_eq_some hs
      rfl
    · exact hhist.states s s' (mem_states hs) (mem_states hs') heq
  rw [liveRows, liveRows, hrule, hstate]

theorem id_of_deletes {c : FoldCall} (h : c.deletes id = true) : c.id = id := by
  cases c with
  | tombstone id' revision deletedAt =>
    simp only [FoldCall.deletes, Bool.and_eq_true, decide_eq_true_eq] at h
    exact h.1.1
  | rule m => cases h
  | state id' s => cases h

variable {revision deletedAt : UInt64}

theorem deletedRow_eq (hlast : ∀ m, .rule m ∈ calls → m.id = id → m.revision ≤ revision)
    : deletedRow id revision deletedAt (newestRule id (beforeTombstone id calls)) = tombstoneRow id revision deletedAt
    (keptColumns id calls) := by
  unfold keptColumns
  cases hnew : newestRule id (beforeTombstone id calls) with
  | none => rfl
  | some m =>
    obtain ⟨hmem, hid⟩ := mem_rules (argmax_mem hnew)
    have hle := hlast m (takeWhile_subset _ hmem) hid
    have hmax : max m.revision revision = revision := if_pos hle
    simp [deletedRow, tombstoneRow, hmax]

theorem tombstoneRow_inj {columns columns' : UInt64 × UInt64 × String}
    (h : tombstoneRow id revision deletedAt columns = tombstoneRow id revision deletedAt columns') :
    columns = columns' := by
  have hevery := congrArg MonitorRow.everySeconds h
  have hjitter := congrArg MonitorRow.jitterSeconds h
  have hname := congrArg MonitorRow.name h
  exact Prod.ext hevery (Prod.ext hjitter hname)

theorem rows_run_history (hhist : History id calls) (h₀ : db.rows id = (none, none))
    (hdel : ∃ c ∈ calls, c.deletes id = true) : ∃ revision deletedAt, .tombstone id revision deletedAt ∈ calls ∧
    (db.run json calls).rows id = (some (tombstoneRow id revision deletedAt (keptColumns id calls)), none) := by
  obtain ⟨revision, deletedAt, hmem, -, hrows⟩ := rows_run_tombstone h₀ hdel
  rw [deletedRow_eq fun m hm hid => hhist.last m revision deletedAt hm hid hmem] at hrows
  exact ⟨revision, deletedAt, hmem, hrows⟩

theorem History.of_same (hhist : History id calls) (hsame : SameRecords id calls calls') : History id calls' where
  body m m' hm hm' hid hid' :=
    hhist.body m m' ((hsame (.rule m) hid).mpr hm) ((hsame (.rule m') hid').mpr hm') hid hid'
  tombstone r a r' a' h h' :=
    hhist.tombstone r a r' a' ((hsame _ rfl).mpr h) ((hsame _ rfl).mpr h')
  last m r a hm hid h :=
    hhist.last m r a ((hsame (.rule m) hid).mpr hm) hid ((hsame _ rfl).mpr h)
  states s s' h h' := hhist.states s s' ((hsame _ rfl).mpr h) ((hsame _ rfl).mpr h')

end Converge

/-- **Convergence.** In any order the rows are those of the newest records, or a deleted row without state.
Two orders agree just if there is no tombstone or it kept the same schedule and name in both. -/
theorem projection_converges_iff (json : AlertState → List UInt8) (id : MonitorId) (db db' : AlertsDb)
    (calls calls' : List FoldCall) (hdb : db.rows id = (none, none)) (hdb' : db'.rows id = (none, none))
    (hhistory : History id calls) (hsame : SameRecords id calls calls') :
    ((∀ c ∈ calls, c.deletes id = false) → (db.run json calls).rows id = liveRows json id calls) ∧
    ((∃ c ∈ calls, c.deletes id = true) → ∃ revision deletedAt, .tombstone id revision deletedAt ∈ calls ∧
    (db.run json calls).rows id = (some (tombstoneRow id revision deletedAt (keptColumns id calls)), none)) ∧
    ((db.run json calls).rows id = (db'.run json calls').rows id ↔ (∀ c ∈ calls, c.deletes id = false) ∨ keptColumns
    id calls = keptColumns id calls') := by
  refine ⟨rows_run_live hdb, rows_run_history hhistory hdb, ?_⟩
  by_cases hlive : ∀ c ∈ calls, c.deletes id = false
  · have hlive' : ∀ c ∈ calls', c.deletes id = false := by
      intro c hc
      by_contra hdel
      have hdel : c.deletes id = true := by simpa using hdel
      have hfalse := hlive c ((hsame c (id_of_deletes hdel)).mpr hc)
      rw [hdel] at hfalse
      cases hfalse
    rw [rows_run_live hdb hlive, rows_run_live hdb' hlive', liveRows_congr hhistory hsame]
    exact ⟨fun _ => .inl hlive, fun _ => rfl⟩
  · have hdeleted : ∃ c ∈ calls, c.deletes id = true := by simpa using hlive
    obtain ⟨c, hc, hdel⟩ := hdeleted
    have hc' := (hsame c (id_of_deletes hdel)).mp hc
    obtain ⟨revision, deletedAt, hmem, hrows⟩ := rows_run_history hhistory hdb ⟨c, hc, hdel⟩
    obtain ⟨revision', deletedAt', hmem', hrows'⟩ :=
      rows_run_history (hhistory.of_same hsame) hdb' ⟨c, hc', hdel⟩
    obtain ⟨rfl, rfl⟩ := hhistory.tombstone revision deletedAt revision' deletedAt' hmem
      ((hsame _ rfl).mpr hmem')
    rw [hrows, hrows']
    constructor
    · intro heq
      exact .inr (tombstoneRow_inj (some.inj (Prod.mk.inj heq).1))
    · intro hor
      rw [hor.resolve_left hlive]

/-! ## A tombstone before its rule -/

def emptyDb : AlertsDb := ⟨.empty, .empty, 0⟩

def namedRule : ProjectedMonitor := ⟨7, 1, true, 60, 5, "cpu", 1, []⟩

theorem history_namedRule : History 7 [.rule namedRule, .tombstone 7 1 2] where
  body m m' hm hm' _ _ _ := by simp_all
  tombstone r a r' a' h h' := by simp_all
  last m r a hm _ h := by
    simp only [mem_cons, FoldCall.rule.injEq, reduceCtorEq, not_mem_nil, or_false,
      FoldCall.tombstone.injEq, true_and, false_or] at hm h
    rw [hm, h.1]
    decide
  states s s' h _ _ := by simp at h

theorem projection_converges_iff_repeated : History 7 [.rule namedRule, .tombstone 7 1 2] ∧
    (emptyDb.run (fun _ => []) [.rule namedRule, .tombstone 7 1 2]).rows 7 =
    (emptyDb.run (fun _ => []) [.rule namedRule, .tombstone 7 1 2, .rule namedRule]).rows 7 := by
  refine ⟨history_namedRule, (projection_converges_iff (fun _ => []) 7 emptyDb emptyDb _ _ rfl rfl
    history_namedRule fun c _ => ?_).2.2.mpr (.inr (by decide +kernel))⟩
  simp only [mem_cons, not_mem_nil, or_false]
  tauto

/-- The row keeps schedule and name just where the rule came first. -/
theorem tombstone_keeps_schedule : History 7 [.rule namedRule, .tombstone 7 1 2] ∧ SameRecords 7
    [.rule namedRule, .tombstone 7 1 2] [.tombstone 7 1 2, .rule namedRule] ∧
    (emptyDb.run (fun _ => []) [.rule namedRule, .tombstone 7 1 2]).rows 7 ≠
    (emptyDb.run (fun _ => []) [.tombstone 7 1 2, .rule namedRule]).rows 7 := by
  refine ⟨history_namedRule, fun c _ => ?_, by decide +kernel⟩
  simp only [mem_cons, not_mem_nil, or_false]
  tauto

end Scry.Alert
