import Mathlib.Algebra.GroupWithZero.Nat
import Mathlib.Algebra.Ring.Int.Defs
import Mathlib.Data.Prod.Lex
import Mathlib.Data.List.Basic

/-! # Alert states

One evaluation of a monitor: the monitor, the stored state and the observation of one slot give the
next stored state. A floating-point number is its bit pattern.
-/

namespace Scry.Alert

open Option

/-! ## Monitors -/

structure F64 where
  bits : UInt64
  deriving DecidableEq

namespace F64

variable (x : F64)

def exponent : Nat := x.bits.toNat / 2 ^ 52 % 2 ^ 11

def isNan : Bool := x.exponent == 2047 && x.bits.toNat % 2 ^ 52 != 0

def isFinite : Bool := x.exponent != 2047

/-- The place of a number in the order of all that are not NaN; both zeros are at 0. -/
def rank : Int :=
  if x.bits.toNat < 2 ^ 63 then x.bits.toNat else 2 ^ 63 - x.bits.toNat

def lt (x y : F64) : Bool := !x.isNan && !y.isNan && x.rank < y.rank

def le (x y : F64) : Bool := !x.isNan && !y.isNan && x.rank ≤ y.rank

def eq (x y : F64) : Bool := !x.isNan && !y.isNan && x.rank == y.rank

end F64

inductive Comparator
  | lt
  | lte
  | gt
  | gte
  | eq
  | ne
  deriving DecidableEq

def Comparator.compare (c : Comparator) (value threshold : F64) : Bool :=
  match c with
  | .lt => value.lt threshold
  | .lte => value.le threshold
  | .gt => threshold.lt value
  | .gte => threshold.le value
  | .eq => value.eq threshold
  | .ne => !value.eq threshold

inductive NoDataPolicy
  | noData
  | firing
  deriving DecidableEq

inductive ExecutionErrorPolicy
  | keepLast
  | error
  | firing
  deriving DecidableEq

structure ScalarCondition where
  comparator : Comparator
  threshold : F64
  deriving DecidableEq

structure Monitor where
  revision : UInt64
  enabled : Bool
  condition : ScalarCondition
  forSeconds : UInt64
  recoverForSeconds : UInt64
  noData : NoDataPolicy
  executionError : ExecutionErrorPolicy
  deriving DecidableEq

/-! ## States -/

inductive AlertStatus
  | inactive
  | pending
  | firing
  | recovering
  | noData
  | error
  | disabled
  deriving DecidableEq

namespace AlertStatus

def isHold : AlertStatus → Bool
  | pending | recovering => true
  | _ => false

def isOutage : AlertStatus → Bool
  | noData | error => true
  | _ => false

end AlertStatus

structure InterruptedStatus where
  status : AlertStatus
  sinceUnixNano : UInt64
  deriving DecidableEq

structure AlertState where
  monitorRevision : UInt64
  status : AlertStatus
  sinceUnixNano : UInt64
  lastEvaluatedAtUnixNano : UInt64
  lastSlotId : UInt64
  lastValue : Option F64
  lastErrorClass : Option String
  transitionSequence : UInt64
  stale : Bool
  interrupted : Option InterruptedStatus
  deriving DecidableEq

namespace AlertState

/-- The state's own active status, or the one an outage interrupted. -/
def active (s : AlertState) : Option InterruptedStatus :=
  match s.status with
  | .firing | .recovering => some ⟨s.status, s.sinceUnixNano⟩
  | .noData | .error => s.interrupted
  | _ => none

/-- `(revision, slot_id)`, in the order that tells which evaluation is newer. -/
def slotOf (revision slotId : UInt64) : ℕ ×ₗ ℕ := toLex (revision.toNat, slotId.toNat)

def slot (s : AlertState) : ℕ ×ₗ ℕ := slotOf s.monitorRevision s.lastSlotId

def covers (s : AlertState) (revision slotId : UInt64) : Bool := slotOf revision slotId ≤ s.slot

variable {s : AlertState} {revision slotId : UInt64}

theorem covers_eq_false :
    s.covers revision slotId = false ↔ s.slot < slotOf revision slotId := by
  rw [covers, decide_eq_false_iff_not, not_le]

theorem revision_le_of_slot_lt
    (h : s.slot < slotOf revision slotId) : s.monitorRevision ≤ revision := by
  rw [slot, slotOf, slotOf, Prod.Lex.toLex_lt_toLex] at h
  rw [UInt64.le_iff_toNat_le]
  rcases h with h | h
  · exact h.le
  · exact h.1.le

end AlertState

inductive Observation
  | value (v : F64)
  | noData
  | error (errorClass : String)
  deriving DecidableEq

structure StateChange where
  previous : Option AlertStatus
  current : AlertStatus
  transitioned : Bool
  resumed : Bool
  deriving DecidableEq

/-! ## One evaluation -/

def u64Max : Nat := 2 ^ 64 - 1

/-- Both `saturating_sub` and `saturating_mul`. -/
def heldFor (since now seconds : UInt64) : Bool :=
  min (seconds.toNat * 1000000000) u64Max ≤ now.toNat - since.toNat

variable (monitor : Monitor) (prior sameRevision : Option AlertState) (now : UInt64)

def breachingStatus : AlertStatus :=
  if (prior.bind AlertState.active).isSome || monitor.forSeconds == 0 then .firing
  else
    let pendingSince :=
      ((sameRevision.filter (·.status == .pending)).map AlertState.sinceUnixNano).getD now
    if heldFor pendingSince now monitor.forSeconds then .firing else .pending

def clearStatus : AlertStatus :=
  match prior.bind AlertState.active with
  | none => .inactive
  | some active =>
    if monitor.recoverForSeconds == 0 then .inactive
    else
      let suspended := if sameRevision.isSome then some active else none
      let recoveringSince :=
        ((suspended.filter (·.status == .recovering)).map InterruptedStatus.sinceUnixNano).getD now
      if heldFor recoveringSince now monitor.recoverForSeconds then .inactive else .recovering

def Monitor.breaching (value : F64) : Bool :=
  value.isFinite && monitor.condition.comparator.compare value monitor.condition.threshold

structure Next where
  status : AlertStatus
  value : Option F64
  error : Option String
  stale : Bool
  deriving DecidableEq

def nextStatus
    (observation : Observation) (now : UInt64) : Next :=
  if !monitor.enabled then ⟨.disabled, none, none, false⟩
  else
    match observation with
    | .value value =>
      let status :=
        if monitor.breaching value then breachingStatus monitor prior sameRevision now
        else clearStatus monitor prior sameRevision now
      ⟨status, some value, none, false⟩
    | .noData =>
      let status :=
        match monitor.noData with
        | .noData => .noData
        | .firing => breachingStatus monitor prior sameRevision now
      ⟨status, none, none, true⟩
    | .error errorClass =>
      let status :=
        match monitor.executionError with
        | .keepLast =>
          match prior.map AlertState.status with
          | none | some .disabled => .error
          | some status => status
        | .error => .error
        | .firing => breachingStatus monitor prior sameRevision now
      ⟨status, none, some errorClass, true⟩

/-- `resumed` is the interrupted status that this evaluation returns to. -/
def nextSince (resumed : Option InterruptedStatus)
    (status : AlertStatus) (now : UInt64) : UInt64 :=
  -- A hold only continues under the same revision.
  let keeps := sameRevision.isSome || !status.isHold
  match resumed.filter (fun _ => keeps), prior.filter (·.status == status && keeps) with
  | some active, _ => active.sinceUnixNano
  | none, some state => state.sinceUnixNano
  | none, none => now

/-- The active status that an outage suspended and this evaluation returns to. -/
def resumedStatus (prior : Option AlertState) (status : AlertStatus) : Option InterruptedStatus :=
  ((prior.filter (·.status.isOutage)).bind AlertState.interrupted).filter (·.status == status)

def evaluateSlot (prior : Option AlertState) (observation : Observation)
    (slotId now : UInt64) : AlertState × StateChange :=
  let sameRevision := prior.filter (·.monitorRevision == monitor.revision)
  let previous := prior.map AlertState.status
  let next := nextStatus monitor prior sameRevision observation now
  let resumed := resumedStatus prior next.status
  let transitioned := previous != some next.status
  ({ monitorRevision := monitor.revision
     status := next.status
     sinceUnixNano := nextSince prior sameRevision resumed next.status now
     lastEvaluatedAtUnixNano := now
     lastSlotId := slotId
     lastValue := next.value.or (sameRevision.bind AlertState.lastValue)
     lastErrorClass := next.error
     -- The sum of a release build wraps.
     transitionSequence :=
       (prior.map AlertState.transitionSequence).getD 0 + if transitioned then 1 else 0
     stale := next.stale
     interrupted := if next.status.isOutage then prior.bind AlertState.active else none },
   { previous, current := next.status, transitioned, resumed := transitioned && resumed.isSome })

def evaluate (prior : Option AlertState) (observation : Observation)
    (slotId now : UInt64) : AlertState × StateChange :=
  match prior.filter (·.covers monitor.revision slotId) with
  | some prior => (prior, ⟨some prior.status, prior.status, false, false⟩)
  | none => evaluateSlot monitor prior observation slotId now

/-! ## What one evaluation does -/

section Evaluate

variable {monitor : Monitor} {prior : Option AlertState} {observation : Observation}
  {slotId now : UInt64}

def Uncovered (prior : Option AlertState) (revision slotId : UInt64) : Prop :=
  ∀ s ∈ prior, s.covers revision slotId = false

theorem uncovered_none (revision slotId : UInt64) : Uncovered none revision slotId :=
  fun s h => by cases h

variable {s : AlertState}

theorem evaluate_of_covers (h : s.covers monitor.revision slotId) : evaluate monitor (some s)
    observation slotId now = (s, ⟨some s.status, s.status, false, false⟩) := by
  simp [evaluate, Option.filter, h]

theorem evaluate_of_uncovered (h : Uncovered prior monitor.revision slotId) : evaluate monitor prior observation
    slotId now = evaluateSlot monitor prior observation slotId now := by
  cases prior with
  | none => rfl
  | some s => simp [evaluate, Option.filter, h s rfl]

theorem covers_or_uncovered (prior : Option AlertState) (revision slotId : UInt64) :
    (∃ s, prior = some s ∧ s.covers revision slotId) ∨ Uncovered prior revision slotId := by
  cases prior with
  | none => exact .inr (uncovered_none revision slotId)
  | some s =>
    cases h : s.covers revision slotId with
    | true => exact .inl ⟨s, rfl, h⟩
    | false => exact .inr fun t ht => by cases ht; exact h

theorem evaluate_cases (monitor : Monitor) (prior : Option AlertState) (observation : Observation)
    (slotId now : UInt64) : (∃ s, prior = some s ∧ s.covers monitor.revision slotId ∧ evaluate monitor prior
    observation slotId now = (s, ⟨some s.status, s.status, false, false⟩)) ∨ Uncovered prior monitor.revision slotId ∧
    evaluate monitor prior observation slotId now = evaluateSlot monitor prior observation slotId now := by
  rcases covers_or_uncovered prior monitor.revision slotId with ⟨s, rfl, h⟩ | h
  · exact .inl ⟨s, rfl, h, evaluate_of_covers h⟩
  · exact .inr ⟨h, evaluate_of_uncovered h⟩

theorem slot_le_evaluate (h : prior = some s) :
    s.slot ≤ (evaluate monitor prior observation slotId now).1.slot := by
  rcases evaluate_cases monitor prior observation slotId now with ⟨t, ht, -, he⟩ | ⟨hu, he⟩
  · rw [he]
    cases h.symm.trans ht
    exact le_rfl
  · rw [he]
    exact (AlertState.covers_eq_false.mp (hu s h)).le

theorem evaluate_transitioned : (evaluate monitor prior observation slotId now).2.transitioned = true ↔ prior.map
    AlertState.status ≠ some (evaluate monitor prior observation slotId now).1.status := by
  rcases evaluate_cases monitor prior observation slotId now with ⟨s, rfl, -, he⟩ | ⟨-, he⟩
  · simp [he]
  · rw [he]
    simp [evaluateSlot]

theorem evaluate_transitionSequence :
    (evaluate monitor prior observation slotId now).1.transitionSequence =
      (prior.map AlertState.transitionSequence).getD 0 +
        if (evaluate monitor prior observation slotId now).2.transitioned then 1 else 0 := by
  rcases evaluate_cases monitor prior observation slotId now with ⟨s, rfl, -, he⟩ | ⟨-, he⟩
  · simp [he]
  · rw [he]
    rfl

theorem mem_lastValue_evaluateSlot {v : F64} (h : v ∈ (evaluateSlot monitor prior observation slotId now).1.lastValue)
    : observation = .value v ∨ ∃ s ∈ prior, v ∈ s.lastValue := by
  simp only [evaluateSlot, mem_def, or_eq_some_iff] at h
  rcases h with h | ⟨-, h⟩
  · left
    unfold nextStatus at h
    split at h
    · cases h
    · cases observation with
      | value u => exact congrArg Observation.value (Option.some.inj h)
      | noData => cases h
      | error e => cases h
  · right
    obtain ⟨s, hs, hv⟩ := bind_eq_some_iff.mp h
    exact ⟨s, (filter_eq_some_iff.mp hs).1, hv⟩

theorem evaluate_of_not_transitioned (hprior : prior = some s)
    (h : (evaluate monitor prior observation slotId now).2.transitioned = false) :
    (evaluate monitor prior observation slotId now).1.status = s.status ∧
    (evaluate monitor prior observation slotId now).1.transitionSequence = s.transitionSequence := by
  constructor
  · have hstatus := mt evaluate_transitioned.mpr (Bool.eq_false_iff.mp h)
    rw [not_not, hprior, map_some] at hstatus
    rw [hprior]
    exact (Option.some.inj hstatus).symm
  · rw [evaluate_transitionSequence, h, hprior]
    simp

end Evaluate

/-! ## Interrupted statuses -/

def AlertStatus.isActive : AlertStatus → Bool
  | firing | recovering => true
  | _ => false

namespace AlertState

/-- An interrupted status is active, and there in an outage only. -/
def WellFormed (s : AlertState) : Prop :=
  ∀ a ∈ s.interrupted, s.status.isOutage ∧ a.status.isActive

theorem WellFormed.active {s : AlertState} (h : s.WellFormed) {a : InterruptedStatus}
    (ha : s.active = some a) : a.status.isActive := by
  unfold AlertState.active at ha
  cases hs : s.status with
  | firing | recovering =>
    rw [hs] at ha
    cases ha
    rfl
  | noData | error =>
    rw [hs] at ha
    exact (h a ha).2
  | inactive | pending | disabled =>
    rw [hs] at ha
    cases ha

end AlertState

variable {monitor : Monitor} {now : UInt64} {observation : Observation}
  {prior sameRevision : Option AlertState}

theorem evaluate_wellFormed {slotId : UInt64} (h : ∀ s ∈ prior, s.WellFormed) :
    (evaluate monitor prior observation slotId now).1.WellFormed := by
  rcases evaluate_cases monitor prior observation slotId now with ⟨s, rfl, -, he⟩ | ⟨-, he⟩
  · rw [he]
    exact h s rfl
  · rw [he]
    intro a ha
    simp only [evaluateSlot, mem_def] at ha ⊢
    split at ha
    next hout =>
      obtain ⟨s, hs, ha⟩ := bind_eq_some_iff.mp ha
      exact ⟨hout, (h s hs).active ha⟩
    next => cases ha

/-! ## Timestamps -/

namespace AlertState

structure Timed (s : AlertState) : Prop where
  since : s.sinceUnixNano ≤ s.lastEvaluatedAtUnixNano
  interrupted : ∀ a ∈ s.interrupted, a.sinceUnixNano ≤ s.lastEvaluatedAtUnixNano

theorem Timed.active {s : AlertState} (h : s.Timed) {a : InterruptedStatus}
    (ha : s.active = some a) : a.sinceUnixNano ≤ s.lastEvaluatedAtUnixNano := by
  unfold AlertState.active at ha
  cases hs : s.status with
  | firing | recovering =>
    rw [hs] at ha
    cases ha
    exact h.since
  | noData | error =>
    rw [hs] at ha
    exact h.interrupted a ha
  | inactive | pending | disabled =>
    rw [hs] at ha
    cases ha

end AlertState

variable {status : AlertStatus}

theorem nextSince_le {resumed : Option InterruptedStatus}
    (hp : ∀ s ∈ prior, s.sinceUnixNano ≤ now) (hr : ∀ a ∈ resumed, a.sinceUnixNano ≤ now) :
    nextSince prior sameRevision resumed status now ≤ now := by
  unfold nextSince
  dsimp only
  split
  next active h =>
    exact hr active (filter_eq_some_iff.mp h).1
  next state _ h =>
    exact hp state (filter_eq_some_iff.mp h).1
  next => exact UInt64.le_refl now

theorem mem_of_mem_resumedStatus {a : InterruptedStatus} (h : a ∈ resumedStatus prior status) :
    a.status = status ∧ ∃ s ∈ prior, s.status.isOutage ∧ a ∈ s.interrupted := by
  obtain ⟨ha, hstatus⟩ := filter_eq_some_iff.mp h
  obtain ⟨s, hs, ha⟩ := bind_eq_some_iff.mp ha
  obtain ⟨hs, hout⟩ := filter_eq_some_iff.mp hs
  exact ⟨by simpa using hstatus, s, hs, hout, ha⟩

theorem evaluate_timed {slotId : UInt64} (h : ∀ s ∈ prior, s.Timed ∧ s.lastEvaluatedAtUnixNano ≤ now) :
    (evaluate monitor prior observation slotId now).1.Timed ∧
      (evaluate monitor prior observation slotId now).1.lastEvaluatedAtUnixNano ≤ now := by
  rcases evaluate_cases monitor prior observation slotId now with ⟨s, rfl, -, he⟩ | ⟨-, he⟩
  · rw [he]
    exact h s rfl
  · rw [he]
    refine ⟨⟨?_, ?_⟩, UInt64.le_refl now⟩
    · apply nextSince_le
      · intro s hs
        exact UInt64.le_trans (h s hs).1.since (h s hs).2
      · intro a ha
        obtain ⟨-, s, hs, -, ha⟩ := mem_of_mem_resumedStatus ha
        exact UInt64.le_trans ((h s hs).1.interrupted a ha) (h s hs).2
    · intro a ha
      simp only [evaluateSlot, mem_def] at ha ⊢
      split at ha
      next =>
        obtain ⟨s, hs, ha⟩ := bind_eq_some_iff.mp ha
        exact UInt64.le_trans ((h s hs).1.active ha) (h s hs).2
      next => cases ha

/-! ## Pending and Firing -/

/-- A breaching value, an outage treated as true, or an error that keeps the last status. -/
def Monitor.sustains (monitor : Monitor) : Observation → Bool
  | .value value => monitor.enabled && monitor.breaching value
  | .noData => monitor.enabled && monitor.noData == .firing
  | .error _ => monitor.enabled && monitor.executionError != .error

theorem clearStatus_cases (monitor : Monitor) (prior sameRevision : Option AlertState) (now : UInt64) : clearStatus
    monitor prior sameRevision now = .inactive ∨ clearStatus monitor prior sameRevision now = .recovering := by
  unfold clearStatus
  split
  · exact .inl rfl
  next active _ =>
    split
    · exact .inl rfl
    · dsimp only
      generalize hsince : getD _ now = since
      split
      · exact .inl rfl
      · exact .inr rfl

theorem nextStatus_sustains (h : (nextStatus monitor prior sameRevision observation now).status
    = status) (hs : status = .firing ∨ status = .pending) : monitor.sustains observation ∧
    (status = breachingStatus monitor prior sameRevision now ∨ prior.map AlertState.status = some status) := by
  unfold nextStatus at h
  split at h
  next => simp [← h] at hs
  next hon =>
    have hon : monitor.enabled = true := by simpa using hon
    cases observation with
    | value v =>
      simp only at h
      split at h
      next hb => exact ⟨by simp [Monitor.sustains, hon, hb], .inl h.symm⟩
      next =>
        rcases clearStatus_cases monitor prior sameRevision now with hc | hc <;>
          simp [hc, ← h] at hs
    | noData =>
      simp only at h
      split at h
      next => simp [← h] at hs
      next hb => exact ⟨by simp [Monitor.sustains, hon, hb], .inl h.symm⟩
    | error e =>
      simp only at h
      split at h
      next hb =>
        refine ⟨by simp [Monitor.sustains, hon, hb], .inr ?_⟩
        split at h
        next => simp [← h] at hs
        next => simp [← h] at hs
        next st hp => rw [hp, h]
      next => simp [← h] at hs
      next hb => exact ⟨by simp [Monitor.sustains, hon, hb], .inl h.symm⟩

variable {seconds : UInt64}

theorem heldFor_self (h : 0 < seconds) : heldFor now now seconds = false := by
  have hpos : 0 < seconds.toNat := UInt64.lt_iff_toNat_lt.mp h
  have hmax : 0 < u64Max := by decide
  rw [heldFor, Nat.sub_self, decide_eq_false_iff_not]
  omega

theorem beq_zero_of_pos (h : 0 < seconds) : (seconds == 0) = false := by
  rw [beq_eq_false_iff_ne]
  rintro rfl
  exact absurd h (by decide)

theorem breachingStatus_firing (hfor : 0 < monitor.forSeconds) (hact : prior.bind AlertState.active = none)
    (h : breachingStatus monitor prior sameRevision now = .firing) : ∃ s ∈ sameRevision, s.status = .pending ∧ heldFor
    s.sinceUnixNano now monitor.forSeconds := by
  simp only [breachingStatus, hact, beq_zero_of_pos hfor, isSome_none, Bool.or_self,
    Bool.false_eq_true, if_false] at h
  split at h
  next hheld =>
    cases hp : sameRevision.filter (·.status == .pending) with
    | none =>
      simp only [hp, map_none, getD_none, heldFor_self hfor] at hheld
      cases hheld
    | some s =>
      obtain ⟨hs, hpend⟩ := filter_eq_some_iff.mp hp
      simp only [hp, map_some, getD_some] at hheld
      exact ⟨s, hs, by simpa using hpend, hheld⟩
  next => cases h

end Scry.Alert
