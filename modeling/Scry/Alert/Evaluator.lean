import Scry.Alert.Store

/-! # The evaluation of one slot

`evaluate_under_guard` reads the rule and the state, queries, computes the next state and commits it.
The fence, the query and the local database are asked outside of the object store.
-/

namespace Scry.Alert

open Scry.Lib

inductive Fold
  | tombstoneMonitor (id : MonitorId) (revision deletedAtUnixNano : UInt64)
  | rule (rule : Rule)
  | state (id : MonitorId) (state : AlertState)

inductive Outside
  | fence
  | execute (rule : Rule) (slotId slotEndUnixNano : UInt64)
  | fold (record : Fold)

@[reducible] def OutsideAnswer : Outside → Type
  | .fence => Bool
  | .execute _ _ _ => Observation
  | .fold _ => Bool

inductive EvaluationError
  | leaseLost (message : String)
  | store (source : AlertStoreError)
  | database
  | unknownQueryTarget (id : MonitorId) (targetId : String)
  | behind (id : MonitorId) (head projected : UInt64)
  | invalidMonitor
  | firstState
  deriving DecidableEq

inductive SlotOutcome
  | committed (state : AlertState)
  | alreadyCovered (state : AlertState)
  | superseded
  deriving DecidableEq

abbrev EvalM (α : Type) :=
  ObjectStore.Client String Version Document OutsideAnswer EvaluationError α

/-- The surroundings of an execution; `validMonitor` is `validate_monitor`. -/
structure EvaluationContext where
  deploymentId : String
  queryTargets : List String
  validMonitor : Rule → Bool

def liftStore {α : Type} (x : StoreM OutsideAnswer α) : EvalM α := do
  match ← Program.attempt x with
  | .ok a => pure a
  | .error e => throw (.store e)

def checkFence (message : String) : EvalM Unit := do
  let holds : Bool ← ObjectStore.outside Outside.fence
  if holds then pure () else throw (.leaseLost message)

def fold (record : Fold) : EvalM Unit := do
  let taken : Bool ← ObjectStore.outside (Outside.fold record)
  if taken then pure () else throw .database

section

variable (P : Platform) (context : EvaluationContext) (rule : Rule) (slotId slotEnd : UInt64)
  (prior : Option (Versioned StateHead)) (observation : Observation)

/-- The rule's revision is still the durable one; a newer record is folded locally. -/
def ruleIsCurrent : EvalM Bool := do
  match ← Program.attempt (readRuleHead P rule.id) with
  | .error (.missing _) => pure false
  | .error e => throw (.store e)
  | .ok head =>
    if head.value.deleted then do
      fold (.tombstoneMonitor rule.id head.value.revision head.value.updatedAtUnixNano)
      pure false
    else if head.value.revision = rule.revision then pure true
    else if head.value.revision < rule.revision then
      throw (.behind rule.id head.value.revision rule.revision)
    else do
      let newer ← liftStore (readRuleRevision P head.value)
      if context.validMonitor newer.value then do
        fold (.rule newer.value)
        pure false
      else throw .invalidMonitor

/-- The stored state is of a newer revision or covers the slot. -/
def decided (state : AlertState) : Option SlotOutcome :=
  if rule.revision < state.monitorRevision then some .superseded
  else if state.covers rule.revision slotId then some (.alreadyCovered state)
  else none

def observe : EvalM Observation :=
  if rule.enabled then
    if rule.targetId ∈ context.queryTargets then
      ObjectStore.outside (Outside.execute rule slotId slotEnd)
    else throw (.unknownQueryTarget rule.id rule.targetId)
  else pure .noData

def evaluation : AlertState × StateChange :=
  evaluate rule.toMonitor (prior.map (·.value.state)) observation slotId slotEnd

def transitionRecord : TransitionRecord :=
  let (next, change) := evaluation rule slotId slotEnd prior observation
  { schemaVersion := stateRecordSchemaVersion
    deploymentId := context.deploymentId
    monitorId := rule.id
    monitorRevision := rule.revision
    slotId
    evaluatedAtUnixNano := slotEnd
    observation := .ofObservation observation
    previousStatus := change.previous
    resumed := change.resumed
    state := next
    previousTransitionKey := prior.map (·.value.latestTransition.key rule.id)
    notificationIntents := [] }

def transitionOf : Option TransitionRecord :=
  if (evaluation rule slotId slotEnd prior observation).2.transitioned then
    some (transitionRecord context rule slotId slotEnd prior observation)
  else none

def latestTransition (transition : Option TransitionRecord)
    (prior : Option (Versioned StateHead)) : Option TransitionRef :=
  match transition with
  | some record => some (record.reference P)
  | none => prior.map (·.value.latestTransition)

def nextHead (next : AlertState) (latest : TransitionRef) : StateHead where
  schemaVersion := stateRecordSchemaVersion
  deploymentId := context.deploymentId
  monitorId := rule.id
  state := next
  latestTransition := latest
  updatedAtUnixNano := slotEnd

def commitSlot : EvalM SlotOutcome := do
  let next := (evaluation rule slotId slotEnd prior observation).1
  let transition := transitionOf context rule slotId slotEnd prior observation
  match latestTransition P transition prior with
  | none => throw .firstState
  | some latest =>
    let head := nextHead context rule slotEnd next latest
    match ← Program.attempt (commitState P head transition (prior.map (·.version))) with
    | .ok () => do
      fold (.state rule.id next)
      pure (.committed next)
    | .error (.conflict _) => do
      -- A concurrent writer won; what it wrote is folded.
      match ← liftStore (readStateHead P rule.id context.deploymentId) with
      | some winner => fold (.state rule.id winner.value.state)
      | none => pure ()
      pure .superseded
    | .error e => throw (.store e)

def evaluateUnderGuard : EvalM SlotOutcome := do
  checkFence "alert evaluation lease lost before rule read"
  if ← ruleIsCurrent P context rule then do
    let prior ← liftStore (readStateHead P rule.id context.deploymentId)
    match prior.bind fun head => (decided rule slotId head.value.state).map
        fun outcome => (head.value.state, outcome) with
    | some (state, outcome) => do
      fold (.state rule.id state)
      pure outcome
    | none => do
      let observation ← observe context rule slotId slotEnd
      checkFence "alert evaluation lease lost before commit"
      if ← ruleIsCurrent P context rule then
        commitSlot P context rule slotId slotEnd prior observation
      else pure .superseded
  else pure .superseded

end

end Scry.Alert
