import Scry.Alert.State
import Scry.Lib.Digits

/-! # Alert records

A document is a JSON text; two records have the same text if and only if they have the same document.
-/

namespace Scry.Alert

open List

abbrev Uuid := BitVec 128

abbrev MonitorId := Uuid

abbrev NotificationTargetId := Uuid

abbrev LogicalSecretId := Uuid

/-! ## Texts -/

def hexDigits (count n : Nat) : List Char :=
  (range count).map fun i => Nat.digitChar (n / 16 ^ (count - 1 - i) % 16)

variable (P : Platform) (kind : Kind) (id : Uuid) (commandId : String) (targetId : NotificationTargetId)
   (logicalId : LogicalSecretId) (revision : UInt64) (n : UInt64)

def uuidText : String :=
  String.ofList (hexDigits 8 (id.toNat / 2 ^ 96)) ++ "-" ++
    String.ofList (hexDigits 4 (id.toNat / 2 ^ 80)) ++ "-" ++
    String.ofList (hexDigits 4 (id.toNat / 2 ^ 64)) ++ "-" ++
    String.ofList (hexDigits 4 (id.toNat / 2 ^ 48)) ++ "-" ++ String.ofList (hexDigits 12 id.toNat)

def padded : String :=
  String.ofList ((range 20).map fun i => Nat.digitChar (n.toNat / 10 ^ (19 - i) % 10))

@[simp] theorem length_uuidText : (uuidText id).toList.length = 36 := by
  simp [uuidText, hexDigits]

theorem uuidText_inj {id id' : Uuid} (h : uuidText id = uuidText id') : id = id' := by
  unfold uuidText at h
  simp only [← String.toList_inj, String.toList_append, String.toList_ofList, append_assoc] at h
  have hdigits : ∀ count n, (hexDigits count n).length = count := Lib.length_digits 16
  obtain ⟨h₁, h⟩ := append_inj h (by simp only [hdigits])
  obtain ⟨h₂, h⟩ := append_inj (append_cancel_left h) (by simp only [hdigits])
  obtain ⟨h₃, h⟩ := append_inj (append_cancel_left h) (by simp only [hdigits])
  obtain ⟨h₄, h⟩ := append_inj (append_cancel_left h) (by simp only [hdigits])
  have h₅ := append_cancel_left h
  have hmod : ∀ {count n m : Nat}, hexDigits count n = hexDigits count m →
      n % 16 ^ count = m % 16 ^ count := Lib.mod_pow_of_digits (by decide) (by decide)
  have e₁ := hmod h₁
  have e₂ := hmod h₂
  have e₃ := hmod h₃
  have e₄ := hmod h₄
  have e₅ := hmod h₅
  have hlt := id.isLt
  have hlt' := id'.isLt
  refine BitVec.eq_of_toNat_eq ?_
  omega

@[simp] theorem length_padded : (padded n).toList.length = 20 := by
  simp [padded]

theorem padded_inj {n m : UInt64} (h : padded n = padded m) : n = m := by
  have hmod : n.toNat % 10 ^ 20 = m.toNat % 10 ^ 20 :=
    Lib.mod_pow_of_digits (by decide) (by decide) (String.ofList_inj.mp h)
  have hlt := n.toNat_lt
  have hlt' := m.toNat_lt
  refine UInt64.toNat_inj.mp ?_
  omega

def AlertStatus.asStr : AlertStatus → String
  | inactive => "inactive"
  | pending => "pending"
  | firing => "firing"
  | recovering => "recovering"
  | noData => "no_data"
  | error => "error"
  | disabled => "disabled"

/-! ## Rules, targets and their heads -/

def alertRecordSchemaVersion : UInt32 := 1

/-- `rest` is the text of the fields that only the query reads. -/
structure Rule extends Monitor where
  schemaVersion : UInt32
  id : MonitorId
  targetId : String
  updatedAtUnixNano : UInt64
  rest : String
  deriving DecidableEq

/-- `rest` is the text of the fields that only delivery reads. -/
structure NotificationTarget where
  schemaVersion : UInt32
  id : NotificationTargetId
  revision : UInt64
  logicalSecretId : LogicalSecretId
  secretGeneration : UInt64
  updatedAtUnixNano : UInt64
  rest : String
  deriving DecidableEq

/-- Rules and targets are stored alike: heads that name revisions, and tombstones. -/
inductive Kind
  | rule
  | target
  deriving DecidableEq

/-- A rule or target head; `id` is the monitor's or the target's. -/
structure Head (kind : Kind) where
  schemaVersion : UInt32
  id : Uuid
  revision : UInt64
  revisionKey : String
  updatedAtUnixNano : UInt64
  deleted : Bool
  tombstoneKey : Option String
  deriving DecidableEq

abbrev RuleHead := Head .rule

abbrev TargetHead := Head .target

structure Tombstone (kind : Kind) where
  schemaVersion : UInt32
  id : Uuid
  revision : UInt64
  commandId : String
  deletedAtUnixNano : UInt64
  deriving DecidableEq

abbrev RuleTombstone := Tombstone .rule

abbrev TargetTombstone := Tombstone .target

/-! ## Secrets -/

structure EncryptedSecretEnvelope where
  version : UInt8
  keyId : String
  nonceBase64url : String
  ciphertextBase64url : String
  deriving DecidableEq

structure SecretGenerationRecord where
  schemaVersion : UInt32
  deploymentId : String
  targetId : NotificationTargetId
  logicalSecretId : LogicalSecretId
  generation : UInt64
  envelope : EncryptedSecretEnvelope
  rotationOfGeneration : Option UInt64
  createdAtUnixNano : UInt64
  deriving DecidableEq

structure SecretHead where
  schemaVersion : UInt32
  deploymentId : String
  targetId : NotificationTargetId
  logicalSecretId : LogicalSecretId
  generation : UInt64
  generationKey : String
  updatedAtUnixNano : UInt64
  deriving DecidableEq

/-! ## States and transitions -/

def stateRecordSchemaVersion : UInt32 := 2

inductive DurableObservation
  | value (v : F64)
  | noData
  | error (errorClass : String)
  deriving DecidableEq

def DurableObservation.ofObservation : Observation → DurableObservation
  | .value v => value v
  | .noData => noData
  | .error e => error e

structure NotificationIntentPlaceholder where
  schemaVersion : UInt32
  eventId : String
  deriving DecidableEq

structure TransitionRecord where
  schemaVersion : UInt32
  deploymentId : String
  monitorId : MonitorId
  monitorRevision : UInt64
  slotId : UInt64
  evaluatedAtUnixNano : UInt64
  observation : DurableObservation
  previousStatus : Option AlertStatus
  resumed : Bool
  state : AlertState
  previousTransitionKey : Option String
  notificationIntents : List NotificationIntentPlaceholder
  deriving DecidableEq

structure TransitionRef where
  sequence : UInt64
  monitorRevision : UInt64
  slotId : UInt64
  status : AlertStatus
  sha256 : String
  deriving DecidableEq

structure StateHead where
  schemaVersion : UInt32
  deploymentId : String
  monitorId : MonitorId
  state : AlertState
  latestTransition : TransitionRef
  updatedAtUnixNano : UInt64
  deriving DecidableEq

/-! ## Documents -/

inductive Document
  | rule (r : Rule)
  | ruleHead (h : RuleHead)
  | ruleTombstone (t : RuleTombstone)
  | target (t : NotificationTarget)
  | targetHead (h : TargetHead)
  | targetTombstone (t : TargetTombstone)
  | secretGeneration (r : SecretGenerationRecord)
  | secretHead (h : SecretHead)
  | stateHead (h : StateHead)
  | transition (r : TransitionRecord)
  deriving DecidableEq

/-- The JSON text of a document, the number read back from a finite number's text, and SHA-256. -/
structure Platform where
  json : Document → List UInt8
  parsed : F64 → F64
  sha256 : List UInt8 → List UInt8

/-- `null` stands where a number is not finite; here it is a NaN. -/
def F64.null : F64 := ⟨0x7ff8000000000000⟩

def F64.written (x : F64) : F64 := if x.isFinite then x else .null

def F64.read (x : F64) : Option F64 := if x.isFinite then some (P.parsed x) else none

def DurableObservation.written : DurableObservation → DurableObservation
  | value v => value v.written
  | o => o

def DurableObservation.read (P : Platform) : DurableObservation → Option DurableObservation
  | value v => (v.read P).map value
  | o => some o

/-- An optional number is read back as absent from `null`. -/
def AlertState.written (s : AlertState) : AlertState :=
  { s with lastValue := s.lastValue.filter F64.isFinite }

def AlertState.read (P : Platform) (s : AlertState) : AlertState :=
  { s with lastValue := s.lastValue.bind (F64.read P) }

class Record (α : Type) where
  toDocument : α → Document
  ofDocument : Platform → Document → Option α

instance : Record Rule where
  toDocument r := .rule { r with condition.threshold := r.condition.threshold.written }
  ofDocument P
    | .rule r => (r.condition.threshold.read P).map fun threshold =>
        { r with condition.threshold := threshold }
    | _ => none

instance : Record NotificationTarget where
  toDocument := .target
  ofDocument _
    | .target t => some t
    | _ => none

instance : (kind : Kind) → Record (Head kind)
  | .rule =>
    { toDocument := .ruleHead
      ofDocument := fun _ d => match d with
        | .ruleHead h => some h
        | _ => none }
  | .target =>
    { toDocument := .targetHead
      ofDocument := fun _ d => match d with
        | .targetHead h => some h
        | _ => none }

instance : (kind : Kind) → Record (Tombstone kind)
  | .rule =>
    { toDocument := .ruleTombstone
      ofDocument := fun _ d => match d with
        | .ruleTombstone t => some t
        | _ => none }
  | .target =>
    { toDocument := .targetTombstone
      ofDocument := fun _ d => match d with
        | .targetTombstone t => some t
        | _ => none }

@[simp] theorem ofDocument_toDocument_head {kind : Kind} (h : Head kind) :
    Record.ofDocument P (Record.toDocument h) = some h := by
  cases kind <;> rfl

instance : Record SecretGenerationRecord where
  toDocument := .secretGeneration
  ofDocument _
    | .secretGeneration r => some r
    | _ => none

instance : Record SecretHead where
  toDocument := .secretHead
  ofDocument _
    | .secretHead h => some h
    | _ => none

instance : Record StateHead where
  toDocument h := .stateHead { h with state := h.state.written }
  ofDocument P
    | .stateHead h => some { h with state := h.state.read P }
    | _ => none

instance : Record TransitionRecord where
  toDocument r :=
    .transition { r with observation := r.observation.written, state := r.state.written }
  ofDocument P
    | .transition r => (r.observation.read P).map fun observation =>
        { r with observation, state := r.state.read P }
    | _ => none

/-! ## Keys -/

def hexByte (b : UInt8) : List Char := [Nat.digitChar (b.toNat / 16), Nat.digitChar (b.toNat % 16)]

def sha256Hex (bytes : List UInt8) : String :=
  String.ofList ((P.sha256 bytes).flatMap hexByte)

def commandDigest : String :=
  sha256Hex P commandId.toUTF8.toList

def Kind.root : Kind → String
  | rule => "_scry/alerts/v1/rules/"
  | target => "_scry/alerts/v1/targets/"

@[irreducible] def revisionKey (commandId : String) :
    String :=
  kind.root ++ uuidText id ++ "/revisions/" ++ padded revision ++ "-" ++
    commandDigest P commandId ++ ".json"

@[irreducible] def headKey : String := kind.root ++ uuidText id ++ "/head.json"

@[irreducible] def tombstoneKey : String :=
  kind.root ++ uuidText id ++ "/tombstones/" ++ commandDigest P commandId ++ ".json"

def ruleRevisionKey := revisionKey P .rule

def ruleHeadKey := headKey .rule

def ruleTombstoneKey := tombstoneKey P .rule

def targetRevisionKey := revisionKey P .target

def targetHeadKey := headKey .target

def targetTombstoneKey := tombstoneKey P .target

theorem revisionKey_ne_headKey
    (commandId : String) : revisionKey P kind id revision commandId ≠ headKey kind id := by
  unfold revisionKey headKey
  rw [ne_eq, ← String.toList_inj]
  simp only [String.toList_append, append_assoc, append_right_inj]
  simp

theorem tombstoneKey_ne_headKey :
    tombstoneKey P kind id commandId ≠ headKey kind id := by
  unfold tombstoneKey headKey
  rw [ne_eq, ← String.toList_inj]
  simp only [String.toList_append, append_assoc, append_right_inj]
  simp

def hasDotDot : List Char → Bool
  | '.' :: '.' :: _ => true
  | _ :: rest => hasDotDot rest
  | [] => false

/-- The key may name a revision below `root`; the head names the exact one. -/
def isRevisionKey (root key : List Char) : Bool :=
  root.isPrefixOf key &&
    let tail := key.drop root.length
    ".json".toList.isSuffixOf tail && tail != "head.json".toList &&
      !"tombstones/".toList.isPrefixOf tail && !hasDotDot tail

def isRuleRevisionKey (id : MonitorId) (key : String) : Bool :=
  isRevisionKey (Kind.rule.root ++ uuidText id ++ "/").toList key.toList

def isTargetRevisionKey (id : NotificationTargetId) (key : String) : Bool :=
  isRevisionKey (Kind.target.root ++ uuidText id ++ "/").toList key.toList

@[irreducible] def secretGenerationKey
    (generation : UInt64) : String :=
  "_scry/alerts/v1/target-secrets/" ++ uuidText targetId ++ "/" ++ uuidText logicalId ++ "/" ++
    padded generation ++ ".json"

@[irreducible] def secretHeadKey : String :=
  "_scry/alerts/v1/target-secrets/" ++ uuidText targetId ++ "/" ++ uuidText logicalId ++ "/head.json"

@[irreducible] def transitionKey (id : MonitorId) (sequence monitorRevision slotId : UInt64)
    (status : AlertStatus) : String :=
  "_scry/alerts/v1/transitions/v2/" ++ uuidText id ++ "/" ++ padded sequence ++ "-" ++
    padded monitorRevision ++ "-" ++ padded slotId ++ "-" ++ status.asStr ++ ".json"

@[irreducible] def stateHeadKey (id : MonitorId) : String := "_scry/alerts/v1/state/v2/" ++ uuidText id ++ "/head.json"

variable {l l' : LogicalSecretId} {t t' : NotificationTargetId}

theorem secretGenerationKey_inj {g g' : UInt64}
    (h : secretGenerationKey t l g = secretGenerationKey t' l' g') : t = t' ∧ l = l' ∧ g = g' := by
  unfold secretGenerationKey at h
  simp only [← String.toList_inj, String.toList_append, append_assoc] at h
  obtain ⟨ht, h⟩ := append_inj (append_cancel_left h) (by simp)
  obtain ⟨hl, h⟩ := append_inj (append_cancel_left h) (by simp)
  obtain ⟨hg, -⟩ := append_inj (append_cancel_left h) (by simp)
  exact ⟨uuidText_inj (String.toList_inj.mp ht), uuidText_inj (String.toList_inj.mp hl),
    padded_inj (String.toList_inj.mp hg)⟩

theorem secretHeadKey_inj
    (h : secretHeadKey t l = secretHeadKey t' l') : t = t' ∧ l = l' := by
  unfold secretHeadKey at h
  simp only [← String.toList_inj, String.toList_append, append_assoc] at h
  obtain ⟨ht, h⟩ := append_inj (append_cancel_left h) (by simp)
  obtain ⟨hl, -⟩ := append_inj (append_cancel_left h) (by simp)
  exact ⟨uuidText_inj (String.toList_inj.mp ht), uuidText_inj (String.toList_inj.mp hl)⟩

theorem secretGenerationKey_ne_secretHeadKey (t t' : NotificationTargetId) (l l' : LogicalSecretId)
    (g : UInt64) : secretGenerationKey t l g ≠ secretHeadKey t' l' := by
  intro h
  unfold secretGenerationKey secretHeadKey at h
  have hlen := congrArg (fun s => s.toList.length) h
  simp at hlen

theorem transitionKey_ne_stateHeadKey (id id' : MonitorId) (sequence revision slotId : UInt64)
    (status : AlertStatus) : transitionKey id sequence revision slotId status ≠ stateHeadKey id' := by
  unfold transitionKey stateHeadKey
  rw [ne_eq, ← String.toList_inj]
  simp only [String.toList_append, append_assoc]
  simp

theorem transitionKey_ne_headKey (id id' : Uuid) (sequence revision slotId : UInt64)
    (status : AlertStatus) : transitionKey id sequence revision slotId status ≠ headKey kind id' := by
  unfold transitionKey headKey
  rw [ne_eq, ← String.toList_inj]
  cases kind <;> simp [Kind.root]

theorem stateHeadKey_ne_headKey (id id' : Uuid) : stateHeadKey id ≠ headKey kind id' := by
  unfold stateHeadKey headKey
  rw [ne_eq, ← String.toList_inj]
  cases kind <;> simp [Kind.root]

/-! ## What is computed from records -/

def liveHead (revision updatedAtUnixNano : UInt64)
    (commandId : String) : Head kind where
  schemaVersion := alertRecordSchemaVersion
  id
  revision
  revisionKey := revisionKey P kind id revision commandId
  updatedAtUnixNano
  deleted := false
  tombstoneKey := none

def ruleHead (rule : Rule) : String → RuleHead :=
  liveHead P .rule rule.id rule.revision rule.updatedAtUnixNano

def targetHead (target : NotificationTarget) : String → TargetHead :=
  liveHead P .target target.id target.revision target.updatedAtUnixNano

def TransitionRecord.reference (r : TransitionRecord) : TransitionRef where
  sequence := r.state.transitionSequence
  monitorRevision := r.monitorRevision
  slotId := r.slotId
  status := r.state.status
  sha256 := sha256Hex P (P.json (Record.toDocument r))

def TransitionRef.key (t : TransitionRef) (monitorId : MonitorId) : String :=
  transitionKey monitorId t.sequence t.monitorRevision t.slotId t.status

/-- What holds of a state head without a look at the transition. -/
def StateHead.validate (h : StateHead) (deploymentId : String) (monitorId : MonitorId) : Except String Unit :=
  if h.schemaVersion != stateRecordSchemaVersion then
    .error "unsupported state head schema version"
  else if h.deploymentId != deploymentId || h.monitorId != monitorId then
    .error "state head ownership does not match its key"
  else if h.latestTransition.sequence == 0 ||
      h.latestTransition.sequence != h.state.transitionSequence ||
      h.latestTransition.status != h.state.status then
    .error "state head does not match its latest transition"
  else if h.state.slot < AlertState.slotOf h.latestTransition.monitorRevision
      h.latestTransition.slotId then
    .error "state head is older than its latest transition"
  else .ok ()

variable {h : StateHead}

theorem StateHead.validate_eq_ok {deploymentId : String} {monitorId : MonitorId} : h.validate
    deploymentId monitorId = .ok () ↔ h.schemaVersion = stateRecordSchemaVersion ∧ h.deploymentId = deploymentId ∧
    h.monitorId = monitorId ∧ h.latestTransition.sequence ≠ 0 ∧ h.latestTransition.sequence =
    h.state.transitionSequence ∧ h.latestTransition.status = h.state.status ∧ AlertState.slotOf
    h.latestTransition.monitorRevision h.latestTransition.slotId ≤ h.state.slot := by
  unfold StateHead.validate
  split
  next hschema =>
    exact ⟨nofun, fun h => absurd h.1 (by simpa using hschema)⟩
  next hschema =>
    split
    next howner =>
      refine ⟨nofun, fun h => ?_⟩
      simp [h.2.1, h.2.2.1] at howner
    next howner =>
      split
      next hlatest =>
        refine ⟨nofun, fun h => ?_⟩
        simp [h.2.2.2.2.1, h.2.2.2.2.2.1] at hlatest
        exact absurd (h.2.2.2.2.1.trans hlatest) h.2.2.2.1
      next hlatest =>
        split
        next hslot =>
          exact ⟨nofun, fun h => absurd hslot (not_lt.mpr h.2.2.2.2.2.2)⟩
        next hslot =>
          simp only [bne_iff_ne, ne_eq, not_not, Bool.or_eq_true, not_or, beq_iff_eq] at hschema howner hlatest
          exact ⟨fun _ => ⟨hschema, howner.1, howner.2, hlatest.1.1, hlatest.1.2, hlatest.2,
            not_lt.mp hslot⟩, fun _ => rfl⟩

def StateHead.verifyTransition (h : StateHead) (record : TransitionRecord) : Except String Unit :=
  if record.schemaVersion != stateRecordSchemaVersion || record.deploymentId != h.deploymentId ||
      record.monitorId != h.monitorId || record.monitorRevision != record.state.monitorRevision ||
      record.slotId != record.state.lastSlotId || record.reference P != h.latestTransition then
    .error "state head and transition record do not match"
  else .ok ()

theorem StateHead.verifyTransition_eq_ok {P : Platform} {record : TransitionRecord} :
    h.verifyTransition P record = .ok () ↔ record.schemaVersion = stateRecordSchemaVersion ∧ record.deploymentId =
    h.deploymentId ∧ record.monitorId = h.monitorId ∧ record.monitorRevision = record.state.monitorRevision ∧
    record.slotId = record.state.lastSlotId ∧ record.reference P = h.latestTransition := by
  unfold StateHead.verifyTransition
  split
  next hne =>
    refine ⟨nofun, fun h => ?_⟩
    obtain ⟨h₁, h₂, h₃, h₄, h₅, h₆⟩ := h
    simp [h₁, h₂, h₃, ← h₄, ← h₅, h₆] at hne
  next heq =>
    simp only [Bool.or_eq_true, bne_iff_ne, ne_eq, not_or, not_not] at heq
    obtain ⟨⟨⟨⟨⟨h₁, h₂⟩, h₃⟩, h₄⟩, h₅⟩, h₆⟩ := heq
    exact ⟨fun _ => ⟨h₁, h₂, h₃, h₄, h₅, h₆⟩, fun _ => rfl⟩

end Scry.Alert
