import Scry.Proto.AnyValue

/-! # Logs batches, version 2

The canonical record and its envelope. An envelope is validated as a whole before the appender sees
its first record.
-/

open Scry.Lib

namespace Scry.Proto

open Reader

def logsBatchV2Magic : Nat := 0x534c3200

def logsRawVersionV1 : Nat := 1

def logsRawVersionV2 : Nat := 2

/-- The four scope fields of a record, which are present together. -/
structure Scope where
  name : Bytes
  version : Bytes
  droppedAttributesCount : Nat
  attributes : Bytes
  deriving DecidableEq

/-- Values are the bytes that `AnyValueRef` refers to. -/
structure CanonicalLogRecord where
  rawVersion : Nat
  resourceSchemaUrl : Bytes
  resourceDroppedAttributesCount : Nat
  resourceAttributes : Bytes
  scope : Option Scope
  scopeSchemaUrl : Bytes
  timeUnixNano : Nat
  observedTimeUnixNano : Nat
  receivedTimeUnixNano : Option Nat
  severityNumber : Int
  severityText : Bytes
  eventName : Bytes
  body : Bytes
  droppedAttributesCount : Nat
  attributes : Bytes
  traceFlags : Nat
  traceId : Option Bytes
  spanId : Option Bytes
  encoded : Bytes
  deriving DecidableEq

/-! ## The decoder -/

namespace RecordReader

variable (limits : DecodeLimits)

def done : RecordReader Unit := fun c => if c.rest = [] then .ok ((), c) else .error .trailingBytes

def scope : RecordReader (Option Scope) := do
  let present ← uint 1
  match present with
  | 0 => return none
  | 1 => do
    let name ← valueString limits
    let version ← valueString limits
    let dropped ← uint 4
    let attributes ← mapValue limits (limits.maxDepth + 1)
    return some ⟨name, version, dropped, attributes⟩
  | _ => fail .invalidScopePresence

def receivedTime (rawVersion : Nat) : RecordReader (Option Nat) :=
  if rawVersion = logsRawVersionV2 then do
    let received ← uint 8
    require (received ≠ 0) .zeroReceivedTime
    return some received
  else return none

/-- A trace or span ID: absent, or `width` bytes that are not all zero. -/
def idOf (width : Nat) (invalidLength zero : DecodeError) : RecordReader (Option Bytes) := do
  let len ← uint 1
  if len = 0 then return none
  else if len = width then do
    let id ← take width
    require (¬ id.all (· == 0)) zero
    return some id
  else fail invalidLength

def record (rawVersion : Nat) (encoded : Bytes) : RecordReader CanonicalLogRecord := do
  let flags ← uint 2
  require (flags = 0) .invalidRecordFlags
  let resourceSchemaUrl ← valueString limits
  let resourceDropped ← uint 4
  let resourceAttributes ← mapValue limits (limits.maxDepth + 1)
  let scope ← scope limits
  let scopeSchemaUrl ← valueString limits
  let time ← uint 8
  let observed ← uint 8
  let received ← receivedTime rawVersion
  let severity ← uint 4
  let severityText ← valueString limits
  let eventName ← valueString limits
  let body ← anyValue limits (limits.maxDepth + 1)
  let dropped ← uint 4
  let attributes ← mapValue limits (limits.maxDepth + 1)
  let traceFlags ← uint 4
  let traceId ← idOf 16 .invalidTraceIdLength .zeroTraceId
  let spanId ← idOf 8 .invalidSpanIdLength .zeroSpanId
  require (spanId = none ∨ traceId ≠ none) .orphanSpanId
  done
  return {
    rawVersion := rawVersion
    resourceSchemaUrl := resourceSchemaUrl
    resourceDroppedAttributesCount := resourceDropped
    resourceAttributes := resourceAttributes
    scope := scope
    scopeSchemaUrl := scopeSchemaUrl
    timeUnixNano := time
    observedTimeUnixNano := observed
    receivedTimeUnixNano := received
    severityNumber := toSigned 32 severity
    severityText := severityText
    eventName := eventName
    body := body
    droppedAttributesCount := dropped
    attributes := attributes
    traceFlags := traceFlags
    traceId := traceId
    spanId := spanId
    encoded := encoded }

end RecordReader

/-- Runs a reader on the whole of `input`, with a fresh budget. -/
def readAll {α : Type} (r : RecordReader α) (input : Bytes) : Except DecodeError α :=
  match r ⟨input, ⟨0, 0, 0⟩⟩ with
  | .ok (a, _) => .ok a
  | .error e => .error e

def parseRecord (limits : DecodeLimits) (rawVersion : Nat) (encoded : Bytes) :
    Except DecodeError CanonicalLogRecord :=
  readAll (RecordReader.record limits rawVersion encoded) encoded

namespace RecordReader

variable (limits : DecodeLimits)

def validateHeader : RecordReader Nat := do
  let magic ← uint 4
  require (magic = logsBatchV2Magic) (.badMagic magic)
  let version ← uint 2
  require (version = logsRawVersionV1 ∨ version = logsRawVersionV2) (.unsupportedVersion version)
  return version

def lengthDelimitedRecord : RecordReader Bytes := do
  let len ← uint 4
  require (len ≤ limits.maxRecordBytes) .recordLimit
  take len

def envelope : RecordReader (Nat × List CanonicalLogRecord) := do
  let rawVersion ← validateHeader
  let count ← uint 4
  require (count ≤ limits.maxRecords) .recordCountLimit
  let records ← times count do
    let encoded ← lengthDelimitedRecord limits
    lift (parseRecord limits rawVersion encoded)
  done
  return (rawVersion, records)

end RecordReader

def validateEnvelope (limits : DecodeLimits) (payload : Bytes) : Except DecodeError (Nat × List CanonicalLogRecord) :=
  if limits.maxPayloadBytes < payload.length then .error .payloadLimit
  else readAll (RecordReader.envelope limits) payload

/-! ## Appenders -/

/-- How a call that returns a `Result` can fail to return `Ok`. -/
inductive Fault (ε : Type) where
  | panic
  | error (e : ε)
  deriving DecidableEq

def orPanic {ε α : Type} (x : Option α) : Except (Fault ε) α :=
  match x with
  | some a => .ok a
  | none => .error .panic

structure LogsV2Appender (α : Type) where
  beginBatchVersion : (rawVersion count : Nat) → α → Except String α
  record : CanonicalLogRecord → α → Except (Fault String) α

def Fault.ofAppender : Fault String → Fault DecodeError
  | .panic => .panic
  | .error message => .error (.appender message)

/-- The second pass parses the same bytes to the same records. -/
def decodeLogsBatchV2Into {α : Type} (payload : Bytes) (limits : DecodeLimits)
    (appender : LogsV2Appender α) (a : α) : Except (Fault DecodeError) α := do
  let (rawVersion, records) ← (validateEnvelope limits payload).mapError .error
  let a ← (appender.beginBatchVersion rawVersion records.length a).mapError fun m => .error (.appender m)
  records.foldlM (fun a r => (appender.record r a).mapError Fault.ofAppender) a

def collecting : LogsV2Appender (List CanonicalLogRecord) where
  beginBatchVersion _ _ records := .ok records
  record r records := .ok (records ++ [r])

variable {payload : Bytes} {records : List CanonicalLogRecord} {limits : DecodeLimits}

theorem decode_begun {α : Type} {appender : LogsV2Appender α} {a a' : α}
    {rawVersion : Nat} (h : validateEnvelope limits payload = .ok
    (rawVersion, records)) (hbegin : appender.beginBatchVersion rawVersion records.length a = .ok a') :
    decodeLogsBatchV2Into payload limits appender a = records.foldlM
    (fun a r => (appender.record r a).mapError Fault.ofAppender) a' := by
  unfold decodeLogsBatchV2Into
  rw [h]
  simp only [Except.mapError, bind, Except.bind, hbegin]

theorem foldlM_collecting (records seen : List CanonicalLogRecord) :
    records.foldlM (fun a r => (collecting.record r a).mapError Fault.ofAppender) seen =
      (.ok (seen ++ records) : Except (Fault DecodeError) _) := by
  induction records generalizing seen with
  | nil => simp [pure, Except.pure]
  | cons r rs ih =>
    rw [List.foldlM_cons]
    simp only [collecting, Except.mapError, bind, Except.bind] at ih ⊢
    rw [ih]
    simp

theorem decode_collecting :
    decodeLogsBatchV2Into payload limits collecting [] = .ok records ↔ ∃ rawVersion, validateEnvelope limits payload =
    .ok (rawVersion, records) := by
  cases h : validateEnvelope limits payload with
  | error e => simp [decodeLogsBatchV2Into, h, Except.mapError, bind, Except.bind]
  | ok p =>
    obtain ⟨rawVersion, accepted⟩ := p
    rw [decode_begun h rfl, foldlM_collecting, List.nil_append]
    simp

/-! ## The grammar -/

def ofSigned (bits : Nat) (z : Int) : Nat := (z % 2 ^ bits).toNat

theorem ofSigned_toSigned {bits n : Nat} (h : n < 2 ^ bits) : ofSigned bits (toSigned bits n) = n := by
  have hn : (n : Int) % 2 ^ bits = n := by
    apply Int.emod_eq_of_lt (by omega)
    exact_mod_cast h
  unfold toSigned ofSigned
  split
  · rw [hn]
    simp
  · rw [Int.sub_emod_right, hn]
    simp

def scopeWire : Option Scope → Bytes
  | none => [0]
  | some s => 1 :: (withLength s.name ++ withLength s.version ++ toBe 4 s.droppedAttributesCount ++
      s.attributes)

def receivedWire (received : Option Nat) : Bytes := received.elim [] (toBe 8)

def idWire : Option Bytes → Bytes
  | none => [0]
  | some id => toBe 1 id.length ++ id

def recordWire (r : CanonicalLogRecord) : Bytes :=
  toBe 2 0 ++ (withLength r.resourceSchemaUrl ++ (toBe 4 r.resourceDroppedAttributesCount ++
  (r.resourceAttributes ++ (scopeWire r.scope ++ (withLength r.scopeSchemaUrl ++
  (toBe 8 r.timeUnixNano ++ (toBe 8 r.observedTimeUnixNano ++ (receivedWire r.receivedTimeUnixNano ++
  (toBe 4 (ofSigned 32 r.severityNumber) ++ (withLength r.severityText ++ (withLength r.eventName ++
  (r.body ++ (toBe 4 r.droppedAttributesCount ++ (r.attributes ++ (toBe 4 r.traceFlags ++
  (idWire r.traceId ++ idWire r.spanId))))))))))))))))

theorem readAll_ok {α : Type} {r : RecordReader α} {input : Bytes} {a : α} :
    readAll r input = .ok a ↔ ∃ c, r ⟨input, ⟨0, 0, 0⟩⟩ = .ok (a, c) := by
  unfold readAll
  split
  · rename_i a' c' h
    simp [h]
  · rename_i e h
    simp [h]

def envelopeWire (rawVersion : Nat) (encoded : List Bytes) : Bytes :=
  toBe 4 logsBatchV2Magic ++ (toBe 2 rawVersion ++ (toBe 4 encoded.length ++ encoded.flatMap withLength))

end Scry.Proto
