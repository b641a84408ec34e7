import Scry.Proto.RecordTree
import Scry.Proto.Redaction

/-! # Receipt stamping and redaction of logs v2

Live ingest stamps its records on the way; replay and the plain redactor keep them as they are, and check that a
batch in which nothing was replaced came out byte for byte.
-/

open Scry.Lib

namespace Scry.Proto

/-! ## Writing a record again -/

/-- What is written, and whether the value was replaced by something else. -/
def redactEntry (value : Bytes → Option (Bytes × Bool)) (e : Bytes × Bytes) : Option (Bytes × Bool) :=
  if isSensitiveKey e.1 then do
    let item ← decodeValue e.2
    return (withLength e.1 ++ 1 :: withLength redacted, item != .string redacted)
  else do
    let (out, changed) ← value e.2
    return (withLength e.1 ++ out, changed)

def redactValueAux : Nat → Bytes → Option (Bytes × Bool)
  | 0, _ => none
  | fuel + 1, encoded => do
    match ← decodeValue encoded with
    | .array encodedValues len => do
      let items ← arrayItems len encodedValues
      let parts ← items.mapM (redactValueAux fuel)
      return (6 :: (toBe 4 len ++ parts.flatMap Prod.fst), parts.any Prod.snd)
    | .map encodedEntries len => do
      let items ← mapItems len encodedEntries
      let parts ← items.mapM (redactEntry (redactValueAux fuel))
      return (7 :: (toBe 4 len ++ parts.flatMap Prod.fst), parts.any Prod.snd)
    | _ => some (encoded, false)

/-- `value`. A view that panics is `none`. Levels take bytes, so the length is enough fuel. -/
def redactValue (encoded : Bytes) : Option (Bytes × Bool) := redactValueAux encoded.length encoded

inductive Mode where
  | stamp (receivedNs : UInt64)
  | preserve
  deriving DecidableEq

namespace Mode

def isStamp : Mode → Bool
  | stamp _ => true
  | preserve => false

def received : Mode → Option Nat → Option Nat
  | stamp receivedNs, _ => some receivedNs.toNat
  | preserve, received => received

end Mode

def redactScope : Option Scope → Option (Option Scope × Bool)
  | none => some (none, false)
  | some s => do
    let (attributes, changed) ← redactValue s.attributes
    return (some { s with attributes := attributes }, changed)

/-- The redactor's own copy of it is the one for `preserve`. -/
def reencodeRecord (mode : Mode) (r : CanonicalLogRecord) : Option (Bytes × Bool) := do
  let (resource, resourceChanged) ← redactValue r.resourceAttributes
  let (scope, scopeChanged) ← redactScope r.scope
  let (body, bodyChanged) ← redactValue r.body
  let (attributes, attributesChanged) ← redactValue r.attributes
  let out := recordWire { r with
    resourceAttributes := resource
    scope := scope
    receivedTimeUnixNano := mode.received r.receivedTimeUnixNano
    body := body
    attributes := attributes }
  return (out, (resourceChanged || scopeChanged || bodyChanged || attributesChanged) || mode.isStamp)

/-! ## The stamping sink -/

structure Sink where
  output : Bytes
  changed : Bool
  outputVersion : Nat
  deriving DecidableEq

/-- `append`, which bounds the output. -/
def append (limit : Nat) (bytes out : Bytes) : Except String Bytes :=
  if limit < out.length + bytes.length then
    .error "canonical logs output exceeds configured payload byte limit"
  else .ok (out ++ bytes)

namespace Mode

def outputVersion (mode : Mode) (rawVersion : Nat) : Except String Nat :=
  match mode with
  | stamp _ =>
    if rawVersion = logsRawVersionV1 then .ok logsRawVersionV2
    else .error s!"live receipt stamping requires producer raw-record v1, got {rawVersion}"
  | preserve => .ok rawVersion

def expectedInput (mode : Mode) (outputVersion : Nat) : Nat :=
  match mode with
  | stamp _ => logsRawVersionV1
  | preserve => outputVersion

end Mode

def recordNotPreserved : String := "unchanged replay record was not preserved byte-for-byte"

variable (limits : DecodeLimits) (payload : Bytes) (mode : Mode)

/-- The checks of `Sink::record` on what was written for a record. -/
def checkRecord (r : CanonicalLogRecord) (out : Bytes) (changed : Bool) :
    Except String Unit :=
  if changed = false ∧ out ≠ r.encoded then .error recordNotPreserved
  else if limits.maxRecordBytes < out.length then
    .error "redacted canonical record exceeds configured byte limit"
  else if 2 ^ 32 ≤ out.length then .error "canonical record length exceeds u32"
  else .ok ()

def stampSink : LogsV2Appender Sink where
  beginBatchVersion rawVersion count sink := do
    let version ← mode.outputVersion rawVersion
    let output ← append limits.maxPayloadBytes (toBe 4 logsBatchV2Magic) sink.output
    let output ← append limits.maxPayloadBytes (toBe 2 version) output
    let output ← append limits.maxPayloadBytes (toBe 4 count) output
    return { sink with output := output, outputVersion := version }
  record r sink :=
    if r.rawVersion ≠ mode.expectedInput sink.outputVersion then
      .error (.error "record grammar version differs from envelope version")
    else do
      let (out, changed) ← orPanic (reencodeRecord mode r)
      (checkRecord limits r out changed).mapError .error
      let output ← (append limits.maxPayloadBytes (toBe 4 out.length) sink.output).mapError .error
      let output ← (append limits.maxPayloadBytes out output).mapError .error
      return { sink with output := output, changed := sink.changed || changed }

/-- `encode`: the output buffer, and whether it may differ from the payload. -/
def encodeWith (payload : Bytes) :
    Except (Fault DecodeError) (Bytes × Bool) := do
  let sink ← decodeLogsBatchV2Into payload limits (stampSink limits mode) ⟨[], mode.isStamp, 0⟩
  return (sink.output, sink.changed)

inductive LogsV2StampError where
  | zeroReceivedTime
  | alreadyStamped (version : Nat)
  | decode (e : DecodeError)
  deriving DecidableEq

def Fault.map {ε ζ : Type} (f : ε → ζ) : Fault ε → Fault ζ
  | .panic => .panic
  | .error e => .error (f e)

/-- `envelope_version`: bytes four and five, if there are any. -/
def envelopeVersion : Option Nat :=
  (takeBytes 2 (payload.drop 4)).map fun (b, _) => ofBe b

def redactAndStampLogsV2 (receivedNs : UInt64) (limits : DecodeLimits) :
    Except (Fault LogsV2StampError) Bytes :=
  if receivedNs = 0 then .error (.error .zeroReceivedTime)
  else if envelopeVersion payload = some logsRawVersionV2 then
    .error (.error (.alreadyStamped logsRawVersionV2))
  else do
    let (output, _) ← (encodeWith limits (.stamp receivedNs) payload).mapError (Fault.map .decode)
    return output

/-- `Cow<[u8]>` -/
inductive Cow where
  | borrowed (bytes : Bytes)
  | owned (bytes : Bytes)
  deriving DecidableEq

namespace Cow

def bytes : Cow → Bytes
  | borrowed b => b
  | owned b => b

end Cow

def replayNotPreserved : String := "unchanged replay redaction did not preserve canonical bytes"

def redactReplayedLogsV2 (payload : Bytes) (limits : DecodeLimits) :
    Except (Fault LogsV2StampError) Cow := do
  let (output, changed) ← (encodeWith limits .preserve payload).mapError (Fault.map .decode)
  if changed then return .owned output
  else if output ≠ payload then .error (.error (.decode (.appender replayNotPreserved)))
  else return .borrowed payload

/-! ## The redaction sink -/

structure V2Sink where
  output : Bytes
  changed : Bool
  deriving DecidableEq

def recordNotPreservedV2 : String := "logs-v2 redaction did not preserve an unchanged record"

def redactionSink : LogsV2Appender V2Sink where
  beginBatchVersion rawVersion count sink :=
    .ok { sink with output := sink.output ++
      (toBe 4 logsBatchV2Magic ++ (toBe 2 rawVersion ++ toBe 4 count)) }
  record r sink := do
    let (out, changed) ← orPanic (reencodeRecord .preserve r)
    if changed = false ∧ out ≠ r.encoded then .error (.error recordNotPreservedV2)
    else if 2 ^ 32 ≤ out.length then .error (.error "redacted logs-v2 record length exceeds u32")
    else return ⟨sink.output ++ (toBe 4 out.length ++ out), sink.changed || changed⟩

def batchNotPreservedV2 : String := "logs-v2 redaction did not preserve an unchanged batch"

def redactLogsV2 (payload : Bytes) (limits : DecodeLimits) : Except (Fault DecodeError) Cow := do
  let sink ← decodeLogsBatchV2Into payload limits redactionSink ⟨[], false⟩
  if sink.changed then return .owned sink.output
  else if sink.output ≠ payload then .error (.error (.appender batchNotPreservedV2))
  else return .borrowed payload

end Scry.Proto
