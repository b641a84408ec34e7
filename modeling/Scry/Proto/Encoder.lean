import Scry.Lib.Writer
import Scry.Proto.RecordTree

/-! # The logs v2 encoder

A batch is written in place, and cut off again when something does not fit.
-/

open Scry.Lib

namespace Scry.Proto

structure LogRecordInput where
  resourceSchemaUrl : Str
  resourceDroppedAttributesCount : UInt32
  resourceAttributes : List KeyValueInput
  scope : Option ScopeInput
  scopeSchemaUrl : Str
  timeUnixNano : UInt64
  observedTimeUnixNano : UInt64
  severity : UInt8
  severityText : Str
  eventName : Str
  body : AnyValueInput
  droppedAttributesCount : UInt32
  attributes : List KeyValueInput
  traceFlags : UInt8
  traceId : Option (Fixed 16)
  spanId : Option (Fixed 8)

inductive EncodeError where
  | payloadLimit
  | recordCountLimit
  | recordLimit
  | variableBytesLimit
  | stringLimit
  | keyLimit
  | emptyMapKey
  | bytesLimit
  | depthLimit
  | nodeLimit
  | keyValueLimit
  | containerLimit
  | nonCanonicalMap
  | lengthOverflow
  | missingTimestamp
  | zeroTraceId
  | zeroSpanId
  | orphanSpanId
  | invalidSource
  deriving DecidableEq

/-! ## The record writer -/

structure RecordOut where
  out : Bytes
  budget : RecordBudget
  deriving DecidableEq

abbrev RecordWriter := Writer EncodeError RecordOut Unit

namespace RecordWriter

open Writer

variable (limits : DecodeLimits) (start : Nat)

def bytes (b : Bytes) : RecordWriter := fun w =>
  if w.out.length < start ∨ limits.maxRecordBytes < w.out.length - start + b.length then
    .error (.recordLimit, w)
  else .ok ((), { w with out := w.out ++ b })

def u8 (value : UInt8) : RecordWriter := bytes limits start [value]

def u16 (value : Nat) : RecordWriter := bytes limits start (toBe 2 value)

def u32 (value : Nat) : RecordWriter := bytes limits start (toBe 4 value)

def u64 (value : Nat) : RecordWriter := bytes limits start (toBe 8 value)

def charge (k : RecordBudget) (used : RecordBudget → Nat) (max : Nat) (e : EncodeError) :
    RecordWriter := fun w =>
  let w := { w with budget := w.budget + k }
  if max < used w.budget then .error (e, w) else .ok ((), w)

def budgetVariable (len : Nat) : RecordWriter :=
  charge ⟨len, 0, 0⟩ RecordBudget.variableBytes limits.maxVariableBytesPerRecord .variableBytesLimit

def node : RecordWriter :=
  charge ⟨0, 1, 0⟩ RecordBudget.nodes limits.maxNodesPerRecord .nodeLimit

def pairs (count : Nat) : RecordWriter :=
  charge ⟨0, 0, count⟩ RecordBudget.keyValues limits.maxKeyValuePairsPerRecord .keyValueLimit

def string (value : Str) (key : Bool) : RecordWriter := do
  check (value.1.length ≤ if key then limits.maxKeyBytes else limits.maxStringBytes)
    (if key then .keyLimit else .stringLimit)
  check (value.1.length < 2 ^ 32) .lengthOverflow
  budgetVariable limits value.1.length
  u32 limits start value.1.length
  bytes limits start value.1

/-- The bits that are written for a double: one NaN, one zero. -/
def canonicalBits (bits : UInt64) : UInt64 :=
  if RecordReader.isNan bits.toNat then UInt64.ofNat RecordReader.canonicalNanBits
  else if bits = 0 ∨ bits = 0x8000000000000000 then 0 else bits

def checkKeys : Option Bytes → List KeyValueInput → RecordWriter
  | _, [] => pure ()
  | previous, (key, _) :: es => do
    check (key.1 ≠ []) .emptyMapKey
    check (∀ old ∈ previous, old < key.1) .nonCanonicalMap
    checkKeys (some key.1) es

/-- At `room` levels above the deepest one. -/
def map (room : Nat) (value : AnyValueInput → RecordWriter) (es : List KeyValueInput) :
    RecordWriter := do
  check (0 < room) .depthLimit
  check (es.length < 2 ^ 32) .lengthOverflow
  check (es.length ≤ limits.maxContainerElements) .containerLimit
  pairs limits es.length
  checkKeys none es
  u8 limits start 7
  u32 limits start es.length
  forEach (fun e => do string limits start e.1 true; value e.2) es

/-- `value`, at `room = max_depth + 1 - depth`. -/
def value : Nat → AnyValueInput → RecordWriter
  | 0, _ => fun w => .error (.depthLimit, w)
  | room + 1, t => do
    node limits
    match t with
    | .null => u8 limits start 0
    | .string s => do
      u8 limits start 1
      string limits start s false
    | .bool b => do
      u8 limits start 2
      u8 limits start (if b then 1 else 0)
    | .int64 n => do
      u8 limits start 3
      bytes limits start (toBe 8 n.toUInt64.toNat)
    | .double bits => do
      u8 limits start 4
      u64 limits start (canonicalBits bits).toNat
    | .bytes b => do
      check (b.length ≤ limits.maxBytesValue) .bytesLimit
      check (b.length < 2 ^ 32) .lengthOverflow
      budgetVariable limits b.length
      u8 limits start 5
      u32 limits start b.length
      bytes limits start b
    | .array vs => do
      check (0 < room) .depthLimit
      check (vs.length < 2 ^ 32) .lengthOverflow
      check (vs.length ≤ limits.maxContainerElements) .containerLimit
      u8 limits start 6
      u32 limits start vs.length
      forEach (value room) vs
    | .map es => map limits start room (value room) es

def topMap (es : List KeyValueInput) : RecordWriter := do
  node limits
  map limits start limits.maxDepth (value limits start limits.maxDepth) es

def scope : Option ScopeInput → RecordWriter
  | none => u8 limits start 0
  | some s => do
    u8 limits start 1
    string limits start s.name false
    string limits start s.version false
    u32 limits start s.droppedAttributesCount.toNat
    topMap limits start s.attributes

def idOf {width : Nat} : Option (Fixed width) → RecordWriter
  | none => u8 limits start 0
  | some id => do
    u8 limits start (UInt8.ofNat width)
    bytes limits start id.1

def fields (record : LogRecordInput) : RecordWriter := do
  u16 limits start 0
  string limits start record.resourceSchemaUrl false
  u32 limits start record.resourceDroppedAttributesCount.toNat
  topMap limits start record.resourceAttributes
  scope limits start record.scope
  string limits start record.scopeSchemaUrl false
  u64 limits start record.timeUnixNano.toNat
  u64 limits start record.observedTimeUnixNano.toNat
  u32 limits start record.severity.toNat
  string limits start record.severityText false
  string limits start record.eventName false
  value limits start (limits.maxDepth + 1) record.body
  u32 limits start record.droppedAttributesCount.toNat
  topMap limits start record.attributes
  u32 limits start record.traceFlags.toNat
  idOf limits start record.traceId
  idOf limits start record.spanId

end RecordWriter

/-! ## The batch writer -/

abbrev BatchWriter := Writer EncodeError Bytes Unit

variable (limits : DecodeLimits) (record : LogRecordInput) (original : Nat) (records : List LogRecordInput)

def writeFields : BatchWriter := fun out =>
  match RecordWriter.fields limits out.length record ⟨out, 0⟩ with
  | .ok (_, w) => .ok ((), w.out)
  | .error (e, w) => .error (e, w.out)

open Writer in
def encodeRecord : BatchWriter := do
  check (record.timeUnixNano ≠ 0 ∨ record.observedTimeUnixNano ≠ 0) .missingTimestamp
  check (∀ id ∈ record.traceId, ¬ id.1.all (· == 0)) .zeroTraceId
  check (∀ id ∈ record.spanId, ¬ id.1.all (· == 0)) .zeroSpanId
  check (record.traceId ≠ none ∨ record.spanId = none) .orphanSpanId
  writeFields limits record

def appendPayload (start : Nat) (b : Bytes) : BatchWriter := fun out =>
  if out.length < start ∨ limits.maxPayloadBytes < out.length - start + b.length then
    .error (.payloadLimit, out)
  else .ok ((), out ++ b)

/-- `output[offset..offset + 4].copy_from_slice(..)` -/
def patch (offset : Nat) (b out : Bytes) : Bytes := out.take offset ++ b ++ out.drop (offset + b.length)

/-- The record's length goes over its placeholder. -/
def closeRecord (original offset : Nat) : BatchWriter := fun out =>
  let len := out.length - (offset + 4)
  if 2 ^ 32 ≤ len then .error (.lengthOverflow, out)
  else
    let out := patch offset (toBe 4 len) out
    if limits.maxPayloadBytes < out.length - original then .error (.payloadLimit, out)
    else .ok ((), out)

/-- One turn of the loop of `encode_logs_batch_v2_into`. -/
def encodeDelimited (record : LogRecordInput) : BatchWriter :=
  fun out => (do
    appendPayload limits original [0, 0, 0, 0]
    encodeRecord limits record
    closeRecord limits original out.length : BatchWriter) out

open Writer in
def encodeBatch : BatchWriter := do
  check (records.length < 2 ^ 32) .lengthOverflow
  check (records.length ≤ limits.maxRecords) .recordCountLimit
  appendPayload limits original (toBe 4 logsBatchV2Magic)
  appendPayload limits original (toBe 2 logsRawVersionV1)
  appendPayload limits original (toBe 4 records.length)
  forEach (encodeDelimited limits original) records

/-- The result, and the output vector as the caller finds it. -/
def encodeLogsBatchV2Into (limits : DecodeLimits) (output : Bytes) :
    Except EncodeError Unit × Bytes :=
  match encodeBatch limits output.length records output with
  | .ok (_, out) => (.ok (), out)
  | .error (e, out) => (.error e, out.take output.length)

end Scry.Proto
