import Scry.Proto.MetricsV2
import Mathlib.Data.List.Sort

/-! # Prometheus remote write

Versions 1 and 2 differ in where labels, metadata and start times come from; a `RawSeries` holds these as the
loop over the series reaches them.
-/

open Scry.Lib Scry.Proto Scry.Proto.MetricsV2

namespace Scry.Gateway

/-! ## Requests -/

structure Label where
  name : Str
  value : Str
  deriving DecidableEq

structure Sample where
  value : Binary64
  timestamp : Int64
  startTimestamp : Int64
  deriving DecidableEq

structure BucketSpan where
  offset : Int32
  length : UInt32
  deriving DecidableEq

inductive Count where
  | int (value : UInt64)
  | float (value : Binary64)
  deriving DecidableEq

/-- A native histogram. Version 1 has no start time: it is zero there. -/
structure Histogram where
  count : Option Count
  sum : Binary64
  schema : Int32
  zeroThreshold : Binary64
  zeroCount : Option Count
  negativeSpans : List BucketSpan
  negativeDeltas : List Int64
  negativeCounts : List Binary64
  positiveSpans : List BucketSpan
  positiveDeltas : List Int64
  positiveCounts : List Binary64
  resetHint : Int32
  timestamp : Int64
  startTimestamp : Int64
  customValues : List Binary64
  deriving DecidableEq

namespace V1

structure Sample where
  value : Binary64
  timestamp : Int64
  deriving DecidableEq

structure Exemplar where
  labels : List Label
  value : Binary64
  timestamp : Int64
  deriving DecidableEq

structure TimeSeries where
  labels : List Label
  samples : List Sample
  exemplars : List Exemplar
  histograms : List Histogram
  deriving DecidableEq

structure MetricMetadata where
  type : Int32
  metricFamilyName : Str
  help : Str
  unit : Str
  deriving DecidableEq

structure WriteRequest where
  timeseries : List TimeSeries
  metadata : List MetricMetadata
  deriving DecidableEq

end V1

namespace V2

structure Exemplar where
  labelsRefs : List UInt32
  value : Binary64
  timestamp : Int64
  deriving DecidableEq

structure Metadata where
  type : Int32
  helpRef : UInt32
  unitRef : UInt32
  deriving DecidableEq

structure TimeSeries where
  labelsRefs : List UInt32
  samples : List Gateway.Sample
  histograms : List Histogram
  exemplars : List Exemplar
  metadata : Option Metadata
  deriving DecidableEq

structure Request where
  symbols : List Str
  timeseries : List TimeSeries
  deriving DecidableEq

end V2

/-! ## Outcomes -/

inductive MapFault where
  | refused (message : String)
  | panic
  deriving DecidableEq

abbrev Mapped := Except MapFault

def err {α : Type} (message : String) : Mapped α := .error (.refused message)

def collect {α β : Type} (f : α → Mapped β) : List α → Mapped (List β)
  | [] => .ok []
  | x :: xs => do
    let y ← f x
    let ys ← collect f xs
    return y :: ys

/-! ## Labels -/

def nameLabel : Bytes := ascii "__name__"

def splitLoop : List Label → Option Str → List LabelPair → Mapped (Option Str × List LabelPair)
  | [], name, attrs => .ok (name, attrs)
  | l :: rest, name, attrs =>
    if l.name.val = nameLabel then
      match name with
      | some _ => err "duplicate __name__ label"
      | none => splitLoop rest (some l.value) attrs
    else splitLoop rest name (attrs ++ [⟨l.name, l.value⟩])

def LabelLe (a b : LabelPair) : Prop :=
  a.key.val < b.key.val ∨ (a.key.val = b.key.val ∧ ¬ b.value.val < a.value.val)

instance : DecidableRel LabelLe := fun _ _ => inferInstanceAs (Decidable (_ ∨ _))

def splitLabels (labels : List Label) : Mapped (Str × List LabelPair) := do
  let (name, attrs) ← splitLoop labels none []
  match name.filter fun v => v.val ≠ [] with
  | none => err "series has no __name__ label"
  | some name => return (name, attrs.insertionSort LabelLe)

def symbol (symbols : List Str) (reference : UInt32) : Mapped Str :=
  match symbols[reference.toNat]? with
  | some s => .ok s
  | none => err ("symbol reference " ++ toString reference ++ " is out of range")

def refPairs (symbols : List Str) : List UInt32 → Mapped (List Label)
  | n :: v :: rest => do
    let name ← symbol symbols n
    let value ← symbol symbols v
    let labels ← refPairs symbols rest
    return ⟨name, value⟩ :: labels
  | _ => .ok []

def refsToLabels (symbols : List Str) (refs : List UInt32) : Mapped (List Label) :=
  if refs.length % 2 ≠ 0 then err "label symbol references must be name/value pairs"
  else refPairs symbols refs

/-! ## Times -/

def ms (value : Int64) : Mapped UInt64 :=
  if value.toInt < 0 then err "negative timestamp"
  else if value.toInt * 1000000 < 2 ^ 64 then .ok (UInt64.ofNat (value.toInt.toNat * 1000000))
  else err "timestamp overflows nanoseconds"

def startNano (start : Int64) : Mapped UInt64 := if start = 0 then .ok 0 else ms start

/-! ## Exemplars -/

variable (id : UInt32) (exemplars : List MetricExemplarV2) (h : Histogram) (b : UInt8)

def hexDigit : Option UInt8 :=
  if 48 ≤ b ∧ b ≤ 57 then some (b - 48)
  else if 97 ≤ b ∧ b ≤ 102 then some (b - 87)
  else if 65 ≤ b ∧ b ≤ 70 then some (b - 55)
  else none

/-- `u8::from_str_radix` on two bytes: a plus sign may come first. -/
def hexByte (a b : UInt8) : Option UInt8 :=
  if a = 43 then hexDigit b
  else do
    let hi ← hexDigit a
    let lo ← hexDigit b
    return 16 * hi + lo

def isContinuation : Bool := 0x80 ≤ b && b ≤ 0xBF

/-- A slice that cuts a character panics; a pair that is no byte ends the loop. -/
def hexPairs : Bytes → Mapped (Option Bytes)
  | a :: b :: rest =>
    if isContinuation a || rest.head?.any isContinuation then .error .panic
    else
      match hexByte a b with
      | none => .ok none
      | some v => do
        let tail ← hexPairs rest
        return tail.map (v :: ·)
  | _ => .ok (some [])

def decodeHex (s : Bytes) : Mapped (Option Bytes) :=
  if s.length % 2 ≠ 0 then .ok none else hexPairs s

def traceIdLabel : Bytes := ascii "trace_id"

def spanIdLabel : Bytes := ascii "span_id"

/-- `labels.retain`: the last of several identifiers counts. -/
def retainLabels : List LabelPair → Bytes → Bytes → Mapped (Bytes × Bytes × List LabelPair)
  | [], traceId, spanId => .ok (traceId, spanId, [])
  | l :: rest, traceId, spanId =>
    if l.key.val = traceIdLabel then do
      let id ← decodeHex l.value.val
      retainLabels rest (id.getD []) spanId
    else if l.key.val = spanIdLabel then do
      let id ← decodeHex l.value.val
      retainLabels rest traceId (id.getD [])
    else do
      let (traceId, spanId, kept) ← retainLabels rest traceId spanId
      return (traceId, spanId, l :: kept)

def exemplar (labels : List LabelPair) (value : Binary64) (timestamp : Int64) :
    Mapped MetricExemplarV2 := do
  let (traceId, spanId, kept) ← retainLabels labels [] []
  let ts ← ms timestamp
  return ⟨ts, .doubleValueV2 2 value, kept, traceId, spanId⟩

/-- An exemplar whose labels are looked up when its turn comes. -/
structure RawExemplar where
  labels : Mapped (List Label)
  value : Binary64
  timestamp : Int64

def mapExemplar (x : RawExemplar) : Mapped MetricExemplarV2 := do
  let labels ← x.labels
  exemplar (labels.map fun l => ⟨l.name, l.value⟩) x.value x.timestamp

/-! ## Histograms -/

def i32 (n : Int) (message : String) : Mapped Int :=
  if -2 ^ 31 ≤ n ∧ n < 2 ^ 31 then .ok n else err message

def spanIndices (start : Int) : Nat → Nat → Mapped (List Int)
  | _, 0 => .ok []
  | j, count + 1 => do
    let j' ← i32 j "bucket span too long"
    let index ← i32 (start + j') "bucket index overflow"
    let rest ← spanIndices start (j + 1) count
    return index :: rest

def spanStart (previousEnd : Option Int) (s : BucketSpan) : Mapped Int :=
  match previousEnd with
  | none => .ok s.offset.toInt
  | some e => i32 (e + s.offset.toInt) "bucket span offset overflow"

def bucketIndices : Option Int → List BucketSpan → Mapped (List Int)
  | _, [] => .ok []
  | previousEnd, s :: rest => do
    let start ← spanStart previousEnd s
    let indices ← spanIndices start 0 s.length.toNat
    let length ← i32 s.length.toNat "bucket span too long"
    let stop ← i32 (start + length) "bucket span end overflow"
    let later ← bucketIndices (some stop) rest
    return indices ++ later

def bucketGaps : List Int → Mapped (List Int32)
  | a :: b :: rest => do
    let gap ← i32 (b - a) "bucket index delta overflow"
    let gaps ← bucketGaps (b :: rest)
    return Int32.ofInt gap :: gaps
  | _ => .ok []

def deltaCounts : Int → List Int64 → Mapped (List MetricCountV2)
  | _, [] => .ok []
  | current, d :: rest => do
    let current := current + d.toInt
    if current < -2 ^ 63 ∨ 2 ^ 63 ≤ current then err "bucket count delta overflow"
    else if current < 0 then err "negative bucket count"
    else do
      let counts ← deltaCounts current rest
      return .integerCountV2 1 (UInt64.ofNat current.toNat) :: counts

def bucketValues (deltas : List Int64) (counts : List Binary64) (integer : Bool) : Mapped (List MetricCountV2) :=
  if integer then deltaCounts 0 deltas else .ok (counts.map (.floatCountV2 2))

def sparse (spans : List BucketSpan) (deltas : List Int64) (counts : List Binary64) (integer : Bool) :
    Mapped SparseBucketsV2 := do
  let expected := (spans.map fun s => s.length.toNat).sum
  if 2 ^ 64 ≤ expected then err "bucket span length overflow"
  else if (integer ∧ deltas.length ≠ expected) ∨ (¬ integer ∧ counts.length ≠ expected) then
    err "bucket span/count lengths differ"
  else if (integer ∧ counts ≠ []) ∨ (¬ integer ∧ deltas ≠ []) then
    err "mixed integer/float bucket encoding"
  else do
    let indices ← bucketIndices none spans
    let gaps ← bucketGaps indices
    let values ← bucketValues deltas counts integer
    return ⟨Int32.ofInt (indices.head?.getD 0), gaps, values⟩

def Count.isInt : Count → Bool
  | .int _ => true
  | .float _ => false

def Count.metric : Count → MetricCountV2
  | .int v => .integerCountV2 1 v
  | .float v => .floatCountV2 2 v

def exponentialPoint (count zeroCount : Count)
    (negative positive : SparseBucketsV2) (start ts : UInt64) : ExponentialHistogramPointV2 where
  tag := 3
  descriptorId := id
  startUnixNano := start
  tsUnixNano := ts
  flags := 0
  attributes := []
  exemplars := exemplars
  count := count.metric
  hasSum := 1
  sum := h.sum
  hasMin := 0
  min := .zero
  hasMax := 0
  max := .zero
  scale := h.schema
  zeroThreshold := h.zeroThreshold
  zeroCount := zeroCount.metric
  positive := positive
  negative := negative
  customBounds := h.customValues
  resetHint := UInt8.ofNat h.resetHint.toInt.toNat

def histogramPoint : Mapped MetricPointV2 :=
  match h.count, h.zeroCount with
  | none, _ => err "histogram has no count"
  | some _, none => err "histogram has no zero count"
  | some count, some zeroCount =>
    if count.isInt ≠ zeroCount.isInt then err "mixed integer/float histogram counts"
    else do
      let negative ← sparse h.negativeSpans h.negativeDeltas h.negativeCounts count.isInt
      let positive ← sparse h.positiveSpans h.positiveDeltas h.positiveCounts count.isInt
      let start ← startNano h.startTimestamp
      let ts ← ms h.timestamp
      if 0 ≤ h.resetHint.toInt ∧ h.resetHint.toInt ≤ 3 then
        return .exponentialHistogramPointV2
          (exponentialPoint id exemplars h count zeroCount negative positive start ts)
      else err "invalid histogram reset hint"

/-! ## Series -/

def samplePoint (s : Sample) : Mapped MetricPointV2 := do
  let start ← startNano s.startTimestamp
  let ts ← ms s.timestamp
  return .scalarPointV2
    { tag := 1, descriptorId := id, startUnixNano := start, tsUnixNano := ts, flags := 0
      attributes := [], exemplars := exemplars, number := .doubleValueV2 2 s.value }

def kindOf (ty : Option Int32) : UInt8 × UInt8 × UInt8 :=
  match (ty.getD 0).toInt with
  | 1 => (MetricKind.sum, 2, 1)
  | 3 => (MetricKind.exponentialHistogram, 2, 0)
  | 4 => (MetricKind.exponentialHistogram, 0, 0)
  | _ => (MetricKind.gauge, 0, 0)

def noText : Str := ⟨[], validUtf8_nil⟩

structure RawSeries where
  labels : Mapped (List Label)
  described : Str → Mapped (Option Int32 × Str × Str)
  exemplars : List RawExemplar
  samples : List Sample
  histograms : List Histogram

structure Series where
  name : Str
  attrs : List LabelPair
  type : Option Int32
  help : Str
  unit : Str
  exemplars : List MetricExemplarV2
  samples : List Sample
  histograms : List Histogram

def RawSeries.resolve (s : RawSeries) : Mapped (Option Series) := do
  let labels ← s.labels
  if labels.isEmpty || (s.samples.isEmpty && s.histograms.isEmpty) then return none
  else
    let (name, attrs) ← splitLabels labels
    let (type, help, unit) ← s.described name
    let exemplars ← collect mapExemplar s.exemplars
    return some ⟨name, attrs, type, help, unit, exemplars, s.samples, s.histograms⟩

namespace Series

def descriptor (r : Series) (id : UInt32) : MetricDescriptorV2 where
  id := id
  name := r.name
  description := r.help
  unit := r.unit
  metricKind := (kindOf r.type).1
  temporality := (kindOf r.type).2.1
  monotonic := (kindOf r.type).2.2
  resourceAttrs := r.attrs
  scopeName := noText
  scopeVersion := noText
  scopeAttrs := []

def points (r : Series) (id : UInt32) : Mapped (List MetricPointV2) := do
  let samples ← collect (samplePoint id r.exemplars) r.samples
  let histograms ← collect (histogramPoint id r.exemplars) r.histograms
  return samples ++ histograms

end Series

variable (out : MetricsBatchV2)

/-- `out.descriptors.len() as u32 + 1` is computed modulo `2 ^ 32`. -/
def appendSeries (r : Series) : Mapped MetricsBatchV2 := do
  let id := UInt32.ofNat out.descriptors.length + 1
  let points ← r.points id
  return { out with descriptors := out.descriptors ++ [r.descriptor id], points := out.points ++ points }

def mapSeries (s : RawSeries) : Mapped MetricsBatchV2 := do
  match ← s.resolve with
  | none => return out
  | some r => appendSeries out r

def emptyBatch : MetricsBatchV2 := ⟨metricsBatchV2Magic, [], []⟩

def mapAll (series : List RawSeries) : Mapped MetricsBatchV2 := series.foldlM mapSeries emptyBatch

namespace V1

/-- `metadata.get(&name)`: the last entry for the name. -/
def WriteRequest.getMetadata (req : WriteRequest) (name : Str) : Option MetricMetadata :=
  req.metadata.reverse.find? (·.metricFamilyName = name)

def TimeSeries.raw (req : WriteRequest) (ts : TimeSeries) : RawSeries where
  labels := .ok ts.labels
  described name :=
    let inferred := if ts.histograms.isEmpty then none else some 3
    match req.getMetadata name with
    | some m => .ok (some m.type, m.help, m.unit)
    | none => .ok (inferred, noText, noText)
  exemplars := ts.exemplars.map fun x => ⟨.ok x.labels, x.value, x.timestamp⟩
  samples := ts.samples.map fun s => ⟨s.value, s.timestamp, 0⟩
  histograms := ts.histograms.map fun h => { h with startTimestamp := 0 }

end V1

namespace V2

def TimeSeries.raw (symbols : List Str) (ts : TimeSeries) : RawSeries where
  labels := refsToLabels symbols ts.labelsRefs
  described _ :=
    match ts.metadata with
    | none => .ok (none, noText, noText)
    | some m => do
      let help ← symbol symbols m.helpRef
      let unit ← symbol symbols m.unitRef
      return (some m.type, help, unit)
  exemplars := ts.exemplars.map fun x => ⟨refsToLabels symbols x.labelsRefs, x.value, x.timestamp⟩
  samples := ts.samples
  histograms := ts.histograms

end V2

def mapV1 (req : V1.WriteRequest) : Mapped MetricsBatchV2 :=
  mapAll (req.timeseries.map (V1.TimeSeries.raw req))

def mapV2 (req : V2.Request) : Mapped MetricsBatchV2 :=
  mapAll (req.timeseries.map (V2.TimeSeries.raw req.symbols))

end Scry.Gateway
