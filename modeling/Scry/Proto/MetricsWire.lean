import Scry.Lib.Codec
import Scry.Proto.LogsV1
import Scry.Proto.MetricsV2

/-! # Structured metrics on the wire

A batch that the validator accepts comes back exactly if it fits the widths of its fields: the validator does not
check all of them.
-/

open Scry.Lib

namespace Scry.Proto

open Reader List

/-! ## The codec -/

namespace Wire

def u8 : Codec BinSchemaError UInt8 := .u8 .unexpectedEof

def u32 : Codec BinSchemaError UInt32 := .u32 .unexpectedEof

def u64 : Codec BinSchemaError UInt64 := .u64 .unexpectedEof

def i32 : Codec BinSchemaError Int32 := .i32 .unexpectedEof

def i64 : Codec BinSchemaError Int64 := .i64 .unexpectedEof

def f64 : Codec BinSchemaError Binary64 :=
  u64.iso Binary64.mk Binary64.bits (fun _ => rfl) fun _ _ => rfl

def fixed (n : Nat) : Codec BinSchemaError Bytes := .bytes .unexpectedEof n

def text (width : Nat) : Codec BinSchemaError Str :=
  (Codec.blob .unexpectedEof width).checked (validUtf8 · = true) .invalidUtf8

def list {α : Type} (width : Nat) (x : Codec BinSchemaError α) : Codec BinSchemaError (List α) :=
  .counted .unexpectedEof width x

def tag (t : UInt8) : Codec BinSchemaError UInt8 :=
  .tag .unexpectedEof t fun got => .invalidVariant ("expected " ++ toString t ++ ", got " ++ toString got)

def noVariant : BinSchemaError := .invalidVariant "no variant matched the input bytes"

theorem tag_startsIn (t : UInt8) : (tag t).StartsIn [t] := Codec.tag_startsIn _ _ _

def variant {α : Type} (t : UInt8) (x : Codec BinSchemaError α) : Codec BinSchemaError (UInt8 × α) :=
  (tag t).seq x

theorem variant_startsIn {α : Type} (t : UInt8) (x : Codec BinSchemaError α) : (variant t x).StartsIn [t] :=
  (tag_startsIn t).seq

end Wire

open Wire

def LabelPair.codec : Codec BinSchemaError LabelPair :=
  ((text 1).seq (text 2)).iso (fun p => ⟨p.1, p.2⟩) (fun l => (l.key, l.value)) (fun _ => rfl)
    fun _ _ => rfl

def MetricNumberV2.ofVariants : (UInt8 × Int64) ⊕ (UInt8 × Binary64) → MetricNumberV2
  | .inl (tag, value) => .integerValueV2 tag value
  | .inr (tag, value) => .doubleValueV2 tag value

def MetricNumberV2.toVariants : MetricNumberV2 → (UInt8 × Int64) ⊕ (UInt8 × Binary64)
  | .integerValueV2 tag value => .inl (tag, value)
  | .doubleValueV2 tag value => .inr (tag, value)

theorem MetricNumberV2.ofVariants_toVariants (v : MetricNumberV2) : ofVariants v.toVariants = v := by
  cases v <;> rfl

theorem MetricNumberV2.toVariants_ofVariants (v : (UInt8 × Int64) ⊕ (UInt8 × Binary64)) :
    (ofVariants v).toVariants = v := by
  cases v <;> rfl

def MetricNumberV2.codec : Codec BinSchemaError MetricNumberV2 :=
  ((variant 1 i64).union (variant 2 f64) noVariant (variant_startsIn 1 i64) (variant_startsIn 2 f64)
    (by decide +kernel)).iso ofVariants toVariants ofVariants_toVariants fun v _ => toVariants_ofVariants v

def MetricCountV2.ofVariants : (UInt8 × UInt64) ⊕ (UInt8 × Binary64) → MetricCountV2
  | .inl (tag, value) => .integerCountV2 tag value
  | .inr (tag, value) => .floatCountV2 tag value

def MetricCountV2.toVariants : MetricCountV2 → (UInt8 × UInt64) ⊕ (UInt8 × Binary64)
  | .integerCountV2 tag value => .inl (tag, value)
  | .floatCountV2 tag value => .inr (tag, value)

theorem MetricCountV2.ofVariants_toVariants (v : MetricCountV2) : ofVariants v.toVariants = v := by
  cases v <;> rfl

theorem MetricCountV2.toVariants_ofVariants (v : (UInt8 × UInt64) ⊕ (UInt8 × Binary64)) :
    (ofVariants v).toVariants = v := by
  cases v <;> rfl

def MetricCountV2.codec : Codec BinSchemaError MetricCountV2 :=
  ((variant 1 u64).union (variant 2 f64) noVariant (variant_startsIn 1 u64) (variant_startsIn 2 f64)
    (by decide +kernel)).iso ofVariants toVariants ofVariants_toVariants fun v _ => toVariants_ofVariants v

def SparseBucketsV2.codec : Codec BinSchemaError SparseBucketsV2 :=
  (i32.seq ((list 4 i32).seq (list 4 MetricCountV2.codec))).iso
    (fun (offset, deltas, counts) => ⟨offset, deltas, counts⟩)
    (fun b => (b.offset, b.deltas, b.counts)) (fun _ => rfl) fun _ _ => rfl

def QuantileValueV2.codec : Codec BinSchemaError QuantileValueV2 :=
  (f64.seq f64).iso (fun p => ⟨p.1, p.2⟩) (fun q => (q.quantile, q.value)) (fun _ => rfl)
    fun _ _ => rfl

/-- Identifiers are written as they are, and read with 16 and 8 bytes. -/
def MetricExemplarV2.codec : Codec BinSchemaError MetricExemplarV2 :=
  (u64.seq (MetricNumberV2.codec.seq ((list 2 LabelPair.codec).seq ((fixed 16).seq (fixed 8))))).iso
    (fun (ts, number, attrs, traceId, spanId) => ⟨ts, number, attrs, traceId, spanId⟩)
    (fun e => (e.tsUnixNano, e.number, e.filteredAttrs, e.traceId, e.spanId)) (fun _ => rfl)
    fun _ _ => rfl

def MetricDescriptorV2.codec : Codec BinSchemaError MetricDescriptorV2 :=
  (u32.seq ((text 2).seq ((text 2).seq ((text 2).seq (u8.seq (u8.seq (u8.seq
    ((list 2 LabelPair.codec).seq ((text 1).seq ((text 1).seq (list 2 LabelPair.codec))))))))))).iso
    (fun (id, name, description, unit, kind, temporality, monotonic, resource, scope, version, attrs) =>
      ⟨id, name, description, unit, kind, temporality, monotonic, resource, scope, version, attrs⟩)
    (fun d => (d.id, d.name, d.description, d.unit, d.metricKind, d.temporality, d.monotonic,
      d.resourceAttrs, d.scopeName, d.scopeVersion, d.scopeAttrs)) (fun _ => rfl) fun _ _ => rfl

def PointV2.codec (t : UInt8) : Codec BinSchemaError PointV2 :=
  (variant t (u32.seq (u64.seq (u64.seq (u32.seq
    ((list 2 LabelPair.codec).seq (list 2 MetricExemplarV2.codec))))))).iso
    (fun (tag, id, start, ts, flags, attributes, exemplars) =>
      ⟨tag, id, start, ts, flags, attributes, exemplars⟩)
    (fun v => (v.tag, v.descriptorId, v.startUnixNano, v.tsUnixNano, v.flags, v.attributes, v.exemplars))
    (fun _ => rfl) fun _ _ => rfl

def ScalarPointV2.codec : Codec BinSchemaError ScalarPointV2 :=
  ((PointV2.codec 1).seq MetricNumberV2.codec).iso (fun (v, number) => ⟨v, number⟩)
    (fun v => (v.toPointV2, v.number)) (fun _ => rfl) fun _ _ => rfl

def HistogramPointV2.codec : Codec BinSchemaError HistogramPointV2 :=
  ((PointV2.codec 2).seq (u64.seq (u8.seq (f64.seq (u8.seq (f64.seq (u8.seq (f64.seq
    ((list 4 f64).seq (list 4 u64)))))))))).iso
    (fun (v, count, hasSum, sum, hasMin, min, hasMax, max, bounds, counts) =>
      ⟨v, count, hasSum, sum, hasMin, min, hasMax, max, bounds, counts⟩)
    (fun v => (v.toPointV2, v.count, v.hasSum, v.sum, v.hasMin, v.min, v.hasMax, v.max,
      v.explicitBounds, v.bucketCounts)) (fun _ => rfl) fun _ _ => rfl

def ExponentialHistogramPointV2.codec : Codec BinSchemaError ExponentialHistogramPointV2 :=
  ((PointV2.codec 3).seq (MetricCountV2.codec.seq (u8.seq (f64.seq (u8.seq (f64.seq (u8.seq (f64.seq
    (i32.seq (f64.seq (MetricCountV2.codec.seq (SparseBucketsV2.codec.seq (SparseBucketsV2.codec.seq
    ((list 4 f64).seq u8)))))))))))))).iso
    (fun (v, count, hasSum, sum, hasMin, min, hasMax, max, scale, threshold, zero, positive, negative,
        bounds, hint) =>
      ⟨v, count, hasSum, sum, hasMin, min, hasMax, max, scale, threshold, zero, positive, negative,
        bounds, hint⟩)
    (fun v => (v.toPointV2, v.count, v.hasSum, v.sum, v.hasMin, v.min, v.hasMax, v.max, v.scale,
      v.zeroThreshold, v.zeroCount, v.positive, v.negative, v.customBounds, v.resetHint))
    (fun _ => rfl) fun _ _ => rfl

def SummaryPointV2.codec : Codec BinSchemaError SummaryPointV2 :=
  ((PointV2.codec 4).seq (u64.seq (f64.seq (list 2 QuantileValueV2.codec)))).iso
    (fun (v, count, sum, quantiles) => ⟨v, count, sum, quantiles⟩)
    (fun v => (v.toPointV2, v.count, v.sum, v.quantiles)) (fun _ => rfl) fun _ _ => rfl

namespace MetricPointV2

theorem pointCodec_startsIn (t : UInt8) : (PointV2.codec t).StartsIn [t] := (variant_startsIn t _).iso

theorem histogram_startsIn : HistogramPointV2.codec.StartsIn [2] := (pointCodec_startsIn 2).seq.iso

theorem exponential_startsIn : ExponentialHistogramPointV2.codec.StartsIn [3] :=
  (pointCodec_startsIn 3).seq.iso

theorem summary_startsIn : SummaryPointV2.codec.StartsIn [4] := (pointCodec_startsIn 4).seq.iso

theorem exponentialOrSummary_startsIn : (ExponentialHistogramPointV2.codec.union SummaryPointV2.codec noVariant
    exponential_startsIn summary_startsIn (by decide +kernel)).StartsIn ([3] ++ [4]) :=
  exponential_startsIn.union summary_startsIn _

/-- The decoder tries the variants in this order. -/
def variants :=
  ScalarPointV2.codec.union
    (HistogramPointV2.codec.union (ExponentialHistogramPointV2.codec.union SummaryPointV2.codec noVariant
      exponential_startsIn summary_startsIn (by decide +kernel)) noVariant histogram_startsIn
      exponentialOrSummary_startsIn (by decide +kernel))
    noVariant (pointCodec_startsIn 1).seq.iso (histogram_startsIn.union exponentialOrSummary_startsIn (by decide +kernel))
    (by decide +kernel)

def codec : Codec BinSchemaError MetricPointV2 :=
  variants.iso
    (fun v => match v with
      | .inl v => .scalarPointV2 v
      | .inr (.inl v) => .histogramPointV2 v
      | .inr (.inr (.inl v)) => .exponentialHistogramPointV2 v
      | .inr (.inr (.inr v)) => .summaryPointV2 v)
    (fun v => match v with
      | .scalarPointV2 v => .inl v
      | .histogramPointV2 v => .inr (.inl v)
      | .exponentialHistogramPointV2 v => .inr (.inr (.inl v))
      | .summaryPointV2 v => .inr (.inr (.inr v)))
    (fun v => by cases v <;> rfl) fun v _ => by rcases v with _ | _ | _ | _ <;> rfl

end MetricPointV2

/-- The magic is written whatever the batch has for it. -/
def MetricsBatchV2.encode (b : MetricsBatchV2) : Bytes :=
  toBe 4 metricsBatchV2Magic.toNat ++
    ((list 4 MetricDescriptorV2.codec).write b.descriptors ++ (list 4 MetricPointV2.codec).write b.points)

/-! ## The decoder -/

structure MetricsDecodeLimits where
  maxPayloadBytes : Nat
  maxDescriptors : Nat
  maxPoints : Nat
  deriving DecidableEq

def MetricsDecodeLimits.default : MetricsDecodeLimits := ⟨16 * 1024 * 1024, 65536, 1000000⟩

inductive MetricsDecodeError where
  | payloadLimit
  | itemLimit
  | wire (e : BinSchemaError)
  | validation (e : ValidationError)
  deriving DecidableEq

namespace MetricsV2

abbrev PayloadReader (α : Type) := Reader MetricsDecodeError (Cursor Unit) α

/-- `?` on a wire error. -/
def onWire {α : Type} (r : Reader BinSchemaError (Cursor Unit) α) : PayloadReader α :=
  fun c => (r c).mapError .wire

def readLimited {α : Type} (max : Nat) (x : Codec BinSchemaError α) : PayloadReader (List α) := do
  let n ← onWire (Cursor.uint .unexpectedEof 4)
  require (n ≤ max) .itemLimit
  onWire (times n x.read)

def readMagic : PayloadReader Unit := do
  let magic ← onWire (Cursor.uint .unexpectedEof 4)
  require (magic = metricsBatchV2Magic.toNat)
    (.wire (.invalidVariant ("expected metrics-v2 magic, got " ++ toString magic)))

def readPayload (limits : MetricsDecodeLimits) :
    PayloadReader (List MetricDescriptorV2 × List MetricPointV2) := do
  readMagic
  let descriptors ← readLimited limits.maxDescriptors MetricDescriptorV2.codec
  let points ← readLimited limits.maxPoints MetricPointV2.codec
  return (descriptors, points)

/-- The items that an appender without objections is handed. -/
def decodeMetricsBatchV2Into (limits : MetricsDecodeLimits) (payload : Bytes) :
    Except MetricsDecodeError (List MetricDescriptorV2 × List MetricPointV2) :=
  if limits.maxPayloadBytes < payload.length then .error .payloadLimit
  else
    match readPayload limits ⟨payload, ()⟩ with
    | .error e => .error e
    | .ok ((descriptors, points), c) =>
      if c.rest ≠ [] then .error (.wire (.invalidEncoding "trailing bytes after MetricsBatchV2"))
      else
        match validateParts descriptors points with
        | .error e => .error (.validation e)
        | .ok () => .ok (descriptors, points)

/-! ## What fits the wire -/

structure LabelFits (l : LabelPair) : Prop where
  key : l.key.val.length < 2 ^ 8
  value : l.value.val.length < 2 ^ 16

structure LabelsFit (xs : List LabelPair) : Prop where
  count : xs.length < 2 ^ 16
  labels : ∀ l ∈ xs, LabelFits l

def NumberFits : MetricNumberV2 → Prop
  | .integerValueV2 tag _ => tag = 1
  | .doubleValueV2 tag _ => tag = 2

def CountFits : MetricCountV2 → Prop
  | .integerCountV2 tag _ => tag = 1
  | .floatCountV2 tag _ => tag = 2

structure SparseFits (b : SparseBucketsV2) : Prop where
  deltas : b.deltas.length < 2 ^ 32
  countCount : b.counts.length < 2 ^ 32
  counts : ∀ c ∈ b.counts, CountFits c

structure ExemplarFits (e : MetricExemplarV2) : Prop where
  number : NumberFits e.number
  attrs : LabelsFit e.filteredAttrs
  traceId : e.traceId.length = 16
  spanId : e.spanId.length = 8

structure DescriptorFits (d : MetricDescriptorV2) : Prop where
  name : d.name.val.length < 2 ^ 16
  description : d.description.val.length < 2 ^ 16
  unit : d.unit.val.length < 2 ^ 16
  resourceAttrs : LabelsFit d.resourceAttrs
  scopeName : d.scopeName.val.length < 2 ^ 8
  scopeVersion : d.scopeVersion.val.length < 2 ^ 8
  scopeAttrs : LabelsFit d.scopeAttrs

structure FieldsFit (t : UInt8) (v : PointV2) : Prop where
  tag : v.tag = t
  attributes : LabelsFit v.attributes
  exemplarCount : v.exemplars.length < 2 ^ 16
  exemplars : ∀ e ∈ v.exemplars, ExemplarFits e

def PointFits : MetricPointV2 → Prop
  | .scalarPointV2 v => FieldsFit 1 v.toPointV2 ∧ NumberFits v.number
  | .histogramPointV2 v =>
    FieldsFit 2 v.toPointV2 ∧ v.explicitBounds.length < 2 ^ 32 ∧ v.bucketCounts.length < 2 ^ 32
  | .exponentialHistogramPointV2 v =>
    FieldsFit 3 v.toPointV2 ∧ CountFits v.count ∧ CountFits v.zeroCount ∧ SparseFits v.positive ∧
      SparseFits v.negative ∧ v.customBounds.length < 2 ^ 32
  | .summaryPointV2 v => FieldsFit 4 v.toPointV2 ∧ v.quantiles.length < 2 ^ 16

structure FitsWire (limits : MetricsDecodeLimits) (b : MetricsBatchV2) : Prop where
  descriptors : ∀ d ∈ b.descriptors, DescriptorFits d
  points : ∀ p ∈ b.points, PointFits p
  payloadBytes : b.encode.length ≤ limits.maxPayloadBytes
  descriptorCount : b.descriptors.length ≤ limits.maxDescriptors
  pointCount : b.points.length ≤ limits.maxPoints

section Fits

@[simp] theorem u8_fits (n : UInt8) : Wire.u8.Fits n := Codec.u8_fits _ n

@[simp] theorem u32_fits (n : UInt32) : Wire.u32.Fits n := Codec.u32_fits _ n

@[simp] theorem u64_fits (n : UInt64) : Wire.u64.Fits n := Codec.u64_fits _ n

@[simp] theorem i32_fits (n : Int32) : Wire.i32.Fits n := Codec.i32_fits _ n

@[simp] theorem i64_fits (n : Int64) : Wire.i64.Fits n := Codec.i64_fits _ n

@[simp] theorem f64_fits (x : Binary64) : Wire.f64.Fits x := u64_fits x.bits

theorem list_fits {α : Type} {k : Nat} {x : Codec BinSchemaError α} {as : List α} :
    (list k x).Fits as ↔ as.length < 256 ^ k ∧ ∀ a ∈ as, x.Fits a := Iff.rfl

theorem variant_fits {α : Type} {t : UInt8} {x : Codec BinSchemaError α} {p : UInt8 × α} :
    (variant t x).Fits p ↔ p.1 = t ∧ x.Fits p.2 := Iff.rfl

theorem label_fits {l : LabelPair} : LabelPair.codec.Fits l ↔ LabelFits l :=
  ⟨fun ⟨hkey, hvalue⟩ => ⟨hkey, hvalue⟩, fun ⟨hkey, hvalue⟩ => ⟨hkey, hvalue⟩⟩

theorem labels_fit {xs : List LabelPair} : (list 2 LabelPair.codec).Fits xs ↔ LabelsFit xs := by
  rw [list_fits]
  simp only [label_fits]
  exact ⟨fun ⟨hcnt, hall⟩ => ⟨hcnt, hall⟩, fun ⟨hcnt, hall⟩ => ⟨hcnt, hall⟩⟩

theorem number_fits {n : MetricNumberV2} : MetricNumberV2.codec.Fits n ↔ NumberFits n := by
  cases n with
  | integerValueV2 tag value => exact variant_fits.trans (and_iff_left (i64_fits value))
  | doubleValueV2 tag value => exact variant_fits.trans (and_iff_left (f64_fits value))

theorem count_fits {n : MetricCountV2} : MetricCountV2.codec.Fits n ↔ CountFits n := by
  cases n with
  | integerCountV2 tag value => exact variant_fits.trans (and_iff_left (u64_fits value))
  | floatCountV2 tag value => exact variant_fits.trans (and_iff_left (f64_fits value))

theorem sparse_fits {b : SparseBucketsV2} : SparseBucketsV2.codec.Fits b ↔ SparseFits b := by
  have hfits : SparseBucketsV2.codec.Fits b ↔ Wire.i32.Fits b.offset ∧ (list 4 Wire.i32).Fits b.deltas ∧
      (list 4 MetricCountV2.codec).Fits b.counts := Iff.rfl
  simp only [hfits, list_fits, i32_fits, count_fits, implies_true, and_true, true_and]
  exact ⟨fun ⟨hdeltas, hcnt, hall⟩ => ⟨hdeltas, hcnt, hall⟩,
    fun ⟨hdeltas, hcnt, hall⟩ => ⟨hdeltas, hcnt, hall⟩⟩

theorem exemplar_fits {e : MetricExemplarV2} : MetricExemplarV2.codec.Fits e ↔ ExemplarFits e := by
  have hfits : MetricExemplarV2.codec.Fits e ↔ Wire.u64.Fits e.tsUnixNano ∧
      MetricNumberV2.codec.Fits e.number ∧ (list 2 LabelPair.codec).Fits e.filteredAttrs ∧
        e.traceId.length = 16 ∧ e.spanId.length = 8 := Iff.rfl
  simp only [hfits, u64_fits, number_fits, labels_fit, true_and]
  exact ⟨fun ⟨hnum, hattrs, htrace, hspan⟩ => ⟨hnum, hattrs, htrace, hspan⟩,
    fun ⟨hnum, hattrs, htrace, hspan⟩ => ⟨hnum, hattrs, htrace, hspan⟩⟩

theorem descriptor_fits {d : MetricDescriptorV2} : MetricDescriptorV2.codec.Fits d ↔ DescriptorFits d := by
  have hfits : MetricDescriptorV2.codec.Fits d ↔ Wire.u32.Fits d.id ∧ (text 2).Fits d.name ∧
      (text 2).Fits d.description ∧ (text 2).Fits d.unit ∧ Wire.u8.Fits d.metricKind ∧
      Wire.u8.Fits d.temporality ∧ Wire.u8.Fits d.monotonic ∧
      (list 2 LabelPair.codec).Fits d.resourceAttrs ∧ (text 1).Fits d.scopeName ∧
      (text 1).Fits d.scopeVersion ∧ (list 2 LabelPair.codec).Fits d.scopeAttrs := Iff.rfl
  simp only [hfits, u32_fits, u8_fits, labels_fit, true_and]
  exact ⟨fun ⟨hname, hdesc, hunit, hres, hscope, hver, hattrs⟩ =>
      ⟨hname, hdesc, hunit, hres, hscope, hver, hattrs⟩,
    fun ⟨hname, hdesc, hunit, hres, hscope, hver, hattrs⟩ =>
      ⟨hname, hdesc, hunit, hres, hscope, hver, hattrs⟩⟩

theorem fields_fit {t : UInt8} {v : PointV2} : (PointV2.codec t).Fits v ↔ FieldsFit t v := by
  have hfits : (PointV2.codec t).Fits v ↔ v.tag = t ∧ Wire.u32.Fits v.descriptorId ∧
      Wire.u64.Fits v.startUnixNano ∧ Wire.u64.Fits v.tsUnixNano ∧ Wire.u32.Fits v.flags ∧
      (list 2 LabelPair.codec).Fits v.attributes ∧ (list 2 MetricExemplarV2.codec).Fits v.exemplars :=
    Iff.rfl
  rw [hfits, labels_fit, list_fits]
  simp only [u32_fits, u64_fits, exemplar_fits, true_and]
  exact ⟨fun ⟨htag, hattrs, hcnt, hall⟩ => ⟨htag, hattrs, hcnt, hall⟩,
    fun ⟨htag, hattrs, hcnt, hall⟩ => ⟨htag, hattrs, hcnt, hall⟩⟩

theorem point_fits {p : MetricPointV2} : MetricPointV2.codec.Fits p ↔ PointFits p := by
  cases p with
  | scalarPointV2 v =>
    have hfits : MetricPointV2.codec.Fits (.scalarPointV2 v) ↔ (PointV2.codec 1).Fits v.toPointV2 ∧
        MetricNumberV2.codec.Fits v.number := Iff.rfl
    rw [hfits, fields_fit, number_fits]
    rfl
  | histogramPointV2 v =>
    have hfits : MetricPointV2.codec.Fits (.histogramPointV2 v) ↔ (PointV2.codec 2).Fits v.toPointV2 ∧
        Wire.u64.Fits v.count ∧ Wire.u8.Fits v.hasSum ∧ Wire.f64.Fits v.sum ∧ Wire.u8.Fits v.hasMin ∧
        Wire.f64.Fits v.min ∧ Wire.u8.Fits v.hasMax ∧ Wire.f64.Fits v.max ∧
        (list 4 Wire.f64).Fits v.explicitBounds ∧ (list 4 Wire.u64).Fits v.bucketCounts := Iff.rfl
    simp only [hfits, fields_fit, u64_fits, u8_fits, f64_fits, list_fits, implies_true, and_true, true_and]
    rfl
  | exponentialHistogramPointV2 v =>
    have hfits : MetricPointV2.codec.Fits (.exponentialHistogramPointV2 v) ↔
        (PointV2.codec 3).Fits v.toPointV2 ∧ MetricCountV2.codec.Fits v.count ∧ Wire.u8.Fits v.hasSum ∧
        Wire.f64.Fits v.sum ∧ Wire.u8.Fits v.hasMin ∧ Wire.f64.Fits v.min ∧ Wire.u8.Fits v.hasMax ∧
        Wire.f64.Fits v.max ∧ Wire.i32.Fits v.scale ∧ Wire.f64.Fits v.zeroThreshold ∧
        MetricCountV2.codec.Fits v.zeroCount ∧ SparseBucketsV2.codec.Fits v.positive ∧
        SparseBucketsV2.codec.Fits v.negative ∧ (list 4 Wire.f64).Fits v.customBounds ∧
        Wire.u8.Fits v.resetHint := Iff.rfl
    simp only [hfits, fields_fit, count_fits, sparse_fits, u8_fits, i32_fits, f64_fits, list_fits,
      implies_true, and_true, true_and]
    rfl
  | summaryPointV2 v =>
    have hfits : MetricPointV2.codec.Fits (.summaryPointV2 v) ↔ (PointV2.codec 4).Fits v.toPointV2 ∧
        Wire.u64.Fits v.count ∧ Wire.f64.Fits v.sum ∧
        (list 2 QuantileValueV2.codec).Fits v.quantiles := Iff.rfl
    have hquantile (q : QuantileValueV2) : QuantileValueV2.codec.Fits q :=
      ⟨f64_fits q.quantile, f64_fits q.value⟩
    simp only [hfits, fields_fit, u64_fits, f64_fits, list_fits, hquantile, implies_true, and_true, true_and]
    rfl

end Fits

/-! ## The round trip -/

section RoundTrip
variable {α : Type} {c c' : Cursor Unit} {r : Reader BinSchemaError (Cursor Unit) α}

theorem onWire_ok {a : α} :
    onWire r c = .ok (a, c') ↔ r c = .ok (a, c') := mapError_ok

theorem onWire_decodes {w : Bytes} {a : α}
    (h : Cursor.Decodes r w a) : Cursor.Decodes (onWire r) w a :=
  fun c => onWire_ok.mpr (h c)

variable {as : List α} {x : Codec BinSchemaError α}

theorem readLimited_decodes {max : Nat} (hfits : (list 4 x).Fits as)
    (hmax : as.length ≤ max) : Cursor.Decodes (readLimited max x) ((list 4 x).write as) as := by
  refine (onWire_decodes (Cursor.decodes_uint _ hfits.1)).bind fun c => ?_
  have hitems := onWire_decodes (x.times_reads hfits.2) c
  exact bind_ok.mpr ⟨(), _, require_ok.mpr ⟨hmax, rfl⟩, hitems⟩

theorem readLimited_fits {max : Nat}
    (h : readLimited max x c = .ok (as, c')) : as.length ≤ max ∧ ∀ a ∈ as, x.Fits a := by
  obtain ⟨n, c₁, -, h⟩ := bind_ok.mp h
  obtain ⟨_, c₂, hmax, h⟩ := bind_ok.mp h
  obtain ⟨hlen, hall⟩ := x.times_fits (onWire_ok.mp h)
  rw [hlen]
  exact ⟨(require_ok.mp hmax).1, hall⟩

theorem readMagic_decodes : Cursor.Decodes readMagic (toBe 4 metricsBatchV2Magic.toNat) () := by
  intro c
  have hmagic : Cursor.Decodes (Cursor.uint .unexpectedEof 4 : BatchDecoder Nat)
      (toBe 4 metricsBatchV2Magic.toNat) metricsBatchV2Magic.toNat :=
    Cursor.decodes_uint _ (by decide)
  exact bind_ok.mpr ⟨_, c, onWire_decodes hmagic c, require_ok.mpr ⟨rfl, rfl⟩⟩

end RoundTrip

variable {limits : MetricsDecodeLimits} {b : MetricsBatchV2}

theorem readPayload_encode (hvalid : Valid b) (h : FitsWire limits b) :
    Cursor.Decodes (readPayload limits) b.encode (b.descriptors, b.points) := by
  have hdescs : (list 4 MetricDescriptorV2.codec).Fits b.descriptors :=
    ⟨hvalid.descriptorCount, fun d hd => descriptor_fits.mpr (h.descriptors d hd)⟩
  have hpoints : (list 4 MetricPointV2.codec).Fits b.points :=
    ⟨hvalid.pointCount, fun p hp => point_fits.mpr (h.points p hp)⟩
  exact readMagic_decodes.bind ((readLimited_decodes hdescs h.descriptorCount).bind
    ((readLimited_decodes hpoints h.pointCount).map fun points => (b.descriptors, points)))

/-- **What the wire takes of a valid batch.** It is decoded to itself just when it fits the wire format and
the limits. -/
theorem metrics_round_trip_iff (limits : MetricsDecodeLimits) (b : MetricsBatchV2) (hvalid : validate b = .ok ()) :
    decodeMetricsBatchV2Into limits b.encode = .ok (b.descriptors, b.points) ↔ FitsWire limits b := by
  have hv := validate_ok.mp hvalid
  unfold decodeMetricsBatchV2Into
  constructor
  · intro h
    split at h
    · cases h
    next hpayload =>
    split at h
    · cases h
    next descriptors points c hread =>
    split at h
    · cases h
    split at h
    · cases h
    cases h
    obtain ⟨_, c₁, -, hread⟩ := bind_ok.mp hread
    obtain ⟨ds, c₂, hds, hread⟩ := bind_ok.mp hread
    obtain ⟨ps, c₃, hps, hread⟩ := bind_ok.mp hread
    obtain ⟨heq, -⟩ := pure_ok.mp hread
    cases heq
    obtain ⟨hdescriptorCount, hdescriptors⟩ := readLimited_fits hds
    obtain ⟨hpointCount, hpoints⟩ := readLimited_fits hps
    exact ⟨fun d hd => descriptor_fits.mp (hdescriptors d hd), fun p hp => point_fits.mp (hpoints p hp),
      Nat.not_lt.mp hpayload, hdescriptorCount, hpointCount⟩
  · intro h
    have hread := readPayload_encode hv h ⟨[], ()⟩
    have hparts : validateParts b.descriptors b.points = .ok () := by
      simp only [validate, except_unit_bind_ok] at hvalid
      exact hvalid.2.2
    rw [Cursor.unread, append_nil] at hread
    rw [if_neg (Nat.not_lt.mpr h.payloadBytes), hread]
    simp [hparts]

def gaugeBatch (traceId spanId : Bytes) : MetricsBatchV2 where
  magic := metricsBatchV2Magic
  descriptors := [⟨1, ⟨ascii "up", validUtf8_up⟩, ⟨[], validUtf8_nil⟩, ⟨[], validUtf8_nil⟩, MetricKind.gauge, 0, 0, [],
    ⟨[], validUtf8_nil⟩, ⟨[], validUtf8_nil⟩, []⟩]
  points := [.scalarPointV2
    ⟨⟨1, 1, 0, 1000, 0, [], [⟨1000, .doubleValueV2 2 .one, [], traceId, spanId⟩]⟩, .doubleValueV2 2 .one⟩]

theorem metrics_round_trip_with_ids :
    decodeMetricsBatchV2Into .default (gaugeBatch (replicate 16 1) (replicate 8 1)).encode =
      .ok ((gaugeBatch (replicate 16 1) (replicate 8 1)).descriptors,
        (gaugeBatch (replicate 16 1) (replicate 8 1)).points) :=
  (metrics_round_trip_iff _ _ (by decide)).mpr
    ⟨by
      intro d hd
      obtain rfl := mem_singleton.mp hd
      exact ⟨by decide, by decide, by decide, ⟨by decide, forall_mem_nil _⟩, by decide, by decide, ⟨by decide, forall_mem_nil _⟩⟩,
    by
      intro p hp
      obtain rfl := mem_singleton.mp hp
      refine ⟨⟨rfl, ⟨by decide, forall_mem_nil _⟩, by decide, fun e he => ?_⟩, rfl⟩
      obtain rfl := mem_singleton.mp he
      exact ⟨rfl, ⟨by decide, forall_mem_nil _⟩, rfl, rfl⟩,
    by decide, by decide, by decide⟩

/-- The decoder takes the next 24 bytes for identifiers. -/
theorem exemplar_without_ids_lost : validate (gaugeBatch [] []) = .ok () ∧ decodeMetricsBatchV2Into .default
    (gaugeBatch [] []).encode = .error (.wire noVariant) := by
  decide +kernel

end MetricsV2

end Scry.Proto
