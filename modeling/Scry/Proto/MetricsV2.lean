import Scry.Lib.Binary64
import Scry.Proto.Tree

/-! # Structured metrics, version 2

Doubles are their bits. A variant has a field for its tag, which nothing but the constructors of the source keeps
at its constant.
-/

open Scry.Lib

namespace Scry.Proto

structure LabelPair where
  key : Str
  value : Str
  deriving DecidableEq

inductive MetricNumberV2 where
  | integerValueV2 (tag : UInt8) (value : Int64)
  | doubleValueV2 (tag : UInt8) (value : Binary64)
  deriving DecidableEq

inductive MetricCountV2 where
  | integerCountV2 (tag : UInt8) (value : UInt64)
  | floatCountV2 (tag : UInt8) (value : Binary64)
  deriving DecidableEq

structure SparseBucketsV2 where
  offset : Int32
  deltas : List Int32
  counts : List MetricCountV2
  deriving DecidableEq

structure QuantileValueV2 where
  quantile : Binary64
  value : Binary64
  deriving DecidableEq

structure MetricExemplarV2 where
  tsUnixNano : UInt64
  number : MetricNumberV2
  filteredAttrs : List LabelPair
  traceId : Bytes
  spanId : Bytes
  deriving DecidableEq

structure MetricDescriptorV2 where
  id : UInt32
  name : Str
  description : Str
  unit : Str
  metricKind : UInt8
  temporality : UInt8
  monotonic : UInt8
  resourceAttrs : List LabelPair
  scopeName : Str
  scopeVersion : Str
  scopeAttrs : List LabelPair
  deriving DecidableEq

structure PointV2 where
  tag : UInt8
  descriptorId : UInt32
  startUnixNano : UInt64
  tsUnixNano : UInt64
  flags : UInt32
  attributes : List LabelPair
  exemplars : List MetricExemplarV2
  deriving DecidableEq

structure ScalarPointV2 extends PointV2 where
  number : MetricNumberV2
  deriving DecidableEq

structure HistogramPointV2 extends PointV2 where
  count : UInt64
  hasSum : UInt8
  sum : Binary64
  hasMin : UInt8
  min : Binary64
  hasMax : UInt8
  max : Binary64
  explicitBounds : List Binary64
  bucketCounts : List UInt64
  deriving DecidableEq

structure ExponentialHistogramPointV2 extends PointV2 where
  count : MetricCountV2
  hasSum : UInt8
  sum : Binary64
  hasMin : UInt8
  min : Binary64
  hasMax : UInt8
  max : Binary64
  scale : Int32
  zeroThreshold : Binary64
  zeroCount : MetricCountV2
  positive : SparseBucketsV2
  negative : SparseBucketsV2
  customBounds : List Binary64
  resetHint : UInt8
  deriving DecidableEq

structure SummaryPointV2 extends PointV2 where
  count : UInt64
  sum : Binary64
  quantiles : List QuantileValueV2
  deriving DecidableEq

inductive MetricPointV2 where
  | scalarPointV2 (v : ScalarPointV2)
  | histogramPointV2 (v : HistogramPointV2)
  | exponentialHistogramPointV2 (v : ExponentialHistogramPointV2)
  | summaryPointV2 (v : SummaryPointV2)
  deriving DecidableEq

def metricsBatchV2Magic : UInt32 := 1397568000

structure MetricsBatchV2 where
  magic : UInt32
  descriptors : List MetricDescriptorV2
  points : List MetricPointV2
  deriving DecidableEq

namespace MetricKind

def gauge : UInt8 := 1

def sum : UInt8 := 2

def histogram : UInt8 := 3

def exponentialHistogram : UInt8 := 4

def summary : UInt8 := 5

end MetricKind

inductive ValidationError where
  | duplicateDescriptor (id : UInt32)
  | unknownDescriptor (id : UInt32)
  | badDescriptor (id : UInt32)
  | kindMismatch (id : UInt32)
  | histogramShape
  | unsorted
  | badNumber
  | badPresence
  | sparseShape
  | badExponential
  | badTimestamp
  | badExemplarId
  | lengthOverflow
  deriving DecidableEq

abbrev Checked := Except ValidationError

namespace MetricsV2

def refuse (bad : Prop) [Decidable bad] (e : ValidationError) : Checked Unit :=
  if bad then .error e else .ok ()

def forEach {α : Type} (check : α → Checked Unit) : List α → Checked Unit
  | [] => .ok ()
  | x :: xs => do
    check x
    forEach check xs

@[simp] theorem refuse_ok {bad : Prop} [Decidable bad] {e : ValidationError} : refuse bad e = .ok () ↔ ¬ bad := by
  unfold refuse
  split <;> simp [*]

theorem forEach_ok {α : Type} {check : α → Checked Unit} {xs : List α} :
    forEach check xs = .ok () ↔ ∀ x ∈ xs, check x = .ok () := by
  induction xs with
  | nil => simp [forEach]
  | cons x xs ih => simp [forEach, except_unit_bind_ok, ih]

/-! ## Values -/

def presence (bit : UInt8) (value : Binary64) : Checked Unit :=
  if 1 < bit then .error .badPresence
  else if bit = 1 ∧ value.isFinite = false then .error .badNumber
  else .ok ()

variable {value : Binary64}

theorem presence_one : presence 1 value = .ok () ↔ value.isFinite = true := by
  simp [presence]

theorem presence_zero : presence 0 value = .ok () := rfl

def validateExemplar (pointTs : UInt64) (e : MetricExemplarV2) : Checked Unit := do
  refuse (e.tsUnixNano = 0 ∨ pointTs < e.tsUnixNano) .badTimestamp
  refuse (e.traceId.any (· ≠ 0) ≠ e.spanId.any (· ≠ 0)) .badExemplarId

def increasing (xs : List Binary64) : Checked Unit :=
  refuse ((∃ x ∈ xs, x.isFinite = false) ∨ ∃ w ∈ xs.zip xs.tail, w.2.le w.1 = true) .unsorted

inductive CountValue where
  | integer (value : UInt64)
  | float (value : Binary64)
  deriving DecidableEq

def countValue : MetricCountV2 → Checked CountValue
  | .integerCountV2 _ x => .ok (.integer x)
  | .floatCountV2 _ x =>
    if x.isFinite ∧ Binary64.zero.le x then .ok (.float x) else .error .badNumber

namespace CountValue

def add : CountValue → CountValue → Checked CountValue
  | .integer total, .integer value =>
    if total.toNat + value.toNat < 2 ^ 64 then .ok (.integer (total + value)) else .error .histogramShape
  | .float total, .float value =>
    if (total.add value).isFinite then .ok (.float (total.add value)) else .error .histogramShape
  | _, _ => .error .histogramShape

/-- `2 ^ -49` of the largest of the two and one; the product is exact. -/
def matchesCount : CountValue → CountValue → Bool
  | .integer left, .integer right => left = right
  | .float left, .float right =>
    (left.sub right).magnitude ≤
      Nat.max (Nat.max left.magnitude right.magnitude) Binary64.one.magnitude / 2 ^ 49
  | _, _ => false

end CountValue

def addBuckets : List (Int32 × MetricCountV2) → Int → CountValue → Checked CountValue
  | [], _, total => .ok total
  | (delta, c) :: rest, index, total => do
    let index := index + delta.toInt
    if index < -2 ^ 31 ∨ 2 ^ 31 ≤ index then .error .sparseShape
    let value ← countValue c
    let total ← total.add value
    addBuckets rest index total

def addSide (total : CountValue) (b : SparseBucketsV2) : Checked CountValue := do
  if b.deltas.length ≠ b.counts.length then .error .sparseShape
  addBuckets (b.deltas.zip b.counts) b.offset.toInt total

def checkedSum (xs : List UInt64) : Option UInt64 :=
  xs.foldlM (fun a x => if a.toNat + x.toNat < 2 ^ 64 then some (a + x) else none) 0

def validateQuantiles : List QuantileValueV2 → Binary64 → Checked Unit
  | [], _ => .ok ()
  | q :: rest, last => do
    refuse (q.quantile.isFinite = false ∨ ¬ (Binary64.zero.le q.quantile ∧ q.quantile.le .one) ∨
      q.quantile.le last = true ∨ q.value.isFinite = false) .unsorted
    validateQuantiles rest q.quantile

/-! ## Points -/

/-- Zero stands for gauge or sum. -/
def validateKind : MetricPointV2 → Checked UInt8
  | .scalarPointV2 _ => .ok 0
  | .histogramPointV2 v => do
    presence v.hasSum v.sum
    presence v.hasMin v.min
    presence v.hasMax v.max
    refuse (v.bucketCounts.length ≠ v.explicitBounds.length + 1 ∨
      checkedSum v.bucketCounts ≠ some v.count) .histogramShape
    increasing v.explicitBounds
    return MetricKind.histogram
  | .exponentialHistogramPointV2 v => do
    presence v.hasSum v.sum
    presence v.hasMin v.min
    presence v.hasMax v.max
    refuse (3 < v.resetHint ∨ v.zeroThreshold.isFinite = false ∨ v.zeroThreshold.lt .zero)
      .badExponential
    let expected ← countValue v.count
    let total ← countValue v.zeroCount
    let total ← addSide total v.positive
    let total ← addSide total v.negative
    refuse (total.matchesCount expected = false) .histogramShape
    increasing v.customBounds
    return MetricKind.exponentialHistogram
  | .summaryPointV2 v => do
    refuse (v.sum.isFinite = false) .badNumber
    validateQuantiles v.quantiles ⟨0xBFF0000000000000⟩
    return MetricKind.summary

def fields : MetricPointV2 → PointV2
  | .scalarPointV2 v => v.toPointV2
  | .histogramPointV2 v => v.toPointV2
  | .exponentialHistogramPointV2 v => v.toPointV2
  | .summaryPointV2 v => v.toPointV2

variable (descriptors : List MetricDescriptorV2) (xs : List LabelPair) (b : MetricsBatchV2)

def getDescriptor (id : UInt32) : Option MetricDescriptorV2 :=
  descriptors.find? (·.id = id)

def validatePoint (p : MetricPointV2) : Checked Unit := do
  let expected ← validateKind p
  let v := fields p
  match getDescriptor descriptors v.descriptorId with
  | none => .error (.unknownDescriptor v.descriptorId)
  | some d =>
    refuse (if expected = 0 then d.metricKind ≠ MetricKind.gauge ∧ d.metricKind ≠ MetricKind.sum
      else d.metricKind ≠ expected) (.kindMismatch v.descriptorId)
    refuse (v.tsUnixNano = 0 ∨ (v.startUnixNano ≠ 0 ∧ v.tsUnixNano < v.startUnixNano)) .badTimestamp
    forEach (validateExemplar v.tsUnixNano) v.exemplars

/-! ## Batches -/

def validateDescriptor (d : MetricDescriptorV2) : Checked Unit :=
  refuse (d.metricKind < 1 ∨ 5 < d.metricKind ∨ 2 < d.temporality ∨ 1 < d.monotonic ∨
    (d.metricKind ≠ MetricKind.sum ∧ d.monotonic ≠ 0)) (.badDescriptor d.id)

def validateDescriptors (seen : List UInt32) : List MetricDescriptorV2 → Checked Unit
  | [] => .ok ()
  | d :: rest => do
    refuse (d.id ∈ seen) (.duplicateDescriptor d.id)
    validateDescriptor d
    validateDescriptors (d.id :: seen) rest

def validateParts (points : List MetricPointV2) :
    Checked Unit := do
  validateDescriptors [] descriptors
  forEach (validatePoint descriptors) points

def LabelsTooLong : Prop :=
  65535 < xs.length ∨ ∃ x ∈ xs, 65535 < x.key.val.length ∨ 65535 < x.value.val.length

instance (xs : List LabelPair) : Decidable (LabelsTooLong xs) :=
  inferInstanceAs (Decidable (_ ∨ ∃ x ∈ xs, _ ∨ _))

def labelLengths : Checked Unit := refuse (LabelsTooLong xs) .lengthOverflow

def descriptorLengths (d : MetricDescriptorV2) : Checked Unit := do
  refuse (65535 < d.name.val.length ∨ 65535 < d.description.val.length ∨ 65535 < d.unit.val.length ∨
    255 < d.scopeName.val.length ∨ 255 < d.scopeVersion.val.length) .lengthOverflow
  labelLengths d.resourceAttrs
  labelLengths d.scopeAttrs

def pointLengths (p : MetricPointV2) : Checked Unit := do
  labelLengths (fields p).attributes
  refuse (65535 < (fields p).exemplars.length) .lengthOverflow
  forEach (fun e => labelLengths e.filteredAttrs) (fields p).exemplars

def validateLengths : Checked Unit := do
  refuse (2 ^ 32 ≤ b.descriptors.length ∨ 2 ^ 32 ≤ b.points.length) .lengthOverflow
  forEach descriptorLengths b.descriptors
  forEach pointLengths b.points

def validate : Checked Unit := do
  refuse (b.magic ≠ metricsBatchV2Magic) (.badDescriptor 0)
  validateLengths b
  validateParts b.descriptors b.points

/-! ## What a valid batch is -/

variable {ds : List MetricDescriptorV2}

theorem validateDescriptors_ok {seen : List UInt32} : validateDescriptors seen ds = .ok
    () ↔ (ds.map MetricDescriptorV2.id).Nodup ∧ (∀ d ∈ ds, d.id ∉ seen) ∧ ∀ d ∈ ds, validateDescriptor d = .ok
    () := by
  induction ds generalizing seen with
  | nil => simp [validateDescriptors]
  | cons d ds ih =>
    simp only [validateDescriptors, except_unit_bind_ok, refuse_ok, ih, List.map_cons, List.nodup_cons,
      List.mem_map, not_exists, not_and, List.mem_cons, not_or, forall_eq_or_imp]
    constructor
    · rintro ⟨hseen, hd, hnodup, hnew, hall⟩
      exact ⟨⟨fun x hx heq => (hnew x hx).1 heq, hnodup⟩, ⟨hseen, fun x hx => (hnew x hx).2⟩, hd, hall⟩
    · rintro ⟨⟨hnotin, hnodup⟩, ⟨hseen, hrest⟩, hd, hall⟩
      exact ⟨hseen, hd, hnodup, fun x hx => ⟨fun heq => hnotin x hx heq, hrest x hx⟩, hall⟩

variable {p : MetricPointV2}

theorem pointLengths_ok : pointLengths p = .ok () ↔ ¬ LabelsTooLong (fields p).attributes ∧
    (fields p).exemplars.length ≤ 65535 ∧ ∀ e ∈ (fields p).exemplars, ¬ LabelsTooLong e.filteredAttrs := by
  simp only [pointLengths, except_unit_bind_ok, labelLengths, refuse_ok, forEach_ok, Nat.not_lt]

def KindFits (d : MetricDescriptorV2) (kind : UInt8) : Prop :=
  if kind = 0 then d.metricKind = MetricKind.gauge ∨ d.metricKind = MetricKind.sum
  else d.metricKind = kind

variable {d : MetricDescriptorV2}

theorem not_kindMismatch {kind : UInt8} :
    ¬ (if kind = 0 then d.metricKind ≠ MetricKind.gauge ∧ d.metricKind ≠ MetricKind.sum
      else d.metricKind ≠ kind) ↔ KindFits d kind := by
  unfold KindFits
  split
  · rw [Classical.not_and_iff_not_or_not, not_not, not_not]
  · exact not_not

theorem validatePoint_ok
    (hd : getDescriptor ds (fields p).descriptorId = some d) : validatePoint ds p = .ok () ↔
    (∃ kind, validateKind p = .ok kind ∧ KindFits d kind) ∧ (fields p).tsUnixNano ≠ 0 ∧
    ((fields p).startUnixNano = 0 ∨ ¬ (fields p).tsUnixNano < (fields p).startUnixNano) ∧ ∀ e ∈ (fields p).exemplars,
    validateExemplar (fields p).tsUnixNano e = .ok () := by
  unfold validatePoint
  rw [except_bind_ok]
  simp only [hd, except_unit_bind_ok, refuse_ok, forEach_ok, not_kindMismatch]
  constructor
  · rintro ⟨kind, hkind, hfits, _, hexs⟩
    exact ⟨⟨kind, hkind, hfits⟩, by tauto, by tauto, hexs⟩
  · rintro ⟨⟨kind, hkind, hfits⟩, _, _, hexs⟩
    exact ⟨kind, hkind, hfits, by tauto, hexs⟩

structure Valid (b : MetricsBatchV2) : Prop where
  magic : b.magic = metricsBatchV2Magic
  descriptorCount : b.descriptors.length < 2 ^ 32
  pointCount : b.points.length < 2 ^ 32
  descriptorLengths : ∀ d ∈ b.descriptors, descriptorLengths d = .ok ()
  pointLengths : ∀ p ∈ b.points, pointLengths p = .ok ()
  distinct : (b.descriptors.map MetricDescriptorV2.id).Nodup
  descriptors : ∀ d ∈ b.descriptors, validateDescriptor d = .ok ()
  points : ∀ p ∈ b.points, validatePoint b.descriptors p = .ok ()

theorem validate_ok {b : MetricsBatchV2} : validate b = .ok () ↔ Valid b := by
  simp only [validate, validateLengths, validateParts, except_unit_bind_ok, refuse_ok, forEach_ok,
    validateDescriptors_ok, not_or, Nat.not_le, not_not]
  constructor
  · rintro ⟨hmagic, ⟨⟨hds, hps⟩, hdl, hpl⟩, ⟨hnodup, -, hd⟩, hp⟩
    exact ⟨hmagic, hds, hps, hdl, hpl, hnodup, hd, hp⟩
  · rintro ⟨hmagic, hds, hps, hdl, hpl, hnodup, hd, hp⟩
    exact ⟨hmagic, ⟨⟨hds, hps⟩, hdl, hpl⟩, ⟨hnodup, by simp, hd⟩, hp⟩

end MetricsV2

end Scry.Proto
