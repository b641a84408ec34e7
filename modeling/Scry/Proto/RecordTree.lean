import Scry.Proto.LogsV2
import Scry.Proto.Tree

/-! # Records as trees

An envelope is accepted exactly when it is the wire form of a batch of such records inside the limits.
-/

open Scry.Lib

namespace Scry.Proto

open AnyValueInput

/-- `[u8; n]` -/
abbrev Fixed (n : Nat) := { b : Bytes // b.length = n }

structure ScopeInput where
  name : Str
  version : Str
  droppedAttributesCount : UInt32
  attributes : List KeyValueInput

structure RecordTree where
  resourceSchemaUrl : Str
  resourceDroppedAttributesCount : UInt32
  resourceAttributes : List KeyValueInput
  scope : Option ScopeInput
  scopeSchemaUrl : Str
  timeUnixNano : UInt64
  observedTimeUnixNano : UInt64
  receivedTimeUnixNano : Option UInt64
  severityNumber : Int32
  severityText : Str
  eventName : Str
  body : AnyValueInput
  droppedAttributesCount : UInt32
  attributes : List KeyValueInput
  traceFlags : UInt32
  traceId : Option (Fixed 16)
  spanId : Option (Fixed 8)

def stringCost (s : Str) : RecordBudget := ⟨s.1.length, 0, 0⟩

variable (es : List KeyValueInput)

def mapWire : Bytes := (map es).wire

def mapCost : RecordBudget := (map es).cost

namespace ScopeInput

def view (s : ScopeInput) : Scope :=
  ⟨s.name, s.version, s.droppedAttributesCount.toNat, mapWire s.attributes⟩

def cost (s : ScopeInput) : RecordBudget :=
  stringCost s.name + (stringCost s.version + mapCost s.attributes)

end ScopeInput

namespace RecordTree

def view (rawVersion : Nat) (encoded : Bytes) (r : RecordTree) : CanonicalLogRecord where
  rawVersion := rawVersion
  resourceSchemaUrl := r.resourceSchemaUrl
  resourceDroppedAttributesCount := r.resourceDroppedAttributesCount.toNat
  resourceAttributes := mapWire r.resourceAttributes
  scope := r.scope.map ScopeInput.view
  scopeSchemaUrl := r.scopeSchemaUrl
  timeUnixNano := r.timeUnixNano.toNat
  observedTimeUnixNano := r.observedTimeUnixNano.toNat
  receivedTimeUnixNano := r.receivedTimeUnixNano.map UInt64.toNat
  severityNumber := r.severityNumber.toInt
  severityText := r.severityText
  eventName := r.eventName
  body := r.body.wire
  droppedAttributesCount := r.droppedAttributesCount.toNat
  attributes := mapWire r.attributes
  traceFlags := r.traceFlags.toNat
  traceId := r.traceId.map Subtype.val
  spanId := r.spanId.map Subtype.val
  encoded := encoded

/-- The receipt time alone tells which version wrote it. -/
def wire (r : RecordTree) : Bytes := recordWire (r.view 0 [])

def cost (r : RecordTree) : RecordBudget :=
  stringCost r.resourceSchemaUrl + (mapCost r.resourceAttributes +
  (r.scope.elim 0 ScopeInput.cost + (stringCost r.scopeSchemaUrl + (stringCost r.severityText +
  (stringCost r.eventName + (r.body.cost + mapCost r.attributes))))))

end RecordTree

/-! ## Limits -/

variable (limits : DecodeLimits)

def StringFits (s : Str) : Prop :=
  s.1.length < 256 ^ 4 ∧ s.1.length ≤ limits.maxStringBytes

def MapFits (es : List KeyValueInput) : Prop :=
  (map es).Fits limits (limits.maxDepth + 1)

instance (limits : DecodeLimits) (s : Str) : Decidable (StringFits limits s) :=
  inferInstanceAs (Decidable (_ ∧ _))

instance (limits : DecodeLimits) (es : List KeyValueInput) : Decidable (MapFits limits es) :=
  decidableFits limits _ _

structure ScopeInput.Fits (limits : DecodeLimits) (s : ScopeInput) : Prop where
  name : StringFits limits s.name
  version : StringFits limits s.version
  attributes : MapFits limits s.attributes

def Nonzero {n : Nat} (id : Option (Fixed n)) : Prop := ∀ b ∈ id, ¬ b.1.all (· == 0)

structure RecordTree.Fits (limits : DecodeLimits) (rawVersion : Nat) (r : RecordTree) : Prop where
  resourceSchemaUrl : StringFits limits r.resourceSchemaUrl
  resourceAttributes : MapFits limits r.resourceAttributes
  scope : ∀ s ∈ r.scope, s.Fits limits
  scopeSchemaUrl : StringFits limits r.scopeSchemaUrl
  stamped : r.receivedTimeUnixNano.isSome ↔ rawVersion = logsRawVersionV2
  received : ∀ t ∈ r.receivedTimeUnixNano, t ≠ 0
  severityText : StringFits limits r.severityText
  eventName : StringFits limits r.eventName
  body : r.body.Fits limits (limits.maxDepth + 1)
  attributes : MapFits limits r.attributes
  traceId : Nonzero r.traceId
  spanId : Nonzero r.spanId
  orphan : r.spanId = none ∨ r.traceId ≠ none

/-! ## The decoder reads record trees -/

namespace RecordReader

open Effects

variable {limits : DecodeLimits}

theorem u32_reads : (spending limits).Reads (uint 4) (fun _ : UInt32 => True) UInt32.toNat
    (fun n => (toBe 4 n.toNat, 0)) := by
  refine (uint_reads 4).congr ?_ ?_
  · intro n hn
    have hnat : (UInt32.ofNat n).toNat = n := UInt32.toNat_ofNat_of_lt' hn
    exact ⟨UInt32.ofNat n, trivial, hnat, by rw [hnat]⟩
  · intro n _
    exact ⟨n.toNat, n.toNat_lt, rfl, rfl⟩

theorem u64_reads : (spending limits).Reads (uint 8) (fun _ : UInt64 => True) UInt64.toNat
    (fun n => (toBe 8 n.toNat, 0)) := by
  refine (uint_reads 8).congr ?_ ?_
  · intro n hn
    have hnat : (UInt64.ofNat n).toNat = n := UInt64.toNat_ofNat_of_lt' hn
    exact ⟨UInt64.ofNat n, trivial, hnat, by rw [hnat]⟩
  · intro n _
    exact ⟨n.toNat, n.toNat_lt, rfl, rfl⟩

theorem valueString_reads : (spending limits).Reads (valueString limits) (StringFits limits)
    Subtype.val (fun s => (withLength s.1, stringCost s)) :=
  rawString_reads _ _

theorem topMap_reads : (spending limits).Reads (mapValue limits (limits.maxDepth + 1))
    (MapFits limits) mapWire (fun es => (mapWire es, mapCost es)) :=
  mapValue_reads _

theorem scope_reads : (spending limits).Reads (scope limits) (fun s : Option ScopeInput => ∀ x ∈ s, x.Fits limits)
    (fun s => s.map ScopeInput.view) (fun s => (scopeWire (s.map ScopeInput.view), s.elim 0 ScopeInput.cost)) := by
  refine ((uint_reads 1).bind
    (Q := fun n (s : Option ScopeInput) => (n = if s.isSome then 1 else 0) ∧ ∀ x ∈ s, x.Fits limits)
    (g := fun _ s => s.map ScopeInput.view)
    (m := fun _ s => ((scopeWire (s.map ScopeInput.view)).tail, s.elim 0 ScopeInput.cost))
    fun n _ => ?_).congr ?_ ?_
  · split
    · refine (reads_pure none).congr ?_ ?_
      · intro _ _
        exact ⟨none, ⟨rfl, by simp⟩, rfl, rfl⟩
      · rintro (_ | s) ⟨hn, -⟩
        · exact ⟨(), trivial, rfl, rfl⟩
        · cases hn
    · have hread : (spending limits).Reads (do
          let name ← valueString limits
          let version ← valueString limits
          let dropped ← uint 4
          let attributes ← mapValue limits (limits.maxDepth + 1)
          return some (⟨name, version, dropped, attributes⟩ : Scope)) _ _ _ :=
        valueString_reads.bind fun _ _ => valueString_reads.bind fun _ _ =>
          u32_reads.bind fun _ _ => topMap_reads.map _
      refine hread.congr ?_ ?_
      · rintro ⟨name, version, dropped, attributes⟩ ⟨hname, hver, -, hattrs⟩
        refine ⟨some ⟨name, version, dropped, attributes⟩, ⟨rfl, ?_⟩, rfl, ?_⟩
        · rintro _ ⟨⟩
          exact ⟨hname, hver, hattrs⟩
        · simp [ScopeInput.view, ScopeInput.cost, scopeWire, List.append_assoc]
      · rintro (_ | s) ⟨hn, hs⟩
        · cases hn
        · obtain ⟨hname, hver, hattrs⟩ := hs s rfl
          refine ⟨(s.name, s.version, s.droppedAttributesCount, s.attributes),
            ⟨hname, hver, trivial, hattrs⟩, rfl, ?_⟩
          simp [ScopeInput.view, ScopeInput.cost, scopeWire, List.append_assoc]
    · refine (reads_fail _ (fun s : Option ScopeInput => s.map ScopeInput.view)
        fun _ => ([], 0)).congr (fun _ h => h.elim) ?_
      rintro (_ | s) ⟨hn, -⟩ <;> simp_all
  · rintro ⟨n, s⟩ ⟨-, hn, hs⟩
    obtain rfl : n = if s.isSome then 1 else 0 := hn
    refine ⟨s, hs, rfl, ?_⟩
    cases s <;> simp [scopeWire, toBe]
  · intro s hs
    refine ⟨(if s.isSome then 1 else 0, s), ⟨?_, rfl, hs⟩, rfl, ?_⟩
    · cases s <;> simp
    · cases s <;> simp [scopeWire, toBe]

theorem receivedTime_reads (rawVersion : Nat) : (spending limits).Reads (receivedTime rawVersion)
    (fun t : Option UInt64 => (t.isSome ↔ rawVersion = logsRawVersionV2) ∧ ∀ x ∈ t, x ≠ 0)
    (fun t => t.map UInt64.toNat) (fun t => (receivedWire (t.map UInt64.toNat), 0)) := by
  unfold receivedTime
  split
  · rename_i hv
    have hread : (spending limits).Reads (do
        let received ← uint 8
        Reader.require (received ≠ 0) .zeroReceivedTime
        return some received) _ _ _ :=
      u64_reads.bind fun _ _ => .require fun _ => reads_pure _
    refine hread.congr ?_ ?_
    · rintro ⟨x, _⟩ ⟨-, hx, -⟩
      refine ⟨some x, ⟨by simp [hv], ?_⟩, rfl, by simp [receivedWire]⟩
      rintro _ ⟨⟩ rfl
      exact hx rfl
    · rintro (_ | x) ⟨hsome, hx⟩
      · simp [hv] at hsome
      · refine ⟨(x, ()), ⟨trivial, ?_, trivial⟩, rfl, by simp [receivedWire]⟩
        intro h
        exact hx x rfl (UInt64.toNat_inj.mp h)
  · rename_i hv
    refine (reads_pure none).congr ?_ ?_
    · intro _ _
      exact ⟨none, ⟨by simp [hv], by simp⟩, rfl, rfl⟩
    · rintro (_ | x) ⟨hsome, -⟩
      · exact ⟨(), trivial, rfl, rfl⟩
      · simp [hv] at hsome

theorem idOf_reads {width : Nat} (hpos : 0 < width) (hlt : width < 256 ^ 1) (e₁ e₂ : DecodeError) :
    (spending limits).Reads (idOf width e₁ e₂) (fun id : Option (Fixed width) => Nonzero id)
      (fun id => id.map Subtype.val) (fun id => (idWire (id.map Subtype.val), 0)) := by
  refine ((uint_reads 1).bind
    (Q := fun n (id : Option (Fixed width)) => (n = if id.isSome then width else 0) ∧ Nonzero id)
    (g := fun _ id => id.map Subtype.val)
    (m := fun _ id => ((idWire (id.map Subtype.val)).tail, 0)) fun n _ => ?_).congr ?_ ?_
  · split
    · rename_i h0
      refine (reads_pure none).congr ?_ ?_
      · intro _ _
        exact ⟨none, ⟨h0, by simp [Nonzero]⟩, rfl, rfl⟩
      · rintro (_ | id) ⟨hn, -⟩
        · exact ⟨(), trivial, rfl, rfl⟩
        · simp only [Option.isSome_some, if_true] at hn
          omega
    split
    · rename_i hw
      have hread : (spending limits).Reads (do
          let id ← take width
          Reader.require (¬ id.all (· == 0)) e₂
          return some id) _ _ _ :=
        (take_reads width).bind fun _ _ => .require fun _ => reads_pure _
      refine hread.congr ?_ ?_
      · rintro ⟨b, _⟩ ⟨hb, hzero, -⟩
        refine ⟨some ⟨b, hb⟩, ⟨hw, ?_⟩, rfl, by simp [idWire, toBe]⟩
        rintro _ ⟨⟩
        exact hzero
      · rintro (_ | id) ⟨hn, hid⟩
        · simp only [Option.isSome_none, if_false, Bool.false_eq_true] at hn
          omega
        · exact ⟨(id.1, ()), ⟨id.2, hid id rfl, trivial⟩, rfl, by simp [idWire, toBe]⟩
    · rename_i h0 hw
      refine (reads_fail _ (fun id : Option (Fixed width) => id.map Subtype.val)
        fun _ => ([], 0)).congr (fun _ h => h.elim) ?_
      rintro (_ | id) ⟨hn, -⟩
      · exact (h0 hn).elim
      · exact (hw hn).elim
  · rintro ⟨n, id⟩ ⟨-, hn, hid⟩
    obtain rfl : n = if id.isSome then width else 0 := hn
    refine ⟨id, hid, rfl, ?_⟩
    cases id with
    | none => simp [idWire, toBe]
    | some id => simp [idWire, toBe, id.2]
  · intro id hid
    refine ⟨(if id.isSome then width else 0, id), ⟨?_, rfl, hid⟩, rfl, ?_⟩
    · cases id with
      | none => simp
      | some id => simpa using hlt
    · cases id with
      | none => simp [idWire, toBe]
      | some id => simp [idWire, toBe, id.2]

theorem done_reads : (spending limits).ReadsTo (fun c => c.rest = []) done (fun _ : Unit => True) (fun _ => ())
    (fun _ => ([], 0)) := by
  refine ⟨fun {c c' u} hc => ?_⟩
  have hmove : (spending limits).Moves c ([], 0) c' ↔ c = c' := (spending limits).moves_one hc
  simp only [done, hmove, true_and, exists_const]
  split
  · rename_i hend
    simp only [Except.ok.injEq, Prod.mk.injEq, true_and]
    constructor
    · rintro rfl
      exact ⟨rfl, hend⟩
    · rintro ⟨rfl, -⟩
      rfl
  · rename_i hend
    simp only [reduceCtorEq, false_iff, not_and]
    rintro rfl
    exact hend

theorem toSigned_int32 (n : Int32) : toSigned 32 n.toUInt32.toNat = n.toInt :=
  toSigned_toNat n.toBitVec

theorem ofSigned_int32 (n : Int32) : ofSigned 32 n.toInt = n.toUInt32.toNat := by
  rw [← toSigned_int32, ofSigned_toSigned n.toUInt32.toNat_lt]

theorem record_reads (rawVersion : Nat) (encoded : Bytes) : (spending limits).ReadsTo (fun c => c.rest = [])
    (record limits rawVersion encoded) (RecordTree.Fits limits rawVersion) (RecordTree.view rawVersion encoded)
    (fun r => (r.wire, r.cost)) := by
  have hread : (spending limits).ReadsTo (fun c => c.rest = []) (record limits rawVersion encoded)
      _ _ _ :=
    (uint_reads 2).bind fun _ _ => .require fun _ => valueString_reads.bind fun _ _ =>
      u32_reads.bind fun _ _ => topMap_reads.bind fun _ _ => scope_reads.bind fun _ _ =>
      valueString_reads.bind fun _ _ => u64_reads.bind fun _ _ => u64_reads.bind fun _ _ =>
      (receivedTime_reads rawVersion).bind fun _ _ => u32_reads.bind fun _ _ =>
      valueString_reads.bind fun _ _ => valueString_reads.bind fun _ _ =>
      (anyValue_reads _).bind fun _ _ => u32_reads.bind fun _ _ => topMap_reads.bind fun _ _ =>
      u32_reads.bind fun _ _ => (idOf_reads (by decide) (by decide) _ _).bind fun _ _ =>
      (idOf_reads (by decide) (by decide) _ _).bind fun _ _ => .require fun _ => done_reads.map _
  refine hread.congr ?_ ?_
  · rintro ⟨_, url, rdropped, rattrs, sc, surl, time, observed, received, severity, stext, ename, body,
      dropped, attrs, tflags, tid, sid, _⟩
      ⟨-, hflags, hurl, -, hrattrs, hscope, hsurl, -, -, ⟨hstamped, hrecv⟩, -, hstext, hename, hbody,
        -, hattrs, -, htid, hsid, horphan, -⟩
    refine ⟨⟨url, rdropped, rattrs, sc, surl, time, observed, received, severity.toInt32, stext, ename,
      body, dropped, attrs, tflags, tid, sid⟩, ?_, ?_, ?_⟩
    · refine ⟨hurl, hrattrs, hscope, hsurl, hstamped, hrecv, hstext, hename, hbody, hattrs, htid, hsid, ?_⟩
      simpa using horphan
    · have hsev := toSigned_int32 severity.toInt32
      simp only [UInt32.toUInt32_toInt32] at hsev
      simp [RecordTree.view, hsev]
    · have hsev := ofSigned_int32 severity.toInt32
      simp only [UInt32.toUInt32_toInt32] at hsev
      obtain rfl : _ = 0 := hflags
      simp [RecordTree.wire, recordWire, RecordTree.view, RecordTree.cost, hsev]
  · intro r hr
    refine ⟨(0, r.resourceSchemaUrl, r.resourceDroppedAttributesCount, r.resourceAttributes, r.scope,
      r.scopeSchemaUrl, r.timeUnixNano, r.observedTimeUnixNano, r.receivedTimeUnixNano,
      r.severityNumber.toUInt32, r.severityText, r.eventName, r.body, r.droppedAttributesCount,
      r.attributes, r.traceFlags, r.traceId, r.spanId, ()), ?_, ?_, ?_⟩
    · refine ⟨by simp, rfl, hr.resourceSchemaUrl, trivial, hr.resourceAttributes, hr.scope,
        hr.scopeSchemaUrl, trivial, trivial, ⟨hr.stamped, hr.received⟩, trivial, hr.severityText,
        hr.eventName, hr.body, trivial, hr.attributes, trivial, hr.traceId, hr.spanId, ?_, trivial⟩
      simpa using hr.orphan
    · simp [RecordTree.view, toSigned_int32]
    · simp [RecordTree.wire, recordWire, RecordTree.view, RecordTree.cost, ofSigned_int32]

end RecordReader

theorem parseRecord_iff {limits : DecodeLimits} {rawVersion : Nat} {encoded : Bytes} {r : CanonicalLogRecord} :
    parseRecord limits rawVersion encoded = .ok r ↔ ∃ t : RecordTree, t.Fits limits rawVersion ∧ t.cost.Within limits
    ∧ encoded = t.wire ∧ r = t.view rawVersion encoded := by
  unfold parseRecord
  simp only [readAll_ok, (RecordReader.record_reads rawVersion encoded).ok (spending_start limits _)]
  constructor
  · rintro ⟨c, t, ht, rfl, ⟨hrest, hextra, hwithin⟩, hend⟩
    rw [hend, List.append_nil] at hrest
    have hcost : c.extra = 0 + t.cost := hextra
    rw [hcost, zero_add] at hwithin
    exact ⟨t, ht, hwithin, hrest, rfl⟩
  · rintro ⟨t, ht, hwithin, rfl, rfl⟩
    refine ⟨⟨[], t.cost⟩, t, ht, rfl, ⟨by simp, ?_, hwithin⟩, rfl⟩
    exact (zero_add t.cost).symm

/-! ## Batches -/

structure RecordTree.Accepted (limits : DecodeLimits) (rawVersion : Nat) (r : RecordTree) : Prop where
  fits : r.Fits limits rawVersion
  cost : r.cost.Within limits
  length : r.wire.length < 256 ^ 4
  recordBytes : r.wire.length ≤ limits.maxRecordBytes

structure BatchAccepted (limits : DecodeLimits) (rawVersion : Nat) (records : List RecordTree) : Prop where
  version : rawVersion = logsRawVersionV1 ∨ rawVersion = logsRawVersionV2
  count : records.length < 256 ^ 4
  maxRecords : records.length ≤ limits.maxRecords
  records : ∀ r ∈ records, r.Accepted limits rawVersion

def batchV2Wire (rawVersion : Nat) (records : List RecordTree) : Bytes :=
  envelopeWire rawVersion (records.map RecordTree.wire)

namespace RecordReader

open Effects

variable {limits : DecodeLimits}

theorem delimited_reads (rawVersion : Nat) :
    (spending limits).Reads (do
        let encoded ← lengthDelimitedRecord limits
        Reader.lift (parseRecord limits rawVersion encoded))
      (RecordTree.Accepted limits rawVersion) (fun r => r.view rawVersion r.wire)
      (fun r => (withLength r.wire, 0)) := by
  have hbytes : (spending limits).Reads (lengthDelimitedRecord limits) _ _ _ :=
    (uint_reads 4).bind fun len _ => .require fun _ => take_reads len
  have hread : (spending limits).Reads (do
      let encoded ← lengthDelimitedRecord limits
      Reader.lift (parseRecord limits rawVersion encoded)) _ _ _ :=
    hbytes.bind fun _ _ => reads_lift _
  refine hread.congr ?_ ?_
  · rintro ⟨⟨n, b⟩, r⟩ ⟨⟨hn, hmax, hb⟩, hparse⟩
    obtain rfl : b.length = n := hb
    obtain ⟨t, ht, hcost, hwire, hview⟩ := parseRecord_iff.mp hparse
    obtain rfl : b = t.wire := hwire
    exact ⟨t, ⟨ht, hcost, hn, hmax⟩, hview.symm, by simp [withLength]⟩
  · intro t ht
    refine ⟨((t.wire.length, t.wire), t.view rawVersion t.wire), ⟨⟨ht.length, ht.recordBytes, rfl⟩, ?_⟩,
      rfl, by simp [withLength]⟩
    exact parseRecord_iff.mpr ⟨t, ht.fits, ht.cost, rfl, rfl⟩

theorem envelope_reads : (spending limits).ReadsTo (fun c => c.rest = []) (envelope limits)
    (fun p : Nat × List RecordTree => BatchAccepted limits p.1 p.2)
    (fun p => (p.1, p.2.map fun r => r.view p.1 r.wire)) (fun p => (batchV2Wire p.1 p.2, 0)) := by
  have hheader : (spending limits).Reads validateHeader _ _ _ :=
    (uint_reads 4).bind fun _ _ => .require fun _ => (uint_reads 2).bind fun _ _ =>
      .require fun _ => reads_pure _
  have hread : (spending limits).ReadsTo (fun c => c.rest = []) (envelope limits) _ _ _ :=
    hheader.bind fun _ _ => (uint_reads 4).bind fun n _ => .require fun _ =>
      ((delimited_reads _).times n).bind fun _ _ => done_reads.map _
  refine hread.congr ?_ ?_
  · rintro ⟨⟨magic, version, _⟩, n, records, _⟩
      ⟨⟨-, hmagic, -, hver, -⟩, hn, hmax, ⟨hlen, hrecs⟩, -⟩
    obtain rfl : magic = logsBatchV2Magic := hmagic
    obtain rfl : records.length = n := hlen
    refine ⟨(version, records), ⟨hver, hn, hmax, hrecs⟩, rfl, ?_⟩
    simp [spending_product_free, batchV2Wire, envelopeWire, List.flatMap_map]
  · rintro ⟨version, records⟩ ⟨hver, hn, hmax, hrecs⟩
    refine ⟨((logsBatchV2Magic, version, ()), records.length, records, ()), ?_, rfl, ?_⟩
    · have hlt : version < 256 ^ 2 := by
        obtain rfl | rfl := hver <;> decide
      have hmagic : logsBatchV2Magic < 256 ^ 4 := by decide
      exact ⟨⟨hmagic, rfl, hlt, hver, trivial⟩, hn, hmax, ⟨rfl, hrecs⟩, trivial⟩
    · simp [spending_product_free, batchV2Wire, envelopeWire, List.flatMap_map]

end RecordReader

/-- **An envelope is accepted exactly when it is the wire form of a batch inside the limits.** -/
theorem validateEnvelope_iff {limits : DecodeLimits} {payload : Bytes} {rawVersion : Nat}
    {records : List CanonicalLogRecord} : validateEnvelope limits payload = .ok (rawVersion, records) ↔ payload.length
    ≤ limits.maxPayloadBytes ∧ ∃ batch : List RecordTree, BatchAccepted limits rawVersion batch ∧ payload =
    batchV2Wire rawVersion batch ∧ records = batch.map fun r => r.view rawVersion r.wire := by
  unfold validateEnvelope
  by_cases hlen : limits.maxPayloadBytes < payload.length
  · rw [if_pos hlen]
    simp only [reduceCtorEq, false_iff, not_and]
    omega
  rw [if_neg hlen]
  simp only [readAll_ok, RecordReader.envelope_reads.ok (spending_start limits _)]
  constructor
  · rintro ⟨c, ⟨version, batch⟩, hbatch, hview, ⟨hrest, -, -⟩, hend⟩
    cases hview
    rw [hend, List.append_nil] at hrest
    exact ⟨by omega, batch, hbatch, hrest, rfl⟩
  · rintro ⟨-, batch, hbatch, rfl, rfl⟩
    exact ⟨⟨[], 0⟩, (rawVersion, batch), hbatch, rfl, ⟨by simp, rfl, spending_start limits []⟩, rfl⟩

end Scry.Proto
