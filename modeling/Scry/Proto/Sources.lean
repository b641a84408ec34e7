import Scry.Lib.Hidden
import Scry.Lib.Sorting
import Scry.Proto.Encoder

/-! # Encoding from source trees

The encoder sorts the entries of each map by index, in vectors that it keeps for the next map of that depth.
-/

open Scry.Lib

namespace Scry.Proto

open RecordWriter

inductive BorrowedAnyValue (H : Type) where
  | null
  | string (value : Str)
  | bool (value : Bool)
  | int64 (value : Int64)
  | double (bits : UInt64)
  | bytes (value : Bytes)
  | array (values : H)
  | map (values : H)

structure AnyValueAdapter (H : Type) where
  value : H → BorrowedAnyValue H
  arrayLen : H → Nat
  arrayValue : H → Nat → Option H
  mapLen : H → Nat
  mapKey : H → Nat → Option Str
  mapValue : H → Nat → Option H

/-- `map_indices`, one vector a depth. -/
abbrev EncodeScratch := List (List Nat)

structure SourceScopeInput (H : Type) where
  name : Str
  version : Str
  droppedAttributesCount : UInt32
  attributes : H

structure SourceLogRecordInput (H : Type) where
  adapter : AnyValueAdapter H
  resourceSchemaUrl : Str
  resourceDroppedAttributesCount : UInt32
  resourceAttributes : H
  scope : Option (SourceScopeInput H)
  scopeSchemaUrl : Str
  timeUnixNano : UInt64
  observedTimeUnixNano : UInt64
  severity : UInt8
  severityText : Str
  eventName : Str
  body : H
  droppedAttributesCount : UInt32
  attributes : H
  traceFlags : UInt8
  traceId : Option (Fixed 16)
  spanId : Option (Fixed 8)

inductive SourceFault where
  | error (e : EncodeError)
  | panicked
  deriving DecidableEq

/-! ## The record writer -/

abbrev SourceWriter := Writer SourceFault (RecordOut × EncodeScratch) Unit

namespace SourceWriter

open Writer

variable {H : Type} (limits : DecodeLimits) (start : Nat) (adapter : AnyValueAdapter H)

abbrev plain (w : RecordWriter) : SourceWriter := onFirst .error w

def invalidSource : SourceWriter := fun s => .error (.error .invalidSource, s)

variable (values : H) (slot : Nat) (scratch : EncodeScratch)

def reserve : EncodeScratch :=
  if scratch.length ≤ slot then scratch ++ List.replicate (slot + 1 - scratch.length) [] else scratch

/-- `scratch.map_indices[slot] = indices`, after `indices.clear()`. -/
def putBack : Option EncodeScratch :=
  if slot < scratch.length then some (scratch.set slot []) else none

/-- The vector is put back whether `body` succeeded or not. -/
def withSlot (body : SourceWriter) : SourceWriter := fun (w, scratch) =>
  let scratch := reserve slot scratch
  match scratch[slot]? with
  | none => .error (.panicked, (w, scratch))
  | some _ =>
    match body (w, scratch.set slot []) with
    | .ok (u, (w, scratch)) =>
      match putBack slot scratch with
      | none => .error (.panicked, (w, scratch))
      | some scratch => .ok (u, (w, scratch))
    | .error (e, (w, scratch)) =>
      match putBack slot scratch with
      | none => .error (.panicked, (w, scratch))
      | some scratch => .error (e, (w, scratch))

def indexLe (a b : Nat) : Prop :=
  match adapter.mapKey values a, adapter.mapKey values b with
  | some x, some y => x.1 ≤ y.1
  | _, _ => a ≤ b

instance (values : H) : DecidableRel (indexLe adapter values) := fun a b => by
  unfold indexLe
  split <;> infer_instance

/-- Equal keys are refused after it, so their order does not matter. -/
def indices : List Nat :=
  (List.range (adapter.mapLen values)).insertionSort (indexLe adapter values)

/-- Two or more entries are compared, each with some other one. -/
def sourceError : Prop :=
  2 ≤ adapter.mapLen values ∧ ∃ i ∈ List.range (adapter.mapLen values), adapter.mapKey values i = none

instance (values : H) : Decidable (sourceError adapter values) := inferInstanceAs (Decidable (_ ∧ _))

def checkSourceKeys (values : H) : Option Bytes → List Nat → SourceWriter
  | _, [] => pure ()
  | previous, index :: rest =>
    match adapter.mapKey values index with
    | none => invalidSource
    | some key => do
      check (key.1 ≠ []) (.error .emptyMapKey)
      check (previous ≠ some key.1) (.error .nonCanonicalMap)
      checkSourceKeys values (some key.1) rest

def sourceEntry (sourceValue : H → SourceWriter) (values : H) (index : Nat) : SourceWriter :=
  match adapter.mapKey values index with
  | none => invalidSource
  | some key => do
    plain (string limits start key true)
    match adapter.mapValue values index with
    | none => invalidSource
    | some value => sourceValue value

/-- `source_map`, at `room` levels above the deepest one. -/
def sourceMap (room : Nat) (sourceValue : H → SourceWriter) (values : H) : SourceWriter := do
  check (0 < room) (.error .depthLimit)
  check (adapter.mapLen values < 2 ^ 32) (.error .lengthOverflow)
  check (adapter.mapLen values ≤ limits.maxContainerElements) (.error .containerLimit)
  plain (pairs limits (adapter.mapLen values))
  withSlot (limits.maxDepth - room) (do
    check (¬ sourceError adapter values) (.error .invalidSource)
    checkSourceKeys adapter values none (indices adapter values)
    plain (u8 limits start 7)
    plain (u32 limits start (adapter.mapLen values))
    forEach (sourceEntry limits start adapter sourceValue values) (indices adapter values))

/-- `source_value`, at `room = max_depth + 1 - depth`. -/
def sourceValue : Nat → H → SourceWriter
  | 0, _ => fun s => .error (.error .depthLimit, s)
  | room + 1, h => do
    plain (node limits)
    match adapter.value h with
    | .null => plain (u8 limits start 0)
    | .string s => do
      plain (u8 limits start 1)
      plain (string limits start s false)
    | .bool b => do
      plain (u8 limits start 2)
      plain (u8 limits start (if b then 1 else 0))
    | .int64 n => do
      plain (u8 limits start 3)
      plain (bytes limits start (toBe 8 n.toUInt64.toNat))
    | .double bits => do
      plain (u8 limits start 4)
      plain (u64 limits start (canonicalBits bits).toNat)
    | .bytes b => do
      check (b.length ≤ limits.maxBytesValue) (.error .bytesLimit)
      check (b.length < 2 ^ 32) (.error .lengthOverflow)
      plain (budgetVariable limits b.length)
      plain (u8 limits start 5)
      plain (u32 limits start b.length)
      plain (bytes limits start b)
    | .array values => do
      check (0 < room) (.error .depthLimit)
      check (adapter.arrayLen values < 2 ^ 32) (.error .lengthOverflow)
      check (adapter.arrayLen values ≤ limits.maxContainerElements) (.error .containerLimit)
      plain (u8 limits start 6)
      plain (u32 limits start (adapter.arrayLen values))
      forEach (fun index =>
        match adapter.arrayValue values index with
        | none => invalidSource
        | some item => sourceValue room item) (List.range (adapter.arrayLen values))
    | .map values => sourceMap limits start adapter room (sourceValue room) values

def sourceTopMap : SourceWriter := do
  plain (node limits)
  sourceMap limits start adapter limits.maxDepth (sourceValue limits start adapter limits.maxDepth) values

def sourceScope : Option (SourceScopeInput H) → SourceWriter
  | none => plain (u8 limits start 0)
  | some s => do
    plain (u8 limits start 1)
    plain (string limits start s.name false)
    plain (string limits start s.version false)
    plain (u32 limits start s.droppedAttributesCount.toNat)
    sourceTopMap limits start adapter s.attributes

def sourceFields (record : SourceLogRecordInput H) : SourceWriter := do
  plain (u16 limits start 0)
  plain (string limits start record.resourceSchemaUrl false)
  plain (u32 limits start record.resourceDroppedAttributesCount.toNat)
  sourceTopMap limits start record.adapter record.resourceAttributes
  sourceScope limits start record.adapter record.scope
  plain (string limits start record.scopeSchemaUrl false)
  plain (u64 limits start record.timeUnixNano.toNat)
  plain (u64 limits start record.observedTimeUnixNano.toNat)
  plain (u32 limits start record.severity.toNat)
  plain (string limits start record.severityText false)
  plain (string limits start record.eventName false)
  sourceValue limits start record.adapter (limits.maxDepth + 1) record.body
  plain (u32 limits start record.droppedAttributesCount.toNat)
  sourceTopMap limits start record.adapter record.attributes
  plain (u32 limits start record.traceFlags.toNat)
  plain (idOf limits start record.traceId)
  plain (idOf limits start record.spanId)

end SourceWriter

/-! ## The batch writer -/

section Batch

open Writer

variable {H : Type}

abbrev SourceBatchWriter := Writer SourceFault (Bytes × EncodeScratch) Unit

variable (limits : DecodeLimits) (record : SourceLogRecordInput H) (original : Nat)
   (records : List (SourceLogRecordInput H))

def writeSourceFields : SourceBatchWriter :=
  fun (out, scratch) =>
    match SourceWriter.sourceFields limits out.length record (⟨out, 0⟩, scratch) with
    | .ok (_, (w, scratch)) => .ok ((), (w.out, scratch))
    | .error (e, (w, scratch)) => .error (e, (w.out, scratch))

def encodeSourceRecord : SourceBatchWriter := do
  check (record.timeUnixNano ≠ 0 ∨ record.observedTimeUnixNano ≠ 0) (.error .missingTimestamp)
  check (∀ id ∈ record.traceId, ¬ id.1.all (· == 0)) (.error .zeroTraceId)
  check (∀ id ∈ record.spanId, ¬ id.1.all (· == 0)) (.error .zeroSpanId)
  check (record.traceId ≠ none ∨ record.spanId = none) (.error .orphanSpanId)
  writeSourceFields limits record

def encodeSourceDelimited (record : SourceLogRecordInput H) :
    SourceBatchWriter := fun s => (do
  onFirst .error (appendPayload limits original [0, 0, 0, 0])
  encodeSourceRecord limits record
  onFirst .error (closeRecord limits original s.1.length) : SourceBatchWriter) s

def encodeSourceBatch :
    SourceBatchWriter := do
  check (records.length < 2 ^ 32) (.error .lengthOverflow)
  check (records.length ≤ limits.maxRecords) (.error .recordCountLimit)
  onFirst .error (appendPayload limits original (toBe 4 logsBatchV2Magic))
  onFirst .error (appendPayload limits original (toBe 2 logsRawVersionV1))
  onFirst .error (appendPayload limits original (toBe 4 records.length))
  forEach (encodeSourceDelimited limits original) records

/-- The result, the output and the scratch as the caller finds them. -/
def encodeLogsBatchV2FromSourcesInto (limits : DecodeLimits)
    (scratch : EncodeScratch) (output : Bytes) : Except SourceFault Unit × Bytes × EncodeScratch :=
  match encodeSourceBatch limits output.length records (output, scratch) with
  | .ok (_, (out, scratch)) => (.ok (), out, scratch)
  | .error (e, (out, scratch)) => (.error e, out.take output.length, scratch)

end Batch

/-! ## What a source shows -/

section Shows

variable {H : Type}

namespace AnyValueAdapter

mutual

inductive Shows (a : AnyValueAdapter H) : H → AnyValueInput → Prop
  | null {h : H} (hv : a.value h = .null) : Shows a h .null
  | string {h : H} {s : Str} (hv : a.value h = .string s) : Shows a h (.string s)
  | bool {h : H} {b : Bool} (hv : a.value h = .bool b) : Shows a h (.bool b)
  | int64 {h : H} {n : Int64} (hv : a.value h = .int64 n) : Shows a h (.int64 n)
  | double {h : H} {bits : UInt64} (hv : a.value h = .double bits) : Shows a h (.double bits)
  | bytes {h : H} {b : Bytes} (hv : a.value h = .bytes b) : Shows a h (.bytes b)
  | array {h values : H} {ts : List AnyValueInput} (hv : a.value h = .array values)
    (hitems : ShowsItems a values (List.range (a.arrayLen values)) ts) : Shows a h (.array ts)
  | map {h values : H} {es : List KeyValueInput} (hv : a.value h = .map values)
    (hentries : ShowsEntries a values (List.range (a.mapLen values)) es) : Shows a h (.map es)

inductive ShowsItems (a : AnyValueAdapter H) : H → List Nat → List AnyValueInput → Prop
  | nil {values : H} : ShowsItems a values [] []
  | cons {values item : H} {i : Nat} {is : List Nat} {t : AnyValueInput} {ts : List AnyValueInput}
    (hvalue : a.arrayValue values i = some item) (h : Shows a item t) (hrest : ShowsItems a values is ts) :
    ShowsItems a values (i :: is) (t :: ts)

inductive ShowsEntries (a : AnyValueAdapter H) : H → List Nat → List KeyValueInput → Prop
  | nil {values : H} : ShowsEntries a values [] []
  | cons {values item : H} {i : Nat} {is : List Nat} {key : Str} {t : AnyValueInput} {es : List KeyValueInput}
    (hkey : a.mapKey values i = some key) (hvalue : a.mapValue values i = some item) (h : Shows a item t)
    (hrest : ShowsEntries a values is es) : ShowsEntries a values (i :: is) ((key, t) :: es)

end

def ShowsMap (a : AnyValueAdapter H) (values : H) (es : List KeyValueInput) : Prop :=
  a.ShowsEntries values (List.range (a.mapLen values)) es

variable {a : AnyValueAdapter H} {values : H} {P : H → AnyValueInput → Prop}

theorem ShowsItems.forall₂ (hP : ∀ item t, a.Shows item t → P item t) :
    ∀ {is : List Nat} {ts : List AnyValueInput}, a.ShowsItems values is ts →
      List.Forall₂ (fun i t => ∃ item, a.arrayValue values i = some item ∧ P item t) is ts
  | _, _, .nil => .nil
  | _, _, .cons hvalue h hrest => .cons ⟨_, hvalue, hP _ _ h⟩ (hrest.forall₂ hP)

theorem ShowsEntries.forall₂ (hP : ∀ item t, a.Shows item t → P item t) :
    ∀ {is : List Nat} {es : List KeyValueInput}, a.ShowsEntries values is es →
      List.Forall₂ (fun i e => a.mapKey values i = some e.1 ∧
        ∃ item, a.mapValue values i = some item ∧ P item e.2) is es
  | _, _, .nil => .nil
  | _, _, .cons hkey hvalue h hrest => .cons ⟨hkey, _, hvalue, hP _ _ h⟩ (hrest.forall₂ hP)

end AnyValueAdapter

inductive AnyValueAdapter.ShowsScope (a : AnyValueAdapter H) : Option (SourceScopeInput H) → Option ScopeInput → Prop
  | none : ShowsScope a none none
  | some {s : SourceScopeInput H} {es : List KeyValueInput} (h : a.ShowsMap s.attributes es) :
    ShowsScope a (some s) (some ⟨s.name, s.version, s.droppedAttributesCount, es⟩)

inductive SourceLogRecordInput.Shows (r : SourceLogRecordInput H) : LogRecordInput → Prop
  | mk {resourceAttributes attributes : List KeyValueInput} {scope : Option ScopeInput} {body : AnyValueInput}
    (hresource : r.adapter.ShowsMap r.resourceAttributes resourceAttributes)
    (hscope : r.adapter.ShowsScope r.scope scope) (hbody : r.adapter.Shows r.body body)
    (hattributes : r.adapter.ShowsMap r.attributes attributes) : Shows r
      { resourceSchemaUrl := r.resourceSchemaUrl
        resourceDroppedAttributesCount := r.resourceDroppedAttributesCount
        resourceAttributes
        scope
        scopeSchemaUrl := r.scopeSchemaUrl
        timeUnixNano := r.timeUnixNano
        observedTimeUnixNano := r.observedTimeUnixNano
        severity := r.severity
        severityText := r.severityText
        eventName := r.eventName
        body
        droppedAttributesCount := r.droppedAttributesCount
        attributes
        traceFlags := r.traceFlags
        traceId := r.traceId
        spanId := r.spanId }

end Shows

def keyLe (a b : KeyValueInput) : Prop := a.1.1 ≤ b.1.1

instance : DecidableRel keyLe := fun a b => inferInstanceAs (Decidable (a.1.1 ≤ b.1.1))

def AnyValueInput.sortMaps : AnyValueInput → AnyValueInput
  | null => null
  | string s => string s
  | bool b => bool b
  | int64 n => int64 n
  | double bits => double bits
  | bytes b => bytes b
  | array vs => array (vs.map sortMaps)
  | map es => map ((es.map fun e => (e.1, sortMaps e.2)).insertionSort keyLe)
termination_by t => sizeOf t
decreasing_by
  · exact sizeOf_item ‹_›
  · exact sizeOf_entry ‹_›

def sortEntries (es : List KeyValueInput) : List KeyValueInput :=
  (es.map fun e => (e.1, e.2.sortMaps)).insertionSort keyLe

def LogRecordInput.sortMaps (r : LogRecordInput) : LogRecordInput :=
  { r with
    resourceAttributes := sortEntries r.resourceAttributes
    scope := r.scope.map fun s => { s with attributes := sortEntries s.attributes }
    body := r.body.sortMaps
    attributes := sortEntries r.attributes }

/-! ## The two encoders agree -/

open Writer

/-- `v` does what `w` does, and the scratch does not shrink. -/
abbrev Follows {σ : Type} (v : Writer SourceFault (σ × EncodeScratch) Unit) (w : Writer EncodeError σ Unit) : Prop :=
  Hides (fun t t' : EncodeScratch => t.length ≤ t'.length) SourceFault.error v w

section Follows

variable {σ : Type} {v v' : Writer SourceFault (σ × EncodeScratch) Unit} {w w' : Writer EncodeError σ Unit}

theorem Follows.then (h : Follows v w) (h' : Follows v' w') : Follows (v >>= fun _ => v') (w >>= fun _ => w') :=
  h.seq Nat.le_trans h'

theorem follows_plain (w : Writer EncodeError σ Unit) : Follows (onFirst .error w) w :=
  hides_onFirst (fun t => Nat.le_refl t.length) w

theorem follows_check {p q : Prop} [Decidable p] [Decidable q] (hpq : p ↔ q) (e : EncodeError) :
    Follows (check p (.error e) : Writer SourceFault (σ × EncodeScratch) Unit) (check q e) :=
  hides_check (fun t => Nat.le_refl t.length) hpq e

theorem Follows.plain {u : Writer EncodeError σ Unit} (h : Follows v w) :
    Follows (onFirst .error u >>= fun _ => v) (u >>= fun _ => w) :=
  (follows_plain u).then h

theorem Follows.check {p : Prop} [Decidable p] {e : EncodeError} (h : Follows v w) :
    Follows (Writer.check p (.error e) >>= fun _ => v) (Writer.check p e >>= fun _ => w) :=
  (follows_check Iff.rfl e).then h

theorem follows_forEach {α β : Type} {v : α → Writer SourceFault (σ × EncodeScratch) Unit}
    {w : β → Writer EncodeError σ Unit} {xs : List α} {ys : List β}
    (h : List.Forall₂ (fun x y => Follows (v x) (w y)) xs ys) : Follows (forEach v xs) (forEach w ys) :=
  hides_forEach (R := fun t t' : EncodeScratch => t.length ≤ t'.length) (fun t => Nat.le_refl t.length) Nat.le_trans h

end Follows

namespace SourceWriter

theorem length_reserve (slot : Nat) (scratch : EncodeScratch) :
    (reserve slot scratch).length = max scratch.length (slot + 1) := by
  unfold reserve
  split
  · simp only [List.length_append, List.length_replicate]
    omega
  · omega

theorem withSlot_follows {slot : Nat} {body : SourceWriter} {w : RecordWriter} (h : Follows body w) :
    Follows (withSlot slot body) w := by
  refine ⟨fun s t => ?_⟩
  have hlen := length_reserve slot t
  obtain ⟨t', ht, hrun⟩ := h.run s ((reserve slot t).set slot [])
  rw [List.length_set] at ht
  have hback : putBack slot t' = some (t'.set slot []) := if_pos (by omega)
  refine ⟨t'.set slot [], by rw [List.length_set]; omega, ?_⟩
  have hslot : slot < (reserve slot t).length := by omega
  simp only [withSlot, List.getElem?_eq_getElem hslot, hrun]
  cases w s with
  | ok r => simp [embed, hback]
  | error e => simp [embed, hback]

variable {H : Type} {limits : DecodeLimits} {start : Nat} {a : AnyValueAdapter H} {values : H}

variable {es : List KeyValueInput} {is : List Nat}

theorem checkSourceKeys_follows {previous : Option Bytes}
    (h : List.Forall₂ (fun i e => a.mapKey values i = some e.1) is es) (hsort : es.Pairwise keyLe)
    (hprev : ∀ old ∈ previous, ∀ e ∈ es, old ≤ e.1.1) :
    Follows (checkSourceKeys a values previous is) (checkKeys previous es) := by
  induction h generalizing previous with
  | nil => exact hides_pure fun t => Nat.le_refl t.length
  | @cons i e is es hkey _ ih =>
    rw [List.pairwise_cons] at hsort
    -- In order, the next key is above the last one unless it is the same.
    have hnext : previous ≠ some e.1.1 ↔ ∀ old ∈ previous, old < e.1.1 := by
      constructor
      · intro hne old hold
        apply Classical.byContradiction
        intro hlt
        exact hne (hold.trans (congrArg some (List.le_antisymm (hprev old hold e List.mem_cons_self) hlt)))
      · rintro hlt rfl
        exact List.lt_irrefl _ (hlt _ rfl)
    rw [checkSourceKeys, hkey]
    refine .check ((follows_check hnext _).then (ih hsort.2 ?_))
    rintro old ⟨⟩ e' he'
    exact hsort.1 e' he'

theorem mapKey_ne_none (h : List.Forall₂ (fun i e => a.mapKey values i = some e.1) is es) :
    ∀ i ∈ is, a.mapKey values i ≠ none := by
  induction h with
  | nil => exact List.forall_mem_nil _
  | cons hkey _ ih => exact List.forall_mem_cons.mpr ⟨by simp [hkey], ih⟩

theorem sourceMap_follows {room : Nat} {sourceValue : H → SourceWriter} {value : AnyValueInput → RecordWriter}
    (h : List.Forall₂ (fun i e => a.mapKey values i = some e.1 ∧ ∃ item, a.mapValue values i = some item ∧ Follows
    (sourceValue item) (value e.2)) (List.range (a.mapLen values)) es) : Follows
    (sourceMap limits start a room sourceValue values) (map limits start room value (es.insertionSort keyLe)) := by
  have hlen : (es.insertionSort keyLe).length = a.mapLen values := by
    rw [List.length_insertionSort, ← h.length_eq, List.length_range]
  have hsort : List.Forall₂ _ (indices a values) (es.insertionSort keyLe) :=
    forall₂_insertionSort (fun i j e e' hi hj => by simp only [indexLe, keyLe, hi.1, hj.1]) h
  have hsorted : (es.insertionSort keyLe).Pairwise keyLe := by
    have htotal : Std.Total keyLe := ⟨fun x y => List.le_total x.1.1 y.1.1⟩
    have htrans : IsTrans KeyValueInput keyLe := ⟨fun _ _ _ => List.le_trans⟩
    exact List.pairwise_insertionSort _ es
  have hsource : ¬ sourceError a values := by
    rintro ⟨-, i, hi, hnone⟩
    exact mapKey_ne_none (h.imp fun _ _ h => h.1) i hi hnone
  unfold sourceMap map
  rw [hlen]
  refine .check (.check (.check (.plain (withSlot_follows (.check_seq hsource _ ?_)))))
  refine (checkSourceKeys_follows (hsort.imp fun _ _ h => h.1) hsorted (by simp)).then
    (.plain (.plain (follows_forEach (hsort.imp fun i e h => ?_))))
  obtain ⟨hkey, item, hvalue, hitem⟩ := h
  simp only [sourceEntry, hkey, hvalue]
  exact .plain hitem

theorem sourceValue_follows {room : Nat} {h : H} {t : AnyValueInput} (hshows : a.Shows h t) :
    Follows (sourceValue limits start a room h) (value limits start room t.sortMaps) := by
  induction room generalizing h t with
  | zero => exact hides_fail (fun t => Nat.le_refl t.length) _
  | succ room ih =>
    have hP (item : H) (t : AnyValueInput) (h : a.Shows item t) := ih h
    unfold sourceValue value
    refine .plain ?_
    cases hshows with
    | null hv => simpa only [hv, AnyValueInput.sortMaps] using follows_plain _
    | string hv => simpa only [hv, AnyValueInput.sortMaps] using (follows_plain _).then (follows_plain _)
    | bool hv => simpa only [hv, AnyValueInput.sortMaps] using (follows_plain _).then (follows_plain _)
    | int64 hv => simpa only [hv, AnyValueInput.sortMaps] using (follows_plain _).then (follows_plain _)
    | double hv => simpa only [hv, AnyValueInput.sortMaps] using (follows_plain _).then (follows_plain _)
    | bytes hv =>
      simp only [hv, AnyValueInput.sortMaps]
      exact .check (.check (.plain (.plain (.plain (follows_plain _)))))
    | @array _ values ts hv hitems =>
      have hitems := hitems.forall₂ hP
      have hlen := hitems.length_eq
      rw [List.length_range] at hlen
      have hlen' : (ts.map AnyValueInput.sortMaps).length = a.arrayLen values := by rw [List.length_map, hlen]
      simp only [hv, AnyValueInput.sortMaps]
      rw [hlen', forEach_map]
      refine .check (.check (.check (.plain (.plain (follows_forEach (hitems.imp fun i t h => ?_))))))
      obtain ⟨item, hitem, hfollows⟩ := h
      simpa only [hitem] using hfollows
    | map hv hents =>
      simp only [hv, AnyValueInput.sortMaps]
      exact sourceMap_follows (List.forall₂_map_right_iff.mpr (hents.forall₂ hP))

theorem sourceTopMap_follows (h : a.ShowsMap values es) :
    Follows (sourceTopMap limits start a values) (topMap limits start (sortEntries es)) :=
  .plain (sourceMap_follows (List.forall₂_map_right_iff.mpr (h.forall₂ fun _ _ => sourceValue_follows)))

theorem sourceScope_follows {s : Option (SourceScopeInput H)} {s' : Option ScopeInput} (h : a.ShowsScope s s') :
    Follows (sourceScope limits start a s)
      (scope limits start (s'.map fun s => { s with attributes := sortEntries s.attributes })) := by
  cases h with
  | none => exact follows_plain _
  | some h =>
    exact .plain (.plain (.plain (.plain (sourceTopMap_follows h))))

theorem sourceFields_follows {r : SourceLogRecordInput H} {input : LogRecordInput} (h : r.Shows input) :
    Follows (sourceFields limits start r) (fields limits start input.sortMaps) := by
  cases h with
  | mk hres hscope hbody hattrs =>
    unfold sourceFields fields
    refine .plain (.plain (.plain ((sourceTopMap_follows hres).then ((sourceScope_follows hscope).then ?_))))
    refine .plain (.plain (.plain (.plain (.plain (.plain ((sourceValue_follows hbody).then ?_))))))
    exact .plain ((sourceTopMap_follows hattrs).then (.plain (.plain (follows_plain _))))

end SourceWriter

section Batch

variable {H : Type} {limits : DecodeLimits} {original : Nat} {r : SourceLogRecordInput H} {input : LogRecordInput}

theorem writeSourceFields_follows (h : r.Shows input) :
    Follows (writeSourceFields limits r) (writeFields limits input.sortMaps) := by
  refine ⟨fun out scratch => ?_⟩
  have hfields : Follows (SourceWriter.sourceFields limits out.length r) _ := SourceWriter.sourceFields_follows h
  obtain ⟨scratch', hlen, hrun⟩ := hfields.run ⟨out, 0⟩ scratch
  refine ⟨scratch', hlen, ?_⟩
  simp only [writeSourceFields, writeFields, hrun]
  cases fields limits out.length input.sortMaps ⟨out, 0⟩ <;> rfl

theorem encodeSourceRecord_follows (h : r.Shows input) :
    Follows (encodeSourceRecord limits r) (encodeRecord limits input.sortMaps) := by
  have hfields : Follows (writeSourceFields limits r) _ := writeSourceFields_follows h
  cases h
  exact .check (.check (.check (.check hfields)))

theorem encodeSourceDelimited_follows (h : r.Shows input) :
    Follows (encodeSourceDelimited limits original r) (encodeDelimited limits original input.sortMaps) :=
  ⟨fun out scratch => (Follows.plain ((encodeSourceRecord_follows h).then (follows_plain _))).run out scratch⟩

theorem encodeSourceBatch_follows {records : List (SourceLogRecordInput H)} {inputs : List LogRecordInput}
    (h : List.Forall₂ SourceLogRecordInput.Shows records inputs) : Follows (encodeSourceBatch limits original records)
    (encodeBatch limits original (inputs.map LogRecordInput.sortMaps)) := by
  unfold encodeSourceBatch encodeBatch
  rw [List.length_map, ← h.length_eq, forEach_map]
  exact .check (.check (.plain (.plain (.plain (follows_forEach (h.imp fun _ _ => encodeSourceDelimited_follows))))))

/-- **The two encoders agree.** Over a source, the output is that of the slice encoder for the sorted records.
-/
theorem encode_sources_eq_slices {records : List (SourceLogRecordInput H)} {inputs : List LogRecordInput}
    (h : List.Forall₂ SourceLogRecordInput.Shows records inputs) (limits : DecodeLimits) (scratch : EncodeScratch)
    (output : Bytes) : ∃ scratch', encodeLogsBatchV2FromSourcesInto records limits scratch output =
    ((encodeLogsBatchV2Into (inputs.map LogRecordInput.sortMaps) limits output).1.mapError .error,
    (encodeLogsBatchV2Into (inputs.map LogRecordInput.sortMaps) limits output).2, scratch') := by
  have hbatch : Follows (encodeSourceBatch limits output.length records) _ := encodeSourceBatch_follows h
  obtain ⟨scratch', -, hrun⟩ := hbatch.run output scratch
  refine ⟨scratch', ?_⟩
  unfold encodeLogsBatchV2FromSourcesInto encodeLogsBatchV2Into
  rw [hrun]
  cases encodeBatch limits output.length (inputs.map LogRecordInput.sortMaps) output <;> rfl

end Batch

/-- `true` is a map with the keys `b` and `a`, in this order. -/
def pairAdapter : AnyValueAdapter Bool where
  value h := if h then .map true else .null
  arrayLen _ := 0
  arrayValue _ _ := none
  mapLen h := if h then 2 else 0
  mapKey _ i := [⟨[0x62], by decide⟩, ⟨[0x61], by decide⟩][i]?
  mapValue _ _ := some false

def pairRecord : SourceLogRecordInput Bool :=
  ⟨pairAdapter, ⟨[], validUtf8_nil⟩, 0, false, none, ⟨[], validUtf8_nil⟩, 1, 0, 0, ⟨[], validUtf8_nil⟩, ⟨[], validUtf8_nil⟩, true, 0, false, 0, none, none⟩

def pairInput : LogRecordInput :=
  ⟨⟨[], validUtf8_nil⟩, 0, [], none, ⟨[], validUtf8_nil⟩, 1, 0, 0, ⟨[], validUtf8_nil⟩, ⟨[], validUtf8_nil⟩,
    .map [(⟨[0x62], by decide⟩, .null), (⟨[0x61], by decide⟩, .null)], 0, [], 0, none, none⟩

theorem encode_sources_eq_slices_pair : pairRecord.Shows pairInput ∧ ∃ scratch', encodeLogsBatchV2FromSourcesInto
    [pairRecord] .default [[7], [1, 2]] [] = ((encodeLogsBatchV2Into [pairInput.sortMaps] .default []).1.mapError
    .error, (encodeLogsBatchV2Into [pairInput.sortMaps] .default []).2, scratch') := by
  have hbody : pairAdapter.Shows true pairInput.body :=
    .map rfl (.cons rfl rfl (.null rfl) (.cons rfl rfl (.null rfl) .nil))
  have hshows : pairRecord.Shows pairInput := .mk .nil .none hbody .nil
  exact ⟨hshows, encode_sources_eq_slices (.cons hshows .nil) _ _ _⟩

end Scry.Proto
