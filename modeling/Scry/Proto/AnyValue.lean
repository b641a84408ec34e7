import Scry.Lib.Reader
import Scry.Lib.Utf8

/-! # Canonical values of logs v2

The validator walks a value once under a budget. What reads it later trusts the validator and panics on anything
else.
-/

open Scry.Lib

namespace Scry.Proto

open List

open Reader

/-! ## Limits and errors -/

structure DecodeLimits where
  maxPayloadBytes : Nat
  maxRecords : Nat
  maxRecordBytes : Nat
  maxVariableBytesPerRecord : Nat
  maxDepth : Nat
  maxNodesPerRecord : Nat
  maxKeyValuePairsPerRecord : Nat
  maxContainerElements : Nat
  maxKeyBytes : Nat
  maxStringBytes : Nat
  maxBytesValue : Nat
  deriving DecidableEq

def DecodeLimits.default : DecodeLimits where
  maxPayloadBytes := 16 * 1024 * 1024
  maxRecords := 65536
  maxRecordBytes := 1024 * 1024
  maxVariableBytesPerRecord := 1024 * 1024
  maxDepth := 32
  maxNodesPerRecord := 65536
  maxKeyValuePairsPerRecord := 65536
  maxContainerElements := 4096
  maxKeyBytes := 1024
  maxStringBytes := 1024 * 1024
  maxBytesValue := 1024 * 1024

inductive DecodeError where
  | payloadLimit
  | recordCountLimit
  | recordLimit
  | variableBytesLimit
  | truncated
  | badMagic (magic : Nat)
  | unsupportedVersion (version : Nat)
  | invalidRecordFlags
  | zeroReceivedTime
  | invalidScopePresence
  | trailingBytes
  | invalidUtf8
  | stringLimit
  | keyLimit
  | emptyMapKey
  | bytesLimit
  | depthLimit
  | nodeLimit
  | keyValueLimit
  | containerLimit
  | unknownValueTag (tag : Nat)
  | invalidBool
  | nonCanonicalDouble
  | nonCanonicalMap
  | invalidTraceIdLength
  | invalidSpanIdLength
  | zeroTraceId
  | zeroSpanId
  | orphanSpanId
  | appender (message : String)
  deriving DecidableEq

/-! ## The validator -/

structure RecordBudget where
  variableBytes : Nat
  nodes : Nat
  keyValues : Nat
  deriving DecidableEq

/-- A `Cursor` and the budget of the record it reads. -/
abbrev RecordReader (α : Type) := Reader DecodeError (Cursor RecordBudget) α

namespace RecordReader

variable (limits : DecodeLimits)

def take (len : Nat) : RecordReader Bytes := Cursor.take .truncated len

def uint (width : Nat) : RecordReader Nat := Cursor.uint .truncated width

def charge (spend : RecordBudget → RecordBudget) (used : RecordBudget → Nat) (max : Nat)
    (e : DecodeError) : RecordReader Unit := fun c =>
  let budget := spend c.extra
  if max < used budget then .error e else .ok ((), { c with extra := budget })

def budgetVariable (len : Nat) : RecordReader Unit :=
  charge (fun b => { b with variableBytes := b.variableBytes + len }) RecordBudget.variableBytes
    limits.maxVariableBytesPerRecord .variableBytesLimit

def budgetNode : RecordReader Unit :=
  charge (fun b => { b with nodes := b.nodes + 1 }) RecordBudget.nodes limits.maxNodesPerRecord
    .nodeLimit

def budgetKeyValues (count : Nat) : RecordReader Unit :=
  charge (fun b => { b with keyValues := b.keyValues + count }) RecordBudget.keyValues
    limits.maxKeyValuePairsPerRecord .keyValueLimit

def rawString (max : Nat) (tooLong : DecodeError) : RecordReader Bytes := do
  let len ← uint 4
  require (len ≤ max) tooLong
  let bytes ← take len
  require (validUtf8 bytes = true) .invalidUtf8
  budgetVariable limits len
  return bytes

def valueString : RecordReader Bytes := rawString limits limits.maxStringBytes .stringLimit

variable (room : Nat) (value : RecordReader Bytes) (bits : Nat)

def isNan : Bool := bits / 2 ^ 52 % 2 ^ 11 == 2047 && bits % 2 ^ 52 != 0

def canonicalNanBits : Nat := 0x7ff8000000000000

/-- Neither negative zero nor a NaN other than the canonical one. -/
def canonicalDouble : Bool := bits != 2 ^ 63 && (!isNan bits || bits == canonicalNanBits)

/-- At `room` levels above the deepest one. -/
def array : RecordReader Unit := do
  require (0 < room) .depthLimit
  let count ← uint 4
  require (count ≤ limits.maxContainerElements) .containerLimit
  let _ ← times count value

def mapEntries (value : RecordReader Bytes) : Nat → Option Bytes → RecordReader Unit
  | 0, _ => pure ()
  | n + 1, previous => do
    let key ← rawString limits limits.maxKeyBytes .keyLimit
    require (key ≠ []) .emptyMapKey
    require (∀ old ∈ previous, old < key) .nonCanonicalMap
    let _ ← value
    mapEntries value n (some key)

def map : RecordReader Unit := do
  require (0 < room) .depthLimit
  let count ← uint 4
  require (count ≤ limits.maxContainerElements) .containerLimit
  budgetKeyValues limits count
  mapEntries limits value count none

def anyContent : RecordReader Unit := do
  let tag ← uint 1
  match tag with
  | 0 => pure ()
  | 1 => let _ ← valueString limits
  | 2 => do
    let b ← uint 1
    require (b ≤ 1) .invalidBool
  | 3 => let _ ← take 8
  | 4 => do
    let bits ← uint 8
    require (canonicalDouble bits = true) .nonCanonicalDouble
  | 5 => do
    let len ← uint 4
    require (len ≤ limits.maxBytesValue) .bytesLimit
    let _ ← take len
    budgetVariable limits len
  | 6 => array limits room value
  | 7 => map limits room value
  | other => fail (.unknownValueTag other)

/-- At `room = max_depth + 1 - depth`; returns the value's bytes. -/
def anyValue : Nat → RecordReader Bytes
  | 0 => fail .depthLimit
  | room + 1 => do
    budgetNode limits
    let (_, encoded) ← Cursor.captured (anyContent limits room (anyValue room))
    return encoded

def mapContent : RecordReader Unit := do
  let tag ← uint 1
  require (tag = 7) (.unknownValueTag tag)
  map limits room value

def mapValue : Nat → RecordReader Bytes
  | 0 => fail .depthLimit
  | room + 1 => do
    budgetNode limits
    let (_, encoded) ← Cursor.captured (mapContent limits room (anyValue limits room))
    return encoded

end RecordReader

/-! ## Views -/

inductive AnyValue where
  | null
  | string (value : Bytes)
  | bool (value : Bool)
  | int64 (value : Int)
  | double (bits : Nat)
  | bytes (value : Bytes)
  | array (encodedValues : Bytes) (len : Nat)
  | map (encodedEntries : Bytes) (len : Nat)
  deriving DecidableEq

def toSigned (bits n : Nat) : Int := if n < 2 ^ (bits - 1) then n else n - 2 ^ bits

/-- `read_u32`. A slice that is out of range panics. -/
def readU32 (input : Bytes) : Option Nat := (takeBe 4 input).map Prod.fst

/-- `&input[offset..]` -/
def sliceFrom (offset : Nat) (input : Bytes) : Option Bytes :=
  if input.length < offset then none else some (input.drop offset)

/-- The loops of `encoded_value_len`, around its recursive call. -/
def skipValues (valueLen : Bytes → Option Nat) (input : Bytes) : Nat → Nat → Option Nat
  | 0, offset => some offset
  | n + 1, offset => do
    let rest ← sliceFrom offset input
    let len ← valueLen rest
    skipValues valueLen input n (offset + len)

@[inherit_doc skipValues]
def skipEntries (valueLen : Bytes → Option Nat) (input : Bytes) : Nat → Nat → Option Nat
  | 0, offset => some offset
  | n + 1, offset => do
    let rest ← sliceFrom offset input
    let keyLen ← readU32 rest
    let offset := offset + (4 + keyLen)
    let rest ← sliceFrom offset input
    let len ← valueLen rest
    skipEntries valueLen input n (offset + len)

def encodedValueLenAux : Nat → Bytes → Option Nat
  | 0, _ => none
  | _ + 1, [] => none
  | fuel + 1, tag :: body =>
    match tag.toNat with
    | 0 => some 1
    | 1 | 5 => (readU32 body).map (5 + ·)
    | 2 => some 2
    | 3 | 4 => some 9
    | 6 => do
      let count ← readU32 body
      skipValues (encodedValueLenAux fuel) (tag :: body) count 5
    | 7 => do
      let count ← readU32 body
      skipEntries (encodedValueLenAux fuel) (tag :: body) count 5
    | _ => none

/-- An item is shorter than its container, so the length is enough fuel. -/
def encodedValueLen (input : Bytes) : Option Nat := encodedValueLenAux input.length input

def decodeValue : Bytes → Option AnyValue
  | [] => none
  | tag :: body =>
    match tag.toNat with
    | 0 => some .null
    | 1 => do
      let len ← readU32 body
      let (value, _) ← takeBytes len (body.drop 4)
      if validUtf8 value then some (.string value) else none
    | 2 => body.head?.map fun b => .bool (b != 0)
    | 3 => (takeBe 8 body).map fun (n, _) => .int64 (toSigned 64 n)
    | 4 => (takeBe 8 body).map fun (n, _) => .double n
    | 5 => do
      let len ← readU32 body
      let (value, _) ← takeBytes len (body.drop 4)
      return .bytes value
    | 6 => (readU32 body).map fun len => .array (body.drop 4) len
    | 7 => (readU32 body).map fun len => .map (body.drop 4) len
    | _ => none

def arrayItems : Nat → Bytes → Option (List Bytes)
  | 0, _ => some []
  | n + 1, encoded => do
    let len ← encodedValueLen encoded
    let (value, rest) ← takeBytes len encoded
    let values ← arrayItems n rest
    return value :: values

def mapItems : Nat → Bytes → Option (List (Bytes × Bytes))
  | 0, _ => some []
  | n + 1, encoded => do
    let keyLen ← readU32 encoded
    let (key, rest) ← takeBytes keyLen (encoded.drop 4)
    let len ← encodedValueLen rest
    let (value, rest) ← takeBytes len rest
    if validUtf8 key then
      let items ← mapItems n rest
      return (key, value) :: items
    else none

/-- `AnyValueRef::map_iter`: panics, is no map, or yields its entries. -/
def mapIter (value : Bytes) : Option (Option (List (Bytes × Bytes))) :=
  match decodeValue value with
  | none => none
  | some (.map encodedEntries len) => (mapItems len encodedEntries).map some
  | some _ => some none

/-! ## The grammar -/

def withLength (s : Bytes) : Bytes := toBe 4 s.length ++ s

def entryWire (e : Bytes × Bytes) : Bytes := withLength e.1 ++ e.2

structure StringValid (s : Bytes) : Prop where
  length : s.length < 256 ^ 4
  utf8 : validUtf8 s = true

/-- The bytes are one value, in the form that the views rely on. -/
inductive IsValue : Bytes → Prop where
  | null : IsValue [0]
  | string {s : Bytes} : StringValid s → IsValue (1 :: withLength s)
  | bool {b : UInt8} : IsValue [2, b]
  | int64 {b : Bytes} : b.length = 8 → IsValue (3 :: b)
  | double {b : Bytes} : b.length = 8 → IsValue (4 :: b)
  | bytes {b : Bytes} : b.length < 256 ^ 4 → IsValue (5 :: withLength b)
  | array {vs : List Bytes} : vs.length < 256 ^ 4 → (∀ v ∈ vs, IsValue v) →
      IsValue (6 :: (toBe 4 vs.length ++ vs.flatten))
  | map {es : List (Bytes × Bytes)} : es.length < 256 ^ 4 → (∀ e ∈ es, StringValid e.1) →
      (∀ e ∈ es, IsValue e.2) → IsValue (7 :: (toBe 4 es.length ++ es.flatMap entryWire))

/-! ## The views of a value -/

theorem readU32_append {n : Nat} (h : n < 256 ^ 4) (rest : Bytes) : readU32 (toBe 4 n ++ rest) = some n := by
  simp [readU32, takeBe_append 4 n h]

theorem sliceFrom_append (front rest : Bytes) : sliceFrom front.length (front ++ rest) = some rest := by
  simp [sliceFrom]

section Skip

variable {valueLen : Bytes → Option Nat}

theorem skipValues_flatten {vs : List Bytes} (h : ∀ v ∈ vs, ∀ rest, valueLen (v ++ rest) = some v.length)
    (front rest : Bytes) : skipValues valueLen (front ++ (vs.flatten ++ rest)) vs.length front.length = some
    (front.length + vs.flatten.length) := by
  induction vs generalizing front with
  | nil => simp [skipValues]
  | cons v vs ih =>
    simp only [mem_cons, forall_eq_or_imp] at h
    have hrest := ih h.2 (front ++ v)
    simp only [length_append, append_assoc] at hrest
    simp only [length_cons, skipValues, sliceFrom_append, flatten_cons, append_assoc,
      h.1, Option.bind_eq_bind, Option.bind_some, hrest, length_append]
    congr 1
    omega

theorem skipEntries_flatMap {es : List (Bytes × Bytes)} (hkeys : ∀ e ∈ es, StringValid e.1)
    (h : ∀ e ∈ es, ∀ rest, valueLen (e.2 ++ rest) = some e.2.length) (front rest : Bytes) :
    skipEntries valueLen (front ++ (es.flatMap entryWire ++ rest)) es.length front.length =
      some (front.length + (es.flatMap entryWire).length) := by
  induction es generalizing front with
  | nil => simp [skipEntries]
  | cons e es ih =>
    simp only [mem_cons, forall_eq_or_imp] at h hkeys
    have hrest := ih hkeys.2 h.2 (front ++ entryWire e)
    have hkey := sliceFrom_append (front ++ withLength e.1) (e.2 ++ (es.flatMap entryWire ++ rest))
    have hlen : (withLength e.1).length = 4 + e.1.length := by simp [withLength]
    simp only [length_append, append_assoc, entryWire, hlen] at hrest hkey
    simp only [length_cons, skipEntries, sliceFrom_append, flatMap_cons, entryWire,
      append_assoc, Option.bind_eq_bind, Option.bind_some]
    rw [show readU32 (withLength e.1 ++ (e.2 ++ (es.flatMap entryWire ++ rest))) = some e.1.length by
      rw [withLength, append_assoc]; exact readU32_append hkeys.1.length _]
    simp only [Option.bind_some, hkey, h.1, length_append, hlen]
    rw [Nat.add_assoc, hrest]
    congr 1
    omega

end Skip

variable {v : Bytes} {vs : List Bytes}

theorem length_lt_array (h : v ∈ vs) (n : Nat) :
    v.length < (6 :: (toBe 4 n ++ vs.flatten)).length := by
  have hle := (sublist_flatten_of_mem h).length_le
  simp only [length_cons, length_append]
  omega

variable {es : List (Bytes × Bytes)}

theorem length_lt_map {e : Bytes × Bytes} (h : e ∈ es) (n : Nat) :
    e.2.length < (7 :: (toBe 4 n ++ es.flatMap entryWire)).length := by
  have hle := (sublist_flatten_of_mem (mem_map_of_mem (f := entryWire) h)).length_le
  rw [← flatMap_def] at hle
  simp only [entryWire, length_cons, length_append] at hle ⊢
  omega

theorem IsValue.length_pos (h : IsValue v) : 0 < v.length := by
  cases h <;> simp

theorem IsValue.encodedValueLenAux (h : IsValue v) {fuel : Nat} (hfuel : v.length ≤ fuel)
    (rest : Bytes) : encodedValueLenAux fuel (v ++ rest) = some v.length := by
  induction fuel generalizing v rest with
  | zero =>
    have := h.length_pos
    omega
  | succ fuel ih =>
    cases h with
    | null | bool => simp [Proto.encodedValueLenAux]
    | string hs =>
      simp [Proto.encodedValueLenAux, withLength, readU32_append hs.length]
      omega
    | int64 hb | double hb => simp [Proto.encodedValueLenAux, hb]
    | bytes hb =>
      simp [Proto.encodedValueLenAux, withLength, readU32_append hb]
      omega
    | @array vs hlen hvs =>
      have hitems : ∀ v ∈ vs, ∀ rest, Proto.encodedValueLenAux fuel (v ++ rest) = some v.length := by
        intro v hv rest
        have hlt := length_lt_array hv vs.length
        exact ih (hvs v hv) (by omega) rest
      have hskip := skipValues_flatten hitems (6 :: toBe 4 vs.length) rest
      simp only [length_cons, toBe_length, cons_append] at hskip
      simp [Proto.encodedValueLenAux, readU32_append hlen, hskip]
      omega
    | @map es hlen hkeys hvalues =>
      have hitems : ∀ e ∈ es, ∀ rest,
          Proto.encodedValueLenAux fuel (e.2 ++ rest) = some e.2.length := by
        intro e he rest
        have hlt := length_lt_map he es.length
        exact ih (hvalues e he) (by omega) rest
      have hskip := skipEntries_flatMap hkeys hitems (7 :: toBe 4 es.length) rest
      simp only [length_cons, toBe_length, cons_append] at hskip
      simp only [Proto.encodedValueLenAux, cons_append, append_assoc]
      rw [readU32_append hlen]
      simp [hskip]
      omega

theorem IsValue.encodedValueLen (h : IsValue v) (rest : Bytes) :
    encodedValueLen (v ++ rest) = some v.length :=
  h.encodedValueLenAux (by simp) rest

theorem arrayItems_flatten (h : ∀ v ∈ vs, IsValue v) :
    arrayItems vs.length vs.flatten = some vs := by
  induction vs with
  | nil => rfl
  | cons v vs ih =>
    simp only [mem_cons, forall_eq_or_imp] at h
    simp [arrayItems, h.1.encodedValueLen, takeBytes_append, ih h.2]

theorem mapItems_flatMap (hkeys : ∀ e ∈ es, StringValid e.1)
    (h : ∀ e ∈ es, IsValue e.2) : mapItems es.length (es.flatMap entryWire) = some es := by
  induction es with
  | nil => rfl
  | cons e es ih =>
    simp only [mem_cons, forall_eq_or_imp] at h hkeys
    simp [mapItems, entryWire, withLength, readU32_append hkeys.1.length, takeBytes_append,
      h.1.encodedValueLen, hkeys.1.utf8, ih hkeys.2 h.2]

theorem decodeValue_string {s : Bytes} (h : StringValid s) : decodeValue (1 :: withLength s) = some (.string s) := by
  simp [decodeValue, withLength, readU32_append h.length, takeBytes_all, h.utf8]

variable {b : Bytes}

theorem decodeValue_int64 (h : b.length = 8) :
    decodeValue (3 :: b) = some (.int64 (toSigned 64 (ofBe b))) := by
  simp [decodeValue, takeBe_all h]

theorem decodeValue_double (h : b.length = 8) : decodeValue (4 :: b) = some (.double (ofBe b)) := by
  simp [decodeValue, takeBe_all h]

theorem decodeValue_bytes (h : b.length < 256 ^ 4) :
    decodeValue (5 :: withLength b) = some (.bytes b) := by
  simp [decodeValue, withLength, readU32_append h, takeBytes_all]

theorem decodeValue_array {n : Nat} (h : n < 256 ^ 4) (w : Bytes) :
    decodeValue (6 :: (toBe 4 n ++ w)) = some (.array w n) := by
  simp [decodeValue, readU32_append h]

theorem decodeValue_map {n : Nat} (h : n < 256 ^ 4) (w : Bytes) :
    decodeValue (7 :: (toBe 4 n ++ w)) = some (.map w n) := by
  simp [decodeValue, readU32_append h]

end Scry.Proto
