import Scry.Proto.Encoder
import Scry.Proto.Redaction

/-! # The canonical bytes of an occurrence

Every value stands behind its length, which is written over a placeholder once the value is there. The decoder
reads the fields that fingerprints need.
-/

open Scry.Lib Scry.Proto

namespace Scry.Errors

open Cursor

def canonicalVersion : Nat := 1

def scrubPolicyVersion : Nat := 1

def redacted : Bytes := ascii "[REDACTED]"

def occMagic : Bytes := ascii "OCC1"

structure Limits where
  maxCanonicalBytes : Nat

inductive Error where
  | canonicalLimit
  | lengthOverflow
  deriving DecidableEq

structure Identity where
  deploymentId : Fixed 16
  appDigest : Fixed 32
  eventId : Fixed 16
  deriving DecidableEq

/-! ## The encoder -/

abbrev Put := Writer (Fault Error) Bytes Unit

def demand {α : Type} (x : Option α) : Writer (Fault Error) Bytes α := fun out =>
  match x with
  | some a => .ok (a, out)
  | none => .error (.panic, out)

section Encoder

open Writer

variable (limits : Limits)

def put (value : Bytes) : Put := fun out =>
  if limits.maxCanonicalBytes < out.length + value.length then .error (.error .canonicalLimit, out)
  else .ok ((), out ++ value)

def putU8 (value : UInt8) : Put := put limits [value]

def putU16 (value : Nat) : Put := put limits (toBe 2 value)

def putU32 (value : Nat) : Put := put limits (toBe 4 value)

def putI32 (value : Int) : Put := put limits (toBe 4 (ofSigned 32 value))

def putU64 (value : Nat) : Put := put limits (toBe 8 value)

def putBytes (value : Bytes) : Put := do
  check (value.length < 2 ^ 32) (.error .lengthOverflow)
  putU32 limits value.length
  put limits value

def putStr (value : Bytes) : Put := putBytes limits value

/-- The length of what follows `start` goes over its placeholder. -/
def closeValue (start : Nat) : Put := fun out =>
  let len := out.length - start - 4
  if len < 2 ^ 32 then .ok ((), patch start (toBe 4 len) out) else .error (.error .lengthOverflow, out)

def sized (body : Put) : Put := fun out =>
  (do
    putU32 limits 0
    body
    closeValue out.length : Put) out

def putRedactedValue : Put := do
  putU32 limits (1 + (4 + redacted.length))
  putU8 limits 1
  putStr limits redacted

def putBody (value : Bytes → Put) : AnyValue → Put
  | .null => putU8 limits 0
  | .string s => do
    putU8 limits 1
    putStr limits s
  | .bool b => do
    putU8 limits 2
    putU8 limits (if b then 1 else 0)
  | .int64 n => do
    putU8 limits 3
    put limits (toBe 8 (ofSigned 64 n))
  | .double bits => do
    putU8 limits 4
    put limits (toBe 8 bits)
  | .bytes b => do
    putU8 limits 5
    putBytes limits b
  | .array encodedValues len => do
    putU8 limits 6
    putU32 limits len
    let values ← demand (arrayItems len encodedValues)
    forEach value values
  | .map encodedEntries len => do
    putU8 limits 7
    putU32 limits len
    let entries ← demand (mapItems len encodedEntries)
    forEach (fun e => do
      putStr limits e.1
      if isSensitiveKey e.1 then putRedactedValue limits else value e.2) entries

def putValueAux : Nat → Bytes → Put
  | 0, _ => demand none
  | fuel + 1, encoded => sized limits do
    let value ← demand (decodeValue encoded)
    putBody limits (putValueAux fuel) value

/-- Each level takes a byte or more, so the length is enough fuel. -/
def putValue (encoded : Bytes) : Put := putValueAux limits encoded.length encoded

def putOption {α : Type} (some_ : α → Put) : Option α → Put
  | none => putU8 limits 0
  | some a => do
    putU8 limits 1
    some_ a

def putOptionValue : Option Bytes → Put := putOption limits (putValue limits)

def putOptionStr : Option Bytes → Put := putOption limits (putStr limits)

def putOptionU32 : Option Nat → Put := putOption limits (putU32 limits)

def putOptionFixed : Option Bytes → Put := putOption limits (put limits)

def encodeOccurrence (record : CanonicalLogRecord) (identity : Identity) : Put := do
  put limits occMagic
  putU16 limits canonicalVersion
  putU16 limits scrubPolicyVersion
  put limits identity.deploymentId.1
  put limits identity.appDigest.1
  put limits identity.eventId.1
  putStr limits record.resourceSchemaUrl
  putU32 limits record.resourceDroppedAttributesCount
  putValue limits record.resourceAttributes
  putOptionStr limits (record.scope.map (·.name))
  putOptionStr limits (record.scope.map (·.version))
  putOptionU32 limits (record.scope.map (·.droppedAttributesCount))
  putOptionValue limits (record.scope.map (·.attributes))
  putStr limits record.scopeSchemaUrl
  putU64 limits record.timeUnixNano
  putU64 limits record.observedTimeUnixNano
  putI32 limits record.severityNumber
  putStr limits record.severityText
  putStr limits record.eventName
  putValue limits record.body
  putU32 limits record.droppedAttributesCount
  putValue limits record.attributes
  putU32 limits record.traceFlags
  putOptionFixed limits record.traceId
  putOptionFixed limits record.spanId

end Encoder

/-! ## The decoder -/

namespace Occ1

inductive DecodeError where
  | tooShort
  | badMagic
  | unsupportedVersion (version : Nat)
  | invalidUtf8
  | unknownValueType (tag : Nat)
  deriving DecidableEq

/-- The variants of a decoded value are those of an input value. -/
abbrev DecodedValue := AnyValueInput

structure DecodedOcc1 where
  canonicalVersion : Nat
  scrubPolicyVersion : Nat
  deploymentId : Bytes
  appIdentityDigest : Bytes
  eventId : Bytes
  severityNumber : Int
  severityText : Str
  eventName : Str
  body : DecodedValue
  attributes : List (Str × DecodedValue)

abbrev Occ1Reader := Reader DecodeError (Cursor Unit)

def take (n : Nat) : Occ1Reader Bytes := Cursor.take .tooShort n

def skip (n : Nat) : Occ1Reader Unit := do
  let _ ← take n
  return ()

def u16 : Occ1Reader Nat := uint .tooShort 2

def u32Val : Occ1Reader Nat := uint .tooShort 4

def i32 : Occ1Reader Int := do
  let n ← uint .tooShort 4
  return toSigned 32 n

def bytes : Occ1Reader Bytes := do
  let len ← u32Val
  take len

def str : Occ1Reader Str := do
  let b ← bytes
  if h : validUtf8 b = true then return ⟨b, h⟩ else Reader.fail .invalidUtf8

def skipStr : Occ1Reader Unit := do
  let len ← u32Val
  skip len

def optionTag : Occ1Reader Bool := do
  let tag ← uint .tooShort 1
  return tag != 0

def skipOption (skipSome : Occ1Reader Unit) : Occ1Reader Unit := do
  let present ← optionTag
  if present then skipSome else return ()

def skipValue : Occ1Reader Unit := do
  let payloadLen ← u32Val
  skip payloadLen

def skipOptionStr : Occ1Reader Unit := skipOption skipStr

def skipOptionU32 : Occ1Reader Unit := skipOption (skip 4)

def skipOptionValue : Occ1Reader Unit := skipOption skipValue

/-- Reads in a payload of `len` bytes and goes on at its end. -/
def within {α : Type} (len : Nat) (r : Occ1Reader α) : Occ1Reader α := fun c =>
  if c.rest.length < len then .error .tooShort
  else
    match r c with
    | .error e => .error e
    | .ok (a, _) => .ok (a, { c with rest := c.rest.drop len })

def decodeValueBody (value : Occ1Reader DecodedValue) : Occ1Reader DecodedValue := do
  let typeTag ← uint .tooShort 1
  match typeTag with
  | 0 => return .null
  | 1 => do
    let s ← str
    return .string s
  | 2 => do
    let b ← uint .tooShort 1
    return .bool (b != 0)
  | 3 => do
    let n ← uint .tooShort 8
    return .int64 (UInt64.ofNat n).toInt64
  | 4 => do
    let n ← uint .tooShort 8
    return .double (UInt64.ofNat n)
  | 5 => do
    let b ← bytes
    return .bytes b
  | 6 => do
    let count ← u32Val
    let items ← Reader.times count value
    return .array items
  | 7 => do
    let count ← u32Val
    let pairs ← Reader.times count do
      let key ← str
      let val ← value
      return (key, val)
    return .map pairs
  | other => Reader.fail (.unknownValueType other)

def valueAux : Nat → Occ1Reader DecodedValue
  | 0 => Reader.fail .tooShort
  | fuel + 1 => do
    let payloadLen ← u32Val
    within payloadLen (decodeValueBody (valueAux fuel))

def value : Occ1Reader DecodedValue := fun c => valueAux c.rest.length c

def pairsOf : DecodedValue → List (Str × DecodedValue)
  | .map pairs => pairs
  | _ => []

def decodeFields : Occ1Reader DecodedOcc1 := do
  let magic ← take 4
  Reader.require (magic = occMagic) .badMagic
  let canonicalVersion ← u16
  Reader.require (canonicalVersion = 1) (.unsupportedVersion canonicalVersion)
  let scrubPolicyVersion ← u16
  let deploymentId ← take 16
  let appIdentityDigest ← take 32
  let eventId ← take 16
  skipStr
  skip 4
  skipValue
  skipOptionStr
  skipOptionStr
  skipOptionU32
  skipOptionValue
  skipStr
  skip 8
  skip 8
  let severityNumber ← i32
  let severityText ← str
  let eventName ← str
  let body ← value
  skip 4
  let attributes ← value
  return ⟨canonicalVersion, scrubPolicyVersion, deploymentId, appIdentityDigest, eventId, severityNumber,
    severityText, eventName, body, pairsOf attributes⟩

def decode (data : Bytes) : Except DecodeError DecodedOcc1 := (decodeFields ⟨data, ()⟩).map Prod.fst

end Occ1

end Scry.Errors
