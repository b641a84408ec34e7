import Scry.Lib.Effects
import Scry.Proto.AnyValue

/-! # Canonical text

Values are rendered from their encoding, through the same views that every other reader uses.
-/

open Scry.Lib

namespace Scry.Proto

def hexDigit (n : Nat) : UInt8 := UInt8.ofNat (if n < 10 then 0x30 + n else 0x57 + n)

def hexByte (b : UInt8) : Bytes := [hexDigit (b.toNat / 16), hexDigit (b.toNat % 16)]

def decimal (value : Int) : Bytes :=
  (if value < 0 then ascii "-" else []) ++
    (Nat.toDigits 10 value.natAbs).map fun c => UInt8.ofNat c.toNat

/-- What it escapes is ASCII, so it may go by bytes. -/
def jsonEscape (b : UInt8) : Bytes :=
  match b.toNat with
  | 0x22 => ascii "\\\""
  | 0x5C => ascii "\\\\"
  | 0x08 => ascii "\\b"
  | 0x0C => ascii "\\f"
  | 0x0A => ascii "\\n"
  | 0x0D => ascii "\\r"
  | 0x09 => ascii "\\t"
  | n => if n < 0x20 then ascii "\\u00" ++ hexByte b else [b]

def jsonString (value : Bytes) : Bytes := ascii "\"" ++ (value.flatMap jsonEscape ++ ascii "\"")

example : jsonString [0x61, 0x22, 0x0A, 0x1F, 0xC3, 0xA4] =
    ascii "\"a\\\"\\n\\u001f" ++ [0xC3, 0xA4] ++ ascii "\"" := by
  decide +kernel

section Render

-- `{value}` of a finite `f64`, by its bits.
variable (displayDouble : Nat → Bytes)

def doubleText (bits : Nat) : Bytes :=
  if RecordReader.isNan bits then ascii "NaN"
  else if bits = 0x7FF0000000000000 then ascii "Infinity"
  else if bits = 0xFFF0000000000000 then ascii "-Infinity"
  else
    let text := displayDouble bits
    if text.any fun b => b == 0x2E || b == 0x65 || b == 0x45 then text else text ++ ascii ".0"

def commaSeparated (texts : List Bytes) : Bytes := (texts.intersperse (ascii ",")).flatten

def entryText (valueText : Bytes → Option Bytes) (e : Bytes × Bytes) : Option Bytes := do
  let text ← valueText e.2
  return jsonString e.1 ++ (ascii ":" ++ text)

/-- `write_nested_value(value.value(), ..)`. `none` when a view panics. -/
def nestedTextAux : Nat → Bytes → Option Bytes
  | 0, _ => none
  | fuel + 1, encoded => do
    match ← decodeValue encoded with
    | .null => return ascii "null"
    | .string value => return jsonString value
    | .bool value => return ascii (if value then "true" else "false")
    | .int64 value => return decimal value
    | .double bits => return doubleText displayDouble bits
    | .bytes value => return ascii "hex\"" ++ (value.flatMap hexByte ++ ascii "\"")
    | .array encodedValues len =>
      let values ← arrayItems len encodedValues
      let texts ← values.mapM (nestedTextAux fuel)
      return ascii "[" ++ (commaSeparated texts ++ ascii "]")
    | .map encodedEntries len =>
      let entries ← mapItems len encodedEntries
      let texts ← entries.mapM (entryText (nestedTextAux fuel))
      return ascii "\x7b" ++ (commaSeparated texts ++ ascii "\x7d")

/-- `write_typed_canonical_text`. An item is shorter than its container, so the length is enough fuel. -/
def typedCanonicalText (encoded : Bytes) : Option Bytes :=
  nestedTextAux displayDouble encoded.length encoded

/-- `write_canonical_text`: a string at the root stands for itself. -/
def canonicalText (encoded : Bytes) : Option Bytes := do
  match ← decodeValue encoded with
  | .string value => return value
  | _ => typedCanonicalText displayDouble encoded

end Render

end Scry.Proto
