import Mathlib.Data.List.Nodup
import Scry.Lib.Unambiguous
import Scry.Proto.Text
import Scry.Proto.Tree

/-! # Typed text identifies the value

The first byte tells strings, bytes, arrays and maps from each other and from the rest, and the rest ends at a
comma or a closing bracket.
-/

open Scry.Lib

namespace Scry.Proto

open List

open AnyValueInput

/-! ## Strings and bytes -/

/-- The characters that have an escape of their own, with its letter. -/
def escapes : List (UInt8 × UInt8) :=
  [(0x22, 0x22), (0x5C, 0x5C), (0x08, 0x62), (0x0C, 0x66), (0x0A, 0x6E), (0x0D, 0x72), (0x09, 0x74)]

theorem jsonEscape_cases (b : UInt8) :
    (jsonEscape b = [b] ∧ b ≠ 0x22 ∧ b ≠ 0x5C) ∨ (∃ x, (b, x) ∈ escapes ∧ jsonEscape b = [0x5C, x]) ∨
      jsonEscape b = 0x5C :: 0x75 :: 0x30 :: 0x30 :: hexByte b := by
  have hb (n : Nat) (h : b.toNat = n) : b = UInt8.ofNat n := by rw [← h, UInt8.ofNat_toNat]
  unfold jsonEscape
  split
  case h_8 hquote hslash _ _ _ _ _ =>
    split
    · exact .inr (.inr rfl)
    · refine .inl ⟨rfl, ?_, ?_⟩
      · rintro rfl
        exact hquote rfl
      · rintro rfl
        exact hslash rfl
  all_goals
    rename_i h
    exact .inr (.inl ⟨_, by rw [hb _ h]; decide, rfl⟩)

theorem hexDigit_inj : ∀ m < 16, ∀ n < 16, hexDigit m = hexDigit n → m = n := by decide

theorem hexByte_inj {a b : UInt8} (h : hexByte a = hexByte b) : a = b := by
  have ha := a.toNat_lt
  have hb := b.toNat_lt
  simp only [hexByte, cons.injEq, and_true] at h
  have hhigh := hexDigit_inj _ (by omega) _ (by omega) h.1
  have hlow := hexDigit_inj _ (by omega) _ (by omega) h.2
  exact UInt8.toNat_inj.mp (by omega)

theorem jsonEscape_inj (a b : UInt8) (r r' : Bytes) (h : jsonEscape a ++ r = jsonEscape b ++ r') :
    a = b ∧ r = r' := by
  have hescapes : ∀ p ∈ escapes, ∀ q ∈ escapes, p.2 = q.2 → p.1 = q.1 := by simp [escapes]
  have hletter : ∀ p ∈ escapes, p.2 ≠ 0x75 := by simp [escapes]
  rcases jsonEscape_cases a with ⟨ha, -, ha'⟩ | ⟨x, hx, ha⟩ | ha <;>
    rcases jsonEscape_cases b with ⟨hb, -, hb'⟩ | ⟨y, hy, hb⟩ | hb <;>
    simp only [ha, hb, cons_append, nil_append, cons.injEq, true_and] at h
  · exact h
  · exact absurd h.1 ha'
  · exact absurd h.1 ha'
  · exact absurd h.1.symm hb'
  · exact ⟨hescapes _ hx _ hy h.1, h.2⟩
  · exact absurd h.1 (hletter _ hx)
  · exact absurd h.1.symm hb'
  · exact absurd h.1.symm (hletter _ hy)
  · obtain ⟨hhex, hr⟩ := append_inj h rfl
    exact ⟨hexByte_inj hhex, hr⟩

theorem head_jsonEscape (b : UInt8) (r : Bytes) : (jsonEscape b ++ r).head? ≠ some 0x22 := by
  rcases jsonEscape_cases b with ⟨h, hb, -⟩ | ⟨x, -, h⟩ | h <;> simp [h]
  exact hb

variable {x y r r' : Bytes}

theorem jsonString_inj (h : jsonString x ++ r = jsonString y ++ r') : x = y ∧ r = r' := by
  have hquote : ascii "\"" = [0x22] := rfl
  simp only [jsonString, hquote, append_assoc, cons_append, nil_append, cons.injEq, true_and] at h
  exact flatMap_append_inj head_jsonEscape jsonEscape_inj h

theorem hexText_inj (h : x.flatMap hexByte ++ 0x22 :: r = y.flatMap hexByte ++ 0x22 :: r') :
    x = y ∧ r = r' := by
  have hdigit : ∀ n < 16, hexDigit n ≠ 0x22 := by decide
  refine flatMap_append_inj (fun b r hb => ?_) (fun a b r r' h => ?_) h
  · have := b.toNat_lt
    exact hdigit (b.toNat / 16) (by omega) (Option.some.inj hb)
  · obtain ⟨hhex, hr⟩ := append_inj h rfl
    exact ⟨hexByte_inj hhex, hr⟩

/-! ## Numbers -/

def numberBytes : Bytes := ascii "0123456789+-.e"

theorem digit_bounds {n : Nat} {c : Char} (h : c ∈ Nat.toDigits 10 n) : 0x30 ≤ c.toNat ∧ c.toNat ≤ 0x39 :=
  Char.isDigit_iff_toNat.mp (Nat.isDigit_of_mem_toDigits (by omega) (by omega) h)

def digitBytes (n : Nat) : Bytes := (Nat.toDigits 10 n).map fun c => UInt8.ofNat c.toNat

theorem mem_digitBytes {n : Nat} {b : UInt8} (h : b ∈ digitBytes n) : b ∈ ascii "0123456789" := by
  have hdigits : ∀ k < 10, UInt8.ofNat (0x30 + k) ∈ ascii "0123456789" := by decide
  obtain ⟨c, hc, rfl⟩ := mem_map.mp h
  have hbounds := digit_bounds hc
  have hk := hdigits (c.toNat - 0x30) (by omega)
  rwa [Nat.add_sub_cancel' hbounds.1] at hk

theorem digitBytes_inj {m n : Nat} (h : digitBytes m = digitBytes n) : m = n := by
  have hback (k : Nat) : (digitBytes k).map (fun b => Char.ofNat b.toNat) = Nat.toDigits 10 k := by
    refine (map_map ..).trans ((map_congr_left fun c hc => ?_).trans (map_id _))
    have hbounds := digit_bounds hc
    have hbyte : (UInt8.ofNat c.toNat).toNat = c.toNat := UInt8.toNat_ofNat_of_lt (Nat.lt_of_le_of_lt hbounds.2 (by decide))
    simp [hbyte, Char.ofNat_toNat]
  have hdigits : Nat.toDigits 10 m = Nat.toDigits 10 n := by rw [← hback m, h, hback n]
  rw [← Nat.ofDigitChars_ten_toDigits (n := m), hdigits, Nat.ofDigitChars_ten_toDigits]

theorem decimal_eq (value : Int) :
    decimal value = (if value < 0 then [0x2D] else []) ++ digitBytes value.natAbs := rfl

theorem mem_decimal {value : Int} {b : UInt8} (h : b ∈ decimal value) : b ∈ ascii "0123456789-" := by
  have hdigits : ascii "0123456789" ⊆ ascii "0123456789-" := by decide
  rw [decimal_eq, mem_append] at h
  rcases h with h | h
  · split at h
    · obtain rfl := mem_singleton.mp h
      decide
    · cases h
  · exact hdigits (mem_digitBytes h)

theorem decimal_inj {m n : Int} (h : decimal m = decimal n) : m = n := by
  have hsign (k : Nat) (l : Bytes) : digitBytes k ≠ 0x2D :: l := by
    intro hk
    have hminus : (0x2D : UInt8) ∈ digitBytes k := by simp [hk]
    exact absurd (mem_digitBytes hminus) (by decide)
  rw [decimal_eq, decimal_eq] at h
  by_cases hm : m < 0 <;> by_cases hn : n < 0 <;>
    simp only [hm, hn, if_true, if_false, cons_append, nil_append, cons.injEq, true_and] at h
  · have := digitBytes_inj h
    omega
  · exact absurd h.symm (hsign _ _)
  · exact absurd h (hsign _ _)
  · have := digitBytes_inj h
    omega

def FiniteBits (bits : Nat) : Prop :=
  bits < 2 ^ 64 ∧ RecordReader.isNan bits = false ∧ bits ≠ 0x7FF0000000000000 ∧ bits ≠ 0xFFF0000000000000

/-- What is assumed of `Display` for finite doubles. -/
structure DisplaysDoubles (displayDouble : Nat → Bytes) : Prop where
  chars : ∀ bits, FiniteBits bits → ∀ b ∈ displayDouble bits, b ∈ numberBytes
  injective : ∀ bits bits', FiniteBits bits → FiniteBits bits' → displayDouble bits = displayDouble bits' →
    bits = bits'

/-- A number without a fraction is displayed without one. -/
def NoZeroFraction (displayDouble : Nat → Bytes) : Prop :=
  ∀ bits bits', FiniteBits bits → FiniteBits bits' → displayDouble bits' ≠ displayDouble bits ++ ascii ".0"

section Values

variable {displayDouble : Nat → Bytes}

def isReal (text : Bytes) : Bool := text.any fun b => b == 0x2E || b == 0x65 || b == 0x45

theorem isReal_decimal (value : Int) : isReal (decimal value) = false := by
  have hbytes : isReal (ascii "0123456789-") = false := by decide
  rw [isReal, any_eq_false] at hbytes ⊢
  exact fun b hb => hbytes b (mem_decimal hb)

theorem doubleText_cases (hd : DisplaysDoubles displayDouble) {bits : UInt64}
    (hbits : RecordReader.canonicalDouble bits.toNat = true) :
    (bits = 0x7FF8000000000000 ∧ doubleText displayDouble bits.toNat = ascii "NaN") ∨
      (bits = 0x7FF0000000000000 ∧ doubleText displayDouble bits.toNat = ascii "Infinity") ∨
      (bits = 0xFFF0000000000000 ∧ doubleText displayDouble bits.toNat = ascii "-Infinity") ∨
      (FiniteBits bits.toNat ∧ isReal (doubleText displayDouble bits.toNat) = true ∧
        ∀ b ∈ doubleText displayDouble bits.toNat, b ∈ numberBytes) := by
  have hnat {n : UInt64} (h : bits.toNat = n.toNat) : bits = n := UInt64.toNat_inj.mp h
  unfold doubleText
  split
  next hnan =>
    refine .inl ⟨hnat ?_, rfl⟩
    simp only [RecordReader.canonicalDouble, hnan, RecordReader.canonicalNanBits] at hbits
    simp at hbits
    exact hbits.2
  next hnan =>
    split
    next h => exact .inr (.inl ⟨hnat h, rfl⟩)
    next hinf =>
      split
      next h => exact .inr (.inr (.inl ⟨hnat h, rfl⟩))
      next hneg =>
        have hfin : FiniteBits bits.toNat := ⟨bits.toNat_lt, by simpa using hnan, hinf, hneg⟩
        have hchars := hd.chars _ hfin
        refine .inr (.inr (.inr ⟨hfin, ?_⟩))
        dsimp only
        split
        next hreal => exact ⟨hreal, hchars⟩
        next =>
          refine ⟨by simp [isReal, ascii], fun b hb => ?_⟩
          rcases mem_append.mp hb with hb | hb
          · exact hchars b hb
          · exact (by decide : ascii ".0" ⊆ numberBytes) hb

theorem doubleText_inj (hd : DisplaysDoubles displayDouble) (hz : NoZeroFraction displayDouble) {bits bits' : UInt64}
    (h : FiniteBits bits.toNat) (h' : FiniteBits bits'.toNat)
    (heq : doubleText displayDouble bits.toNat = doubleText displayDouble bits'.toNat) : bits = bits' := by
  have heq' : displayDouble bits.toNat = displayDouble bits'.toNat := by
    obtain ⟨-, hnan, hinf, hneg⟩ := id h
    obtain ⟨-, hnan', hinf', hneg'⟩ := id h'
    simp only [doubleText, hnan, hinf, hneg, hnan', hinf', hneg', if_false, Bool.false_eq_true] at heq
    split at heq <;> split at heq
    · exact heq
    · exact absurd heq (hz _ _ h' h)
    · exact absurd heq.symm (hz _ _ h h')
    · exact append_cancel_right heq
  exact UInt64.toNat_inj.mp (hd.injective _ _ h h' heq')

/-! ## Trees -/

variable (displayDouble) in
def AnyValueInput.typedText : AnyValueInput → Bytes
  | null => ascii "null"
  | string s => jsonString s
  | bool b => ascii (if b then "true" else "false")
  | int64 n => decimal n.toInt
  | double bits => doubleText displayDouble bits.toNat
  | bytes b => ascii "hex\"" ++ (b.flatMap hexByte ++ ascii "\"")
  | array vs => ascii "[" ++ (commaSeparated (vs.map typedText) ++ ascii "]")
  | map es => ascii "\x7b" ++
      (commaSeparated (es.map fun e => jsonString e.1 ++ (ascii ":" ++ typedText e.2)) ++ ascii "\x7d")
termination_by t => sizeOf t
decreasing_by
  · exact sizeOf_item ‹_›
  · exact sizeOf_entry ‹_›

namespace AnyValueInput

variable {t : AnyValueInput}

theorem Fits.nestedTextAux {limits : DecodeLimits} {room : Nat} (h : t.Fits limits room) {fuel : Nat}
    (hfuel : t.wire.length ≤ fuel) : nestedTextAux displayDouble fuel t.wire = some (t.typedText displayDouble) := by
  refine h.wire_induction
    (motive := fun fuel t => Proto.nestedTextAux displayDouble fuel t.wire = some (t.typedText displayDouble))
    (fun fuel room t h ih => ?_) hfuel
  rw [Proto.nestedTextAux, h.decodeValue_wire]
  cases t with
  | null | bool | int64 | double | string | bytes =>
    rw [typedText]
    rfl
  | array vs =>
    rw [items] at ih
    simp only [view, typedText, Option.bind_eq_bind, Option.bind_some, h.arrayItems_wire, mapM_map_of_forall ih]
    rfl
  | map es =>
    have hitems : ∀ e ∈ es, entryText (Proto.nestedTextAux displayDouble fuel) (e.1.1, e.2.wire) =
        some (jsonString e.1 ++ (ascii ":" ++ e.2.typedText displayDouble)) := by
      intro e he
      simp [entryText, ih e.2 (mem_map_of_mem he)]
    simp only [view, Option.bind_eq_bind, Option.bind_some, h.mapItems_wire]
    rw [encodedEntries, mapM_map_of_forall hitems, typedText]
    rfl

/-- A tree that some limits let through. -/
def Valid (t : AnyValueInput) : Prop := ∃ limits room, t.Fits limits room

theorem Valid.double {bits : UInt64} (h : (double bits).Valid) : RecordReader.canonicalDouble bits.toNat = true := by
  obtain ⟨limits, room | room, h⟩ := h
  exacts [h.elim, h]

theorem Valid.item {vs : List AnyValueInput} (h : (array vs).Valid) : ∀ v ∈ vs, v.Valid := by
  obtain ⟨limits, room | room, h⟩ := h
  exacts [h.elim, fun v hv => ⟨limits, room, h.2.2.2 v hv⟩]

theorem Valid.entry {es : List KeyValueInput} (h : (map es).Valid) : ∀ e ∈ es, e.2.Valid := by
  obtain ⟨limits, room | room, h⟩ := h
  exacts [h.elim, fun e he => ⟨limits, room, h.2.2.2.2 e he⟩]

def delimiters : Bytes := ascii ",]\x7d"

def lead : AnyValueInput → Option UInt8
  | string _ => some 0x22
  | bytes _ => some 0x68
  | array _ => some 0x5B
  | map _ => some 0x7B
  | _ => none

def leads : Bytes := [0x22, 0x68, 0x5B, 0x7B]

def words : List (AnyValueInput × Bytes) :=
  [(null, ascii "null"), (bool true, ascii "true"), (bool false, ascii "false"),
    (double 0x7FF8000000000000, ascii "NaN"), (double 0x7FF0000000000000, ascii "Infinity"),
    (double 0xFFF0000000000000, ascii "-Infinity")]

variable (hd : DisplaysDoubles displayDouble)
include hd

theorem scalar_cases (ht : t.Valid) (hlead : t.lead = none) : (t, t.typedText displayDouble) ∈ words ∨
    ((∃ n, t = int64 n) ∨ ∃ bits, t = double bits ∧ FiniteBits bits.toNat ∧ isReal (t.typedText displayDouble) = true)
    ∧ ∀ b ∈ t.typedText displayDouble, b ∈ numberBytes := by
  cases t with
  | null =>
    rw [typedText]
    exact .inl (by simp [words])
  | bool b =>
    rw [typedText]
    cases b <;> exact .inl (by simp [words])
  | int64 n =>
    rw [typedText]
    refine .inr ⟨.inl ⟨n, rfl⟩, fun b hb => ?_⟩
    exact (by decide : ascii "0123456789-" ⊆ numberBytes) (mem_decimal hb)
  | double bits =>
    rw [typedText]
    rcases doubleText_cases hd ht.double with ⟨rfl, h⟩ | ⟨rfl, h⟩ | ⟨rfl, h⟩ | ⟨hfin, hreal, hbytes⟩
    · exact .inl (by rw [h]; simp [words])
    · exact .inl (by rw [h]; simp [words])
    · exact .inl (by rw [h]; simp [words])
    · exact .inr ⟨.inr ⟨bits, rfl, hfin, hreal⟩, hbytes⟩
  | string | bytes | array | map => cases hlead

theorem scalar_bytes (ht : t.Valid) (hlead : t.lead = none) :
    ∀ b ∈ t.typedText displayDouble, b ∉ delimiters ∧ b ∉ leads := by
  rcases scalar_cases hd ht hlead with hword | ⟨-, hnum⟩
  · have hwords : ∀ w ∈ words.map Prod.snd, ∀ b ∈ w, b ∉ delimiters ∧ b ∉ leads := by
      simp [words, ascii, delimiters, leads]
    exact hwords _ (mem_map_of_mem hword)
  · have hbytes : ∀ b ∈ numberBytes, b ∉ delimiters ∧ b ∉ leads := by
      simp [numberBytes, ascii, delimiters, leads]
    exact fun b hb => hbytes b (hnum b hb)

variable {t' : AnyValueInput}

theorem scalar_inj (hz : NoZeroFraction displayDouble) (ht : t.Valid) (ht' : t'.Valid)
    (hlead : t.lead = none) (hlead' : t'.lead = none) (h : t.typedText displayDouble = t'.typedText displayDouble) : t
    = t' := by
  have hword : ∀ w ∈ words.map Prod.snd, ∃ b ∈ w, b ∉ numberBytes := by decide
  rcases scalar_cases hd ht hlead with hw | ⟨hkind, hnum⟩ <;>
    rcases scalar_cases hd ht' hlead' with hw' | ⟨hkind', hnum'⟩
  · have hpair := inj_on_of_nodup_map (by decide : (words.map Prod.snd).Nodup) hw hw' h
    exact congrArg Prod.fst hpair
  · obtain ⟨b, hb, hno⟩ := hword _ (mem_map_of_mem hw)
    exact absurd (hnum' b (h ▸ hb)) hno
  · obtain ⟨b, hb, hno⟩ := hword _ (mem_map_of_mem hw')
    exact absurd (hnum b (h ▸ hb)) hno
  · rcases hkind with ⟨n, rfl⟩ | ⟨bits, rfl, hfin, hreal⟩ <;>
      rcases hkind' with ⟨n', rfl⟩ | ⟨bits', rfl, hfin', hreal'⟩
    · simp only [typedText] at h
      rw [Int64.toInt_inj.mp (decimal_inj h)]
    · rw [← h, typedText, isReal_decimal] at hreal'
      cases hreal'
    · rw [h, typedText, isReal_decimal] at hreal
      cases hreal
    · simp only [typedText] at h
      rw [doubleText_inj hd hz hfin hfin' h]

theorem scalar_ne_nil (ht : t.Valid) (hlead : t.lead = none) : t.typedText displayDouble ≠ [] := by
  rcases scalar_cases hd ht hlead with hword | ⟨⟨n, rfl⟩ | ⟨bits, rfl, -, hreal⟩, -⟩
  · have hwords : ∀ w ∈ words.map Prod.snd, w ≠ [] := by decide
    exact hwords _ (mem_map_of_mem hword)
  · simp [typedText, decimal]
  · intro hnil
    rw [hnil] at hreal
    cases hreal

theorem typedText_lead (ht : t.Valid) :
    ∃ b x, t.typedText displayDouble = b :: x ∧ b ∉ delimiters ∧ (if b ∈ leads then some b else none) = t.lead := by
  by_cases hlead : t.lead = none
  · obtain ⟨b, x, hx⟩ := exists_cons_of_ne_nil (scalar_ne_nil hd ht hlead)
    have hb := scalar_bytes hd ht hlead b (by simp [hx])
    exact ⟨b, x, hx, hb.1, by rw [if_neg hb.2, hlead]⟩
  · cases t with
    | string | bytes | array | map =>
      rw [typedText]
      exact ⟨_, _, rfl, by decide, rfl⟩
    | null | bool | int64 | double => exact absurd rfl hlead

theorem head_typedText (ht : t.Valid) {stop : UInt8} (hstop : stop ∈ delimiters) (r : Bytes) :
    (t.typedText displayDouble ++ r).head? ≠ some stop := by
  obtain ⟨b, x, hx, hb, -⟩ := typedText_lead hd ht
  rw [hx]
  rintro ⟨⟩
  exact hb hstop

theorem lead_eq (ht : t.Valid) (ht' : t'.Valid) {r r' : Bytes}
    (h : t.typedText displayDouble ++ r = t'.typedText displayDouble ++ r') : t.lead = t'.lead := by
  obtain ⟨b, x, hx, -, hlead⟩ := typedText_lead hd ht
  obtain ⟨b', x', hx', -, hlead'⟩ := typedText_lead hd ht'
  rw [hx, hx'] at h
  obtain rfl : b = b' := (cons.inj h).1
  rw [← hlead, hlead']

omit hd in
theorem entryText_unambiguous {e : KeyValueInput} (h : Unambiguous delimiters Valid (typedText displayDouble) e.2) :
    Unambiguous delimiters (fun e : KeyValueInput => e.2.Valid)
      (fun e => jsonString e.1 ++ (ascii ":" ++ e.2.typedText displayDouble)) e := by
  intro e' r r' he' hr hr' heq
  simp only [append_assoc] at heq
  obtain ⟨hkey, hrest⟩ := jsonString_inj heq
  obtain ⟨hvalue, hr⟩ := h _ _ _ he' hr hr' (append_cancel_left hrest)
  exact ⟨Prod.ext (Subtype.ext hkey) hvalue, hr⟩

theorem typedText_unambiguous (hz : NoZeroFraction displayDouble) (ht : t.Valid) :
    Unambiguous delimiters Valid (typedText displayDouble) t := by
  induction t with
  | null | bool | int64 | double =>
    intro t' r r' ht' hr hr' h
    have hlead := (lead_eq hd ht ht' h).symm
    obtain ⟨htext, hrest⟩ := append_inj_of_endsAt (fun b hb => (scalar_bytes hd ht rfl b hb).1)
      (fun b hb => (scalar_bytes hd ht' hlead b hb).1) hr hr' h
    exact ⟨scalar_inj hd hz ht ht' rfl hlead htext, hrest⟩
  | string s =>
    intro t' r r' ht' _ _ h
    have hlead := lead_eq hd ht ht' h
    cases t' with
    | string s' =>
      simp only [typedText] at h
      obtain ⟨hs, hr⟩ := jsonString_inj h
      exact ⟨congrArg string (Subtype.ext hs), hr⟩
    | null | bool | int64 | double | bytes | array | map => cases hlead
  | bytes b =>
    intro t' r r' ht' _ _ h
    have hlead := lead_eq hd ht ht' h
    cases t' with
    | bytes b' =>
      simp only [typedText, append_assoc] at h
      obtain ⟨rfl, hr⟩ := hexText_inj (append_cancel_left h)
      exact ⟨rfl, hr⟩
    | null | bool | int64 | double | string | array | map => cases hlead
  | array vs ih =>
    intro t' r r' ht' _ _ h
    have hlead := lead_eq hd ht ht' h
    cases t' with
    | array vs' =>
      simp only [typedText, append_assoc] at h
      obtain ⟨rfl, hr⟩ := separatedTo_inj (d := delimiters) (by decide) (by decide) (by decide)
        (fun a r ha => head_typedText hd ha (by decide) r) ht'.item
        (fun v hv => ⟨ht.item v hv, ih v hv (ht.item v hv)⟩) (append_cancel_left h)
      exact ⟨rfl, hr⟩
    | null | bool | int64 | double | string | bytes | map => cases hlead
  | map es ih =>
    intro t' r r' ht' _ _ h
    have hlead := lead_eq hd ht ht' h
    cases t' with
    | map es' =>
      simp only [typedText, append_assoc] at h
      obtain ⟨rfl, hr⟩ := separatedTo_inj (d := delimiters) (P := fun e : KeyValueInput => e.2.Valid) (by decide)
        (by decide) (by decide) (fun a r _ => by exact (by decide : some (0x22 : UInt8) ≠ some 0x7D)) ht'.entry
        (fun e he => ⟨ht.entry e he, entryText_unambiguous (ih e he (ht.entry e he))⟩) (append_cancel_left h)
      exact ⟨rfl, hr⟩
    | null | bool | int64 | double | string | bytes | array => cases hlead

end AnyValueInput

end Values

theorem displaysDoubles_decimal : DisplaysDoubles fun bits => decimal bits where
  chars bits _ b hb := (by decide : ascii "0123456789-" ⊆ numberBytes) (mem_decimal hb)
  injective _ _ _ _ h := Int.ofNat.inj (decimal_inj h)

/-- The second smallest number is `1.0`, all others are whole. -/
def fractionDisplay (bits : Nat) : Bytes := if bits = 2 then ascii "1.0" else decimal bits

end Scry.Proto
