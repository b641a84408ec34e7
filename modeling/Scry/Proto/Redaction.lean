import Scry.Lib.Effects
import Scry.Lib.Utf8
import Scry.Proto.LogsV1

/-! # Redaction

The key rule, and what the redactors of the v1 formats share: a cursor that copies the payload piece by piece as
it validates it, and the two passes.
-/

open Scry.Lib

namespace Scry.Proto

open Reader List

def redacted : Bytes := ascii "[REDACTED]"

/-! ## Sensitive keys -/

def isAsciiAlphanumeric (b : UInt8) : Bool :=
  (0x30 ≤ b && b ≤ 0x39) || (0x41 ≤ b && b ≤ 0x5A) || (0x61 ≤ b && b ≤ 0x7A)

def toAsciiLowercase (b : UInt8) : UInt8 := if 0x41 ≤ b ∧ b ≤ 0x5A then b + 0x20 else b

/-- `eq`, on an ASCII literal. -/
def eqIgnoreAsciiCase (left : Bytes) (right : String) : Bool :=
  left.map toAsciiLowercase == (ascii right).map toAsciiLowercase

/-- `Segments::next`: a segment and the rest. -/
def nextSegment (rest : Bytes) : Option (Bytes × Bytes) :=
  match rest.dropWhile fun b => !isAsciiAlphanumeric b with
  | [] => none
  | b :: rest =>
    some ((b :: rest).takeWhile isAsciiAlphanumeric, (b :: rest).dropWhile isAsciiAlphanumeric)

def isSensitivePair (previous segment : Bytes) : Bool :=
  (eqIgnoreAsciiCase previous "proxy" && eqIgnoreAsciiCase segment "authorization") ||
  (eqIgnoreAsciiCase previous "set" && eqIgnoreAsciiCase segment "cookie") ||
  (eqIgnoreAsciiCase previous "api" && eqIgnoreAsciiCase segment "key") ||
  (eqIgnoreAsciiCase previous "access" && eqIgnoreAsciiCase segment "token") ||
  (eqIgnoreAsciiCase previous "refresh" && eqIgnoreAsciiCase segment "token") ||
  (eqIgnoreAsciiCase previous "id" && eqIgnoreAsciiCase segment "token") ||
  (eqIgnoreAsciiCase previous "client" && eqIgnoreAsciiCase segment "secret") ||
  (eqIgnoreAsciiCase previous "private" && eqIgnoreAsciiCase segment "key")

def scanSegments : Nat → Option Bytes → Bytes → Bool
  | 0, _, _ => false
  | n + 1, previous, rest =>
    match nextSegment rest with
    | none => false
    | some (segment, rest) =>
      let single := eqIgnoreAsciiCase segment "authorization" ||
        eqIgnoreAsciiCase segment "cookie" || eqIgnoreAsciiCase segment "password" ||
        eqIgnoreAsciiCase segment "passphrase"
      let pair := previous.any fun p => isSensitivePair p segment
      let isFinal := (nextSegment rest).isNone
      if isFinal && (single || pair || eqIgnoreAsciiCase segment "token" ||
          eqIgnoreAsciiCase segment "secret") then true
      else scanSegments n (some segment) rest

def isSensitiveKey (key : Bytes) : Bool := scanSegments key.length none key

example : isSensitiveKey (ascii "http.request.header.Authorization") = true ∧
    isSensitiveKey (ascii "authorizationStatus") = false ∧
    isSensitiveKey (ascii "X-Api-Key") = true ∧ isSensitiveKey (ascii "token.count") = false := by
  decide +kernel

/-! ## The v1 redactor -/

def defaultMaxBatchBytes : Nat := 16 * 1024 * 1024

/-- Next to the position; `output` is what `emit` has received. -/
structure V1State where
  itemsLeft : Nat
  changed : Bool
  output : Bytes
  deriving DecidableEq

abbrev V1Cursor := Cursor V1State

abbrev V1Reader (α : Type) := Reader BinSchemaError V1Cursor α

namespace V1Cursor

def take (len : Nat) : V1Reader Bytes := Cursor.take .unexpectedEof len

def uint (width : Nat) : V1Reader Nat := Cursor.uint .unexpectedEof width

def count (count minimumBytes : Nat) : V1Reader Unit := fun c =>
  if c.rest.length < count * minimumBytes ∨ c.extra.itemsLeft < count then .error .unexpectedEof
  else .ok ((), { c with extra := { c.extra with itemsLeft := c.extra.itemsLeft - count } })

variable (limit : Option Nat) (width : Nat) (len : Nat)

def utf8 : V1Reader Bytes := do
  let bytes ← take len
  require (validUtf8 bytes = true) .invalidUtf8
  return bytes

/-- The first pass of `redact_v1` bounds the output by `limit`. -/
def emit (bytes : Bytes) : V1Reader Unit := fun c =>
  let output := c.extra.output ++ bytes
  if limit.any (· < output.length) then
    .error (.invalidValue "redacted batch exceeds transport byte limit")
  else .ok ((), { c with extra := { c.extra with output := output } })

def setChanged : V1Reader Unit := fun c =>
  .ok ((), { c with extra := { c.extra with changed := true } })

def raw : V1Reader Unit := do
  let bytes ← take len
  emit limit bytes

/-- A number, or a string with its length, copied as it stands. -/
def copyUint : V1Reader Nat := do
  let (n, bytes) ← Cursor.captured (uint width)
  emit limit bytes
  return n

@[inherit_doc copyUint]
def copyString : V1Reader Unit := do
  let (_, bytes) ← Cursor.captured do
    let len ← uint width
    utf8 len
  emit limit bytes

def pair : V1Reader Unit := do
  let (key, keyBytes) ← Cursor.captured do
    let keyLen ← uint 1
    utf8 keyLen
  let (value, valueBytes) ← Cursor.captured do
    let valueLen ← uint 2
    utf8 valueLen
  if isSensitiveKey key ∧ value ≠ redacted then
    emit limit keyBytes
    emit limit (toBe 2 redacted.length)
    emit limit redacted
    setChanged
  else
    emit limit (keyBytes ++ valueBytes)

def pairs (n : Nat) : V1Reader Unit := do
  count n 3
  let _ ← times n (pair limit)

end V1Cursor

def redactV1 (parse : Option Nat → Bytes → Except BinSchemaError (Bool × Bytes)) (payload : Bytes) :
    Except BinSchemaError Bytes := do
  let (changed, _) ← parse (some defaultMaxBatchBytes) payload
  if changed then
    let (_, output) ← parse none payload
    return output
  else return payload

/-! ## What the v1 redactor does -/

def redactPair (p : Bytes × Bytes) : Bytes × Bytes := if isSensitiveKey p.1 then (p.1, redacted) else p

def pairDirty (p : Bytes × Bytes) : Bool := isSensitiveKey p.1 && p.2 != redacted

structure PairValid (p : Bytes × Bytes) : Prop where
  fits : PairFits p
  key : validUtf8 p.1 = true
  value : validUtf8 p.2 = true

namespace V1Cursor

variable {limit : Option Nat} {c c' c₁ : V1Cursor} {w o w₁ w₂ o₁ o₂ : Bytes} {i i₁ i₂ : Nat}
  {d d₁ d₂ : Bool}

def Within (limit : Option Nat) (c : V1Cursor) : Prop := ∀ max ∈ limit, c.extra.output.length ≤ max

/-- Read `w`, emitted `o`, counted `i` items, replaced a value if `d`. -/
structure Passes (limit : Option Nat) (c : V1Cursor) (w o : Bytes) (i : Nat) (d : Bool) (c' : V1Cursor) : Prop where
  rest : c.rest = w ++ c'.rest
  items : c.extra.itemsLeft = c'.extra.itemsLeft + i
  output : c'.extra.output = c.extra.output ++ o
  changed : c'.extra.changed = (c.extra.changed || d)
  within : Within limit c'

theorem Passes.trans (h₁ : Passes limit c w₁ o₁ i₁ d₁ c₁) (h₂ : Passes limit c₁ w₂ o₂ i₂ d₂ c') :
    Passes limit c (w₁ ++ w₂) (o₁ ++ o₂) (i₁ + i₂) (d₁ || d₂) c' where
  rest := by rw [h₁.rest, h₂.rest, append_assoc]
  items := by rw [h₁.items, h₂.items, Nat.add_assoc, Nat.add_comm i₂]
  output := by rw [h₂.output, h₁.output, append_assoc]
  changed := by rw [h₂.changed, h₁.changed, Bool.or_assoc]
  within := h₂.within

theorem Passes.split (h : Passes limit c (w₁ ++ w₂) (o₁ ++ o₂) (i₁ + i₂) (d₁ || d₂) c') :
    ∃ c₁, Passes limit c w₁ o₁ i₁ d₁ c₁ ∧ Passes limit c₁ w₂ o₂ i₂ d₂ c' := by
  refine ⟨⟨w₂ ++ c'.rest, ⟨c'.extra.itemsLeft + i₂, c.extra.changed || d₁, c.extra.output ++ o₁⟩⟩,
    ⟨?_, ?_, rfl, rfl, ?_⟩, ⟨rfl, rfl, ?_, ?_, h.within⟩⟩
  · rw [h.rest, append_assoc]
  · simp only [h.items]
    omega
  · intro max hmax
    have hlen := h.within max hmax
    rw [h.output] at hlen
    simp only [length_append] at hlen ⊢
    omega
  · rw [h.output, append_assoc]
  · rw [h.changed, Bool.or_assoc]

theorem passes_unread (hc : Within limit c) : Passes limit c w [] 0 false c' ↔ c = c'.unread w := by
  constructor
  · intro h
    obtain ⟨rest, ⟨items, changed, output⟩⟩ := c
    obtain ⟨rest', ⟨items', changed', output'⟩⟩ := c'
    have hrest := h.rest
    have hitems := h.items
    have hout := h.output
    have hch := h.changed
    simp_all [Cursor.unread]
  · rintro rfl
    exact ⟨rfl, rfl, by simp [Cursor.unread], by simp [Cursor.unread], hc⟩

variable {u : Unit}

theorem emit_ok {b : Bytes} : emit limit b c = .ok (u, c') ↔ Passes limit c [] b 0 false c' := by
  obtain ⟨rest, ⟨items, changed, output⟩⟩ := c
  obtain ⟨rest', ⟨items', changed', output'⟩⟩ := c'
  have hany : (limit.any fun max => decide (max < (output ++ b).length)) = true ↔
      ¬ Within limit ⟨rest, ⟨items, changed, output ++ b⟩⟩ := by
    cases limit <;> simp [Within]
  unfold emit
  constructor
  · intro h
    simp only at h
    split at h
    · cases h
    · rename_i hnot
      cases h
      rw [hany, not_not] at hnot
      exact ⟨rfl, rfl, rfl, by simp, hnot⟩
  · rintro ⟨hrest, hitems, hout, hch, hwithin⟩
    simp only [nil_append, Nat.add_zero, Bool.or_false] at hrest hitems hout hch
    subst hrest hitems hout hch
    rw [if_neg]
    rw [hany, not_not]
    exact hwithin

variable {k : Nat}

theorem string_ok {x b : Bytes} :
    Cursor.captured (do let len ← uint k; utf8 len) c = .ok ((x, b), c') ↔
      x.length < 256 ^ k ∧ validUtf8 x = true ∧ b = toBe k x.length ++ x ∧ c = c'.unread b := by
  have hread (x : Bytes) : (do let len ← uint k; utf8 len : V1Reader Bytes) c = .ok (x, c') ↔
      x.length < 256 ^ k ∧ validUtf8 x = true ∧ c = c'.unread (toBe k x.length ++ x) := by
    simp only [uint, utf8, take, bind_ok, Cursor.uint_ok, Cursor.take_ok, require_ok, pure_ok]
    constructor
    · rintro ⟨_, _, ⟨hlen, rfl⟩, y, _, ⟨rfl, rfl⟩, _, _, ⟨hy, rfl⟩, rfl, rfl⟩
      exact ⟨hlen, hy, by simp⟩
    · rintro ⟨hlen, hx, rfl⟩
      exact ⟨_, _, ⟨hlen, by rw [Cursor.unread_unread]⟩, x, _, ⟨rfl, rfl⟩, (), _, ⟨hx, rfl⟩, rfl, rfl⟩
  have hr : ∀ x, (do let len ← uint k; utf8 len : V1Reader Bytes) c = .ok (x, c') →
      ∃ w, c.rest = w ++ c'.rest := by
    intro x h
    exact ⟨_, congrArg Cursor.rest ((hread x).mp h).2.2⟩
  rw [Cursor.captured_ok hr, hread]
  constructor
  · rintro ⟨⟨hlen, hx, rfl⟩, hb⟩
    have hb := append_cancel_right hb
    subst hb
    exact ⟨hlen, hx, rfl, rfl⟩
  · rintro ⟨hlen, hx, rfl, rfl⟩
    exact ⟨⟨hlen, hx, rfl⟩, rfl⟩

section

variable (hc : Within limit c)
include hc

theorem passes_copy {b : Bytes} :
    (∃ c₁, c = c₁.unread b ∧ Passes limit c₁ [] b 0 false c') ↔ Passes limit c b b 0 false c' := by
  constructor
  · rintro ⟨c₁, hread, hemit⟩
    simpa using ((passes_unread hc).mpr hread).trans hemit
  · intro h
    have h : Passes limit c (b ++ []) ([] ++ b) (0 + 0) (false || false) c' := by simpa using h
    obtain ⟨c₁, hread, hemit⟩ := h.split
    exact ⟨c₁, (passes_unread hc).mp hread, hemit⟩

theorem raw_ok {n : Nat} :
    raw limit n c = .ok (u, c') ↔ ∃ b, b.length = n ∧ Passes limit c b b 0 false c' := by
  simp only [raw, bind_ok, take, Cursor.take_ok, emit_ok, ← passes_copy hc]
  constructor
  · rintro ⟨b, c₁, ⟨hn, hread⟩, hemit⟩
    exact ⟨b, hn, c₁, hread, hemit⟩
  · rintro ⟨b, hn, c₁, hread, hemit⟩
    exact ⟨b, c₁, ⟨hn, hread⟩, hemit⟩

theorem copyUint_ok {k n : Nat} : copyUint limit k c = .ok (n, c') ↔ n < 256 ^ k ∧ Passes limit
    c (toBe k n) (toBe k n) 0 false c' := by
  have hr : ∀ c₁ n, uint k c = .ok (n, c₁) → ∃ w, c.rest = w ++ c₁.rest := by
    intro c₁ n h
    exact ⟨_, congrArg Cursor.rest (Cursor.uint_ok.mp h).2⟩
  simp only [copyUint, bind_ok, Prod.exists, Cursor.captured_ok (hr _), emit_ok, pure_ok, ← passes_copy hc]
  constructor
  · rintro ⟨_, b, c₁, ⟨hread, hb⟩, _, _, hemit, rfl, rfl⟩
    obtain ⟨hn, rfl⟩ := Cursor.uint_ok.mp hread
    have hb := append_cancel_right hb
    subst hb
    exact ⟨hn, c₁, rfl, hemit⟩
  · rintro ⟨hn, c₁, rfl, hemit⟩
    exact ⟨n, _, c₁, ⟨Cursor.uint_ok.mpr ⟨hn, rfl⟩, rfl⟩, (), c', hemit, rfl, rfl⟩

theorem copyString_ok : copyString limit k c = .ok (u, c') ↔ ∃ x : Bytes,
    x.length < 256 ^ k ∧ validUtf8 x = true ∧ Passes limit c (toBe k x.length ++ x) (toBe k x.length ++ x) 0 false
    c' := by
  simp only [copyString, bind_ok, Prod.exists, string_ok, emit_ok, ← passes_copy hc]
  constructor
  · rintro ⟨x, _, c₁, ⟨hlen, hx, rfl, hread⟩, hemit⟩
    exact ⟨x, hlen, hx, c₁, hread, hemit⟩
  · rintro ⟨x, hlen, hx, c₁, hread, hemit⟩
    exact ⟨x, _, c₁, ⟨hlen, hx, rfl, hread⟩, hemit⟩

theorem setChanged_ok :
    setChanged c = .ok (u, c') ↔ Passes limit c [] [] 0 true c' := by
  obtain ⟨rest, ⟨items, changed, output⟩⟩ := c
  obtain ⟨rest', ⟨items', changed', output'⟩⟩ := c'
  unfold setChanged
  constructor
  · intro h
    cases h
    exact ⟨rfl, rfl, by simp, by simp, hc⟩
  · rintro ⟨hrest, hitems, hout, hch, _⟩
    simp only [nil_append, Nat.add_zero, append_nil, Bool.or_true] at hrest hitems hout hch
    subst hrest hitems hout hch
    rfl

end

variable {p : Bytes × Bytes}

theorem redactPair_of_sensitive (h : isSensitiveKey p.1 = true ∧ p.2 ≠ redacted) :
    redactPair p = (p.1, redacted) ∧ pairDirty p = true := by
  refine ⟨by simp [redactPair, h.1], ?_⟩
  rw [pairDirty, h.1, Bool.true_and, bne_iff_ne]
  exact h.2

theorem redactPair_of_not (h : ¬ (isSensitiveKey p.1 = true ∧ p.2 ≠ redacted)) :
    redactPair p = p ∧ pairDirty p = false := by
  have hdirty : pairDirty p = false := by simpa [pairDirty] using h
  refine ⟨?_, hdirty⟩
  unfold redactPair
  split
  · rename_i hs
    have hval : p.2 = redacted := by simpa [hs] using h
    rw [← hval]
  · rfl

theorem pair_ok (hc : Within limit c) : pair limit c = .ok (u, c') ↔ ∃ p, PairValid p ∧ Passes limit c
    (pairWire p) (pairWire (redactPair p)) 0 (pairDirty p) c' := by
  simp only [pair, bind_ok, Prod.exists, string_ok]
  constructor
  · rintro ⟨key, _, c₁, ⟨hk, hku, rfl, hc₁⟩, value, _, c₂, ⟨hv, hvu, rfl, rfl⟩, hrest⟩
    have hread : Passes limit c (pairWire (key, value)) [] 0 false c₂ := by
      rw [passes_unread hc, hc₁, Cursor.unread_unread]
      simp [pairWire]
    refine ⟨key, value, ⟨⟨hk, hv⟩, hku, hvu⟩, ?_⟩
    split at hrest
    · rename_i hs
      simp only [bind_ok, emit_ok] at hrest
      obtain ⟨_, c₃, h₃, _, c₄, h₄, _, c₅, h₅, h₆⟩ := hrest
      have h₆ := (setChanged_ok h₅.within).mp h₆
      obtain ⟨hout, hdirty⟩ := redactPair_of_sensitive (p := (key, value)) hs
      rw [hout, hdirty]
      simpa [pairWire] using hread.trans (h₃.trans (h₄.trans (h₅.trans h₆)))
    · rename_i hs
      obtain ⟨hout, hdirty⟩ := redactPair_of_not (p := (key, value)) hs
      rw [hout, hdirty]
      simpa [pairWire] using hread.trans (emit_ok.mp hrest)
  · rintro ⟨key, value, ⟨⟨hk, hv⟩, hku, hvu⟩, h⟩
    -- Everything is read before anything is emitted.
    have h : Passes limit c (pairWire (key, value) ++ []) ([] ++ pairWire (redactPair (key, value)))
        (0 + 0) (false || pairDirty (key, value)) c' := by simpa using h
    obtain ⟨c₂, hread, hemit⟩ := h.split
    have hread := (passes_unread hc).mp hread
    have hc₂ : Within limit c₂ := by
      rw [hread] at hc
      exact hc
    refine ⟨key, _, c₂.unread (toBe 2 value.length ++ value), ⟨hk, hku, rfl, ?_⟩, value, _, c₂,
      ⟨hv, hvu, rfl, rfl⟩, ?_⟩
    · rw [hread, Cursor.unread_unread]
      simp [pairWire]
    split
    · rename_i hs
      obtain ⟨hout, hdirty⟩ := redactPair_of_sensitive (p := (key, value)) hs
      rw [hout, hdirty] at hemit
      have hemit : Passes limit c₂ ([] ++ ([] ++ ([] ++ [])))
          ((toBe 1 key.length ++ key) ++ (toBe 2 redacted.length ++ (redacted ++ [])))
          (0 + (0 + (0 + 0))) (false || (false || (false || true))) c' := by
        simpa [pairWire] using hemit
      obtain ⟨c₃, h₃, hemit⟩ := hemit.split
      obtain ⟨c₄, h₄, hemit⟩ := hemit.split
      obtain ⟨c₅, h₅, h₆⟩ := hemit.split
      simp only [bind_ok, emit_ok]
      exact ⟨(), c₃, h₃, (), c₄, h₄, (), c₅, h₅, (setChanged_ok h₅.within).mpr h₆⟩
    · rename_i hs
      obtain ⟨hout, hdirty⟩ := redactPair_of_not (p := (key, value)) hs
      rw [hout, hdirty] at hemit
      exact emit_ok.mpr (by simpa [pairWire] using hemit)

theorem count_ok (hc : Within limit c) {n m : Nat} :
    count n m c = .ok (u, c') ↔ n * m ≤ c.rest.length ∧ Passes limit c [] [] n false c' := by
  obtain ⟨rest, ⟨items, changed, output⟩⟩ := c
  obtain ⟨rest', ⟨items', changed', output'⟩⟩ := c'
  unfold count
  constructor
  · intro h
    split at h
    · cases h
    · rename_i hnot
      cases h
      simp only [not_or, Nat.not_lt] at hnot
      exact ⟨hnot.1, rfl, by simp only; omega, by simp, by simp, hc⟩
  · rintro ⟨hlen, hrest, hitems, hout, hch, _⟩
    simp only [nil_append, append_nil, Bool.or_false] at hrest hitems hout hch hlen
    subst hrest hitems hout hch
    rw [if_neg]
    · simp
    · simp only [not_or, Nat.not_lt]
      omega

theorem sum_add_le_flatMap {α : Type} {xs : List α} {items : α → Nat} {wire : α → Bytes}
    (h : ∀ x ∈ xs, items x + k ≤ (wire x).length) :
    (xs.map items).sum + xs.length * k ≤ (xs.flatMap wire).length := by
  induction xs with
  | nil => simp
  | cons x xs ih =>
    simp only [mem_cons, forall_eq_or_imp] at h
    have := ih h.2
    simp only [map_cons, sum_cons, length_cons, flatMap_cons, length_append, Nat.add_mul]
    omega

theorem length_pairWire (p : Bytes × Bytes) : (pairWire p).length = 3 + p.1.length + p.2.length := by
  simp only [pairWire, length_append, toBe_length]
  omega

variable (ps : List (Bytes × Bytes))

theorem length_pairs_le : ps.length * 3 ≤ (ps.flatMap pairWire).length := by
  have h : ∀ p ∈ ps, 0 + 3 ≤ (pairWire p).length := by
    intro p _
    rw [length_pairWire]
    omega
  simpa [map_const', sum_replicate_nat] using sum_add_le_flatMap h

/-! ### The redactor as effects -/

/-- What is read and emitted, the items counted, whether a value is replaced. -/
structure Pass where
  read : Bytes
  out : Bytes
  items : Nat
  dirty : Bool

def Pass.copy (b : Bytes) : Pass := ⟨b, b, 0, false⟩

def passing (limit : Option Nat) : Effects V1Cursor Pass where
  one := ⟨[], [], 0, false⟩
  mul a b := ⟨a.read ++ b.read, a.out ++ b.out, a.items + b.items, a.dirty || b.dirty⟩
  Good := Within limit
  Moves c m c' := Passes limit c m.read m.out m.items m.dirty c'
  moves_one hc := by rw [passes_unread hc, Cursor.unread_nil]
  moves_mul _ := ⟨fun h => h.split, fun ⟨_, h₁, h₂⟩ => h₁.trans h₂⟩
  good _ h := h.within

open Effects

theorem passing_product (ms : List Pass) : (passing limit).product ms =
    ⟨ms.flatMap Pass.read, ms.flatMap Pass.out, (ms.map Pass.items).sum, ms.any Pass.dirty⟩ := by
  induction ms with
  | nil => rfl
  | cons m ms ih =>
    rw [Effects.product_cons, ih]
    rfl

theorem raw_reads (n : Nat) :
    (passing limit).Reads (raw limit n) (fun b : Bytes => b.length = n) (fun _ => ()) Pass.copy := by
  refine ⟨fun hc => ?_⟩
  simp only [raw_ok hc, true_and, and_true]
  rfl

theorem raw_reads_as {ξ : Type} {n : Nat} {P : ξ → Prop} {w : ξ → Bytes}
    (hto : ∀ b : Bytes, b.length = n → ∃ x, P x ∧ w x = b) (hfrom : ∀ x, P x → (w x).length = n) :
    (passing limit).Reads (raw limit n) P (fun _ => ()) (fun x => .copy (w x)) := by
  refine (raw_reads n).congr ?_ ?_
  · intro b hb
    obtain ⟨x, hx, rfl⟩ := hto b hb
    exact ⟨x, hx, rfl, rfl⟩
  · intro x hx
    exact ⟨w x, hfrom x hx, rfl, rfl⟩

theorem rawUint_reads (k : Nat) : (passing limit).Reads (raw limit k) (fun n : Nat => n < 256 ^ k) (fun _ => ())
    (fun n => .copy (toBe k n)) :=
  raw_reads_as (fun _ => exists_toBe) fun n _ => toBe_length k n

theorem copyUint_reads (k : Nat) : (passing limit).Reads (copyUint limit k) (fun n : Nat => n < 256 ^ k) (fun n => n)
    (fun n => .copy (toBe k n)) := by
  refine ⟨fun {c c' n} hc => ?_⟩
  rw [copyUint_ok hc]
  constructor
  · rintro ⟨hn, hpass⟩
    exact ⟨n, hn, rfl, hpass, trivial⟩
  · rintro ⟨_, hn, rfl, hpass, -⟩
    exact ⟨hn, hpass⟩

theorem copyString_reads (k : Nat) : (passing limit).Reads (copyString limit k)
    (fun x : Bytes => x.length < 256 ^ k ∧ validUtf8 x = true) (fun _ => ())
    (fun x => .copy (toBe k x.length ++ x)) := by
  refine ⟨fun hc => ?_⟩
  simp only [copyString_ok hc, and_assoc, true_and, and_true]
  rfl

def pairPass (p : Bytes × Bytes) : Pass := ⟨pairWire p, pairWire (redactPair p), 0, pairDirty p⟩

theorem pair_reads : (passing limit).Reads (pair limit) PairValid (fun _ => ()) pairPass := by
  refine ⟨fun hc => ?_⟩
  simp only [pair_ok hc, true_and, and_true]
  rfl

def loopPass {ξ : Type} (l : ξ → Pass) (xs : List ξ) : Pass :=
  ⟨xs.flatMap fun x => (l x).read, xs.flatMap fun x => (l x).out,
    xs.length + (xs.map fun x => (l x).items).sum, xs.any fun x => (l x).dirty⟩

/-- The input is long enough, since the items take that much. -/
theorem counted_reads {ξ : Type} {r : V1Reader Unit} {P : ξ → Prop} {l : ξ → Pass} {m : Nat}
    (hr : (passing limit).Reads r P (fun _ => ()) l) (hm : ∀ x, P x → m ≤ (l x).read.length) (n : Nat) :
    (passing limit).Reads (do count n m; let _ ← times n r)
      (fun xs : List ξ => xs.length = n ∧ ∀ x ∈ xs, P x) (fun _ => ()) (loopPass l) := by
  have hloop := (hr.times n).map fun _ => ()
  have hpass (xs : List ξ) : (passing limit).product (xs.map l) =
      ⟨xs.flatMap fun x => (l x).read, xs.flatMap fun x => (l x).out,
        (xs.map fun x => (l x).items).sum, xs.any fun x => (l x).dirty⟩ := by
    rw [passing_product]
    simp only [flatMap_map, map_map, any_map]
    rfl
  refine ⟨fun {c c' u} hc => ?_⟩
  simp only [bind_ok, count_ok hc]
  constructor
  · rintro ⟨_, c₁, ⟨-, hcnt⟩, hrest⟩
    obtain ⟨xs, hxs, -, hmoves, -⟩ := (hloop.ok hcnt.within).mp (bind_ok.mpr hrest)
    rw [hpass] at hmoves
    obtain rfl : xs.length = n := hxs.1
    exact ⟨xs, hxs, trivial, hcnt.trans hmoves, trivial⟩
  · rintro ⟨xs, ⟨rfl, hxs⟩, -, hmoves, -⟩
    have hbytes : xs.length * m ≤ c.rest.length := by
      have hsum : ∀ x ∈ xs, 0 + m ≤ (l x).read.length := by
        intro x hx
        simpa using hm x (hxs x hx)
      have hread := sum_add_le_flatMap hsum
      have hrest : c.rest = xs.flatMap (fun x => (l x).read) ++ c'.rest := hmoves.rest
      rw [hrest, length_append]
      omega
    have hsplit : Passes limit c ([] ++ xs.flatMap fun x => (l x).read)
        ([] ++ xs.flatMap fun x => (l x).out) (xs.length + (xs.map fun x => (l x).items).sum)
        (false || xs.any fun x => (l x).dirty) c' := hmoves
    obtain ⟨c₁, hcnt, hloop'⟩ := hsplit.split
    refine ⟨(), c₁, ⟨hbytes, hcnt⟩, bind_ok.mp ?_⟩
    refine (hloop.ok hcnt.within).mpr ⟨xs, ⟨rfl, hxs⟩, rfl, ?_, trivial⟩
    rw [hpass]
    exact hloop'

theorem pairs_reads (n : Nat) : (passing limit).Reads (pairs limit n)
    (fun ps : List (Bytes × Bytes) => ps.length = n ∧ ∀ p ∈ ps, PairValid p) (fun _ => ()) (loopPass pairPass) := by
  refine counted_reads pair_reads (fun p _ => ?_) n
  simp only [pairPass, length_pairWire]
  omega

theorem loopPass_pair : loopPass pairPass ps =
    ⟨ps.flatMap pairWire, (ps.map redactPair).flatMap pairWire, ps.length, ps.any pairDirty⟩ := by
  simp [loopPass, pairPass, flatMap_map, map_const', sum_replicate_nat]

end V1Cursor

/-! ### Both passes -/

def parseV1 (body : Option Nat → V1Reader Unit) (limit : Option Nat) (payload : Bytes) :
    Except BinSchemaError (Bool × Bytes) :=
  if defaultMaxBatchBytes < payload.length then
    .error (.invalidValue "batch exceeds transport byte limit")
  else
    match body limit ⟨payload, ⟨payload.length, false, []⟩⟩ with
    | .error e => .error e
    | .ok ((), c) =>
      if c.rest ≠ [] then .error (.invalidEncoding "trailing bytes")
      else .ok (c.extra.changed, c.extra.output)

section BothPasses

open V1Cursor

variable {ξ : Type} {body : Option Nat → V1Reader Unit} {P : ξ → Prop} {l : ξ → Pass}
  {limit : Option Nat} {payload output : Bytes} {changed : Bool}

section

variable (hbody : ∀ limit, (passing limit).Reads (body limit) P (fun _ => ()) l) (hitems : ∀ x, P x → (l x).items ≤ (l x).read.length)
include hbody hitems

theorem parseV1_ok : parseV1 body limit payload = .ok (changed, output) ↔
    payload.length ≤ defaultMaxBatchBytes ∧ (∀ max ∈ limit, output.length ≤ max) ∧ ∃ x, P x ∧ payload = (l x).read ∧
    output = (l x).out ∧ changed = (l x).dirty := by
  have hstart : Within limit ⟨payload, ⟨payload.length, false, []⟩⟩ := by simp [Within]
  unfold parseV1
  by_cases hbig : defaultMaxBatchBytes < payload.length
  · rw [if_pos hbig]
    simp only [reduceCtorEq, false_iff, not_and]
    omega
  rw [if_neg hbig]
  constructor
  · intro h
    split at h
    · cases h
    · rename_i c' hrun
      split at h
      · cases h
      · rename_i hrest
        cases h
        obtain ⟨x, hx, -, hpass, -⟩ := ((hbody limit).ok hstart).mp hrun
        have hpay := hpass.rest
        rw [not_not.mp hrest, append_nil] at hpay
        exact ⟨by omega, hpass.within, x, hx, hpay, by simpa using hpass.output, by simpa using hpass.changed⟩
  · rintro ⟨-, hlimit, x, hx, rfl, rfl, rfl⟩
    have hcnt := hitems x hx
    have hpass : (passing limit).Moves ⟨(l x).read, ⟨(l x).read.length, false, []⟩⟩ (l x)
        ⟨[], ⟨(l x).read.length - (l x).items, (l x).dirty, (l x).out⟩⟩ :=
      ⟨by simp, by simp only; omega, by simp, by simp, hlimit⟩
    rw [((hbody limit).ok (a := ()) hstart).mpr ⟨x, hx, rfl, hpass, trivial⟩]
    simp

theorem redactV1_ok (hclean : ∀ x, (l x).dirty = false → (l x).out = (l x).read)
    : redactV1 (parseV1 body) payload = .ok output ↔ payload.length ≤ defaultMaxBatchBytes ∧ output.length ≤
    defaultMaxBatchBytes ∧ ∃ x, P x ∧ payload = (l x).read ∧ output = (l x).out := by
  unfold redactV1
  constructor
  · intro h
    simp only [bind, Except.bind] at h
    split at h
    · cases h
    rename_i r hfirst
    obtain ⟨changed, measured⟩ := r
    obtain ⟨hlen, hmeasured, x, hx, hread, rfl, rfl⟩ := (parseV1_ok hbody hitems).mp hfirst
    have hmeasured := hmeasured _ rfl
    have hsecond : parseV1 body none payload = .ok ((l x).dirty, (l x).out) :=
      (parseV1_ok hbody hitems).mpr ⟨hlen, by simp, x, hx, hread, rfl, rfl⟩
    simp only [hsecond] at h
    split at h
    · cases h
      exact ⟨hlen, hmeasured, x, hx, hread, rfl⟩
    · rename_i hdirty
      cases h
      exact ⟨hlen, hlen, x, hx, hread, hread.trans (hclean x (by simpa using hdirty)).symm⟩
  · rintro ⟨hlen, hout, x, hx, hread, rfl⟩
    have hparse (limit : Option Nat) (hlimit : ∀ max ∈ limit, (l x).out.length ≤ max) :
        parseV1 body limit payload = .ok ((l x).dirty, (l x).out) :=
      (parseV1_ok hbody hitems).mpr ⟨hlen, hlimit, x, hx, hread, rfl, rfl⟩
    simp only [hparse (some defaultMaxBatchBytes) (by simpa using hout), hparse none (by simp), bind, Except.bind]
    split
    · rfl
    · rename_i hdirty
      rw [hclean x (by simpa using hdirty), ← hread]
      rfl

end

end BothPasses

variable {p : Bytes × Bytes}

theorem redactPair_of_clean (h : pairDirty p = false) : redactPair p = p := by
  apply (V1Cursor.redactPair_of_not ?_).1
  simpa [pairDirty] using h

theorem map_eq_self_of_clean {α : Type} {dirty : α → Bool} {redact : α → α} (h : ∀ x, dirty x = false → redact x = x)
    {xs : List α} (hxs : xs.any dirty = false) : xs.map redact = xs := by
  rw [any_eq_false] at hxs
  have hid : xs.map redact = xs.map id := by
    apply map_congr_left
    intro x hx
    exact h x (by simpa using hxs x hx)
  rw [hid, map_id]

theorem redactPair_redactPair (p : Bytes × Bytes) : redactPair (redactPair p) = redactPair p := by
  unfold redactPair
  split <;> simp [*]

theorem PairValid.redact (h : PairValid p) : PairValid (redactPair p) := by
  have hlen : redacted.length < 256 ^ 2 := by decide +kernel
  have hutf8 : validUtf8 redacted = true := by decide +kernel
  unfold redactPair
  split
  · exact ⟨⟨h.fits.1, hlen⟩, h.key, hutf8⟩
  · exact h

end Scry.Proto
