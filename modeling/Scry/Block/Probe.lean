import Scry.Block.Bloom
import Scry.Lib.Utf8

/-! # Probing any sidecar

Reading and probing a bloom with the steps that can panic.
-/

open Scry.Lib

namespace Scry.Block

open List Option

def slice (buf : Bytes) (start stop : Nat) : Option Bytes :=
  if start ≤ stop ∧ stop ≤ buf.length then some ((buf.drop start).take (stop - start)) else none

/-- `slice::windows`, which panics for width zero. -/
def windowsChecked (n : Nat) (bytes : Bytes) : Option (List Bytes) :=
  if n = 0 then none else some (windows n bytes)

def remChecked (a b : UInt64) : Option UInt64 := if b = 0 then none else some (a % b)

def usizeAddChecked (a b : Nat) : Option Nat := if a + b < 2 ^ 64 then some (a + b) else none

namespace BodyBloom

def testGramChecked (b : BodyBloom) (h : UInt64 × UInt64) : List Nat → Option Bool
  | [] => some true
  | i :: rest => do
    let pos ← remChecked (h.1 + UInt64.ofNat i * h.2) b.mBits
    let byte ← b.bits[pos.toNat / 8]?
    if byte &&& bitMask pos.toNat = 0 then some false else testGramChecked b h rest

def testWindowsChecked (hash : HashPair) (b : BodyBloom) : List Bytes → Option Bool
  | [] => some true
  | window :: rest => do
    let present ← b.testGramChecked (hash window) (range b.k.toNat)
    if present then testWindowsChecked hash b rest else some false

def containsPatternChecked (hash : HashPair) (b : BodyBloom) (pattern : Bytes) : Option Bool :=
  if pattern.length < b.ngram.toNat then some true
  else do
    let grams ← windowsChecked b.ngram.toNat pattern
    b.testWindowsChecked hash grams

def withBits (ngram : UInt8) (k : UInt32) (mBits : UInt64) (buf : Bytes) : Option BodyBloom :=
  if h : (mBits.toNat + 7) / 8 ≤ (buf.drop headerLen).length then
    some
      { ngram
        k
        mBits
        bits := (buf.drop headerLen).take ((mBits.toNat + 7) / 8)
        length_bits := by rw [length_take, Nat.min_eq_left h] }
  else none

/-- `from_bytes`. The outer `none` is a panic, the inner one an unused sidecar. -/
def fromBytesChecked (buf : Bytes) : Option (Option BodyBloom) := do
  if buf.length < headerLen then return none
  let found ← slice buf 0 4
  if found ≠ magic then return none
  let version ← buf[4]?
  if version ≠ formatVersion then return none
  let ngram ← buf[5]?
  let k ← slice buf 6 10
  let mBits ← slice buf 10 18
  let mBits := UInt64.ofNat (ofBe mBits)
  let _ ← usizeAddChecked headerLen ((mBits.toNat + 7) / 8)
  return withBits ngram (UInt32.ofNat (ofBe k)) mBits buf

/-! ## What does not panic -/

theorem slice_of_le {buf : Bytes} {start stop : Nat} (h : start ≤ stop) (hstop : stop ≤ buf.length) :
    slice buf start stop = some ((buf.drop start).take (stop - start)) := if_pos ⟨h, hstop⟩

theorem getElem?_of_lt {buf : Bytes} {i : Nat} (h : i < buf.length) : buf[i]? = some (buf.getD i 0) := by
  rw [getD_eq_getElem?_getD, getElem?_eq_getElem h]
  rfl

theorem fromBytesChecked_eq (buf : Bytes) : fromBytesChecked buf = some (fromBytes buf) := by
  unfold fromBytesChecked fromBytes
  by_cases hshort : buf.length < headerLen
  · simp [hshort]
  have hlen : 18 ≤ buf.length := Nat.le_of_not_lt hshort
  have hadd (m : UInt64) : usizeAddChecked headerLen ((m.toNat + 7) / 8) =
      some (headerLen + (m.toNat + 7) / 8) := by
    have hm : m.toNat < 2 ^ 64 := m.toNat_lt
    refine if_pos ?_
    unfold headerLen
    omega
  simp only [hshort, if_false, slice_of_le (show 0 ≤ 4 by decide) (show 4 ≤ buf.length by omega), slice_of_le
    (show 6 ≤ 10 by decide) (show 10 ≤ buf.length by omega), slice_of_le (show 10 ≤ 18 by decide) hlen,
    getElem?_of_lt (show 4 < buf.length by omega), getElem?_of_lt (show 5 < buf.length by omega), hadd,
    bind_eq_bind, bind_some, false_or, pure, drop_zero]
  by_cases hmagic : buf.take 4 = magic
  · by_cases hver : buf.getD 4 0 = formatVersion
    · simp only [hmagic, hver, ne_eq, not_true_eq_false, if_false]
      rfl
    · simp only [hmagic, hver, ne_eq, not_true_eq_false, not_false_eq_true, or_true, if_true, if_false]
  · simp only [hmagic, ne_eq, not_false_eq_true, true_or, if_true]

variable {hash : HashPair} {b : BodyBloom}

theorem testGramChecked_eq (hm : b.k = 0 ∨ b.mBits ≠ 0) (h : UInt64 × UInt64) :
    b.testGramChecked h (range b.k.toNat) = some (b.testGram h) := by
  unfold testGram positions
  obtain hk | hm := hm
  · rw [hk]
    rfl
  have hpos : 0 < b.mBits.toNat := Nat.pos_of_ne_zero fun h0 => hm (UInt64.toNat_inj.mp h0)
  generalize range b.k.toNat = is
  induction is with
  | nil => rfl
  | cons i is ih =>
    have hrem : remChecked (h.1 + UInt64.ofNat i * h.2) b.mBits =
        some ((h.1 + UInt64.ofNat i * h.2) % b.mBits) := if_neg hm
    have hindex : ((h.1 + UInt64.ofNat i * h.2) % b.mBits).toNat / 8 < b.bits.length := by
      rw [b.length_bits, UInt64.toNat_mod]
      have hlt := Nat.mod_lt (h.1 + UInt64.ofNat i * h.2).toNat hpos
      omega
    simp only [testGramChecked, hrem, getElem?_of_lt hindex, bind_eq_bind, bind_some, ih,
      map_cons, all_cons, testBit]
    generalize (b.bits.getD _ 0 &&& bitMask _) = bit
    by_cases hbit : bit = 0
    · simp only [hbit, if_true, bne_self_eq_false, Bool.false_and]
    · simp only [hbit, if_false, bne_iff_ne.mpr hbit, Bool.true_and]

theorem testWindowsChecked_eq (hm : b.k = 0 ∨ b.mBits ≠ 0) (grams : List Bytes) :
    b.testWindowsChecked hash grams = some (grams.all fun window => b.testGram (hash window)) := by
  induction grams with
  | nil => rfl
  | cons window grams ih =>
    simp only [testWindowsChecked, testGramChecked_eq hm, bind_eq_bind, bind_some, ih, all_cons]
    cases b.testGram (hash window) <;> rfl

theorem containsPatternChecked_eq (hwidth : b.ngram ≠ 0) (hm : b.k = 0 ∨ b.mBits ≠ 0) (pattern : Bytes) :
    b.containsPatternChecked hash pattern = some (b.containsPattern hash pattern) := by
  have hne : b.ngram.toNat ≠ 0 := fun h0 => hwidth (UInt8.toNat_inj.mp h0)
  unfold containsPatternChecked containsPattern
  split
  · rfl
  · simp only [windowsChecked, hne, if_false, bind_eq_bind, bind_some]
    exact testWindowsChecked_eq hm _

theorem testGramChecked_no_bits (hk : b.k ≠ 0) (hm : b.mBits = 0) (h : UInt64 × UInt64) :
    b.testGramChecked h (range b.k.toNat) = none := by
  have hpos : b.k.toNat ≠ 0 := fun h0 => hk (UInt32.toNat_inj.mp h0)
  obtain ⟨n, hn⟩ := Nat.exists_eq_succ_of_ne_zero hpos
  have hrem (a : UInt64) : remChecked a b.mBits = none := if_pos hm
  rw [hn, range_succ_eq_map, testGramChecked, hrem]
  rfl

theorem windows_ne_nil {n : Nat} {bytes : Bytes} (h : n ≤ bytes.length) : windows n bytes ≠ [] := by
  rw [windows, ne_eq, map_eq_nil_iff, range_eq_nil]
  omega

theorem containsPatternChecked_isSome_iff (hash : HashPair) (b : BodyBloom) :
    (∀ pattern, validUtf8 pattern = true → (b.containsPatternChecked hash pattern).isSome) ↔
      b.ngram ≠ 0 ∧ (b.k = 0 ∨ b.mBits ≠ 0) := by
  constructor
  · intro h
    have hwidth : b.ngram ≠ 0 := by
      intro hzero
      have hempty := h [] rfl
      simp [containsPatternChecked, hzero, windowsChecked] at hempty
    refine ⟨hwidth, ?_⟩
    by_contra hbits
    obtain ⟨hk, hm⟩ := not_or.mp hbits
    -- A pattern of one window.
    have hpattern := h (replicate b.ngram.toNat 0x61)
      (validUtf8_ascii fun c hc => by rw [(mem_replicate.mp hc).2]; decide)
    have hne : b.ngram.toNat ≠ 0 := fun h0 => hwidth (UInt8.toNat_inj.mp h0)
    have hlen : b.ngram.toNat ≤ (replicate b.ngram.toNat (0x61 : UInt8)).length :=
      Nat.le_of_eq length_replicate.symm
    obtain ⟨window, rest, hwindows⟩ := exists_cons_of_ne_nil (windows_ne_nil hlen)
    have hgram := testGramChecked_no_bits hk (not_not.mp hm) (hash window)
    simp [containsPatternChecked, windowsChecked, hne, hwindows, testWindowsChecked, hgram] at hpattern
  · rintro ⟨hwidth, hbits⟩ pattern -
    rw [containsPatternChecked_eq hwidth hbits]
    rfl

/-- Reading never panics. Probing does not just when windows have a width and the filter has bits, if any are
asked for. -/
theorem sidecar_probe_safe_iff (hash : HashPair) (buf : Bytes) : ∃ read, fromBytesChecked buf = some read ∧ ∀ b, read
    = some b → ((∀ pattern, validUtf8 pattern = true → (b.containsPatternChecked hash pattern).isSome) ↔ b.ngram ≠ 0 ∧
    (b.k = 0 ∨ b.mBits ≠ 0)) :=
  ⟨fromBytes buf, fromBytesChecked_eq buf, fun b _ => containsPatternChecked_isSome_iff hash b⟩

theorem zero_headers_panic :
    (∃ b, fromBytesChecked (magic ++ [formatVersion, 0] ++ toBe 4 1 ++ toBe 8 0) = some (some b) ∧
      b.containsPatternChecked (fun _ => (0, 0)) [] = none) ∧
    ∃ b, fromBytesChecked (magic ++ [formatVersion, 3] ++ toBe 4 1 ++ toBe 8 0) = some (some b) ∧
      b.containsPatternChecked (fun _ => (0, 0)) (ascii "abc") = none :=
  ⟨⟨⟨0, 1, 0, [], rfl⟩, rfl, rfl⟩, ⟨3, 1, 0, [], rfl⟩, rfl, rfl⟩

end BodyBloom

end Scry.Block
