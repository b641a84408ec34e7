import Mathlib.Algebra.GroupWithZero.Nat
import Mathlib.Algebra.Ring.Int.Defs
import Mathlib.Data.List.Basic

/-! # Bits in a list of bytes

Bit `pos` is bit `pos % 8` of byte `pos / 8`.
-/

namespace Scry.Lib

variable (bits : List UInt8) (pos : Nat)

def bitMask : UInt8 := 1 <<< UInt8.ofNat (pos % 8)

def setBit : List UInt8 := bits.modify (pos / 8) (· ||| bitMask pos)

def testBit : Bool := bits.getD (pos / 8) 0 &&& bitMask pos != 0

@[simp] theorem length_setBit : (setBit bits pos).length = bits.length := by
  simp [setBit]

theorem toBitVec_bitMask : (bitMask pos).toBitVec = BitVec.twoPow 8 (pos % 8) := by
  have hall : ∀ i < 8, (1 <<< UInt8.ofNat i : UInt8).toBitVec = BitVec.twoPow 8 i := by decide
  exact hall _ (Nat.mod_lt _ (by decide))

theorem testBit_eq_getLsbD :
    testBit bits pos = (bits.getD (pos / 8) 0).toBitVec.getLsbD (pos % 8) := by
  have hne : BitVec.twoPow 8 (pos % 8) ≠ 0#8 := by
    have hall : ∀ i < 8, BitVec.twoPow 8 i ≠ 0#8 := by decide
    exact hall _ (Nat.mod_lt _ (by decide))
  rw [Bool.eq_iff_iff, testBit, bne_iff_ne, ne_eq, ← UInt8.toBitVec_inj, UInt8.toBitVec_and,
    toBitVec_bitMask, BitVec.and_twoPow]
  generalize (bits.getD (pos / 8) 0).toBitVec.getLsbD (pos % 8) = bit
  cases bit with
  | true => simpa using hne
  | false => simp

theorem testBit_setBit {bits : List UInt8} {pos : Nat} (h : pos / 8 < bits.length) (q : Nat) :
    testBit (setBit bits pos) q = (decide (q = pos) || testBit bits q) := by
  rw [testBit_eq_getLsbD, testBit_eq_getLsbD, setBit, List.getD_eq_getElem?_getD,
    List.getElem?_modify, List.getD_eq_getElem?_getD]
  by_cases hbyte : pos / 8 = q / 8
  · -- The same byte: the masks of two positions in it differ if the positions do.
    have hpos : q = pos ↔ q % 8 = pos % 8 := by omega
    rw [← hbyte, List.getElem?_eq_getElem h]
    simp only [if_true, Option.map_eq_map, Option.map_some, Option.getD_some, UInt8.toBitVec_or,
      toBitVec_bitMask, BitVec.getLsbD_or, BitVec.getLsbD_twoPow, hpos]
    have hlt : q % 8 < 8 := Nat.mod_lt _ (by decide)
    rw [Bool.or_comm]
    simp [eq_comm, Nat.mod_lt]
  · have hpos : q ≠ pos := fun h => hbyte (by rw [h])
    simp [hbyte, hpos]

theorem testBit_replicate (n q : Nat) : testBit (List.replicate n 0) q = false := by
  unfold testBit
  simp [List.getD_eq_getElem?_getD, List.getElem?_replicate]
  split <;> simp

end Scry.Lib
