import Mathlib.Algebra.GroupWithZero.Nat
import Mathlib.Algebra.Ring.Int.Defs
import Mathlib.Data.List.Induction

/-! # Big-endian numbers

Unsigned integers of a fixed width, most significant byte first.
-/

namespace Scry.Lib

open List

abbrev Bytes := List UInt8

def toBe : Nat → Nat → Bytes
  | 0, _ => []
  | k + 1, n => toBe k (n / 256) ++ [UInt8.ofNat (n % 256)]

variable (l : Bytes) (k n : Nat)

def ofBe : Nat := l.foldl (fun acc b => 256 * acc + b.toNat) 0

@[simp] theorem ofBe_nil : ofBe [] = 0 := rfl

theorem ofBe_snoc (b : UInt8) : ofBe (l ++ [b]) = 256 * ofBe l + b.toNat := by
  simp [ofBe, foldl_append]

@[simp] theorem toBe_length : (toBe k n).length = k := by
  induction k generalizing n with
  | zero => rfl
  | succ k ih => simp [toBe, ih]

theorem ofBe_lt : ofBe l < 256 ^ l.length := by
  induction l using reverseRecOn with
  | nil => simp
  | append_singleton l b ih =>
    have hb := b.toNat_lt
    rw [ofBe_snoc, length_append, length_singleton, Nat.pow_succ]
    omega

theorem ofBe_append (a b : Bytes) : ofBe (a ++ b) = ofBe a * 256 ^ b.length + ofBe b := by
  induction b using reverseRecOn with
  | nil => simp
  | append_singleton b x ih =>
    rw [← append_assoc, ofBe_snoc, ih, ofBe_snoc, length_append, length_singleton,
      Nat.pow_succ, ← Nat.mul_assoc]
    omega

theorem ofBe_toBe : ofBe (toBe k n) = n % 256 ^ k := by
  induction k generalizing n with
  | zero => simp [toBe, Nat.mod_one]
  | succ k ih =>
    rw [toBe, ofBe_snoc, ih, Nat.pow_succ, Nat.mul_comm (256 ^ k) 256, Nat.mod_mul]
    have : (UInt8.ofNat (n % 256)).toNat = n % 256 := by simp
    omega

theorem ofBe_toBe_of_lt (h : n < 256 ^ k) : ofBe (toBe k n) = n := by
  rw [ofBe_toBe, Nat.mod_eq_of_lt h]

theorem toBe_ofBe : toBe l.length (ofBe l) = l := by
  induction l using reverseRecOn with
  | nil => rfl
  | append_singleton l b ih =>
    have hb := b.toNat_lt
    rw [length_append, length_singleton, toBe, ofBe_snoc]
    have hdiv : (256 * ofBe l + b.toNat) / 256 = ofBe l := by omega
    have hmod : (256 * ofBe l + b.toNat) % 256 = b.toNat := by omega
    rw [hdiv, hmod, ih]
    simp

theorem ofBe_one_cons_inj : Function.Injective fun b : Bytes => ofBe (1 :: b) := by
  have hvalue : ∀ b : Bytes, ofBe (1 :: b) = 256 ^ b.length + ofBe b := by
    intro b
    rw [← singleton_append, ofBe_append]
    simp [ofBe]
  intro a b hab
  have hab : 256 ^ a.length + ofBe a = 256 ^ b.length + ofBe b := by
    rw [← hvalue, ← hvalue]
    exact hab
  have ha := ofBe_lt a
  have hb := ofBe_lt b
  -- A longer list would be at least twice the power of the shorter one.
  have hlen : a.length = b.length := by
    rcases Nat.lt_trichotomy a.length b.length with hlt | heq | hlt
    · have := Nat.pow_le_pow_right (show 0 < 256 by omega) (show a.length + 1 ≤ b.length from hlt)
      rw [Nat.pow_succ] at this
      omega
    · exact heq
    · have := Nat.pow_le_pow_right (show 0 < 256 by omega) (show b.length + 1 ≤ a.length from hlt)
      rw [Nat.pow_succ] at this
      omega
  rw [hlen] at hab
  rw [← toBe_ofBe a, ← toBe_ofBe b, hlen, Nat.add_left_cancel hab]

variable {b : Bytes}

theorem exists_toBe {k : Nat} (h : b.length = k) : ∃ n, n < 256 ^ k ∧ toBe k n = b := by
  subst h
  exact ⟨ofBe b, ofBe_lt b, toBe_ofBe b⟩

theorem exists_append_of_length {m n : Nat} (h : b.length = m + n) :
    ∃ b₁ b₂ : Bytes, b₁.length = m ∧ b₂.length = n ∧ b₁ ++ b₂ = b := by
  refine ⟨b.take m, b.drop m, ?_, ?_, take_append_drop m b⟩
  · rw [length_take]
    omega
  · rw [length_drop]
    omega

theorem toBe_append_inj {k n m : Nat} (hn : n < 256 ^ k) (hm : m < 256 ^ k) {r s : Bytes}
    (h : toBe k n ++ r = toBe k m ++ s) : n = m ∧ r = s := by
  obtain ⟨hnum, hrest⟩ := append_inj h (by simp)
  have hval := congrArg ofBe hnum
  rw [ofBe_toBe_of_lt k n hn, ofBe_toBe_of_lt k m hm] at hval
  exact ⟨hval, hrest⟩

/-! ## Reading from the front -/

def takeBytes (n : Nat) (l : Bytes) : Option (Bytes × Bytes) :=
  if l.length < n then none else some (l.take n, l.drop n)

def takeBe (k : Nat) (l : Bytes) : Option (Nat × Bytes) :=
  (takeBytes k l).map fun (b, rest) => (ofBe b, rest)

theorem takeBytes_append (b rest : Bytes) : takeBytes b.length (b ++ rest) = some (b, rest) := by
  simp [takeBytes]

theorem takeBytes_all (b : Bytes) : takeBytes b.length b = some (b, []) := by
  simpa using takeBytes_append b []

theorem takeBe_all {k : Nat} (h : b.length = k) : takeBe k b = some (ofBe b, []) := by
  rw [← h, takeBe, takeBytes_all]
  rfl

theorem takeBe_append (h : n < 256 ^ k) (rest : Bytes) :
    takeBe k (toBe k n ++ rest) = some (n, rest) := by
  have hb := takeBytes_append (toBe k n) rest
  rw [toBe_length] at hb
  simp [takeBe, hb, ofBe_toBe_of_lt k n h]

end Scry.Lib
