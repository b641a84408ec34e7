import Mathlib.Algebra.GroupWithZero.Nat
import Mathlib.Algebra.Ring.Int.Defs
import Mathlib.Data.List.Basic

/-! # Numbers of a fixed width

The last digits of a number, the highest first. A number below the width's limit is known from them.
-/

namespace Scry.Lib

def digits (base count n : Nat) : List Char :=
  (List.range count).map fun i => Nat.digitChar (n / base ^ (count - 1 - i) % base)

@[simp] theorem length_digits (base count n : Nat) : (digits base count n).length = count := by
  simp [digits]

theorem digitChar_inj {a b : Nat} (ha : a < 16) (hb : b < 16) (h : Nat.digitChar a = Nat.digitChar b) : a = b := by
  have hall : ∀ a ∈ List.range 16, ∀ b ∈ List.range 16,
      Nat.digitChar a = Nat.digitChar b → a = b := by decide
  exact hall a (List.mem_range.mpr ha) b (List.mem_range.mpr hb) h

theorem mod_pow_of_digits {base count n m : Nat} (hpos : 0 < base) (hbase : base ≤ 16)
    (h : digits base count n = digits base count m) : n % base ^ count = m % base ^ count := by
  have hdigit : ∀ j < count, n / base ^ j % base = m / base ^ j % base := by
    intro j hj
    have hmap := (List.map_inj_left.mp h) (count - 1 - j) (List.mem_range.mpr (by omega))
    rw [show count - 1 - (count - 1 - j) = j by omega] at hmap
    have hlt : ∀ k, k % base < 16 := fun k => Nat.lt_of_lt_of_le (Nat.mod_lt k hpos) hbase
    exact digitChar_inj (hlt _) (hlt _) hmap
  clear h
  induction count with
  | zero => simp [Nat.mod_one]
  | succ count ih =>
    rw [Nat.mod_pow_succ, Nat.mod_pow_succ, ih fun j hj => hdigit j (by omega), hdigit count (by omega)]

end Scry.Lib
