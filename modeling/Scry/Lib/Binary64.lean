import Mathlib.Algebra.GroupWithZero.Nat
import Mathlib.Algebra.Ring.Int.Defs
import Mathlib.Data.Nat.Log

/-! # Binary64 numbers

A number is its bit pattern. Sums and differences are exact on multiples of `2 ^ -1074` before they are rounded.
-/

namespace Scry.Lib

structure Binary64 where
  bits : UInt64
  deriving DecidableEq

namespace Binary64

variable (x : Binary64)

def exponent : Nat := x.bits.toNat / 2 ^ 52 % 2 ^ 11

def fraction : Nat := x.bits.toNat % 2 ^ 52

def isFinite : Bool := x.exponent != 2047

def isNan : Bool := x.exponent == 2047 && x.fraction != 0

/-- As a multiple of `2 ^ -1074`; infinity comes after every finite number. -/
def magnitude : Nat :=
  if x.exponent = 0 then x.fraction else (2 ^ 52 + x.fraction) * 2 ^ (x.exponent - 1)

def units : Int :=
  if x.bits.toNat < 2 ^ 63 then x.magnitude else -x.magnitude

def lt (x y : Binary64) : Bool := !x.isNan && !y.isNan && x.units < y.units

def le (x y : Binary64) : Bool := !x.isNan && !y.isNan && x.units ≤ y.units

def zero : Binary64 := ⟨0⟩

def one : Binary64 := ⟨0x3FF0000000000000⟩

/-- The positive number nearest to `n` multiples. A carry moves on into the exponent. -/
def nearest (n : Nat) : Nat :=
  let drop := Nat.log 2 n - 52
  let kept := n / 2 ^ drop
  let rest := n % 2 ^ drop
  let up := 2 ^ drop < 2 * rest ∨ (2 ^ drop = 2 * rest ∧ kept % 2 = 1)
  min (drop * 2 ^ 52 + kept + if up then 1 else 0) (2047 * 2 ^ 52)

def round (n : Int) : Binary64 :=
  ⟨UInt64.ofNat (nearest n.natAbs + if n < 0 then 2 ^ 63 else 0)⟩

def add (x y : Binary64) : Binary64 := round (x.units + y.units)

def sub (x y : Binary64) : Binary64 := round (x.units - y.units)

example : add one one = ⟨0x4000000000000000⟩ := by decide +kernel

-- Halfway between two numbers: the even one.
example : add one ⟨0x3CA0000000000000⟩ = one := by decide +kernel

end Binary64

end Scry.Lib
