import Mathlib.Algebra.Group.Nat.Defs
import Mathlib.Data.Nat.Log

/-!
This module contains what `strconv` does to doubles.
-/

structure Double where
  negative : Bool
  mantissa : Nat
  exponent : Int
  deriving DecidableEq

namespace Double

def roundDiv (num den : Nat) : Nat :=
  let q := num / den
  let r := num % den
  if 2 * r < den ∨ (2 * r = den ∧ q % 2 = 0) then q else q + 1

def scale (base num den : Nat) (e : Int) : Nat × Nat :=
  if 0 ≤ e then (num * base ^ e.toNat, den) else (num, den * base ^ (-e).toNat)

def lastBit (num den : Nat) : Int :=
  let l : Int := (Nat.log2 num : Int) - Nat.log2 den
  let (n, d) := scale 2 num den (-l)
  max ((if d ≤ n then l else l - 1) - 52) (-1074)

def ofRatio? (negative : Bool) (num den : Nat) : Option Double :=
  let e := lastBit num den
  let (n, d) := scale 2 num den (-e)
  let m := roundDiv n d
  if 971 < e ∨ (e = 971 ∧ m = 2 ^ 53) then none
  else if m = 2 ^ 53 then some ⟨negative, 2 ^ 52, e + 1⟩
  else some ⟨negative, m, e⟩

def zero (negative : Bool) : Double := ⟨negative, 0, -1074⟩

def ofDecimal? (negative : Bool) (digits : Nat) (e : Int) : Option Double :=
  if digits = 0 then
    some (zero negative)
  else
    let (num, den) := scale 10 digits 1 e
    ofRatio? negative num den

def ratio (f : Double) : Nat × Nat := scale 2 f.mantissa 1 f.exponent

def firstDigit (num den : Nat) : Int :=
  if den ≤ num then Nat.log 10 (num / den) else -(Nat.clog 10 ((den + num - 1) / num) : Int)

def stripZeros (fuel digits : Nat) (e : Int) : Nat × Int :=
  match fuel with
  | 0 => (digits, e)
  | fuel + 1 => if digits % 10 = 0 then stripZeros fuel (digits / 10) (e + 1) else (digits, e)

def shortestFrom (f : Double) (fuel : Nat) (e : Int) : Nat × Int :=
  let (num, den) := scale 10 f.ratio.1 f.ratio.2 (-e)
  let down := num / den
  let okDown := ofDecimal? f.negative down e = some f
  let okUp := ofDecimal? f.negative (down + 1) e = some f
  match fuel with
  | 0 => (roundDiv num den, e)
  | fuel + 1 =>
    if okDown ∧ okUp then (roundDiv num den, e)
    else if okDown then (down, e)
    else if okUp then (down + 1, e)
    else shortestFrom f fuel (e - 1)

def shortest (f : Double) : Nat × Int :=
  let (digits, e) := shortestFrom f 16 (firstDigit f.ratio.1 f.ratio.2)
  stripZeros 17 digits e

end Double
