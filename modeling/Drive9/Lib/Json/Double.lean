import Drive9.Lib.Decimal
import Drive9.Lib.Double
import Drive9.Lib.Json.Basic

/-!
This module contains the numbers of a JSON text that is read into doubles and written again.
-/

namespace Json.Number

open List Decimal

theorem isDigit_zeros_append (h : ∀ c ∈ ds, c.isDigit)
    : ∀ c ∈ List.replicate k '0' ++ ds, c.isDigit := by
  intro c hc
  cases mem_append.mp hc with
  | inl hc =>
    rw [eq_of_mem_replicate hc]
    rfl
  | inr hc => exact h c hc

theorem wholeOk_take (h : digits ≠ 0) (hk : 0 < k) (j : Nat)
    : (Decimal.text digits).take k ++ List.replicate j '0' ≠ []
      ∧ ((Decimal.text digits).take k ++ List.replicate j '0').head? ≠ some '0'
      ∧ ∀ c ∈ (Decimal.text digits).take k ++ List.replicate j '0', c.isDigit := by
  have hhead := head?_text h
  have hdigit : ∀ c ∈ Decimal.text digits, c.isDigit := fun _ => isDigit_of_mem_text
  cases hds : Decimal.text digits with
  | nil => exact absurd hds (text_ne_nil digits)
  | cons c cs =>
    rw [hds] at hhead hdigit
    obtain ⟨k, rfl⟩ : ∃ i, k = i + 1 := ⟨k - 1, by omega⟩
    refine ⟨by simp, by simpa using hhead, ?_⟩
    intro c' hc'
    cases mem_append.mp hc' with
    | inl hc' => exact hdigit c' (mem_of_mem_take hc')
    | inr hc' =>
      rw [eq_of_mem_replicate hc']
      rfl

theorem wholeOk_text (n : Nat)
    : Decimal.text n = ['0']
      ∨ (Decimal.text n ≠ [] ∧ (Decimal.text n).head? ≠ some '0' ∧ ∀ c ∈ Decimal.text n, c.isDigit) := by
  by_cases h : n = 0
  . subst h
    exact .inl rfl
  . exact .inr ⟨text_ne_nil n, head?_text h, fun _ => isDigit_of_mem_text⟩

def exponentValue (n : Number) : Int :=
  match n.exponent with
  | none => 0
  | some (mark, digits) =>
    if '-' ∈ mark then -(Decimal.value digits : Int) else Decimal.value digits

def toDouble? (n : Number) : Option Double :=
  Double.ofDecimal? n.negative (Decimal.value (n.whole ++ n.fraction)) (n.exponentValue - n.fraction.length)

def usesExponent (f : Double) : Bool :=
  match Double.ofDecimal? false 1 (-6) with
  | none => false
  | some low => decide (f.ratio.1 * low.ratio.2 < low.ratio.1 * f.ratio.2) || decide (10 ^ 21 * f.ratio.2 ≤ f.ratio.1)

def plain (negative : Bool) (digits : Nat) (e : Int) (h : digits ≠ 0) : Number :=
  let ds := Decimal.text digits
  let point := e + ds.length
  if hp : point ≤ 0 then
    { negative, whole := ['0'], fraction := List.replicate (-point).toNat '0' ++ ds, exponent := none,
      wholeOk := .inl rfl,
      fractionOk := isDigit_zeros_append fun _ => Decimal.isDigit_of_mem_text,
      exponentOk := by simp }
  else
    { negative, whole := ds.take point.toNat ++ List.replicate (point.toNat - ds.length) '0',
      fraction := ds.drop point.toNat, exponent := none,
      wholeOk := .inr (wholeOk_take h (by omega) _),
      fractionOk := fun _ hc => Decimal.isDigit_of_mem_text (List.mem_of_mem_drop hc),
      exponentOk := by simp }

def scientific (negative : Bool) (digits : Nat) (e : Int) (h : digits ≠ 0) : Number :=
  let ds := Decimal.text digits
  let exp := e + ds.length - 1
  { negative, whole := ds.take 1 ++ List.replicate 0 '0', fraction := ds.drop 1,
    exponent := some (['e', if exp < 0 then '-' else '+'], Decimal.text exp.natAbs),
    wholeOk := .inr (wholeOk_take h (by omega) _),
    fractionOk := fun _ hc => Decimal.isDigit_of_mem_text (List.mem_of_mem_drop hc),
    exponentOk := by
      simp only [Option.mem_def, Option.some.injEq, forall_eq']
      refine ⟨?_, Decimal.text_ne_nil _, fun _ => Decimal.isDigit_of_mem_text⟩
      split
      all_goals simp }

def zero (negative : Bool) : Number :=
  { negative, whole := ['0'], fraction := [], exponent := none, wholeOk := .inl rfl, fractionOk := by simp,
    exponentOk := by simp }

def ofDouble (f : Double) : Number :=
  if h : f.mantissa = 0 ∨ f.shortest.1 = 0 then zero f.negative
  else if usesExponent f then scientific f.negative f.shortest.1 f.shortest.2 (by tauto)
  else plain f.negative f.shortest.1 f.shortest.2 (by tauto)

def ofInt (i : Int) : Number :=
  { negative := i < 0, whole := Decimal.text i.natAbs, fraction := [], exponent := none,
    wholeOk := wholeOk_text _, fractionOk := by simp, exponentOk := by simp }

def inRange (n : Number) : Bool := n.toDouble?.isSome

def respell (n : Number) : Number :=
  match n.toDouble? with
  | none => n
  | some f => ofDouble f

end Json.Number
