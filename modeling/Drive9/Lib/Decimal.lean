import Mathlib.Data.Nat.Digits.Lemmas

/-!
This module contains the decimal text of a natural number.
-/

namespace Decimal

open List

def text (n : Nat) : List Char :=
  if n = 0 then ['0'] else (Nat.digits 10 n).reverse.map Nat.digitChar

def value (cs : List Char) : Nat := cs.foldl (fun n c => n * 10 + (c.toNat - '0'.toNat)) 0

def padded (width n : Nat) : List Char := List.replicate (width - (text n).length) '0' ++ text n

theorem isDigit_of_mem_text (h : c ∈ text n) : c.isDigit = true := by
  unfold text at h
  split at h
  . rw [mem_singleton.mp h]
    rfl
  . obtain ⟨d, hd, rfl⟩ := mem_map.mp h
    rw [Nat.isDigit_digitChar]
    exact decide_eq_true (Nat.digits_lt_base (by decide) (mem_reverse.mp hd))

theorem text_ne_nil (n : Nat) : text n ≠ [] := by
  unfold text
  split
  . simp
  . next h => simpa [Nat.digits_eq_nil_iff_eq_zero] using h

theorem head?_text (h : n ≠ 0) : (text n).head? ≠ some '0' := by
  intro hc
  unfold text at hc
  rw [if_neg h, head?_map, head?_reverse, Option.map_eq_some_iff] at hc
  obtain ⟨d, hd, hzero⟩ := hc
  have hne : Nat.digits 10 n ≠ [] := Nat.digits_ne_nil_iff_ne_zero.mpr h
  have hlast := Nat.getLast_digit_ne_zero 10 h
  rw [getLast?_eq_getLast_of_ne_nil hne, Option.some.injEq] at hd
  rw [hd] at hlast
  have hlt : d < 10 := Nat.digits_lt_base (by decide) (hd ▸ getLast_mem hne)
  have hdigit : ∀ d < 10, d ≠ 0 → Nat.digitChar d ≠ '0' := by decide
  exact hdigit d hlt hlast hzero

theorem value_reverse_map (h : ∀ d ∈ ds, d < 10)
    : value (ds.reverse.map Nat.digitChar) = Nat.ofDigits 10 ds := by
  unfold value
  rw [map_reverse, foldl_reverse]
  induction ds with
  | nil => rfl
  | cons d ds ih =>
    rw [forall_mem_cons] at h
    have hd : ∀ d < 10, (Nat.digitChar d).toNat - '0'.toNat = d := by decide
    rw [map_cons, foldr_cons, ih h.2, hd d h.1, Nat.ofDigits_cons]
    omega

theorem value_text (n : Nat) : value (text n) = n := by
  unfold text
  split
  . next h =>
    rw [h]
    rfl
  . rw [value_reverse_map fun d hd => Nat.digits_lt_base (by decide) hd, Nat.ofDigits_digits]

theorem text_injective : Function.Injective text := by
  intro a b h
  rw [← value_text a, h, value_text b]

end Decimal
