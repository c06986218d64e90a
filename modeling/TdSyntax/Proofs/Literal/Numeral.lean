import Mathlib.Data.Nat.Digits.Lemmas
import Mathlib.Tactic.Ring
import TdSyntax.Text.Numeral

/-!
# The number that is written by digits

Digits that are read from left to right add up the number that they write to a base, where
the value of a digit is its place among all digits.
-/

namespace TdSyntax.Text

/-- The digits of the bases up to sixteen with their values. -/
def digits : List (Char × Nat) :=
  "0123456789abcdef".toList.zipIdx ++ "0123456789ABCDEF".toList.zipIdx

/-- Digits to a base, the most significant one first, and the number that they write. -/
def Writes (base : Nat) (numeral : Text) (number : Nat) : Prop :=
  ∃ places : List (Char × Nat), (∀ place ∈ places, place ∈ digits ∧ place.2 < base) ∧
    numeral = places.map Prod.fst ∧ Nat.ofDigits base (places.map Prod.snd).reverse = number

def IsNumeral (base : Nat) (digits : Text) : Prop :=
  digits ≠ [] ∧ ∀ digit ∈ digits, digitValue digit < base

def magnitude (base : Nat) (digits : Text) : Nat :=
  Nat.ofDigits base (digits.map digitValue).reverse

theorem digitsFrom?_eq {base : Nat} {digits : Text}
    (h : ∀ digit ∈ digits, digitValue digit < base) (start : Nat) :
    digitsFrom? base start digits =
      some (start * base ^ digits.length + magnitude base digits) := by
  induction digits generalizing start with
  | nil => simp [digitsFrom?, magnitude]
  | cons first rest ih =>
      obtain ⟨hfirst, hrest⟩ := List.forall_mem_cons.1 h
      rw [digitsFrom?, if_pos hfirst, ih hrest, magnitude, magnitude, List.map_cons,
        Nat.ofDigits_reverse_cons, List.length_map, List.length_cons]
      ring_nf

theorem digitValue_of_isDigit {c : Char} (h : c.isDigit = true) : digitValue c < 10 := by
  have hrange := Char.isDigit_iff_toNat.1 h
  rw [digitValue, if_pos h]
  simp only [Char.reduceToNat] at hrange ⊢
  omega

theorem digitValue_of_isBinaryDigit {c : Char} (h : isBinaryDigit c = true) :
    digitValue c < 2 := by
  simp only [isBinaryDigit, Bool.or_eq_true, beq_iff_eq] at h
  rcases h with rfl | rfl <;> decide

theorem digitValue_of_isHexDigit {c : Char} (h : isHexDigit c = true) : digitValue c < 16 := by
  have hlower : 'a' ≤ c ∧ c ≤ 'f' ↔ 97 ≤ c.toNat ∧ c.toNat ≤ 102 := Iff.rfl
  have hupper : 'A' ≤ c ∧ c ≤ 'F' ↔ 65 ≤ c.toNat ∧ c.toNat ≤ 70 := Iff.rfl
  have hisLower : c.isLower = (decide (97 ≤ c.toNat) && decide (c.toNat ≤ 122)) := rfl
  have hisUpper : c.isUpper = decide (65 ≤ c.toNat ∧ c.toNat ≤ 90) := rfl
  simp only [isHexDigit, Bool.or_eq_true, Bool.and_eq_true, decide_eq_true_eq, hlower, hupper] at h
  simp only [digitValue, hisLower, hisUpper, Bool.and_eq_true, decide_eq_true_eq,
    Char.isDigit_iff_toNat, Char.reduceToNat] at h ⊢
  split
  · omega
  · split
    · omega
    · split <;> omega

theorem digits_spec : ∀ digit ∈ digits, digitValue digit.1 = digit.2 ∧
    isHexDigit digit.1 = true ∧ (digit.2 < 8 → isOctalDigit digit.1 = true) := by
  decide

theorem mem_digits {c : Char} (h : digitValue c < 16) : (c, digitValue c) ∈ digits := by
  have hisDigit : c.isDigit = decide (48 ≤ c.toNat ∧ c.toNat ≤ 57) := by
    rw [Bool.eq_iff_iff, decide_eq_true_iff]
    exact Char.isDigit_iff_toNat
  have hisLower : c.isLower = (decide (97 ≤ c.toNat) && decide (c.toNat ≤ 122)) := rfl
  have hisUpper : c.isUpper = decide (65 ≤ c.toNat ∧ c.toNat ≤ 90) := rfl
  have hplaces : ∀ code ∈ List.range' 48 10 ++ List.range' 65 6 ++ List.range' 97 6,
      (Char.ofNat code, digitValue (Char.ofNat code)) ∈ digits := by decide
  have hcode : c.toNat ∈ List.range' 48 10 ++ List.range' 65 6 ++ List.range' 97 6 := by
    simp only [digitValue, hisDigit, hisLower, hisUpper, decide_eq_true_eq, Bool.and_eq_true,
      Char.reduceToNat] at h
    simp only [List.mem_append, List.mem_range'_1]
    split_ifs at h <;> omega
  simpa [Char.ofNat_toNat] using hplaces _ hcode

namespace Writes

variable {base number : Nat} {numeral : Text}

theorem digitValue_lt (h : Writes base numeral number) :
    ∀ digit ∈ numeral, digitValue digit < base := by
  obtain ⟨places, hplaces, rfl, -⟩ := h
  refine List.forall_mem_map.2 fun place hmem => ?_
  rw [(digits_spec place (hplaces place hmem).1).1]
  exact (hplaces place hmem).2

theorem magnitude_eq (h : Writes base numeral number) : magnitude base numeral = number := by
  obtain ⟨places, hplaces, rfl, rfl⟩ := h
  have hvalues : (places.map Prod.fst).map digitValue = places.map Prod.snd := by
    rw [List.map_map]
    exact List.map_congr_left fun place hmem => (digits_spec place (hplaces place hmem).1).1
  rw [magnitude, hvalues]

theorem isNumeral (h : Writes base numeral number) (hne : numeral ≠ []) :
    numeral.IsNumeral base := ⟨hne, h.digitValue_lt⟩

theorem isHexDigit (h : Writes base numeral number) :
    ∀ digit ∈ numeral, isHexDigit digit = true := by
  obtain ⟨places, hplaces, rfl, -⟩ := h
  refine List.forall_mem_map.2 fun place hmem => ?_
  exact (digits_spec place (hplaces place hmem).1).2.1

theorem isOctalDigit (h : Writes 8 numeral number) :
    ∀ digit ∈ numeral, isOctalDigit digit = true := by
  obtain ⟨places, hplaces, rfl, -⟩ := h
  refine List.forall_mem_map.2 fun place hmem => ?_
  obtain ⟨hdigit, hbase⟩ := hplaces place hmem
  exact (digits_spec place hdigit).2.2 hbase

end Writes

namespace IsNumeral

variable {base : Nat} {digits : Text}

theorem of_all {member : Char → Bool} (hmember : ∀ {c}, member c = true → digitValue c < base)
    (h : (!digits.isEmpty && digits.all member) = true) : digits.IsNumeral base := by
  simp only [Bool.and_eq_true, Bool.not_eq_true', List.isEmpty_eq_false_iff, List.all_eq_true] at h
  exact ⟨h.1, fun digit hdigit => hmember (h.2 digit hdigit)⟩

theorem digits?_eq (h : digits.IsNumeral base) :
    digits? base digits = some (magnitude base digits) := by
  obtain ⟨first, rest, rfl⟩ := List.exists_cons_of_ne_nil h.1
  rw [digits?, digitsFrom?_eq h.2, Nat.zero_mul, Nat.zero_add]
  simp

theorem writes (h : digits.IsNumeral base) (hbase : base ≤ 16) :
    digits.Writes base (magnitude base digits) := by
  refine ⟨digits.map fun digit => (digit, digitValue digit), ?_, ?_, ?_⟩
  · refine List.forall_mem_map.2 fun digit hmem => ?_
    have hvalue := h.2 digit hmem
    exact ⟨mem_digits (hvalue.trans_le hbase), hvalue⟩
  · rw [List.map_map]
    exact (List.map_id digits).symm
  · rw [magnitude, List.map_map]
    rfl

theorem numeral?_eq (h : digits.IsNumeral base) (hbase : base ≤ 36) :
    numeral? base digits = some (magnitude base digits) := by
  unfold numeral?
  split
  · have hplus := h.2 '+' List.mem_cons_self
    rw [show digitValue '+' = 36 by decide] at hplus
    omega
  · exact h.digits?_eq

end IsNumeral

end TdSyntax.Text
