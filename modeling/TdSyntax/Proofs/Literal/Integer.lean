import TdSyntax.Proofs.Literal.Numeral
import TdSyntax.Proofs.Token.Number
import TdSyntax.View.Integer

/-!
# Values of integer literals

A decimal literal has the number that is written, if that is a signed number of 64 bits.
The digits behind a radix mark are a pattern of 64 bits, and the literal has the number
that this pattern is in two's complement.
-/

namespace TdSyntax.IntegerLiteral

open Text

def signed? (number : Int) : Option Int :=
  if -2 ^ 63 ≤ number ∧ number < 2 ^ 63 then some number else none

def pattern64? (number : Nat) : Option Int :=
  if number < 2 ^ 64 then some (BitVec.ofNat 64 number).toInt else none

/-- The forms of an integer literal and what each of them is worth.  Only decimal digits
have a sign in front. -/
inductive Worth : Text → Option Int → Prop
  | plain {digits : Text} {number : Nat} (hne : digits ≠ []) (h : digits.Writes 10 number) :
      Worth digits (signed? number)
  | positive {digits : Text} {number : Nat} (hne : digits ≠ []) (h : digits.Writes 10 number) :
      Worth ('+' :: digits) (signed? number)
  | negative {digits : Text} {number : Nat} (hne : digits ≠ []) (h : digits.Writes 10 number) :
      Worth ('-' :: digits) (signed? (-number))
  | hexadecimal {digits : Text} {number : Nat} (hne : digits ≠ [])
      (h : digits.Writes 16 number) : Worth ('0' :: 'x' :: digits) (pattern64? number)
  | binary {digits : Text} {number : Nat} (hne : digits ≠ []) (h : digits.Writes 2 number) :
      Worth ('0' :: 'b' :: digits) (pattern64? number)

theorem checked?_eq (number : Int) : checked? number = signed? number := by
  have hbound : signedBound = 2 ^ 63 := by norm_num [signedBound]
  rw [checked?, signed?, hbound]

theorem pattern?_eq {base : Nat} {digits : Text} (h : digits.IsNumeral base) (hbase : base ≤ 36) :
    pattern? base digits = pattern64? (magnitude base digits) := by
  have hword : wordSize = 2 ^ 64 := by decide
  have hwrap : wrap (magnitude base digits) = (BitVec.ofNat 64 (magnitude base digits)).toInt := by
    rw [wrap, hword, BitVec.toInt_ofNat']
  rw [pattern?, h.numeral?_eq hbase, pattern64?, ← hwrap, hword]
  rfl

section

variable {digits : Text}

private theorem notMem_digits (h : digits.IsNumeral 10) {c : Char} (hc : 10 ≤ digitValue c) :
    c ∉ digits := fun hmem => absurd (h.2 c hmem) (Nat.not_lt.2 hc)

theorem value?_plain (h : digits.IsNumeral 10) :
    value? digits = signed? (magnitude 10 digits) := by
  have hminus : '-' ∉ digits := notMem_digits h (by decide)
  have hplus : '+' ∉ digits := notMem_digits h (by decide)
  have hhex : 'x' ∉ digits := notMem_digits h (by decide)
  have hbinary : 'b' ∉ digits := notMem_digits h (by decide)
  unfold value?
  split
  rename_i negative rest hsign
  split at hsign
  · simp at hminus
  · simp at hplus
  · cases hsign
    simp only [Bool.false_eq_true, if_false]
    split
    · simp at hhex
    · simp at hbinary
    · rw [h.digits?_eq, Option.bind_eq_bind, Option.bind_some]
      exact checked?_eq _

theorem value?_positive (h : digits.IsNumeral 10) :
    value? ('+' :: digits) = signed? (magnitude 10 digits) := by
  have hhex : 'x' ∉ digits := notMem_digits h (by decide)
  have hbinary : 'b' ∉ digits := notMem_digits h (by decide)
  simp only [value?]
  split
  · simp at hhex
  · simp at hbinary
  · rw [h.digits?_eq, Option.bind_eq_bind, Option.bind_some]
    exact checked?_eq _

theorem value?_negative (h : digits.IsNumeral 10) :
    value? ('-' :: digits) = signed? (-magnitude 10 digits) := by
  have hhex : 'x' ∉ digits := notMem_digits h (by decide)
  have hbinary : 'b' ∉ digits := notMem_digits h (by decide)
  simp only [value?]
  split
  · simp at hhex
  · simp at hbinary
  · rw [h.digits?_eq, Option.bind_eq_bind, Option.bind_some]
    exact checked?_eq _

theorem value?_hexadecimal (h : digits.IsNumeral 16) :
    value? ('0' :: 'x' :: digits) = pattern64? (magnitude 16 digits) := by
  simp [value?, pattern?_eq h]

theorem value?_binary (h : digits.IsNumeral 2) :
    value? ('0' :: 'b' :: digits) = pattern64? (magnitude 2 digits) := by
  simp [value?, pattern?_eq h]

end

namespace Worth

variable {text : Text} {value : Option Int}

theorem eq_value? (h : Worth text value) : value = value? text := by
  cases h with
  | plain hne h => rw [value?_plain (h.isNumeral hne), h.magnitude_eq]
  | positive hne h => rw [value?_positive (h.isNumeral hne), h.magnitude_eq]
  | negative hne h => rw [value?_negative (h.isNumeral hne), h.magnitude_eq]
  | hexadecimal hne h => rw [value?_hexadecimal (h.isNumeral hne), h.magnitude_eq]
  | binary hne h => rw [value?_binary (h.isNumeral hne), h.magnitude_eq]

theorem of_isUnsigned (h : Number.isUnsigned text = true) : ∃ value, Worth text value := by
  unfold Number.isUnsigned at h
  split at h
  · have hdigits := IsNumeral.of_all digitValue_of_isHexDigit h
    exact ⟨_, .hexadecimal hdigits.1 (hdigits.writes (by decide))⟩
  · have hdigits := IsNumeral.of_all digitValue_of_isBinaryDigit h
    exact ⟨_, .binary hdigits.1 (hdigits.writes (by decide))⟩
  · have hdigits := IsNumeral.of_all digitValue_of_isDigit h
    exact ⟨_, .plain hdigits.1 (hdigits.writes (by decide))⟩

theorem of_isSigned (h : Number.isSigned text = true) : ∃ value, Worth text value := by
  unfold Number.isSigned at h
  split at h
  · rename_i sign digits
    simp only [Bool.and_eq_true, Bool.or_eq_true, beq_iff_eq] at h
    obtain ⟨hsign, hdigits⟩ := h
    have hnumeral : IsNumeral 10 digits :=
      .of_all digitValue_of_isDigit (by simpa using hdigits)
    have hwrites := hnumeral.writes (by decide)
    rcases hsign with rfl | rfl
    · exact ⟨_, .negative hnumeral.1 hwrites⟩
    · exact ⟨_, .positive hnumeral.1 hwrites⟩
  · cases h

end Worth

theorem worth_iff {text : Text}
    (h : Number.isUnsigned text = true ∨ Number.isSigned text = true) {value : Option Int} :
    Worth text value ↔ value = value? text := by
  refine ⟨Worth.eq_value?, ?_⟩
  rintro rfl
  obtain ⟨value, hworth⟩ := h.elim Worth.of_isUnsigned Worth.of_isSigned
  exact hworth.eq_value? ▸ hworth

example : value? "-0009223372036854775808".toList = some (-2 ^ 63) := by decide +kernel

example : value? "0xFFFFFFFFFFFFFFFF".toList = some (-1) := by decide +kernel

end TdSyntax.IntegerLiteral
