import TdSyntax.Proofs.Literal.Numeral
import TdSyntax.Text.Quoted

/-!
# Reading a quoted text back

The characters of a quoted text can be told from their escapes one after the other, so texts
that are quoted alike are alike.  No quoted text has a line feed in it.
-/

namespace TdSyntax.Text

/-! ## Code points -/

theorem digitValue_digitChar : ∀ digit < 16, digitValue digit.digitChar = digit := by decide

theorem magnitude_append_singleton (base : Nat) (digits : Text) (digit : Char) :
    magnitude base (digits ++ [digit]) = digitValue digit + base * magnitude base digits := by
  simp [magnitude, Nat.ofDigits_cons]

theorem toDigits_spec (n : Nat) :
    IsNumeral 16 (Nat.toDigits 16 n) ∧ magnitude 16 (Nat.toDigits 16 n) = n := by
  induction n using Nat.strongRecOn with
  | ind n ih =>
      by_cases hsmall : n < 16
      · have hvalue := digitValue_digitChar n hsmall
        rw [Nat.toDigits_of_lt_base hsmall]
        exact ⟨⟨by simp, by simp [hvalue, hsmall]⟩, by simp [magnitude, hvalue]⟩
      · have hlast : n % 16 < 16 := Nat.mod_lt n (by decide)
        have hvalue := digitValue_digitChar (n % 16) hlast
        obtain ⟨⟨-, hdigits⟩, hmagnitude⟩ := ih (n / 16) (by omega)
        rw [Nat.toDigits_of_base_le (by decide) (Nat.le_of_not_lt hsmall)]
        refine ⟨⟨by simp, fun digit hmem => ?_⟩, ?_⟩
        · rcases List.mem_append.1 hmem with hmem | hmem
          · exact hdigits digit hmem
          · rw [List.mem_singleton.1 hmem, hvalue]
            exact hlast
        · rw [magnitude_append_singleton, hmagnitude, hvalue]
          omega

/-! ## Characters -/

def unquoteChar? : Text → Option (Char × Text)
  | [] => none
  | '\\' :: 'u' :: '\x7b' :: rest =>
      some (Char.ofNat (magnitude 16 (rest.takeWhile (· ≠ '\x7d'))),
        (rest.dropWhile (· ≠ '\x7d')).tail)
  | '\\' :: mark :: rest =>
      some (if mark = '0' then '\x00' else if mark = 't' then '\t' else if mark = 'r' then '\r'
        else if mark = 'n' then '\n' else mark, rest)
  | c :: rest => some (c, rest)

theorem unquoteChar?_codePointEscape (c : Char) (rest : Text) :
    unquoteChar? (codePointEscape c ++ rest) = some (c, rest) := by
  obtain ⟨⟨-, hdigits⟩, hmagnitude⟩ := toDigits_spec c.toNat
  have hmember : ∀ digit ∈ Nat.toDigits 16 c.toNat, decide (digit ≠ '\x7d') = true := by
    intro digit hmem
    have hlt := hdigits digit hmem
    rw [decide_eq_true_eq]
    rintro rfl
    exact absurd hlt (by decide)
  simp only [codePointEscape, List.cons_append, List.nil_append, List.append_assoc,
    unquoteChar?, List.takeWhile_append_of_pos hmember, List.dropWhile_append_of_pos hmember]
  simp [hmagnitude]

theorem unquoteChar?_quoteChar (c : Char) (rest : Text) :
    unquoteChar? (quoteChar '"' c ++ rest) = some (c, rest) := by
  unfold quoteChar
  split
  · subst c; rfl
  split
  · subst c; rfl
  split
  · subst c; rfl
  split
  · subst c; rfl
  split
  case isTrue h =>
    rcases (by simpa using h : c = '\\' ∨ c = '"') with rfl | rfl <;> rfl
  case isFalse h =>
    split
    · exact unquoteChar?_codePointEscape c rest
    · have hc : c ≠ '\\' := by simp_all
      simp [unquoteChar?, hc]

/-! ## Texts -/

theorem flatMap_quoteChar_injective : (List.flatMap (quoteChar '"')).Injective := by
  intro first second h
  induction first generalizing second with
  | nil =>
      cases second with
      | nil => rfl
      | cons c rest =>
          have hread := unquoteChar?_quoteChar c (rest.flatMap (quoteChar '"'))
          rw [← List.flatMap_cons, ← h] at hread
          cases hread
  | cons c rest ih =>
      cases second with
      | nil =>
          have hread := unquoteChar?_quoteChar c (rest.flatMap (quoteChar '"'))
          rw [← List.flatMap_cons, h] at hread
          cases hread
      | cons d others =>
          have hread := congrArg unquoteChar? h
          simp only [List.flatMap_cons, unquoteChar?_quoteChar, Option.some.injEq,
            Prod.mk.injEq] at hread
          rw [hread.1, ih hread.2]

theorem quoted_injective : quoted.Injective := by
  intro first second h
  simp only [quoted, List.cons_append, List.cons.injEq, true_and,
    List.append_cancel_right_eq] at h
  exact flatMap_quoteChar_injective h

theorem newline_notMem_quoteChar (c : Char) : '\n' ∉ quoteChar '"' c := by
  unfold quoteChar
  have hdigits : '\n' ∉ Nat.toDigits 16 c.toNat := fun hmem =>
    absurd ((toDigits_spec c.toNat).1.2 _ hmem) (by decide)
  split_ifs with hnull htab hreturn hline hmark
  · decide
  · decide
  · decide
  · decide
  · rcases (by simpa using hmark : c = '\\' ∨ c = '"') with rfl | rfl <;> decide
  · simp [codePointEscape, hdigits]
  · simpa using Ne.symm hline

theorem newline_notMem_quoted (text : Text) : '\n' ∉ text.quoted := by
  simp [quoted, newline_notMem_quoteChar]

end TdSyntax.Text
