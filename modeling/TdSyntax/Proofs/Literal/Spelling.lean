import TdSyntax.Proofs.Literal.Numeral
import TdSyntax.Proofs.Term.Atom
import TdSyntax.Proofs.Token.Appended
import TdSyntax.View.StringValue

/-!
# Spellings of a character

The ways to write a character in a string literal: as it is, behind a backslash, by a
letter of its own, or by its code point in octal or hexadecimal digits.  An escape
sequence extends as far as it is written, whatever stands behind it, and stands for the
character that is spelled.
-/

namespace TdSyntax

open Text

namespace Quoted

/-- Some digits for the code point of a character, with any number of zeros in front. -/
def Denotes (base : Nat) (numeral : Text) (c : Char) : Prop := numeral.Writes base c.toNat

def named : List (Char × Char) :=
  [('n', '\n'), ('t', '\t'), ('r', '\r'), ('a', '\x07'), ('b', '\x08'), ('f', '\x0c'),
    ('v', '\x0b')]

/-- The ways to write a character. -/
inductive Spells : Char → Text → Prop
  | plain {c : Char} (h : isPlain c = true) : Spells c [c]
  | special {c : Char} (h : isSpecial c = true) : Spells c ['\\', c]
  | named {letter c : Char} (h : (letter, c) ∈ named) : Spells c ['\\', letter]
  | octal {c : Char} {numeral : Text} (hlength : numeral.length = 3) (h : Denotes 8 numeral c) :
      Spells c ('\\' :: numeral)
  | byte {c : Char} {numeral : Text} (hlength : numeral.length = 2) (h : Denotes 16 numeral c) :
      Spells c ('\\' :: 'x' :: numeral)
  | short {c : Char} {numeral : Text} (hlength : numeral.length = 4) (h : Denotes 16 numeral c) :
      Spells c ('\\' :: 'u' :: numeral)
  | braced {c : Char} {numeral : Text} (hne : numeral ≠ []) (h : Denotes 16 numeral c) :
      Spells c ('\\' :: 'u' :: '{' :: (numeral ++ ['}']))
  | long {c : Char} {numeral : Text} (hlength : numeral.length = 8) (h : Denotes 16 numeral c) :
      Spells c ('\\' :: 'U' :: numeral)

/-! ## Numerals -/

theorem isHexDigit_excludes {c : Char} (h : isHexDigit c = true) :
    c ≠ '{' ∧ c ≠ '}' := by
  refine ⟨?_, ?_⟩ <;> rintro rfl <;> exact absurd h (by decide)

theorem character?_toNat (c : Char) : StringLiteral.character? c.toNat = some c := by
  have hvalid : c.toNat.isValidChar := c.valid
  rw [StringLiteral.character?, dif_pos hvalid]
  rfl

namespace Denotes

variable {base : Nat} {numeral : Text} {c : Char}

theorem codePoint?_eq (h : Denotes base numeral c) (hbase : base ≤ 36) (hne : numeral ≠ []) :
    StringLiteral.codePoint? base numeral = some c := by
  rw [StringLiteral.codePoint?, (h.isNumeral hne).numeral?_eq hbase, h.magnitude_eq,
    Option.bind_some, character?_toNat]

end Denotes

/-! ## Escape sequences -/

theorem hexRun_append {numeral : Text} (h : ∀ digit ∈ numeral, isHexDigit digit = true)
    (after : Text) : Escape.hexRun numeral.length (numeral ++ after) = numeral.length := by
  rw [Escape.hexRun, List.take_left, runLength_eq_length_iff.2 (List.all_eq_true.2 h)]

theorem dropClosing_eq {numeral : Text} (h : ∀ digit ∈ numeral, isHexDigit digit = true) :
    StringLiteral.dropClosing numeral = numeral ∧
      StringLiteral.dropClosing (numeral ++ ['}']) = numeral := by
  have hlast : numeral.reverse.dropWhile (· == '}') = numeral.reverse := by
    cases hreverse : numeral.reverse with
    | nil => rfl
    | cons last front =>
        have hmem : last ∈ numeral := List.mem_reverse.1 (hreverse ▸ List.mem_cons_self)
        exact List.dropWhile_cons_of_neg (by simpa using (isHexDigit_excludes (h last hmem)).2)
  constructor
  · rw [StringLiteral.dropClosing, hlast, List.reverse_reverse]
  · rw [StringLiteral.dropClosing, List.reverse_append, List.reverse_singleton,
      List.singleton_append, List.dropWhile_cons_of_pos (by rfl), hlast, List.reverse_reverse]

/-- What is written behind the backslash of an escape sequence that stands for a character:
it is all of the sequence, whatever stands behind it. -/
structure Escapes (c : Char) (sequence : Text) : Prop where
  extent : ∀ after, Escape.extent (sequence ++ after) = (sequence.length, true)
  escaped : StringLiteral.escaped? sequence = some c

namespace Escapes

variable {c : Char} {numeral : Text}

theorem special (h : isSpecial c = true) : Escapes c [c] := by
  simp only [isSpecial, Bool.or_eq_true, beq_iff_eq] at h
  rcases h with rfl | rfl <;> exact ⟨fun _ => rfl, rfl⟩

theorem named {letter : Char} (h : (letter, c) ∈ named) : Escapes c [letter] := by
  simp only [Quoted.named, List.mem_cons, Prod.mk.injEq, List.not_mem_nil, or_false] at h
  rcases h with ⟨rfl, rfl⟩ | ⟨rfl, rfl⟩ | ⟨rfl, rfl⟩ | ⟨rfl, rfl⟩ | ⟨rfl, rfl⟩ | ⟨rfl, rfl⟩ |
    ⟨rfl, rfl⟩ <;> exact ⟨fun _ => rfl, rfl⟩

theorem octal (hlength : numeral.length = 3) (h : Denotes 8 numeral c) : Escapes c numeral := by
  have hoctal := h.isOctalDigit
  have hpoint := h.codePoint?_eq (by decide) (List.ne_nil_of_length_pos (by omega))
  have hrun : runLength Text.isOctalDigit numeral = 3 :=
    hlength ▸ runLength_eq_length_iff.2 (List.all_eq_true.2 hoctal)
  obtain ⟨first, rest, rfl⟩ := List.exists_cons_of_length_pos (by omega : 0 < numeral.length)
  have hfirst := hoctal first List.mem_cons_self
  have hletter : ∀ letter, Text.isOctalDigit letter = false → first ≠ letter := by
    rintro letter hnone rfl
    cases hnone.symm.trans hfirst
  have htake (after : Text) : (first :: (rest ++ after)).take 3 = first :: rest := by
    rw [← List.cons_append, ← hlength, List.take_left]
  constructor
  · intro after
    rw [List.cons_append]
    unfold Escape.extent
    split <;> rename_i heq
    case h_1 => cases heq
    case h_6 =>
      obtain ⟨rfl, -⟩ := List.cons.inj heq
      rw [if_pos hfirst, htake, hrun, hlength]
    all_goals exact absurd (List.cons.inj heq).1 (hletter _ (by decide))
  · unfold StringLiteral.escaped?
    split <;> rename_i heq
    case h_1 => cases heq
    case h_10 =>
      obtain ⟨rfl, -⟩ := List.cons.inj heq
      rw [if_pos hfirst, hpoint]
    all_goals exact absurd (List.cons.inj heq).1 (hletter _ (by decide))

theorem byte (hlength : numeral.length = 2) (h : Denotes 16 numeral c) :
    Escapes c ('x' :: numeral) := by
  have hne : numeral ≠ [] := List.ne_nil_of_length_pos (by omega)
  have hrun := hexRun_append h.isHexDigit
  rw [hlength] at hrun
  refine ⟨fun after => ?_, ?_⟩
  · simp [Escape.extent, hrun, hlength, Nat.add_comm]
  · simp [StringLiteral.escaped?, hne, h.codePoint?_eq (by decide) hne, isOctalDigit]

theorem short (hlength : numeral.length = 4) (h : Denotes 16 numeral c) :
    Escapes c ('u' :: numeral) := by
  have hne : numeral ≠ [] := List.ne_nil_of_length_pos (by omega)
  have hhex := h.isHexDigit
  have hrun := hexRun_append hhex
  have hpoint := h.codePoint?_eq (by decide) hne
  have hclosing := (dropClosing_eq hhex).1
  rw [hlength] at hrun
  obtain ⟨first, rest, rfl⟩ := List.exists_cons_of_ne_nil hne
  have hbrace := (isHexDigit_excludes (hhex first (by simp))).1
  constructor
  · intro after
    rw [List.cons_append, List.cons_append]
    unfold Escape.extent
    split <;> rename_i heq <;> cases heq
    case h_3 => exact absurd rfl hbrace
    case h_4 =>
      simp only [← List.cons_append, hrun, hlength, List.length_cons]
      rfl
    case h_6 hother _ _ => exact absurd rfl hother
  · simp only [StringLiteral.escaped?]
    rw [List.dropWhile_cons_of_neg (by simpa using hbrace), hclosing, hpoint]

theorem braced (hne : numeral ≠ []) (h : Denotes 16 numeral c) :
    Escapes c ('u' :: '{' :: (numeral ++ ['}'])) := by
  have hhex := h.isHexDigit
  have hrun (after : Text) :
      runLength Text.isHexDigit (numeral ++ '}' :: after) = numeral.length := by
    rw [runLength, List.takeWhile_append_of_pos hhex, List.takeWhile_cons_of_neg (by decide),
      List.append_nil]
  have hpos := List.length_pos_iff.2 hne
  constructor
  · intro after
    simp [Escape.extent, hrun, hpos]
    omega
  · obtain ⟨first, rest, rfl⟩ := List.exists_cons_of_ne_nil hne
    have hbrace := (isHexDigit_excludes (hhex first (by simp))).1
    simp only [StringLiteral.escaped?]
    rw [List.dropWhile_cons_of_pos (by rfl), List.cons_append,
      List.dropWhile_cons_of_neg (by simpa using hbrace), ← List.cons_append,
      (dropClosing_eq hhex).2, h.codePoint?_eq (by decide) hne]

theorem long (hlength : numeral.length = 8) (h : Denotes 16 numeral c) :
    Escapes c ('U' :: numeral) := by
  have hne : numeral ≠ [] := List.ne_nil_of_length_pos (by omega)
  have hrun := hexRun_append h.isHexDigit
  rw [hlength] at hrun
  refine ⟨fun after => ?_, ?_⟩
  · simp [Escape.extent, hrun, hlength]
  · simp [StringLiteral.escaped?, hne, h.codePoint?_eq (by decide) hne, isOctalDigit]

end Escapes

theorem Spells.isPlain_or_escapes {c : Char} {text : Text} (h : Spells c text) :
    (isPlain c = true ∧ text = [c]) ∨ ∃ sequence, text = '\\' :: sequence ∧ Escapes c sequence := by
  cases h with
  | plain h => exact .inl ⟨h, rfl⟩
  | special h => exact .inr ⟨_, rfl, .special h⟩
  | named h => exact .inr ⟨_, rfl, .named h⟩
  | octal hlength h => exact .inr ⟨_, rfl, .octal hlength h⟩
  | byte hlength h => exact .inr ⟨_, rfl, .byte hlength h⟩
  | short hlength h => exact .inr ⟨_, rfl, .short hlength h⟩
  | braced hne h => exact .inr ⟨_, rfl, .braced hne h⟩
  | long hlength h => exact .inr ⟨_, rfl, .long hlength h⟩

end Quoted

end TdSyntax
