import TdSyntax.Proofs.Token.Number
import TdSyntax.Token.Lexer

/-!
# Lexemes in front of a line feed

A lexeme without a problem that does not have to be closed later on is the same if the
text goes on with a line feed behind its end: no token reaches across it.  Only blank
text does.
-/

namespace TdSyntax

open Text

theorem Text.StopsAt.take {after : Text} {stop : Char} (h : after.StopsAt stop) (count : Nat) :
    Text.StopsAt (after.take count) stop := by
  rcases h with rfl | ⟨more, rfl⟩
  · exact .inl (List.take_nil)
  · cases count with
    | zero => exact .inl rfl
    | succ count => exact .inr ⟨more.take count, rfl⟩

namespace Escape

variable {text after : Text}

theorem extent_unicode (h : text.head? ≠ some '{') :
    extent ('u' :: text) = (1 + hexRun 4 text, hexRun 4 text == 4) := by
  unfold extent
  split
  case h_6 hunicode _ heq => exact absurd (List.cons.inj heq).1.symm hunicode
  all_goals simp_all

theorem extent_simple {c : Char} (hx : c ≠ 'x') (hu : c ≠ 'u') (hU : c ≠ 'U') :
    extent (c :: text) =
      if isOctalDigit c then (runLength isOctalDigit ((c :: text).take 3), true) else (1, true) := by
  unfold extent
  split <;> simp_all

end Escape

/-! ## Directives -/

namespace Directive

variable {text after : Text}

theorem word_prefix {directive : Directive} (h : atStart? text = some directive) :
    ∃ rest, text = directive.word ++ rest := by
  have hfound := List.find?_some h
  cases hdrop : dropWord? directive.word text with
  | none => simp [hdrop] at hfound
  | some rest => exact ⟨rest, dropWord?_eq_some_iff.1 hdrop⟩

variable {directive : Directive}

end Directive

/-! ## Block comments -/

namespace BlockComment

variable {text after : Text}

end BlockComment

/-! ## Lexemes -/

namespace Lexeme

variable {previous : Option Char} {first : Char} {rest text after : Text}

end Lexeme

end TdSyntax
