import TdSyntax.Text.Basic

/-!
# Word characters

Names, keywords and numbers are written in ASCII letters, digits and the
underscore.  The character classes of this module admit nothing else.
-/

namespace TdSyntax.Text

def isWordStart (c : Char) : Bool := c.isAlpha || c == '_'

def isWordPart (c : Char) : Bool := c.isAlphanum || c == '_'

def isOctalDigit (c : Char) : Bool := '0' ≤ c && c ≤ '7'

def isBinaryDigit (c : Char) : Bool := c == '0' || c == '1'

def isHexDigit (c : Char) : Bool :=
  c.isDigit || ('a' ≤ c && c ≤ 'f') || ('A' ≤ c && c ≤ 'F')

theorem isWordPart_of_isWordStart {c : Char} (h : isWordStart c = true) :
    isWordPart c = true := by
  simp only [isWordStart, isWordPart, Char.isAlphanum, Bool.or_eq_true] at h ⊢
  exact h.imp_left Or.inl

def runLength (member : Char → Bool) (text : Text) : Nat :=
  (text.takeWhile member).length

theorem runLength_le (member : Char → Bool) (text : Text) :
    runLength member text ≤ text.length :=
  (List.takeWhile_sublist member).length_le

def continuesWord (text : Text) : Bool := text.head?.any isWordPart

end TdSyntax.Text
