import TdSyntax.Proofs.Literal.Spelling

/-!
# Spelled characters

A string literal is written as one spelling for each of its characters.  Its tokens are
the escape sequences and the longest runs of characters that are written as they are.  The
string literals of printed terms are those in which only quotes and backslashes are escaped.
-/

namespace TdSyntax

/-- A character of a string literal, in one of its spellings. -/
structure Spelled where
  char : Char
  text : Text
  spells : Quoted.Spells char text

namespace Spelled

def isPlain (spelled : Spelled) : Bool := spelled.text == [spelled.char]

def content (spelled : List Spelled) : Text := spelled.map char

def written (spelled : List Spelled) : Text := spelled.flatMap text

def literal (spelled : List Spelled) : Text := '"' :: (written spelled ++ ['"'])

def pieces (spelled : List Spelled) : List Word :=
  match spelled with
  | [] => []
  | first :: rest =>
      if first.isPlain then
        ⟨.stringContent, first.char :: content (rest.takeWhile isPlain)⟩ ::
          pieces (rest.dropWhile isPlain)
      else ⟨.escapeSequence, first.text⟩ :: pieces rest
termination_by spelled.length
decreasing_by
  · have := (List.dropWhile_suffix isPlain (l := rest)).length_le
    simp only [List.length_cons]
    omega
  · simp

def words (spelled : List Spelled) : List Word :=
  Quoted.quote :: (pieces spelled ++ [Quoted.quote])

theorem eq_of_isPlain {spelled : Spelled} (h : spelled.isPlain = true) :
    spelled.text = [spelled.char] ∧ Quoted.isPlain spelled.char = true := by
  have htext : spelled.text = [spelled.char] := beq_iff_eq.1 h
  refine ⟨htext, ?_⟩
  rcases spelled.spells.isPlain_or_escapes with ⟨hplain, -⟩ | ⟨sequence, hsequence, hescapes⟩
  · exact hplain
  · obtain ⟨-, rfl⟩ := List.cons.inj (htext.symm.trans hsequence)
    cases hescapes.escaped

theorem escapes_of_not_isPlain {spelled : Spelled} (h : ¬ spelled.isPlain = true) :
    ∃ sequence, spelled.text = '\\' :: sequence ∧ Quoted.Escapes spelled.char sequence := by
  rcases spelled.spells.isPlain_or_escapes with ⟨-, htext⟩ | hescapes
  · exact absurd (beq_iff_eq.2 htext) h
  · exact hescapes

theorem written_of_isPlain {spelled : List Spelled} (h : ∀ one ∈ spelled, one.isPlain = true) :
    written spelled = content spelled := by
  rw [written, content, List.flatMap_def, List.map_congr_left fun one hmem =>
    (eq_of_isPlain (h one hmem)).1]
  induction spelled with
  | nil => rfl
  | cons first rest ih => simpa using ih fun one hmem => h one (by simp [hmem])

theorem written_cons_plain {first : Spelled} (h : first.isPlain = true) (rest : List Spelled) :
    written (first :: rest) =
      first.char :: (content (rest.takeWhile isPlain) ++ written (rest.dropWhile isPlain)) := by
  have hrun : written (rest.takeWhile isPlain) = content (rest.takeWhile isPlain) :=
    written_of_isPlain fun one hmem => List.mem_takeWhile_imp hmem
  rw [← hrun, written, List.flatMap_cons, (eq_of_isPlain h).1, List.singleton_append,
    written, written, ← List.flatMap_append, List.takeWhile_append_dropWhile]

theorem content_run (spelled : List Spelled) :
    content (spelled.takeWhile isPlain) ++ content (spelled.dropWhile isPlain) =
      content spelled := by
  rw [content, content, ← List.map_append, List.takeWhile_append_dropWhile, content]

theorem takeWhile_written (rest : List Spelled) (after : Text) :
    (written (rest.dropWhile isPlain) ++ '"' :: after).takeWhile Quoted.isPlain = [] := by
  cases hrest : rest.dropWhile isPlain with
  | nil => rfl
  | cons first others =>
      have hfirst : ¬ first.isPlain = true := by
        have := List.head?_dropWhile_not isPlain rest
        simpa [hrest] using this
      obtain ⟨sequence, htext, -⟩ := escapes_of_not_isPlain hfirst
      rw [written, List.flatMap_cons, htext]
      rfl

theorem kind_of_mem_pieces (spelled : List Spelled) : ∀ word ∈ pieces spelled,
    word.kind = .stringContent ∨ word.kind = .escapeSequence := by
  fun_induction pieces spelled with
  | case1 => exact List.forall_mem_nil _
  | case2 first rest _ ih => exact List.forall_mem_cons.2 ⟨.inl rfl, ih⟩
  | case3 first rest _ ih => exact List.forall_mem_cons.2 ⟨.inr rfl, ih⟩

/-! ## Printed characters -/

/-- A character as it is printed: behind a backslash if it has to be. -/
def printed (c : Char) : Spelled :=
  if h : Quoted.isSpecial c = true then ⟨c, ['\\', c], .special h⟩
  else ⟨c, [c], .plain (by simpa [Quoted.isPlain] using h)⟩

@[simp] theorem char_printed (c : Char) : (printed c).char = c := by
  unfold printed
  split <;> rfl

theorem text_printed (c : Char) :
    (printed c).text = if Quoted.isSpecial c then ['\\', c] else [c] := by
  unfold printed
  split <;> rfl

theorem isPlain_printed (c : Char) : (printed c).isPlain = Quoted.isPlain c := by
  rw [isPlain, text_printed, char_printed, Quoted.isPlain]
  cases Quoted.isSpecial c <;> simp

@[simp] theorem content_printed (content : Text) :
    Spelled.content (content.map printed) = content := by
  simp [Spelled.content, Function.comp_def]

theorem written_printed (content : Text) :
    written (content.map printed) = Quoted.escape content := by
  simp only [written, List.flatMap_map, text_printed]
  rfl

theorem pieces_printed (content : Text) :
    pieces (content.map printed) = Quoted.pieces content := by
  have hcomp : isPlain ∘ printed = Quoted.isPlain := funext isPlain_printed
  fun_induction Quoted.pieces content with
  | case1 => rw [List.map_nil, pieces]
  | case2 c rest hspecial ih =>
      rw [List.map_cons, pieces, ih, isPlain_printed, text_printed, if_pos hspecial]
      simp [Quoted.isPlain, hspecial]
  | case3 c rest hplain ih =>
      rw [List.map_cons, pieces, isPlain_printed, List.takeWhile_map, List.dropWhile_map, hcomp, ih]
      simp [Quoted.isPlain, hplain]

theorem words_printed (content : Text) :
    words (content.map printed) = (Atom.quoted content).words := by
  rw [words, pieces_printed, Atom.words]

end Spelled

end TdSyntax
