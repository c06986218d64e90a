import TdSyntax.Diagnostic.Render

/-!
# Which diagnostics are rendered

A position has as many lines in front of it as there are line feeds, so it is on one of
the lines of the text.  A diagnostic is rendered, whatever the name of the file, if and
only if it starts at a boundary of the text.
-/

namespace TdSyntax

namespace Text

theorem length_lines (text : Text) : text.lines.length = text.count '\n' + 1 := by
  induction text with
  | nil => rfl
  | cons c rest ih =>
      rw [lines, List.splitOn_cons_eq_if_modifyHead, List.count_cons]
      split
      · rw [List.length_cons]
        exact congrArg Nat.succ ih
      · rw [List.length_modifyHead]
        exact ih

theorem Position.line_after (position : Position) (text : Text) :
    (position.after text).line = position.line + text.count '\n' := by
  induction text generalizing position with
  | nil => rfl
  | cons c rest ih =>
      rw [Position.after, List.count_cons]
      split
      case isTrue hfeed =>
        rw [ih, if_pos (beq_iff_eq.2 hfeed)]
        exact Nat.succ_add_eq_add_succ position.line (rest.count '\n')
      case isFalse hfeed =>
        rw [ih, if_neg (by simpa using hfeed)]
        rfl

theorem line_lt_of_position? {offset : Nat} {text : Text} {position : Position}
    (h : position? offset text = some position) : position.line < text.lines.length := by
  obtain ⟨⟨before, after⟩, hsplit, rfl⟩ := Option.map_eq_some_iff.1 h
  obtain ⟨rfl, -⟩ := append_of_splitAt? hsplit
  rw [length_lines, Position.line_after, List.count_append]
  simp only
  omega

end Text

namespace Diagnostic

theorem isSome_render?_iff {diagnostic : Diagnostic} {path : String} {text : Text} :
    (diagnostic.render? path text).isSome = true ↔
      text.isBoundary diagnostic.span.start = true := by
  have hposition : (Text.position? diagnostic.span.start text).isSome =
      text.isBoundary diagnostic.span.start := Option.isSome_map
  rw [← hposition]
  cases hfound : Text.position? diagnostic.span.start text with
  | none => simp [render?, hfound]
  | some position =>
      have hline := List.getElem?_eq_getElem (Text.line_lt_of_position? hfound)
      simp [render?, hfound, hline]

end Diagnostic

end TdSyntax
