import TdSyntax.Tree.Basic

/-!
# Summaries

One-line descriptions of trees, leaves and trivia for logs and failing tests:
the name of a record and its fields between braces.
-/

namespace TdSyntax

def recordSummary (name : String) (fields : List (String × String)) : String :=
  let shown := fields.map fun (field, value) => field ++ ": " ++ value
  name ++ " \x7b " ++ ", ".intercalate shown ++ " \x7d"

def TriviaKind.summary : TriviaKind → String
  | .whitespace => "Whitespace"
  | .lineComment => "SingleLineComment"
  | .blockComment => "MultiLineComment"
  | .directive => "PreprocessorDirective"

def TriviaPiece.summary (piece : TriviaPiece) : String :=
  recordSummary "TriviaPiece" [("kind", piece.kind.summary), ("len", toString piece.length)]

def TriviaPiece.summaryAll (pieces : List TriviaPiece) : String :=
  recordSummary "GreenTrivia" [
    ("pieces", "[" ++ ", ".intercalate (pieces.map summary) ++ "]"),
    ("total_len", toString (total pieces))]

def Leaf.summary (leaf : Leaf) : String :=
  recordSummary "GreenToken" [
    ("kind", leaf.kind.label),
    ("text", String.ofList leaf.text.quoted)]

def Tree.summaryOf (kind : Kind) (children : List Tree) : String :=
  recordSummary "GreenNode" [
    ("kind", kind.label),
    ("text_len", toString (sizeAll children)),
    ("children", toString children.length)]

def SourceTree.summary (source : SourceTree) : String :=
  "SyntaxTree \x7b text_len: " ++ toString source.text.size ++ ", .. \x7d"

end TdSyntax
