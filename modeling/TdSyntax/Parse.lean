import TdSyntax.Event.Replay
import TdSyntax.Grammar.Reading
import TdSyntax.Token.Lexer
import TdSyntax.Tree.Dump

/-!
# Parsing

A source text is lexed, read by the grammar of files and built into a tree.  No
text is refused: the tree covers every byte of the source, and whatever is wrong
with it is reported, in the order of the source.
-/

namespace TdSyntax

/-- What the grammar makes of a list of tokens: the outline of a whole file and
the diagnostics.  The grammar has to come to the end of the file. -/
def Draft.ofTokens (list : TokenList) : Except Fault (Draft × List Diagnostic) :=
  match Grammar.file.run ⟨list.tokens, list.eof, none⟩ with
  | none => .error .brokenGrammar
  | some reading =>
      if reading.cursor.kind = .eof then
        .ok (.node .sourceFile (reading.drafts ++ [.token reading.cursor.current]),
          reading.diagnostics)
      else .error .brokenGrammar

structure Parse where
  tree : SourceTree
  diagnostics : List Diagnostic
  deriving DecidableEq, Repr

namespace Parse

def ofText (text : Text) : Except Fault Parse := do
  let list := TokenList.ofText text
  let (draft, diagnostics) ← Draft.ofTokens list
  let (log, _) ← draft.write .empty
  let tree ← log.replay text
  pure ⟨tree, Diagnostic.sort (list.diagnostics ++ diagnostics)⟩

def root (parse : Parse) : Node := parse.tree.root

def hasErrors (parse : Parse) : Bool := parse.diagnostics.any Diagnostic.isError

def dump (parse : Parse) : Except Fault Text := do
  let tree ← parse.tree.dump
  let lines := parse.diagnostics.map fun diagnostic =>
    "  ".toList ++ diagnostic.summary.toList ++ ['\n']
  pure (tree ++ "Errors:\n".toList ++ lines.flatten)

end Parse

end TdSyntax
