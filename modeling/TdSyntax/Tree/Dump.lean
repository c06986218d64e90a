import TdSyntax.Tree.Walk

/-!
# Dumps

The dump of a tree has a line for every node and every token, in the order of a
walk, indented by two blanks for each level.  Tokens are shown without trivia,
and the end of the file is left out.
-/

namespace TdSyntax

def dumpLine (depth : Nat) (content : Text) : Text :=
  List.replicate (depth * 2) ' ' ++ content ++ ['\n']

def Leaf.dumpLines (leaf : Leaf) (depth : Nat) : Except Fault (List Text) :=
  if leaf.kind = .eof then .ok []
  else do
    let text ← leaf.trimmed
    pure [dumpLine depth (leaf.kind.label.toList ++ ' ' :: text.quoted)]

mutual

def Tree.dumpLines (depth : Nat) : Tree → Except Fault (List Text)
  | .leaf content => content.dumpLines depth
  | .branch kind children => do
      let rest ← Tree.dumpLinesAll (depth + 1) children
      pure (dumpLine depth kind.label.toList :: rest)

def Tree.dumpLinesAll (depth : Nat) : List Tree → Except Fault (List Text)
  | [] => .ok []
  | first :: rest => do
      let lines ← Tree.dumpLines depth first
      let others ← Tree.dumpLinesAll depth rest
      pure (lines ++ others)

end

def Tree.dump (tree : Tree) : Except Fault Text := do
  pure (← tree.dumpLines 0).flatten

def Node.dump (node : Node) : Except Fault Text := node.tree.dump

def SourceTree.dump (source : SourceTree) : Except Fault Text := source.tree.dump

end TdSyntax
