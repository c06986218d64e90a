import TdSyntax.View.Views

/-!
# Nodes and their views

A node has one view at most, and the view tells the kind of the node.
-/

namespace TdSyntax

def Node.Shows (node : Node) (view : View) : Prop := node.view = .ok (some view)

def View.kind : View → Kind
  | .sourceFile _ _ => .sourceFile
  | .assertion _ _ => .assertStmt
  | .classDefinition _ _ _ => .classStmt
  | .recordDefinition _ _ => .defStmt
  | .recordInstances _ _ => .defmStmt
  | .recordSet _ _ _ => .defsetStmt
  | .definedVariable _ _ => .defvarStmt
  | .iteration _ _ => .foreachStmt
  | .conditional _ _ _ => .ifStmt
  | .inclusion _ => .includeStmt
  | .letBlock _ _ => .letStmt
  | .multiclass _ _ _ _ => .multiclassStmt
  | .primitiveType _ => .primitiveType
  | .bitsType _ => .bitsType
  | .listType _ => .listType
  | .classType _ => .classType
  | .integer _ _ => .integer
  | .string _ => .string
  | .concatenatedString _ _ => .concatenatedString
  | .code _ => .code
  | .boolean _ => .boolean
  | .uninitialized => .uninitialized
  | .sequence _ => .sequence
  | .listInit _ _ => .listInit
  | .dagInit _ _ => .dagInit
  | .identifier _ _ => .ident
  | .anonymousRecord _ _ => .anonymousRecord
  | .bangOperation _ _ _ _ => .bangOperation
  | .condOperation _ => .condOperation
  | .paste _ _ => .pasteValue
  | .suffixed _ _ => .suffixedValue
  | .name _ _ => .name
  | .templateArgs _ => .templateArgs
  | .templateArg _ _ _ => .templateArg
  | .recordBody _ _ => .recordBody
  | .parentClassList _ => .parentClassList
  | .parentClass _ _ => .parentClass
  | .argList _ => .argList
  | .body _ _ => .body
  | .field _ _ _ _ => .field
  | .letInstruction _ _ _ => .letInstruction
  | .letItem _ _ _ => .letItem
  | .block _ _ => .block
  | .foreachIterator _ _ => .foreachIterator
  | .multiclassBody _ => .multiclassBody
  | .rangeList _ => .rangeList
  | .rangePiece _ _ _ _ => .rangePiece
  | .bitSlice _ => .bitSlice
  | .listSlice _ => .listSlice
  | .fieldAccess _ => .fieldAccess
  | .dagArg _ _ => .dagArg
  | .condClause _ _ => .condClause
  | .typeAscription _ => .typeAscription

namespace Node

variable {node : Node} {view other : View}

theorem Shows.unique (h : node.Shows view) (h' : node.Shows other) : view = other := by
  have hboth := h.symm.trans h'
  simpa using hboth

theorem shows_of_bind {α : Type} {result : Except Fault α} {make : α → View}
    (h : (result >>= fun value => pure (some (make value))) = .ok (some view)) :
    ∃ value, make value = view := by
  cases result with
  | error fault => cases h
  | ok value => exact ⟨value, by simpa [bind, Except.bind, pure, Except.pure] using h⟩

theorem Shows.kind_eq (h : node.Shows view) : node.kind = view.kind := by
  unfold Shows Node.view at h
  dsimp only at h
  split at h
  all_goals first
    | cases h <;> assumption
    | obtain ⟨_, rfl⟩ := shows_of_bind h; assumption

end Node

end TdSyntax
