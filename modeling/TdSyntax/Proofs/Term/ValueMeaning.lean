import TdSyntax.Proofs.Term.Value
import TdSyntax.Proofs.View.Shown

/-!
# What nodes mean as types and values

A type or a value is read from a node if the views of the node and of the nodes under
it show its parts, and no others.  A node is read as one type or value at most.
-/

namespace TdSyntax

namespace Term

def TypeName.ReadFrom : TypeName → Node → Prop
  | .primitive type, node => node.Shows (.primitiveType (some type))
  | .bits width, node => ∃ inner, node.Shows (.bitsType (some inner)) ∧
      inner.Shows (.integer width.text (IntegerLiteral.value? width.text))
  | .list element, node => ∃ inner, node.Shows (.listType (some inner)) ∧ element.ReadFrom inner
  | .named name, node => ∃ token, node.Shows (.classType (some token)) ∧
      token.text = .ok name.text

def RangeMark.separator : RangeMark → RangeSeparator
  | .ellipsis => .ellipsis
  | .dash => .dash

/-- The integer that a value is, if it is a literal that fits. -/
def Value.integer? : Value → Option Int
  | .operand (.simple (.integer number)) => IntegerLiteral.value? number.text
  | _ => none

def Range.bounds? : Range → Option (Int × Int)
  | .single value => value.integer?.map fun number => (number, number)
  | .span start _ stop => start.integer?.bind fun first => stop.integer?.map (first, ·)

mutual

def Value.ReadFrom : Value → Node → Prop
  | .operand base, node => base.ReadFrom node
  | .paste left right, node => ∃ first second,
      node.Shows (.paste (some first) (some second)) ∧ left.ReadFrom first ∧
        right.ReadFrom second
  | .openPaste left, node => ∃ first, node.Shows (.paste (some first) none) ∧
      left.ReadFrom first

def Operand.ReadFrom : Operand → Node → Prop
  | .simple base, node => base.ReadFrom node
  | .bitSlice base first rest, node => ∃ inner suffix list piece pieces,
      node.Shows (.suffixed (some inner) (some suffix)) ∧ base.ReadFrom inner ∧
        suffix.Shows (.bitSlice (some list)) ∧ list.Shows (.rangeList (piece :: pieces)) ∧
        first.ReadFrom piece ∧ Range.ReadFromAll rest pieces
  | .listSlice base first rest, node => ∃ inner suffix list piece pieces,
      node.Shows (.suffixed (some inner) (some suffix)) ∧ base.ReadFrom inner ∧
        suffix.Shows (.listSlice (some list)) ∧ list.Shows (.rangeList (piece :: pieces)) ∧
        first.ReadFrom piece ∧ Range.ReadFromAll rest pieces
  | .field base name, node => ∃ inner suffix token,
      node.Shows (.suffixed (some inner) (some suffix)) ∧ base.ReadFrom inner ∧
        suffix.Shows (.fieldAccess (some token)) ∧ token.text = .ok name.text

def Simple.ReadFrom : Simple → Node → Prop
  | .integer number, node => node.Shows (.integer number.text (IntegerLiteral.value? number.text))
  | .string content, node => node.Shows (.string content)
  | .strings first second rest, node => ∃ parts,
      node.Shows (.concatenatedString parts (first ++ (second ++ rest.flatten))) ∧
        List.Forall₂ (fun content part => part.Shows (.string content))
          (first :: second :: rest) parts
  | .code content, node => node.Shows (.code content.text)
  | .boolean value, node => node.Shows (.boolean value)
  | .uninitialized, node => node.Shows .uninitialized
  | .sequence first rest, node => ∃ inner others, node.Shows (.sequence (inner :: others)) ∧
      first.ReadFrom inner ∧ Value.ReadFromAll rest others
  | .list values type, node => ∃ inner ascribed, node.Shows (.listInit inner ascribed) ∧
      Value.ReadFromAll values inner ∧ Option.Rel TypeName.ReadFrom type ascribed
  | .dag operator args, node => ∃ inner others, node.Shows (.dagInit (some inner) others) ∧
      operator.ReadFrom inner ∧ DagArg.ReadFromAll args others
  | .identifier name, node => ∃ token, node.Shows (.identifier (some token) name.text) ∧
      token.text = .ok name.text
  | .record name args, node => ∃ token list inner,
      node.Shows (.anonymousRecord (some token) (some list)) ∧ token.text = .ok name.text ∧
        list.Shows (.argList inner) ∧ Value.ReadFromAll args inner
  | .bang operator type first rest, node => ∃ token ascribed inner others,
      node.Shows (.bangOperation (some token) (some operator) ascribed (inner :: others)) ∧
        Option.Rel TypeName.ReadFrom type ascribed ∧ first.ReadFrom inner ∧
        Value.ReadFromAll rest others
  | .cond clauses, node => ∃ inner, node.Shows (.condOperation inner) ∧
      Clause.ReadFromAll clauses inner

def Range.ReadFrom : Range → Node → Prop
  | .single value, node => ∃ inner,
      node.Shows (.rangePiece (some inner) none none (Range.single value).bounds?) ∧
        value.ReadFrom inner
  | .span start mark stop, node => ∃ first last,
      node.Shows (.rangePiece (some first) (some last) (some mark.separator)
        (Range.span start mark stop).bounds?) ∧
        start.ReadFrom first ∧ stop.ReadFrom last

def DagArg.ReadFrom : DagArg → Node → Prop
  | .plain value, node => ∃ inner, node.Shows (.dagArg (some inner) none) ∧ value.ReadFrom inner
  | .bound value name, node => ∃ inner token, node.Shows (.dagArg (some inner) (some token)) ∧
      value.ReadFrom inner ∧ token.text = .ok ('$' :: name.text)
  | .named name, node => ∃ token, node.Shows (.dagArg none (some token)) ∧
      token.text = .ok ('$' :: name.text)

def Clause.ReadFrom : Clause → Node → Prop
  | .mk condition value, node => ∃ first second,
      node.Shows (.condClause (some first) (some second)) ∧ condition.ReadFrom first ∧
        value.ReadFrom second

def Value.ReadFromAll : List Value → List Node → Prop
  | [], nodes => nodes = []
  | first :: rest, nodes => ∃ node others, nodes = node :: others ∧ first.ReadFrom node ∧
      Value.ReadFromAll rest others

def Range.ReadFromAll : List Range → List Node → Prop
  | [], nodes => nodes = []
  | first :: rest, nodes => ∃ node others, nodes = node :: others ∧ first.ReadFrom node ∧
      Range.ReadFromAll rest others

def DagArg.ReadFromAll : List DagArg → List Node → Prop
  | [], nodes => nodes = []
  | first :: rest, nodes => ∃ node others, nodes = node :: others ∧ first.ReadFrom node ∧
      DagArg.ReadFromAll rest others

def Clause.ReadFromAll : List Clause → List Node → Prop
  | [], nodes => nodes = []
  | first :: rest, nodes => ∃ node others, nodes = node :: others ∧ first.ReadFrom node ∧
      Clause.ReadFromAll rest others

end

end Term

end TdSyntax
