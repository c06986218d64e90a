import TdSyntax.Grammar.Values
import TdSyntax.Proofs.Term.Atom
import TdSyntax.View.Basic

/-!
# Types and values as terms

The abstract syntax of types and values, without any trace of how they are written.
A value is a chain of operands with `#` between them, the last of which may be
missing; an operand is a simple value with any number of suffixes.
-/

namespace TdSyntax.Term

inductive TypeName where
  | primitive (type : PrimitiveType)
  | bits (width : IntegerText)
  | list (element : TypeName)
  | named (name : Name)

inductive RangeMark where
  | ellipsis
  | dash
  deriving DecidableEq, Repr

mutual

inductive Value where
  | operand (base : Operand)
  | paste (left : Operand) (right : Value)
  | openPaste (left : Operand)

inductive Operand where
  | simple (base : Simple)
  | bitSlice (base : Operand) (first : Range) (rest : List Range)
  | listSlice (base : Operand) (first : Range) (rest : List Range)
  | field (base : Operand) (name : Name)

inductive Simple where
  | integer (number : IntegerText)
  | string (content : Text)
  | strings (first second : Text) (rest : List Text)
  | code (content : CodeText)
  | boolean (value : Bool)
  | uninitialized
  | sequence (first : Value) (rest : List Value)
  | list (values : List Value) (type : Option TypeName)
  | dag (operator : DagArg) (args : List DagArg)
  | identifier (name : Name)
  | record (name : Name) (args : List Value)
  | bang (operator : BangOperator) (type : Option TypeName) (first : Value) (rest : List Value)
  | cond (clauses : List Clause)

inductive Range where
  | single (value : Value)
  | span (start : Value) (mark : RangeMark) (stop : Value)

inductive DagArg where
  | plain (value : Value)
  | bound (value : Value) (name : VarName)
  | named (name : VarName)

inductive Clause where
  | mk (condition value : Value)

end

/-! ## What a value takes up

A value goes on as long as the next token fits.  So the token behind it must not be
one that it would take up. -/

def Simple.takesUp (next : Kind) : Simple → Bool
  | .string _ | .strings _ _ _ => next == .doubleQuote
  | .identifier _ | .list _ none => next == .leftAngle
  | _ => false

def startsSuffix (place : ValuePlace) (next : Kind) : Bool :=
  next == .leftBracket || next == .dot || (place == .anywhere && next == .leftBrace)

def Operand.joins (next : Kind) : Operand → Bool
  | .simple base => base.takesUp next
  | _ => false

def Operand.takesUp (place : ValuePlace) (next : Kind) (operand : Operand) : Bool :=
  startsSuffix place next || operand.joins next

def Value.takesUp (place : ValuePlace) (next : Kind) : Value → Bool
  | .operand base => next == .hash || base.takesUp place next
  | .paste _ right => right.takesUp place next
  | .openPaste _ => (Grammar.valueStart place).contains next

def DagArg.takesUp (next : Kind) : DagArg → Bool
  | .plain value => value.takesUp .anywhere next
  | _ => false

/-- Whether an operand may stand in a place: in the name of a record there is neither
a sequence nor a bit slice. -/
def Operand.fits (place : ValuePlace) : Operand → Bool
  | .simple (.sequence _ _) => place == .anywhere
  | .simple _ => true
  | .bitSlice base _ _ => place == .anywhere && base.fits place
  | .listSlice base _ _ | .field base _ => base.fits place

def Value.fits (place : ValuePlace) : Value → Bool
  | .operand base | .openPaste base => base.fits place
  | .paste left right => left.fits place && right.fits place

/-! ## Printing -/

/-- Whether to write a comma behind the operator of a dag where it may be left out. -/
abbrev Layout := DagArg → List DagArg → Bool

def commas (parts : List (List Atom)) : List Atom := [.mark .comma].intercalate parts

@[simp] theorem commas_nil : commas [] = [] := rfl

@[simp] theorem commas_singleton (part : List Atom) : commas [part] = part := by
  simp [commas, List.intercalate]

theorem commas_cons (part : List Atom) (parts : List (List Atom)) (h : parts ≠ []) :
    commas (part :: parts) = (part ++ [.mark .comma]) ++ commas parts := by
  cases parts with
  | nil => exact absurd rfl h
  | cons second parts => simp [commas, List.intercalate]

/-- What is printed between the operator of a dag and its arguments.  The comma is
needed where the operator would go on with the first argument. -/
def behindOperator (layout : Layout) (operator : DagArg) (args : List DagArg)
    (parts : List (List Atom)) : List Atom :=
  if args.isEmpty then []
  else if layout operator args || operator.takesUp (Atom.headKind parts.flatten .eof) then
    [.mark .comma]
  else []

def primitiveKeyword : PrimitiveType → Atom
  | .bit => .mark .bitKw
  | .int => .mark .intKw
  | .string => .mark .stringKw
  | .dag => .mark .dagKw
  | .code => .mark .codeKw

def RangeMark.atom : RangeMark → Atom
  | .ellipsis => .mark .ellipsis
  | .dash => .mark .minus

def TypeName.atoms : TypeName → List Atom
  | .primitive type => [primitiveKeyword type]
  | .bits width => [.mark .bitsKw, .mark .leftAngle, .integer width, .mark .rightAngle]
  | .list element =>
      .mark .listKw :: .mark .leftAngle :: (element.atoms ++ [.mark .rightAngle])
  | .named name => [.name name]

def ascription : Option TypeName → List Atom
  | none => []
  | some type => .mark .leftAngle :: (type.atoms ++ [.mark .rightAngle])

/-! ## The first token of a type or value -/

def TypeName.firstKind : TypeName → Kind
  | .primitive type => (primitiveKeyword type).kind
  | .bits _ => .bitsKw
  | .list _ => .listKw
  | .named _ => .identifier

def booleanKeyword (value : Bool) : Atom := if value then .mark .trueKw else .mark .falseKw

def Simple.firstKind : Simple → Kind
  | .integer _ => .integerLiteral
  | .string _ | .strings _ _ _ => .doubleQuote
  | .code _ => .codeBlock
  | .boolean value => (booleanKeyword value).kind
  | .uninitialized => .question
  | .sequence _ _ => .leftBrace
  | .list _ _ => .leftBracket
  | .dag _ _ => .leftParen
  | .identifier _ | .record _ _ => .identifier
  | .bang _ _ _ _ => .bangOperator
  | .cond _ => .condOperator

def Operand.firstKind : Operand → Kind
  | .simple base => base.firstKind
  | .bitSlice base _ _ | .listSlice base _ _ | .field base _ => base.firstKind

def Value.firstKind : Value → Kind
  | .operand base | .paste base _ | .openPaste base => base.firstKind

def Range.firstKind : Range → Kind
  | .single value | .span value _ _ => value.firstKind

/-! ## The tokens of a value -/

variable (layout : Layout)

mutual

def Value.atoms : Value → List Atom
  | .operand base => base.atoms
  | .paste left right => left.atoms ++ .mark .hash :: right.atoms
  | .openPaste left => left.atoms ++ [.mark .hash]

def Operand.atoms : Operand → List Atom
  | .simple base => base.atoms
  | .bitSlice base first rest =>
      base.atoms ++ .mark .leftBrace ::
        (commas (first.atoms :: Range.atomsAll rest) ++ [.mark .rightBrace])
  | .listSlice base first rest =>
      base.atoms ++ .mark .leftBracket ::
        (commas (first.atoms :: Range.atomsAll rest) ++ [.mark .rightBracket])
  | .field base name => base.atoms ++ [.mark .dot, .name name]

def Simple.atoms : Simple → List Atom
  | .integer number => [.integer number]
  | .string content => [.quoted content]
  | .strings first second rest => .quoted first :: .quoted second :: rest.map .quoted
  | .code content => [.code content]
  | .boolean value => [booleanKeyword value]
  | .uninitialized => [.mark .question]
  | .sequence first rest =>
      .mark .leftBrace :: (commas (first.atoms :: Value.atomsAll rest) ++ [.mark .rightBrace])
  | .list values type =>
      .mark .leftBracket ::
        (commas (Value.atomsAll values) ++ .mark .rightBracket :: ascription type)
  | .dag operator args =>
      .mark .leftParen ::
        (operator.atoms ++ (behindOperator layout operator args (DagArg.atomsAll args) ++
          (commas (DagArg.atomsAll args) ++ [.mark .rightParen])))
  | .identifier name => [.name name]
  | .record name args =>
      .name name :: .mark .leftAngle :: (commas (Value.atomsAll args) ++ [.mark .rightAngle])
  | .bang operator type first rest =>
      .operator operator :: (ascription type ++ .mark .leftParen ::
        (commas (first.atoms :: Value.atomsAll rest) ++ [.mark .rightParen]))
  | .cond clauses =>
      .condOperator :: .mark .leftParen ::
        (commas (Clause.atomsAll clauses) ++ [.mark .rightParen])

def Range.atoms : Range → List Atom
  | .single value => value.atoms
  | .span start mark stop => start.atoms ++ mark.atom :: stop.atoms

def DagArg.atoms : DagArg → List Atom
  | .plain value => value.atoms
  | .bound value name => value.atoms ++ [.mark .colon, .varName name]
  | .named name => [.varName name]

def Clause.atoms : Clause → List Atom
  | .mk condition value => condition.atoms ++ .mark .colon :: value.atoms

def Value.atomsAll : List Value → List (List Atom)
  | [] => []
  | first :: rest => first.atoms :: Value.atomsAll rest

def Range.atomsAll : List Range → List (List Atom)
  | [] => []
  | first :: rest => first.atoms :: Range.atomsAll rest

def DagArg.atomsAll : List DagArg → List (List Atom)
  | [] => []
  | first :: rest => first.atoms :: DagArg.atomsAll rest

def Clause.atomsAll : List Clause → List (List Atom)
  | [] => []
  | first :: rest => first.atoms :: Clause.atomsAll rest

end

end TdSyntax.Term
