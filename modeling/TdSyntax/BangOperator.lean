import TdSyntax.Text.Basic

/-!
# Bang operators

The closed set of operators that are written as `!` and a name.  The
conditional operator `!cond` is not one of them: its arguments have a form of
their own.
-/

namespace TdSyntax

inductive BangOperator where
  | add | and | cast | con | dag | div | empty | eq | existsRecord | filter | find
  | foldl | foreach | ge | getDagOp | getOp | gt | head | ifThenElse | interleave | isa
  | le | listConcat | listRemove | listSplat | logTwo | lt | mul | ne | not | or
  | setDagOp | setOp | shl | size | sra | srl | strConcat | sub | subst | substr | tail
  | toLower | toUpper | xor
  deriving DecidableEq, Repr

namespace BangOperator

def all : List BangOperator :=
  [.add, .and, .cast, .con, .dag, .div, .empty, .eq, .existsRecord, .filter, .find,
    .foldl, .foreach, .ge, .getDagOp, .getOp, .gt, .head, .ifThenElse, .interleave,
    .isa, .le, .listConcat, .listRemove, .listSplat, .logTwo, .lt, .mul, .ne, .not,
    .or, .setDagOp, .setOp, .shl, .size, .sra, .srl, .strConcat, .sub, .subst, .substr,
    .tail, .toLower, .toUpper, .xor]

def name : BangOperator → String
  | .add => "add"
  | .and => "and"
  | .cast => "cast"
  | .con => "con"
  | .dag => "dag"
  | .div => "div"
  | .empty => "empty"
  | .eq => "eq"
  | .existsRecord => "exists"
  | .filter => "filter"
  | .find => "find"
  | .foldl => "foldl"
  | .foreach => "foreach"
  | .ge => "ge"
  | .getDagOp => "getdagop"
  | .getOp => "getop"
  | .gt => "gt"
  | .head => "head"
  | .ifThenElse => "if"
  | .interleave => "interleave"
  | .isa => "isa"
  | .le => "le"
  | .listConcat => "listconcat"
  | .listRemove => "listremove"
  | .listSplat => "listsplat"
  | .logTwo => "logtwo"
  | .lt => "lt"
  | .mul => "mul"
  | .ne => "ne"
  | .not => "not"
  | .or => "or"
  | .setDagOp => "setdagop"
  | .setOp => "setop"
  | .shl => "shl"
  | .size => "size"
  | .sra => "sra"
  | .srl => "srl"
  | .strConcat => "strconcat"
  | .sub => "sub"
  | .subst => "subst"
  | .substr => "substr"
  | .tail => "tail"
  | .toLower => "tolower"
  | .toUpper => "toupper"
  | .xor => "xor"

def ofName? (name : String) : Option BangOperator :=
  all.find? fun operator => operator.name == name

def spelling (operator : BangOperator) : String := "!" ++ operator.name

theorem mem_all (operator : BangOperator) : operator ∈ all := by
  cases operator <;> decide

theorem ofName?_name (operator : BangOperator) : ofName? operator.name = some operator := by
  cases operator <;> decide

end BangOperator

end TdSyntax
