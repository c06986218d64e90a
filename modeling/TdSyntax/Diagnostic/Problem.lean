import TdSyntax.Include.Error
import TdSyntax.Kind.Class
import TdSyntax.Text.Quoted
import TdSyntax.Token.Directive

/-!
# Problems

What can be wrong with a source file, by cause.  Every problem has a severity,
belongs to the stage that can notice it and has a single wording.
-/

namespace TdSyntax

inductive Severity where
  | warning
  | error
  deriving DecidableEq, Repr

def Severity.label : Severity → String
  | .warning => "warning"
  | .error => "error"

/-- The stage that notices a problem: the lexer, the grammar, the restriction of
some statements to certain places, or the search for included files. -/
inductive Stage where
  | lexical
  | grammatical
  | structural
  | inclusion
  deriving DecidableEq, Repr

def Stage.all : List Stage := [.lexical, .grammatical, .structural, .inclusion]

def Stage.label : Stage → String
  | .lexical => "Lexical"
  | .grammatical => "Syntax"
  | .structural => "Structural"
  | .inclusion => "Include"

/-- What the grammar asks for where a text goes on differently. -/
inductive Expectation where
  | token (kind : Kind)
  | identifier
  | type
  | bitWidth
  | value
  | fieldName
  | condition
  | dagOperator
  | argumentName
  | range
  | templateArgument
  | className
  | recordBody
  | body
  | bodyItem
  | statement
  | statementOrBlock
  | fileName
  deriving DecidableEq, Repr

def Expectation.describe : Expectation → String
  | .token kind => kind.describe
  | .identifier => "an identifier"
  | .type => "a type"
  | .bitWidth => "the bit width"
  | .value => "a value"
  | .fieldName => "a field name"
  | .condition => "a condition"
  | .dagOperator => "a dag operator"
  | .argumentName => "a `$name` after `:`"
  | .range => "a range"
  | .templateArgument => "a template argument"
  | .className => "a class name"
  | .recordBody => "`:`, `;` or `\x7b`"
  | .body => "`;` or `\x7b`"
  | .bodyItem => "a field, `let`, `defvar` or `assert`"
  | .statement => "a statement"
  | .statementOrBlock => "a statement or `\x7b`"
  | .fileName => "a file name string"

inductive Problem where
  | unterminatedComment
  | unterminatedCode
  | unterminatedString
  | invalidEscape
  | unrecognized (c : Char)
  | missingMacroName (directive : Directive)
  | expected (what : Expectation)
  | emptySequence
  | emptyMulticlass
  | missingOperatorName
  | unknownOperator (name : Text)
  | detachedOperator (name : Text)
  | gluedRangeEnd
  | notInMulticlass (keyword : Text)
  | unresolved (error : ResolveError)
  | other (stage : Stage) (severity : Severity) (message : String)
  deriving DecidableEq, Repr

namespace Problem

def stage : Problem → Stage
  | .unterminatedComment | .unterminatedCode | .unterminatedString | .invalidEscape
  | .unrecognized _ | .missingMacroName _ => .lexical
  | .expected _ | .emptySequence | .emptyMulticlass | .missingOperatorName
  | .unknownOperator _ | .detachedOperator _ | .gluedRangeEnd => .grammatical
  | .notInMulticlass _ => .structural
  | .unresolved _ => .inclusion
  | .other stage _ _ => stage

/-- Only a negative literal that is read as the end of a range is let pass. -/
def severity : Problem → Severity
  | .gluedRangeEnd => .warning
  | .other _ severity _ => severity
  | _ => .error

def ticked (text : Text) : String := "`" ++ String.ofList text ++ "`"

def message : Problem → String
  | .unterminatedComment => "unterminated comment"
  | .unterminatedCode => "unterminated code block"
  | .unterminatedString => "unterminated string"
  | .invalidEscape => "invalid escape sequence"
  | .unrecognized c => "unrecognized character " ++ String.ofList (Text.quotedChar c)
  | .missingMacroName directive => "expected a macro name after " ++ ticked directive.word
  | .expected what => "expected " ++ what.describe
  | .emptySequence => "a sequence needs at least one value"
  | .emptyMulticlass => "a multiclass body needs at least one statement"
  | .missingOperatorName => "expected an operator name after `!`"
  | .unknownOperator name => "unknown bang operator " ++ ticked ('!' :: name)
  | .detachedOperator name => "unexpected whitespace between `!` and " ++ ticked name
  | .gluedRangeEnd => "negative literal read as the end of a range; write `a...b` instead"
  | .notInMulticlass keyword => ticked keyword ++ " is not allowed inside a multiclass"
  | .unresolved error => error.message
  | .other _ _ message => message

end Problem

end TdSyntax
