import TdSyntax.Include.Access

/-!
# Arguments

The arguments name a subcommand, one file and options.  Options come before or
after the file; those of one letter can be written together, and the last of
them can be followed by its value, with or without an equality sign.  After two
dashes everything is a file.

Arguments are read from left to right up to the first that is wrong or asks for
help or for the version.
-/

namespace TdSyntax.Command

inductive Subcommand where
  | parse
  | tokens
  | check
  deriving DecidableEq, Repr

namespace Subcommand

def all : List Subcommand := [.parse, .tokens, .check]

def name : Subcommand → String
  | .parse => "parse"
  | .tokens => "tokens"
  | .check => "check"

def ofName? (name : Text) : Option Subcommand :=
  all.find? fun subcommand => subcommand.name.toList == name

end Subcommand

inductive HelpTopic where
  | program
  | subcommand (subcommand : Subcommand)
  | help
  deriving DecidableEq, Repr

inductive Request where
  | parse (path : Path)
  | tokens (path : Path)
  | check (path : Path) (search : IncludeSearch)
  | help (topic : HelpTopic)
  | version
  deriving DecidableEq, Repr

structure Invocation where
  request : Request
  verbosity : Nat
  deriving DecidableEq, Repr

inductive UsageError where
  | noArguments
  | missingSubcommand
  | unknownSubcommand (name : Text)
  | missingFile
  | unexpected (argument : Text)
  | missingValue (option : String)
  deriving DecidableEq, Repr

def UsageError.message : UsageError → String
  | .noArguments => "a subcommand is required"
  | .missingSubcommand => "a subcommand is required"
  | .unknownSubcommand name => "unrecognized subcommand '" ++ String.ofList name ++ "'"
  | .missingFile => "the argument <PATH> is required"
  | .unexpected argument => "unexpected argument '" ++ String.ofList argument ++ "' found"
  | .missingValue option => "a value is required for '" ++ option ++ "'"

/-- What has been read.  `outer` is the verbosity asked for before the subcommand,
which holds only if none is asked for behind it. -/
structure Given where
  subcommand : Option Subcommand
  outer : Nat
  verbosity : Nat
  file : Option Path
  directories : List Path
  deriving DecidableEq, Repr

namespace Given

def empty : Given := ⟨none, 0, 0, none, []⟩

def louder (given : Given) : Given := { given with verbosity := given.verbosity + 1 }

def addDirectory (given : Given) (directory : Text) : Given :=
  { given with directories := given.directories ++ [⟨directory⟩] }

def takesDirectories (given : Given) : Bool := given.subcommand == some .check

def takesVersion (given : Given) : Bool := given.subcommand.isNone

def topic (given : Given) : HelpTopic :=
  match given.subcommand with
  | none => .program
  | some subcommand => .subcommand subcommand

def ask (given : Given) (request : Request) : Invocation :=
  ⟨request, if given.verbosity = 0 then given.outer else given.verbosity⟩

def complete (given : Given) : Except UsageError Invocation :=
  match given.subcommand, given.file with
  | none, _ => .error .missingSubcommand
  | some _, none => .error .missingFile
  | some .parse, some path => .ok (given.ask (.parse path))
  | some .tokens, some path => .ok (given.ask (.tokens path))
  | some .check, some path => .ok (given.ask (.check path ⟨given.directories⟩))

def operand (given : Given) (argument : Text) : Except UsageError Given :=
  match given.subcommand, given.file with
  | none, _ => .error (.unknownSubcommand argument)
  | some _, none => .ok { given with file := some ⟨argument⟩ }
  | some _, some _ => .error (.unexpected argument)

end Given

/-- What reading an option leads to: the next argument, a value that is still to
come, or an answer that needs no more arguments. -/
inductive OptionOutcome where
  | read (given : Given)
  | wanting (given : Given)
  | settled (request : Request)
  deriving DecidableEq, Repr

def readLetters (given : Given) : Text → Except UsageError OptionOutcome
  | [] => .ok (.read given)
  | 'v' :: rest => readLetters given.louder rest
  | 'h' :: _ => .ok (.settled (.help given.topic))
  | letter :: rest =>
      if letter = 'V' ∧ given.takesVersion then .ok (.settled .version)
      else if letter = 'I' ∧ given.takesDirectories then
        match rest with
        | [] => .ok (.wanting given)
        | '=' :: value => .ok (.read (given.addDirectory value))
        | value => .ok (.read (given.addDirectory value))
      else .error (.unexpected ['-', letter])

def readWord (given : Given) (word : Text) : Except UsageError OptionOutcome :=
  let name := String.ofList (word.takeWhile (· ≠ '='))
  let value := (word.dropWhile (· ≠ '=')).tail?
  match name, value with
  | "verbose", none => .ok (.read given.louder)
  | "help", none => .ok (.settled (.help given.topic))
  | "version", none =>
      if given.takesVersion then .ok (.settled .version) else .error (.unexpected word)
  | "include-dir", value =>
      if given.takesDirectories then
        match value with
        | none => .ok (.wanting given)
        | some directory => .ok (.read (given.addDirectory directory))
      else .error (.unexpected word)
  | _, _ => .error (.unexpected word)

def readOption? (given : Given) : Text → Option (Except UsageError OptionOutcome)
  | '-' :: '-' :: word => some (readWord given word)
  | '-' :: letter :: rest => some (readLetters given (letter :: rest))
  | _ => none

def isHelp (argument : Text) : Bool := argument == "help".toList

def readTopic : List Text → Except UsageError HelpTopic
  | [] => .ok .program
  | name :: rest => do
      let topic ← match Subcommand.ofName? name with
        | some subcommand => pure (.subcommand subcommand)
        | none => if isHelp name then pure .help else throw (.unknownSubcommand name)
      match rest with
      | [] => pure topic
      | other :: _ => throw (.unknownSubcommand other)

def readArguments (given : Given) : List Text → Except UsageError Invocation
  | [] => given.complete
  | argument :: rest =>
      if argument = ['-', '-'] then do
        let given ← rest.foldlM Given.operand given
        given.complete
      else
        match readOption? given argument with
        | some outcome => do
            match ← outcome, rest with
            | .settled request, _ => pure (given.ask request)
            | .read given, rest => readArguments given rest
            | .wanting _, [] => throw (.missingValue "--include-dir")
            | .wanting given, value :: rest =>
                if (readOption? given value).isSome then throw (.missingValue "--include-dir")
                else readArguments (given.addDirectory value) rest
        | none =>
            match given.subcommand, Subcommand.ofName? argument with
            | none, some subcommand =>
                readArguments ⟨some subcommand, given.verbosity, 0, none, []⟩ rest
            | none, none =>
                if isHelp argument then do pure (given.ask (.help (← readTopic rest)))
                else .error (.unknownSubcommand argument)
            | some _, _ => do readArguments (← given.operand argument) rest

namespace Invocation

def ofArguments (arguments : List Text) : Except UsageError Invocation :=
  if arguments.isEmpty then .error .noArguments else readArguments .empty arguments

end Invocation

end TdSyntax.Command
