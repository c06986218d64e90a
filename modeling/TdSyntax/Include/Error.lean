import TdSyntax.Include.Path

/-!
# Failures to read a file

Why a file cannot be read, and why an included file cannot be had.  A file that
is missing in one directory may be found in another; any other failure to read
it ends the search.
-/

namespace TdSyntax

inductive ReadError where
  | missing
  | zeroInName
  | nameTooLong
  | notDirectory
  | isDirectory
  | tooManyLinks
  | notUtf8
  | other (reason : String)
  deriving DecidableEq, Repr

def ReadError.message : ReadError → String
  | .missing => "No such file or directory (os error 2)"
  | .zeroInName => "file name contained an unexpected NUL byte"
  | .nameTooLong => "File name too long (os error 36)"
  | .notDirectory => "Not a directory (os error 20)"
  | .isDirectory => "Is a directory (os error 21)"
  | .tooManyLinks => "Too many levels of symbolic links (os error 40)"
  | .notUtf8 => "stream did not contain valid UTF-8"
  | .other reason => reason

inductive ResolveError where
  | notFound (name : Text)
  | unreadable (path : Path) (cause : ReadError)
  deriving DecidableEq, Repr

namespace ResolveError

def title : ResolveError → String
  | .notFound name => "could not find include file `" ++ String.ofList name ++ "`"
  | .unreadable path _ => "could not read `" ++ path.toString ++ "`"

def cause? : ResolveError → Option ReadError
  | .notFound _ => none
  | .unreadable _ cause => some cause

def message (error : ResolveError) : String :=
  match error.cause? with
  | none => error.title
  | some cause => error.title ++ ": " ++ cause.message

end ResolveError

end TdSyntax
