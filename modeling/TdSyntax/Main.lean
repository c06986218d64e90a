import TdSyntax.Command.Run

/-!
# The program

Connects the commands with the file system and the standard streams.
-/

namespace TdSyntax.Command

def readErrorOf : IO.Error → ReadError
  | .noFileOrDirectory _ _ _ => .missing
  | error => .other (toString error)

def realFiles : FileAccess IO where
  read path := do
    if path.text.contains '\x00' then return .error .zeroInName
    try
      let bytes ← IO.FS.readBinFile path.toString
      match String.fromUTF8? bytes with
      | some text => return .ok text.toList
      | none => return .error .notUtf8
    catch error => return .error (readErrorOf error)
  canonical? path := do
    if path.text.contains '\x00' then return none
    try
      return some (Path.ofString (← IO.FS.realPath path.toString).toString)
    catch _ => return none

def logLine (event : LogEvent) : String :=
  event.level.label ++ " " ++ event.target ++ ": " ++ event.message

end TdSyntax.Command

open TdSyntax TdSyntax.Command in
def main (arguments : List String) : IO UInt32 := do
  match ← (run realFiles Path.maxCount (arguments.map String.toList)).run with
  | .error fault =>
      IO.eprintln (fault.message?.getD "internal fault")
      return 101
  | .ok outcome =>
      for event in outcome.log do
        IO.eprintln (logLine event)
      IO.print (String.ofList outcome.output)
      for report in outcome.reports do
        IO.eprintln ("\n".intercalate report.lines)
      return UInt32.ofNat outcome.status.code
