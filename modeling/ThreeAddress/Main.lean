import ThreeAddress.Command.Access
import ThreeAddress.Command.Arguments
import ThreeAddress.Report.Render

/-!
# The command line

* `Script.perform` — the run of a script on the actual files and streams;
* `main` — the command.
-/

namespace ThreeAddress

/-- The number that the system gave a failure; some calls deliver it negated. -/
def systemNumber? : IO.Error → Option Nat
  | .noFileOrDirectory _ code _ | .permissionDenied _ code _ | .inappropriateType _ code _
  | .invalidArgument _ code _ | .resourceExhausted _ code _ => some (min code (0 - code)).toNat
  | _ => none

/-- The reason of a failure as the system words it. -/
def failureText (error : IO.Error) : String :=
  match (systemNumber? error).bind AccessFailure.ofNumber? with
  | some failure => failure.message
  | none => toString error

/-- Read a file as a text, or say why that fails. -/
def readText (path : String) : IO (Except String String) := do
  try
    match String.fromUTF8? (← IO.FS.readBinFile path) with
    | some text => return .ok text
    | none => return .error AccessFailure.notText.message
  catch error => return .error (failureText error)

/-- Write a text to a file; if that fails, say why. -/
def writeText (path text : String) : IO (Option String) := do
  try
    IO.FS.withFile path .write fun file => do
      file.putStr text
      file.flush
    return none
  catch error => return some (failureText error)

/-- Run a script. -/
def Script.perform : Script → IO UInt32
  | .print text next => do
    IO.print text
    next.perform
  | .complain text next => do
    IO.eprint text
    next.perform
  | .read path next => do (next (← readText path.display)).perform
  | .write path text next => do (next (← writeText path.display text)).perform
  | .exit code => return code.toUInt32

end ThreeAddress

/-- Run the command. -/
def main (args : List String) : IO UInt32 := ((ThreeAddress.Request.ofArgs args).script (some ·.draw)).perform
