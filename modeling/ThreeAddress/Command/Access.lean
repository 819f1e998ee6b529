/-!
# Failures of access

* `AccessFailure` — why a file cannot be read or written;
* `AccessFailure.message` — the reason as the system words it, with the system's number for it.
-/

namespace ThreeAddress

/-- Why a path cannot be read or written. -/
inductive AccessFailure
  | missing
  | denied
  | notDirectory
  | isDirectory
  | noSpace
  | nameTooLong
  | notText
deriving DecidableEq

namespace AccessFailure

/-- The wording of a failure. -/
def reason : AccessFailure → String
  | .missing => "No such file or directory"
  | .denied => "Permission denied"
  | .notDirectory => "Not a directory"
  | .isDirectory => "Is a directory"
  | .noSpace => "No space left on device"
  | .nameTooLong => "File name too long"
  | .notText => "stream did not contain valid UTF-8"

/-- The number that the system gives a failure.  That bytes are no text is not for the system to say. -/
def number? : AccessFailure → Option Nat
  | .missing => some 2
  | .denied => some 13
  | .notDirectory => some 20
  | .isDirectory => some 21
  | .noSpace => some 28
  | .nameTooLong => some 36
  | .notText => none

/-- The failure of a number. -/
def ofNumber? (n : Nat) : Option AccessFailure :=
  [missing, denied, notDirectory, isDirectory, noSpace, nameTooLong].find? (·.number? == some n)

/-- A failure as it is told. -/
def message (f : AccessFailure) : String :=
  match f.number? with
  | some n => f.reason ++ " (os error " ++ toString n ++ ")"
  | none => f.reason

end AccessFailure

end ThreeAddress
