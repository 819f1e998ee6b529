import ThreeAddress.Span

/-!
# Faults, warnings and findings

What the compiler has to say about a source.

* `FaultCode` — the kinds of faults; the number tells the stage (below 100 lexical, 100 to 199 syntactic,
  200 and more semantic);
* `Fault` — one fault: its code, its message, the place and perhaps a hint;
* `Warning` — something unused, which does not stop compilation;
* `Findings` — everything found in one source.
-/

namespace ThreeAddress

/-! ### Codes -/

/-- The kinds of faults. -/
inductive FaultCode
  | invalidCharacter
  | unterminatedComment
  | unexpectedToken
  | unexpectedEnd
  | expectedStatement
  | expectedExpression
  | expectedIdentifier
  | expectedType
  | expectedCondition
  | expectedMain
  | undefinedVariable
  | alreadyDeclared
  | assignmentToConstant
  | unassignedVariable
  | undeclaredTarget
  | reservedName
  | typeMismatch
  | functionAsValue
  | undefinedFunction
  | functionRedefined
  | tooFewArguments
  | tooManyArguments
  | argumentType
  | returnType
  | notAFunction
  | duplicateParameter
deriving DecidableEq

namespace FaultCode

/-- All codes, in ascending order of their numbers. -/
def all : List FaultCode :=
  [.invalidCharacter, .unterminatedComment, .unexpectedToken, .unexpectedEnd, .expectedStatement,
    .expectedExpression, .expectedIdentifier, .expectedType, .expectedCondition, .expectedMain,
    .undefinedVariable, .alreadyDeclared, .assignmentToConstant, .unassignedVariable,
    .undeclaredTarget, .reservedName, .typeMismatch, .functionAsValue, .undefinedFunction,
    .functionRedefined, .tooFewArguments, .tooManyArguments, .argumentType, .returnType,
    .notAFunction, .duplicateParameter]

/-- The number of a code. -/
def number : FaultCode → Nat
  | .invalidCharacter => 1
  | .unterminatedComment => 2
  | .unexpectedToken => 100
  | .unexpectedEnd => 101
  | .expectedStatement => 102
  | .expectedExpression => 103
  | .expectedIdentifier => 105
  | .expectedType => 106
  | .expectedCondition => 107
  | .expectedMain => 108
  | .undefinedVariable => 200
  | .alreadyDeclared => 201
  | .assignmentToConstant => 202
  | .unassignedVariable => 203
  | .undeclaredTarget => 204
  | .reservedName => 205
  | .typeMismatch => 210
  | .functionAsValue => 211
  | .undefinedFunction => 220
  | .functionRedefined => 221
  | .tooFewArguments => 222
  | .tooManyArguments => 223
  | .argumentType => 224
  | .returnType => 225
  | .notAFunction => 226
  | .duplicateParameter => 227

/-- Faults found by the checks on a whole tree are numbered from 200 on. -/
def isSemantic (c : FaultCode) : Bool := 200 ≤ c.number

/-- A code as shown: the letter and three digits. -/
def text (c : FaultCode) : String :=
  let digits := toString c.number
  "E" ++ String.ofList (List.replicate (3 - digits.length) '0') ++ digits

end FaultCode

/-- The kinds of warnings. -/
inductive WarningCode
  | neverAssigned
  | neverUsed
deriving DecidableEq

/-- A warning code as shown. -/
def WarningCode.text : WarningCode → String
  | .neverAssigned => "W001"
  | .neverUsed => "W002"

/-! ### Diagnostics -/

/-- One fault of a source. -/
structure Fault where
  code : FaultCode
  message : String
  span : Span
  hint : Option String
deriving DecidableEq

/-- The text of a fault on one line. -/
def Fault.text (f : Fault) : String := "[" ++ f.code.text ++ "] " ++ f.message

/-- A remark that does not stop compilation. -/
structure Warning where
  code : WarningCode
  message : String
  span : Span
deriving DecidableEq

/-- The text of a warning on one line. -/
def Warning.text (w : Warning) : String := "[" ++ w.code.text ++ "] " ++ w.message

/-- All that was found in a source, faults and warnings each in the order of their discovery. -/
structure Findings where
  faults : List Fault
  warnings : List Warning
deriving DecidableEq

namespace Findings

/-- The findings that consist of a single fault. -/
def single (f : Fault) : Findings := ⟨[f], []⟩

/-- Only faults stand against a source. -/
def isClean (r : Findings) : Bool := r.faults.isEmpty

/-- The summary that is given when a source is refused. -/
def summary (r : Findings) : String :=
  "compilation failed with " ++ toString r.faults.length ++ " error(s)"

/-- The number of faults with a given code. -/
def count (r : Findings) (c : FaultCode) : Nat := r.faults.countP (·.code == c)

/-- Whether some fault has a given code. -/
def contains (r : Findings) (c : FaultCode) : Bool := r.faults.any (·.code == c)

end Findings

end ThreeAddress
