import ThreeAddress.Fault
import ThreeAddress.Program.Text

/-!
# What checking finds

* `Yield` — what is known of the value of an expression;
* `SemanticCause` — the faults of a program that is well formed as a text, each with its code
  (`SemanticCause.code`) and its wording (`SemanticCause.message`).
-/

namespace ThreeAddress

/-! ### Yields -/

/-- What an expression yields: a value of a type, the result of a call, or something that a fault has
already been reported for. -/
inductive Yield
  | value (type : Ty)
  | call (type : Ty)
  | unknown
deriving DecidableEq

namespace Yield

/-- A yield in words. -/
def text : Yield → String
  | .value type => type.text
  | .call type => "call returning " ++ type.text
  | .unknown => "unknown"

/-- The type, where one is known. -/
def type? : Yield → Option Ty
  | .value type | .call type => some type
  | .unknown => none

/-- Whether nothing is known. -/
def isUnknown : Yield → Bool
  | .unknown => true
  | _ => false

/-- Whether a type is acceptable; what is unknown passes for every type. -/
def resolvesTo (y : Yield) (type : Ty) : Bool :=
  match y with
  | .value t | .call t => t == type
  | .unknown => true

end Yield

/-! ### Causes -/

/-- What can be wrong with a program. -/
inductive SemanticCause
  | reservedName (name : String)
  | redeclared (name : String)
  | takenByGlobal (name : String)
  | functionRedefined (name : String)
  | duplicateParameter (name function : String)
  | undefinedVariable (name : String)
  | undefinedArgument (name : String)
  | functionAsValue (name : String)
  | functionAsArgument (name : String)
  | functionAsTarget (name : String)
  | unassignedVariable (name : String)
  | unassignedArgument (name : String)
  | undeclaredTarget (name : String)
  | constantTarget (name : String)
  | undefinedFunction (name : String)
  | notAFunction (name : String)
  | tooFewArguments (name : String) (expected found : Nat)
  | tooManyArguments (name : String) (expected found : Nat)
  | argumentType (position : Nat) (name : String) (expected : Ty) (found : Yield)
  | returnType (name : String) (expected : Ty) (found : Yield)
  | returnMissing (name : String) (expected : Ty)
  | constantType (name : String) (declared : Ty) (found : Yield)
  | targetType (name : String) (declared : Ty) (found : Yield)
  | operands (op : String) (expected : Ty) (found : Yield)
  | comparedOperands (op : Comparison) (found : Yield)
  | incomparable (op : Equality) (left right : Yield)
  | negatedOperand (found : Yield)
  | invertedOperand (found : Yield)
deriving DecidableEq

namespace SemanticCause

/-- The code of a cause. -/
def code : SemanticCause → FaultCode
  | .reservedName _ => .reservedName
  | .redeclared _ | .takenByGlobal _ => .alreadyDeclared
  | .functionRedefined _ => .functionRedefined
  | .duplicateParameter _ _ => .duplicateParameter
  | .undefinedVariable _ | .undefinedArgument _ => .undefinedVariable
  | .functionAsValue _ | .functionAsArgument _ | .functionAsTarget _ => .functionAsValue
  | .unassignedVariable _ | .unassignedArgument _ => .unassignedVariable
  | .undeclaredTarget _ => .undeclaredTarget
  | .constantTarget _ => .assignmentToConstant
  | .undefinedFunction _ => .undefinedFunction
  | .notAFunction _ => .notAFunction
  | .tooFewArguments _ _ _ => .tooFewArguments
  | .tooManyArguments _ _ _ => .tooManyArguments
  | .argumentType _ _ _ _ => .argumentType
  | .returnType _ _ _ | .returnMissing _ _ => .returnType
  | .constantType _ _ _ | .targetType _ _ _ | .operands _ _ _ | .comparedOperands _ _
  | .incomparable _ _ _ | .negatedOperand _ | .invertedOperand _ => .typeMismatch

/-- A name between single quotation marks. -/
def quoted (name : String) : String := "'" ++ name ++ "'"

/-- The wording of a cause. -/
def message : SemanticCause → String
  | .reservedName name => "Identifier " ++ quoted name ++ " is reserved for generated code"
  | .redeclared name => quoted name ++ " is already declared in this scope"
  | .takenByGlobal name => quoted name ++ " is already declared as a global"
  | .functionRedefined name => "Function " ++ quoted name ++ " is already defined"
  | .duplicateParameter name function =>
    "Duplicate parameter name " ++ quoted name ++ " in function " ++ quoted function
  | .undefinedVariable name => "Undefined variable " ++ quoted name
  | .undefinedArgument name => quoted name ++ " is passed as an argument but was never declared"
  | .functionAsValue name => quoted name ++ " is a function and cannot be used as a value"
  | .functionAsArgument name => quoted name ++ " is passed as an argument but is a function"
  | .functionAsTarget name => "Cannot assign to function " ++ quoted name
  | .unassignedVariable name => "Variable " ++ quoted name ++ " is used before it was assigned a value"
  | .unassignedArgument name => quoted name ++ " is passed as an argument but was never assigned"
  | .undeclaredTarget name => quoted name ++ " is assigned but was not previously declared"
  | .constantTarget name => "Cannot assign to constant " ++ quoted name
  | .undefinedFunction name => "Undefined function " ++ quoted name
  | .notAFunction name => quoted name ++ " is not a function"
  | .tooFewArguments name expected found =>
    "Too few arguments for " ++ quoted name ++ ": expected " ++ toString expected ++ ", found " ++
      toString found
  | .tooManyArguments name expected found =>
    "Too many arguments for " ++ quoted name ++ ": expected " ++ toString expected ++ ", found " ++
      toString found
  | .argumentType position name expected found =>
    "Argument " ++ toString position ++ " of " ++ quoted name ++ " expects " ++ expected.text ++
      ", found " ++ found.text
  | .returnType name expected found =>
    "Function " ++ quoted name ++ " returns " ++ expected.text ++ " but its return expression is " ++
      found.text
  | .returnMissing name expected =>
    "Function " ++ quoted name ++ " must return a value of type " ++ expected.text
  | .constantType name declared found =>
    "Constant " ++ quoted name ++ " is declared as " ++ declared.text ++ " but its value is " ++
      found.text
  | .targetType name declared found =>
    "Cannot assign " ++ found.text ++ " to " ++ quoted name ++ " of type " ++ declared.text
  | .operands op expected found =>
    "Operator " ++ quoted op ++ " requires " ++ expected.text ++ " operands, found " ++ found.text
  | .comparedOperands op found =>
    "Comparison " ++ quoted op.text ++ " requires integer operands, found " ++ found.text
  | .incomparable op left right =>
    "Cannot compare " ++ left.text ++ " and " ++ right.text ++ " with " ++ quoted op.text
  | .negatedOperand found => "Unary '-' requires an integer operand, found " ++ found.text
  | .invertedOperand found => "Operator '!' requires a boolean operand, found " ++ found.text

/-- The fault that a cause is at some place. -/
def fault (cause : SemanticCause) (span : Span) (hint : String) : Fault :=
  ⟨cause.code, cause.message, span, some hint⟩

end SemanticCause

end ThreeAddress
