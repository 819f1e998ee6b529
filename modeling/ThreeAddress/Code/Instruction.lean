import ThreeAddress.Program.Text

/-!
# Three-address code

* `Operator` — the binary operators of the code, one for each operator of the language;
* `Rvalue` — the right-hand side of an assignment, a predicate or a returned value;
* `Instruction` — one line of code;
* `codeText` — a program as text, one instruction a line.
-/

namespace ThreeAddress

/-! ### Operators -/

/-- The binary operators. -/
inductive Operator
  | arith (op : ArithOp)
  | logic (op : Connective)
  | order (op : Comparison)
  | same (op : Equality)
deriving DecidableEq

/-- The sign of an operator, the one that it has in the language. -/
def Operator.text : Operator → String
  | .arith op => op.text
  | .logic op => op.text
  | .order op => op.text
  | .same op => op.text

/-! ### Right-hand sides -/

/-- What can be assigned: an atom, one operation on atoms, or the result of a call whose arguments
have been passed already. -/
inductive Rvalue
  | atom (text : String)
  | binary (left : String) (op : Operator) (right : String)
  | call (name : String) (count : Nat)
  | not (operand : String)
deriving DecidableEq

namespace Rvalue

/-- A right-hand side as written. -/
def text : Rvalue → String
  | .atom text => text
  | .binary left op right => binaryText left op.text right
  | .call name count => "call " ++ name ++ ", " ++ toString count
  | .not operand => "!" ++ operand

/-- The atom, if there is no operation. -/
def atom? : Rvalue → Option String
  | .atom text => some text
  | _ => none

end Rvalue

/-! ### Instructions -/

/-- One line of code. -/
inductive Instruction
  | label (name : String)
  | assign (dest : String) (value : Rvalue)
  | ifz (cond : Rvalue) (target : String)
  | goto (target : String)
  | param (value : String)
  | call (name : String) (count : Nat)
  | getparam (dest : String) (index : Nat)
  | ret (value : Option Rvalue)
deriving DecidableEq

namespace Instruction

/-- An instruction as written. -/
def text : Instruction → String
  | .label name => name ++ ":"
  | .assign dest value => dest ++ " = " ++ value.text
  | .ifz cond target => "ifz " ++ cond.text ++ " goto " ++ target
  | .goto target => "goto " ++ target
  | .param value => "param " ++ value
  | .call name count => "call " ++ name ++ ", " ++ toString count
  | .getparam dest index => dest ++ " = getparam " ++ toString index
  | .ret none => "return"
  | .ret (some value) => "return " ++ value.text

/-- The name that an instruction stores into. -/
def dest? : Instruction → Option String
  | .assign dest _ | .getparam dest _ => some dest
  | _ => none

/-- Whether an instruction is a label. -/
def isLabel : Instruction → Bool
  | .label _ => true
  | _ => false

end Instruction

/-- Code as text: one instruction a line. -/
def codeText (code : List Instruction) : String :=
  String.join (code.map fun i => i.text ++ "\n")

end ThreeAddress
