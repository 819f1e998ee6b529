import ThreeAddress.Program

/-!
# Trees as text

Every node has a text form, the one shown in hints.  Operators stand between blanks, a call's
arguments after commas, and a nested block is abbreviated to three dots.

* `Expr.text`, `Cond.text`, `Decl.text`, `Param.text` write the node in full;
* `Stmt.text`, `Func.text`, `Program.text` abbreviate the blocks they hold;
* `Block.text` — one line a statement, and `skip;` for an empty block.
-/

namespace ThreeAddress

/-- A block that is not written out. -/
def elidedBlock : String := "\x7b ... \x7d"

/-- A type as written. -/
def Ty.text : Ty → String
  | .integer => "integer"
  | .boolean => "boolean"
  | .void => "void"

/-! ### Operators -/

/-- The sign of an arithmetic operator. -/
def ArithOp.text : ArithOp → String
  | .plus => "+"
  | .minus => "-"

/-- The sign of a connective. -/
def Connective.text : Connective → String
  | .and => "&&"
  | .or => "||"

/-- The sign of a comparison. -/
def Comparison.text : Comparison → String
  | .less => "<"
  | .greater => ">"
  | .lessEqual => "<="
  | .greaterEqual => ">="

/-- The sign of an equality. -/
def Equality.text : Equality → String
  | .equal => "=="
  | .notEqual => "!="

/-- Two texts around an operator. -/
def binaryText (left op right : String) : String := left ++ " " ++ op ++ " " ++ right

/-! ### Expressions and conditions -/

/-- A truth value as written. -/
def boolText : Bool → String
  | true => "true"
  | false => "false"

/-- A name or a numeral as written. -/
def Atom.text : Atom → String
  | .name id => id
  | .number digits => digits

/-- A fragment as written. -/
def Fragment.text : Fragment → String
  | .atom true operand => "-" ++ operand.text
  | .atom false operand => operand.text
  | .not id => "!" ++ id
  | .zero => "0"
  | .bool value => boolText value

/-- A call as written. -/
def Call.text (c : Call) : String :=
  c.name ++ "(" ++ ", ".intercalate (c.args.map (·.atom.text)) ++ ")"

/-- An expression as written. -/
def Expr.text : Expr → String
  | .arith op left right _ => binaryText left.text op.text right.text
  | .logic op left right _ => binaryText left.text op.text right.text
  | .paren inner _ => "(" ++ inner.text ++ ")"
  | .call c _ => c.text
  | .fragment f _ => f.text

/-- A condition as written. -/
def Cond.text : Cond → String
  | .comparison op left right _ => binaryText left.text op.text right.text
  | .equality op left right _ => binaryText left.text op.text right.text
  | .neg inner _ => "!" ++ inner.text
  | .paren inner _ => "(" ++ inner.text ++ ")"
  | .binary op left right _ => binaryText left.text op.text right.text
  | .bool value _ => boolText value

/-! ### Statements, declarations and programs -/

/-- An assignment as written. -/
def assignmentText (target : String) (value : Expr) : String := target ++ " = " ++ value.text ++ ";"

/-- A statement on one line. -/
def Stmt.text : Stmt → String
  | .assign target value _ _ => assignmentText target value
  | .ite cond _ _ _ => "if " ++ cond.text ++ " " ++ elidedBlock ++ " else " ++ elidedBlock
  | .loop cond _ _ => "while " ++ cond.text ++ " " ++ elidedBlock
  | .call c _ => c.text ++ ";"
  | .block _ _ => elidedBlock
  | .skip _ => "skip;"

/-- The statements of a block, indented, one a line. -/
def Block.text (b : Block) : String :=
  match b.nodes with
  | [] => "skip;"
  | stmts => "\n".intercalate (stmts.map fun s => "    " ++ s.text)

/-- A declaration as written. -/
def Decl.text : Decl → String
  | .var name type _ => "var " ++ name ++ ": " ++ type.text ++ ";"
  | .const name type value _ => "const " ++ name ++ ": " ++ type.text ++ " = " ++ value.text ++ ";"

/-- A parameter as written. -/
def Param.text (p : Param) : String := p.name ++ ": " ++ p.type.text

/-- The head of a function. -/
def Func.text (f : Func) : String :=
  f.returnType.text ++ " " ++ f.name ++ "(" ++ ", ".intercalate (f.params.map Param.text) ++ ")"

/-- The outline of a program. -/
def Program.text (p : Program) : String :=
  String.join (p.decls.map fun d => d.text ++ "\n") ++
    String.join (p.funcs.map fun f => f.text ++ " " ++ elidedBlock ++ "\n") ++
    "main " ++ elidedBlock

end ThreeAddress
