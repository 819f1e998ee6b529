import ThreeAddress.Reading.Expression

/-!
# Reading statements and declarations

* `Ty.read`, `Decl.readVar`, `Decl.readConst` — a type and the two kinds of declarations;
* `Decl.readAll` — declarations as long as `var` or `const` follows;
* `Stmt.read` — one statement; `Block.read` — statements between braces;
* `Stmt.readAll` — statements up to a closing brace, a `return` or the end.
-/

namespace ThreeAddress

/-! ### Declarations -/

/-- The type that a token names. -/
def Ty.ofToken? : Token → Option Ty
  | .word .integer => some .integer
  | .word .boolean => some .boolean
  | .word .void => some .void
  | _ => none

/-- The name of a type. -/
def Ty.read (c : Cursor) : Outcome 1 c Ty :=
  (c.takeIf Ty.ofToken? .type "type").map (·.1)

namespace Decl

/-- The declaration of a variable. -/
def readVar (c : Cursor) : Outcome 1 c Decl :=
  (c.expect (.word .var) "'var'").andThen fun start c₁ _ =>
  (c₁.expectName "variable name after 'var'").andThen fun (name, _) c₂ _ =>
  (c₂.expect (.mark .colon) "':' after variable name").andThen fun _ c₃ _ =>
  (Ty.read c₃).andThen fun type c₄ _ =>
  (c₄.expect (.mark .semicolon) "';' after variable declaration").andThen fun _ c₅ _ =>
  c₅.give (.var name type (c₅.spanFrom start))

/-- The declaration of a constant. -/
def readConst (c : Cursor) : Outcome 1 c Decl :=
  (c.expect (.word .const) "'const'").andThen fun start c₁ _ =>
  (c₁.expectName "constant name after 'const'").andThen fun (name, _) c₂ _ =>
  (c₂.expect (.mark .colon) "':' after constant name").andThen fun _ c₃ _ =>
  (Ty.read c₃).andThen fun type c₄ _ =>
  (c₄.expect (.mark .assign) "'=' in constant declaration").andThen fun _ c₅ _ =>
  (Expr.read c₅).andThen fun value c₆ _ =>
  (c₆.expect (.mark .semicolon) "';' after constant declaration").andThen fun _ c₇ _ =>
  c₇.give (.const name type value (c₇.spanFrom start))

/-- The declaration that the next token announces. -/
def read (c : Cursor) : Outcome 1 c Decl :=
  if c.next? = some (.word .const) then readConst c else readVar c

/-- Whether a token announces a declaration. -/
def starts : Token → Bool
  | .word .var | .word .const => true
  | _ => false

/-- Declarations as long as they follow. -/
def readAll (c : Cursor) : Outcome 0 c (List Decl) :=
  c.many starts c.size (fun d _ => read d) c.size_le_size

end Decl

/-! ### Statements -/

/-- Whether a token does not end a sequence of statements. -/
def Stmt.goesOn : Token → Bool
  | .mark .rightBrace | .word .ret => false
  | _ => true

/-- The statement that starts with a name: an assignment or a call. -/
def Stmt.readNamed (c : Cursor) : Outcome 1 c Stmt :=
  (c.expectName "identifier").andThen fun (name, start) c₁ _ =>
  match c₁.next? with
  | some (.mark .assign) =>
    ((c₁.expect (.mark .assign) "'='").andThen fun _ c₂ _ =>
    (Expr.read c₂).andThen fun value c₃ _ =>
    (c₃.expect (.mark .semicolon) "';' after assignment").andThen fun _ c₄ _ =>
    let span := c₄.spanFrom start
    c₄.give (.assign name value span span)).weaken
  | some (.mark .leftParen) =>
    ((Call.readFrom name start c₁).andThen fun call c₂ _ =>
    (c₂.expect (.mark .semicolon) "';' after function call").andThen fun _ c₃ _ =>
    c₃.give (.call call (c₃.spanFrom start))).weaken
  | _ => c₁.fail (.neitherAssignedNorCalled name)

/-- The statement that does nothing. -/
def Stmt.readSkip (c : Cursor) : Outcome 1 c Stmt :=
  (c.expect (.word .skip) "'skip'").andThen fun start c₁ _ =>
  (c₁.expect (.mark .semicolon) "';' after 'skip'").andThen fun _ c₂ _ =>
  c₂.give (.skip (c₂.spanFrom start))

mutual

/-- Statements up to a closing brace, a `return` or the end. -/
def Stmt.readAll (c : Cursor) : Outcome 0 c (List Stmt) :=
  c.many Stmt.goesOn c.size (fun d _ => Stmt.read d) c.size_le_size
termination_by 4 * c.size + 3
decreasing_by all_goals omega

/-- One statement. -/
def Stmt.read (c : Cursor) : Outcome 1 c Stmt :=
  match c.next? with
  | some (.word .ite) => Stmt.readIte c
  | some (.word .loop) => Stmt.readLoop c
  | some (.word .skip) => Stmt.readSkip c
  | some (.mark .leftBrace) => (Block.read c).map fun block => .block block block.span
  | some (.identifier _) => Stmt.readNamed c
  | some (.word .var) | some (.word .const) => c.fail .lateDeclaration
  | _ => c.lacks .statement "statement"
termination_by 4 * c.size + 2
decreasing_by all_goals omega

/-- A choice between two blocks; neither may be missing. -/
def Stmt.readIte (c : Cursor) : Outcome 1 c Stmt :=
  (c.expect (.word .ite) "'if'").andThen fun start c₁ _ =>
  (Cond.read c₁).andThen fun cond c₂ _ =>
  (Block.read c₂).andThen fun thenBlock c₃ _ =>
  (c₃.expect (.word .otherwise) "'else' after if block").andThen fun _ c₄ _ =>
  (Block.read c₄).map fun elseBlock =>
  .ite cond thenBlock elseBlock (start.merge elseBlock.span)
termination_by 4 * c.size + 1
decreasing_by all_goals omega

/-- A repeated block. -/
def Stmt.readLoop (c : Cursor) : Outcome 1 c Stmt :=
  (c.expect (.word .loop) "'while'").andThen fun start c₁ _ =>
  (Cond.read c₁).andThen fun cond c₂ _ =>
  (Block.read c₂).map fun body =>
  .loop cond body (start.merge body.span)
termination_by 4 * c.size + 1
decreasing_by all_goals omega

/-- Statements between braces. -/
def Block.read (c : Cursor) : Outcome 1 c Block :=
  (c.expect (.mark .leftBrace) "'\x7b'").andThen fun start c₁ _ =>
  (Stmt.readAll c₁).andThen fun stmts c₂ _ =>
  if c₂.next? = some (.word .ret) then c₂.fail .returnInBlock
  else
    ((c₂.expect (.mark .rightBrace) "'\x7d' after block").andThen fun _ c₃ _ =>
    c₃.give ⟨stmts, c₃.spanFrom start⟩).weaken
termination_by 4 * c.size
decreasing_by all_goals omega

end

end ThreeAddress
