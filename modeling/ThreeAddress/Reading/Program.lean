import ThreeAddress.Reading.Statement
import ThreeAddress.Token.Scan

/-!
# Reading functions and programs

* `Func.read` — a function; its body ends with the only `return` allowed;
* `Main.read` — the main part;
* `Program.read` — global declarations, functions, the main part, and nothing behind it;
* `Program.ofLexemes`, `Program.ofSource` — the same from a token list and from a text.
-/

namespace ThreeAddress

/-! ### Parameters -/

/-- A parameter and its type. -/
def Param.read (c : Cursor) : Outcome 1 c Param :=
  (c.expectName "parameter name").andThen fun (name, start) c₁ _ =>
  (c₁.expect (.mark .colon) "':' after parameter name").andThen fun _ c₂ _ =>
  (Ty.read c₂).andThen fun type c₃ _ =>
  c₃.give ⟨name, type, c₃.spanFrom start⟩

/-- The parameters before a closing parenthesis; there may be none. -/
def Param.readAll (c : Cursor) : Outcome 0 c (List Param) :=
  if c.next? = some (.mark .rightParen) then c.give []
  else (c.commaList Param.read).weaken

/-! ### Functions and the main part -/

/-- The value of a return, if there is one before the closing parenthesis. -/
def Expr.readReturned (c : Cursor) : Outcome 0 c (Option Expr) :=
  if c.next? = some (.mark .rightParen) then c.give none
  else ((Expr.read c).map some).weaken

/-- A function.  The span of its body ends before the `return`. -/
def Func.read (c : Cursor) : Outcome 1 c Func :=
  let start := c.here
  (Ty.read c).andThen fun returnType c₁ _ =>
  (c₁.expectName "function name").andThen fun (name, _) c₂ _ =>
  (c₂.expect (.mark .leftParen) "'(' after function name").andThen fun _ c₃ _ =>
  (Param.readAll c₃).andThen fun params c₄ _ =>
  (c₄.expect (.mark .rightParen) "')' after parameters").andThen fun _ c₅ _ =>
  (c₅.expect (.mark .leftBrace) "'\x7b' before function body").andThen fun bodyStart c₆ _ =>
  (Decl.readAll c₆).andThen fun decls c₇ _ =>
  (Stmt.readAll c₇).andThen fun stmts c₈ _ =>
  let body : Block := ⟨stmts, c₈.spanFrom bodyStart⟩
  (c₈.expect (.word .ret) "'return' at the end of the function body").andThen fun _ c₉ _ =>
  (c₉.expect (.mark .leftParen) "'(' after 'return'").andThen fun _ c₁₀ _ =>
  (Expr.readReturned c₁₀).andThen fun returnValue c₁₁ _ =>
  (c₁₁.expect (.mark .rightParen) "')' after return value").andThen fun _ c₁₂ _ =>
  (c₁₂.expect (.mark .semicolon) "';' after return").andThen fun _ c₁₃ _ =>
  (c₁₃.expect (.mark .rightBrace) "'\x7d' after return").andThen fun _ c₁₄ _ =>
  c₁₄.give ⟨name, params, decls, body, returnType, returnValue, c₁₄.spanFrom start⟩

/-- The main part.  It holds no `return`. -/
def Main.read (c : Cursor) : Outcome 1 c Main :=
  if c.next? ≠ some (.word .main) then c.fail (.missingMain c.next?)
  else
    (c.expect (.word .main) "'main'").andThen fun start c₁ _ =>
    (c₁.expect (.mark .leftBrace) "'\x7b' after 'main'").andThen fun bodyStart c₂ _ =>
    (Decl.readAll c₂).andThen fun decls c₃ _ =>
    (Stmt.readAll c₃).andThen fun stmts c₄ _ =>
    if c₄.next? = some (.word .ret) then c₄.fail .returnInMain
    else
      ((c₄.expect (.mark .rightBrace) "'\x7d' after main body").andThen fun _ c₅ _ =>
      c₅.give ⟨decls, ⟨stmts, c₅.spanFrom bodyStart⟩, c₅.spanFrom start⟩).weaken

/-! ### Programs -/

namespace Program

/-- A whole program. -/
def read (c : Cursor) : Outcome 0 c Program :=
  (Decl.readAll c).andThen fun decls c₁ _ =>
  (c₁.many Token.isType c₁.size (fun d _ => Func.read d) c₁.size_le_size).andThen fun funcs c₂ _ =>
  (Main.read c₂).weaken.andThen fun main c₃ _ =>
  match c₃.next? with
  | some found => c₃.fail (.afterMain found)
  | none => c₃.give ⟨decls, funcs, main⟩

/-- The program that a token list spells. -/
def ofLexemes (ls : List Lexeme) : Except Fault Program := (read (.ofLexemes ls)).result

/-- The program that a text spells. -/
def ofSource (source : String) : Except Fault Program := do
  ofLexemes (← tokenize source)

end Program

end ThreeAddress
