import ThreeAddress.Proofs.BodyRuns

/-!
# What stands where in a body

The code of a body has a rename table that grows with its declarations.  Whatever is collected from the
expressions and statements of a body comes with the table under which its code is made.

* `Cond.exprs`, `Stmt.exprs` — the expressions in conditions and statements;
* `Body.table` — the names of a body, as its statements have them;
* `Body.along` — what is collected along a body, each time with the table at that place;
* `Program.code_along` — what holds of the code of all bodies holds of that of a program.
-/

namespace ThreeAddress

/-! ### Expressions in statements -/

/-- The expressions in a condition. -/
def Cond.exprs : Cond → List Expr
  | .comparison _ left right _ | .equality _ left right _ => [left, right]
  | .neg inner _ | .paren inner _ => inner.exprs
  | .binary _ left right _ => left.exprs ++ right.exprs
  | .bool _ _ => []

mutual

/-- The expressions in a statement.  The arguments of a call are no expressions. -/
def Stmt.exprs : Stmt → List Expr
  | .assign _ value _ _ => [value]
  | .ite cond thenBlock elseBlock _ => cond.exprs ++ (Block.exprs thenBlock ++ Block.exprs elseBlock)
  | .loop cond body _ => cond.exprs ++ Block.exprs body
  | .block inner _ => Block.exprs inner
  | .call _ _ | .skip _ => []

/-- The expressions in a block. -/
def Block.exprs : Block → List Expr
  | ⟨stmts, _⟩ => Stmt.exprsOfList stmts

/-- The expressions in statements in order. -/
def Stmt.exprsOfList : List Stmt → List Expr
  | [] => []
  | s :: more => s.exprs ++ Stmt.exprsOfList more

end

/-! ### Along a body -/

section Along

variable {α : Type} (ofExpr : Expr → List α)

/-- What is collected from the value of a declaration. -/
def Decl.collect : Decl → List α
  | .var _ _ _ => []
  | .const _ _ value _ => ofExpr value

/-- What is collected along local declarations.  A value does not see the name it is given to. -/
def Decl.along : RenameTable → List Decl → List (RenameTable × α)
  | _, [] => []
  | t, d :: more => (d.collect ofExpr).map (t, ·) ++ Decl.along (t.insert d.name) more

namespace Body

/-- The parameters of a body, as its declarations have them. -/
def paramTable (b : Body) (ordinal : Nat) : RenameTable :=
  (RenameTable.empty ordinal).insertAll (b.params.map (·.name))

/-- The names of a body, as its statements have them. -/
def table (b : Body) (ordinal : Nat) : RenameTable := (RenameTable.empty ordinal).insertAll b.scope

theorem table_eq (b : Body) (ordinal : Nat) :
    b.table ordinal = (b.paramTable ordinal).insertAll (b.decls.map (·.name)) := by
  rw [table, paramTable, scope, RenameTable.insertAll, RenameTable.insertAll, RenameTable.insertAll,
    List.foldl_append]

theorem ordinal_paramTable (b : Body) (ordinal : Nat) : (b.paramTable ordinal).ordinal = ordinal :=
  RenameTable.ordinal_insertAll _ _

theorem ordinal_table (b : Body) (ordinal : Nat) : (b.table ordinal).ordinal = ordinal :=
  RenameTable.ordinal_insertAll _ _

/-- A parameter has its local name once all parameters are declared. -/
theorem resolve_param (b : Body) (ordinal : Nat) {q : Param} (hq : q ∈ b.params) :
    (b.paramTable ordinal).resolve q.name = localText q.name ordinal := by
  have hcovers : (b.paramTable ordinal).Covers (b.params.map (·.name)) := RenameTable.covers_insertAll ordinal _
  rw [hcovers.resolve (List.mem_map_of_mem hq), ordinal_paramTable]

theorem resolve_params (b : Body) (ordinal : Nat) : b.params.map (fun q => (b.paramTable ordinal).resolve q.name) =
    (b.params.map (·.name)).map (localText · ordinal) := by
  rw [List.map_map]
  exact List.map_congr_left fun q hq => b.resolve_param ordinal hq

/-- What is collected along a body: from the global constants, which see no local name, from the local
declarations, from the statements, and from the returned value. -/
def along (ofStmts : List Stmt → List α) (b : Body) (ordinal : Nat) : List (RenameTable × α) :=
  (b.constants.flatMap (Decl.collect ofExpr)).map (.empty ordinal, ·) ++
    (Decl.along ofExpr (b.paramTable ordinal) b.decls ++
      (ofStmts b.block.nodes ++ b.result.toList.flatMap ofExpr).map (b.table ordinal, ·))

end Body

end Along

/-! ### Along a program -/

/-- **Along a program.**  If some relation holds between the code of each routine and what is collected from its body,
and the relation respects appending, it holds between the code of the program and what is collected from all bodies. -/
theorem Program.code_along {α : Type} (p : Program) {R : List Instruction → List α → Prop} {F : Body → Nat → List α}
    (hnil : R [] []) (happend : ∀ {c d xs ys}, R c xs → R d ys → R (c ++ d) (xs ++ ys))
    (hfunc : ∀ (f : Func) (g : Generator), R (.label f.name :: (f.lowerWithin.run g).record) (F f.asBody g.names.ordinal))
    (hmain : ∀ g, R (.label "main" :: (p.lowerMainWithin.run g).record) (F p.mainBody g.names.ordinal)) :
    R p.code ((p.bodies.zipIdx 1).flatMap fun bi => F bi.1 bi.2) := by
  have hfuncs (fs : List Func) (g : Generator) : R (Func.codeOf fs g)
      (((fs.map Func.asBody).zipIdx g.names.ordinal).flatMap fun bi => F bi.1 bi.2) := by
    induction fs generalizing g with
    | nil => exact hnil
    | cons f more ih =>
      have hfirst : R (f.lower.run g).record (F f.asBody g.names.ordinal) := by
        rw [f.run_lower]
        exact hfunc f g
      have hmore := ih (f.lower.run g).state
      rw [f.ordinal_lower] at hmore
      rw [Func.codeOf_cons, List.map_cons, List.zipIdx_cons, List.flatMap_cons]
      exact happend hfirst hmore
  have hlast := hmain (Generator.first.behind p.funcs)
  rw [Generator.ordinal_behind] at hlast
  rw [p.code_eq, bodies, List.zipIdx_append, List.flatMap_append, List.length_map]
  refine happend (hfuncs p.funcs .first) ?_
  rw [List.zipIdx_singleton, List.flatMap_singleton]
  exact hlast

end ThreeAddress
