import ThreeAddress.Proofs.Occurrences
import ThreeAddress.Proofs.ProgramOutlines

/-!
# The expressions of a program

In a program that is read from a source, the nodes of every expression lie within each other, wherever it stands.

* `Expr.parts` — an expression and all expressions in it;
* `Program.expressions` — all expressions of a program;
* `Outline.Nested.part`, `Outline.Nested.within` — what stands in a node is nested, and lies within it;
* `Program.nested_expressions` — the expressions of a program that is read are nested.
-/

namespace ThreeAddress

/-! ### Parts of nodes -/

namespace Outline

variable {o : Outline} {os : List Outline} {s t : Span}

theorem allNested_iff : AllNested os ↔ ∀ o ∈ os, o.Nested := by
  induction os with
  | nil => simp [AllNested]
  | cons o os ih => rw [AllNested, ih, List.forall_mem_cons]

theorem Nested.part (h : (node s os).Nested) (ho : o ∈ os) : o.Nested := by
  rw [Nested] at h
  exact allNested_iff.1 h.2.2.2 o ho

theorem Nested.within (h : (node s os).Nested) (ho : o ∈ os) (ht : o.span? = some t) : t.Within s := by
  rw [Nested] at h
  exact h.2.1 t (List.mem_filterMap.2 ⟨o, ho, ht⟩)

end Outline

/-! ### Expressions in expressions -/

/-- An expression and all expressions in it. -/
def Expr.parts : Expr → List Expr
  | .arith op left right s => .arith op left right s :: (left.parts ++ right.parts)
  | .logic op left right s => .logic op left right s :: (left.parts ++ right.parts)
  | .paren inner s => .paren inner s :: inner.parts
  | .call c s => [.call c s]
  | .fragment f s => [.fragment f s]

theorem Expr.nested_parts {e part : Expr} (h : e.outline.Nested) (hpart : part ∈ e.parts) : part.outline.Nested := by
  induction e with
  | arith op l r s ihl ihr | logic op l r s ihl ihr =>
    rcases List.mem_cons.1 hpart with rfl | hpart
    · exact h
    · rcases List.mem_append.1 hpart with hpart | hpart
      · exact ihl (h.part (by simp)) hpart
      · exact ihr (h.part (by simp)) hpart
  | paren e s ih =>
    rcases List.mem_cons.1 hpart with rfl | hpart
    · exact h
    · exact ih (h.part (by simp)) hpart
  | call c s | fragment f s =>
    obtain rfl := List.mem_singleton.1 hpart
    exact h

/-! ### Expressions in conditions and statements -/

variable {e : Expr}

theorem Cond.nested_exprs {c : Cond} (h : c.outline.Nested) (he : e ∈ c.exprs) : e.outline.Nested := by
  induction c with
  | comparison op l r s | equality op l r s =>
    obtain rfl | rfl : e = l ∨ e = r := by simpa [exprs] using he
    · exact h.part (by simp)
    · exact h.part (by simp)
  | neg c s ih | paren c s ih => exact ih (h.part (by simp)) he
  | binary op l r s ihl ihr =>
    rcases List.mem_append.1 he with he | he
    · exact ihl (h.part (by simp)) he
    · exact ihr (h.part (by simp)) he
  | bool b s => cases he

theorem Block.allNested_nodes {b : Block} (h : (Block.outline b).Nested) :
    Outline.AllNested (Stmt.outlines b.nodes) := by
  obtain ⟨stmts, s⟩ := b
  rw [Block.outline] at h
  exact Outline.allNested_iff.2 fun o ho => h.part (by simp [ho])

theorem Stmt.nested_exprs_parts : (∀ s : Stmt, s.outline.Nested → ∀ e ∈ s.exprs, e.outline.Nested) ∧
    ∀ ss, Outline.AllNested (Stmt.outlines ss) → ∀ e ∈ Stmt.exprsOfList ss, e.outline.Nested := by
  refine Stmt.parts ?assign ?ite ?loop ?call ?block ?skip ?nil ?cons
  case assign =>
    intro x value a s h e he
    obtain rfl : e = value := by simpa [exprs] using he
    rw [outline] at h
    exact (h.part List.mem_cons_self).part (by simp)
  case ite =>
    intro c th el s iht ihe h e he
    rw [outline] at h
    rw [exprs, Block.exprs, Block.exprs, List.mem_append, List.mem_append] at he
    rcases he with he | he | he
    · exact Cond.nested_exprs (h.part (by simp)) he
    · exact iht (Block.allNested_nodes (h.part (by simp))) e he
    · exact ihe (Block.allNested_nodes (h.part (by simp))) e he
  case loop =>
    intro c b s ih h e he
    rw [outline] at h
    rw [exprs, Block.exprs, List.mem_append] at he
    rcases he with he | he
    · exact Cond.nested_exprs (h.part (by simp)) he
    · exact ih (Block.allNested_nodes (h.part (by simp))) e he
  case call =>
    intro c s _ e he
    cases he
  case block =>
    intro b s ih h e he
    rw [outline] at h
    rw [exprs, Block.exprs] at he
    exact ih (Block.allNested_nodes (h.part (by simp))) e he
  case skip =>
    intro s _ e he
    cases he
  case nil =>
    intro _ e he
    cases he
  case cons =>
    intro s more ihs ihmore h e he
    rw [outlines, Outline.AllNested] at h
    rw [exprsOfList, List.mem_append] at he
    rcases he with he | he
    · exact ihs h.1 e he
    · exact ihmore h.2 e he

/-! ### Expressions in programs -/

/-- The value of a constant. -/
def Decl.exprs : Decl → List Expr := Decl.collect fun e => [e]

/-- The expressions that stand in a program by themselves: values, operands of conditions, results. -/
def Program.outermost (p : Program) : List Expr :=
  p.decls.flatMap Decl.exprs ++
    (p.funcs.flatMap fun f => f.decls.flatMap Decl.exprs ++ (Stmt.exprsOfList f.body.nodes ++ f.returnValue.toList)) ++
    (p.main.decls.flatMap Decl.exprs ++ Stmt.exprsOfList p.main.body.nodes)

/-- All expressions in a program. -/
def Program.expressions (p : Program) : List Expr := p.outermost.flatMap Expr.parts

theorem Decl.nested_exprs {d : Decl} (h : d.outline.Nested) (he : e ∈ d.exprs) : e.outline.Nested := by
  cases d with
  | var x type s => cases he
  | const x type value s =>
    obtain rfl := List.mem_singleton.1 he
    exact h.part (by simp)

/-- The same for declarations and statements that stand in one node. -/
theorem nested_of_node {s : Span} {os : List Outline} {ds : List Decl} {ss : List Stmt}
    (h : (Outline.node s os).Nested) (hds : ∀ d ∈ ds, d.outline ∈ os) (hss : ∀ o ∈ Stmt.outlines ss, o ∈ os)
    (he : e ∈ ds.flatMap Decl.exprs ++ Stmt.exprsOfList ss) : e.outline.Nested := by
  rcases List.mem_append.1 he with he | he
  · obtain ⟨d, hd, he⟩ := List.mem_flatMap.1 he
    exact Decl.nested_exprs (h.part (hds d hd)) he
  · exact Stmt.nested_exprs_parts.2 ss (Outline.allNested_iff.2 fun o ho => h.part (hss o ho)) e he

/-- **Expressions are nested.**  Wherever an expression stands in a program that is read from a source, its nodes lie
within each other. -/
theorem Program.nested_expressions {source : String} {p : Program} (h : ofSource source = .ok p)
    (he : e ∈ p.expressions) : e.outline.Nested := by
  obtain ⟨ls, -, hout⟩ := ofSource_outlined h
  have hnested := Outline.allNested_iff.1 hout.nested
  obtain ⟨outer, houter, he⟩ := List.mem_flatMap.1 he
  refine Expr.nested_parts ?_ he
  rw [outermost, List.mem_append, List.mem_append] at houter
  rcases houter with (houter | houter) | houter
  · obtain ⟨d, hd, houter⟩ := List.mem_flatMap.1 houter
    exact Decl.nested_exprs (hnested _ (List.mem_append_left _ (List.mem_map_of_mem hd))) houter
  · obtain ⟨f, hf, houter⟩ := List.mem_flatMap.1 houter
    have hfunc : f.outline.Nested := hnested _ (by
      exact List.mem_append_right _ (List.mem_append_left _ (List.mem_map_of_mem hf)))
    rw [← List.append_assoc, List.mem_append] at houter
    rcases houter with houter | houter
    · have hbody : f.bodyOutline.Nested := hfunc.part (by simp)
      exact nested_of_node hbody (fun d hd => by simp [List.mem_map_of_mem hd]) (fun o ho => by simp [ho]) houter
    · exact hfunc.part (by simp [List.mem_map_of_mem houter])
  · have hmain : p.main.outline.Nested := hnested _ (by simp [outlines])
    have hbody := hmain.part (List.mem_cons_of_mem _ List.mem_cons_self)
    exact nested_of_node hbody (fun d hd => by simp [List.mem_map_of_mem hd]) (fun o ho => by simp [ho]) houter

end ThreeAddress
