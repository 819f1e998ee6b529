import ThreeAddress.Proofs.CompiledRuns
import ThreeAddress.Proofs.StructuredCode

/-!
# The code of bodies is structured

Expressions are lowered to straight code, conditions to straight code with skips, and statements to choices and
loops.  What is left of a body is its label in front and one instruction behind.

* `Emit.Structures` — a pass emits structured code;
* `Stmt.lower_structures` — the code of statements is that of their loops;
* `Func.lowerWithin_structured`, `Program.lowerMainWithin_structured` — the code of the bodies;
* `Program.labels_jumps` — a program jumps once to each of its numbered labels.
-/

namespace ThreeAddress

open NameSupply (labelName)

/-! ### Passes that emit structured code -/

/-- A pass that emits the structured code of some loops. -/
def Emit.Structures {α : Type} (p : Emit α) (ls : List Stmt) : Prop := ∀ g, Structured ls (p.run g).record

namespace Emit.Structures

variable {α β : Type} {ls ms : List Stmt}

/-- A pass that emits nothing. -/
theorem silent {p : Emit α} (hp : ∀ g, (p.run g).record = []) : Emit.Structures p [] := by
  intro g
  rw [hp g]
  exact .nil

theorem pure (a : α) : Emit.Structures (Pure.pure a) [] := silent fun _ => rfl

theorem tell {i : Instruction} (hi : i.isPlain = true) : Emit.Structures (Pass.tell i) [] := fun _ => .plain hi

theorem bind {p : Emit α} {f : α → Emit β} (hp : Emit.Structures p ls) (hf : ∀ a, Emit.Structures (f a) ms) :
    Emit.Structures (p >>= f) (ls ++ ms) := fun g => (hp g).append (hf _ _)

theorem atomOf (r : Rvalue) : Emit.Structures (Emit.atomOf r) [] := by
  unfold Emit.atomOf
  split
  · exact pure _
  · exact bind (silent fun _ => rfl) fun _ => bind (tell rfl) fun _ => pure _

theorem forM {f : β → Emit Unit} (hf : ∀ b, Emit.Structures (f b) []) (bs : List β) :
    Emit.Structures (bs.forM f) [] := by
  induction bs with
  | nil => exact pure _
  | cons b more ih => exact (hf b).bind fun _ => ih

theorem mapM {f : β → Emit α} (hf : ∀ b, Emit.Structures (f b) []) (bs : List β) :
    Emit.Structures (bs.mapM f) [] := by
  induction bs with
  | nil =>
    rw [List.mapM_nil]
    exact pure _
  | cons b more ih =>
    rw [List.mapM_cons]
    exact (hf b).bind fun _ => ih.bind fun _ => pure _

theorem foldlM {f : α → β → Emit α} (hf : ∀ a b, Emit.Structures (f a b) []) (bs : List β) (a : α) :
    Emit.Structures (bs.foldlM f a) [] := by
  induction bs generalizing a with
  | nil => exact pure _
  | cons b more ih => exact (hf a b).bind fun a' => ih a'

end Emit.Structures

open Emit (Structures)

section Lower

variable (t : RenameTable)

/-! ### Expressions and conditions -/

theorem Operand.lower_structures (o : Operand) : Structures (o.lower t) [] := by
  cases o with
  | call c => exact (Structures.forM (fun _ => .tell rfl) _).bind fun _ => .pure _
  | fragment f => exact .pure _

theorem Operand.lowerAtom_structures (o : Operand) : Structures (o.lowerAtom t) [] :=
  (o.lower_structures t).bind fun _ => .atomOf _

theorem foldAtoms_structures (left : String) (more : List (Operator × String)) :
    Structures (foldAtoms left more) [] := by
  induction more generalizing left with
  | nil => exact .pure _
  | cons x more ih => exact (Structures.atomOf _).bind fun result => ih result

theorem Expr.lower_structures (e : Expr) : Structures (e.lower t) [] := by
  unfold Expr.lower
  split
  · exact Operand.lower_structures t _
  · refine (Operand.lowerAtom_structures t _).bind fun head => (Structures.mapM (fun x => ?_) _).bind fun tail => ?_
    · exact (x.2.lowerAtom_structures t).bind fun _ => .pure _
    · split
      · exact .pure _
      · exact (foldAtoms_structures _ _).bind fun _ => .pure _

theorem Expr.lowerAtom_structures (e : Expr) : Structures (e.lowerAtom t) [] :=
  (e.lower_structures t).bind fun _ => .atomOf _

/-- Storing a predicate skips one assignment. -/
theorem flagOf_structures (predicate : Rvalue) : Structures (flagOf predicate) [] := by
  intro g
  exact .append (.plain (i := .assign _ _) rfl) (.skip (.plain (i := .assign _ _) rfl))

theorem combineFlags_structures (first : String) (more : List (Connective × String)) :
    Structures (combineFlags first more) [] := by
  induction more generalizing first with
  | nil => exact .pure _
  | cons x more ih =>
    exact (ih x.2).bind fun _ => Structures.bind (.silent fun _ => rfl) fun _ => (Structures.tell rfl).bind
      fun _ => .pure _

theorem Cond.lowerFlags_structures (c : Cond) : Structures (c.lowerFlags t) [] := by
  induction c with
  | comparison op l r s =>
    exact (l.lowerAtom_structures t).bind fun _ => (r.lowerAtom_structures t).bind fun _ =>
      (flagOf_structures _).bind fun _ => .pure _
  | equality op l r s =>
    exact (l.lowerAtom_structures t).bind fun _ => (r.lowerAtom_structures t).bind fun _ =>
      (flagOf_structures _).bind fun _ => .pure _
  | neg c s ih =>
    exact ih.bind fun _ => (combineFlags_structures _ _).bind fun _ => (flagOf_structures _).bind fun _ => .pure _
  | paren c s ih => exact ih
  | binary op l r s ihl ihr => exact ihl.bind fun _ => ihr.bind fun _ => .pure _
  | bool b s => exact (flagOf_structures _).bind fun _ => .pure _

theorem Cond.lower_structures (c : Cond) : Structures (c.lower t) [] :=
  (c.lowerFlags_structures t).bind fun _ => (combineFlags_structures _ _).bind fun _ => .pure _

/-! ### Statements -/

/-- **Statements.**  Their code is structured, and its loops are theirs. -/
theorem Stmt.lower_structures :
    (∀ s : Stmt, Structures (s.lower t) s.loops) ∧ ∀ ss, Structures (Stmt.lowerAll t ss) (Stmt.loopsOfList ss) := by
  refine Stmt.parts ?assign ?ite ?loop ?call ?block ?skip ?nil ?cons
  case assign =>
    intro x e a s
    rw [Stmt.lower, Stmt.loops]
    exact (e.lower_structures t).bind fun _ => .tell rfl
  case ite =>
    intro c th el s iht ihe g
    rw [Stmt.record_ite, Stmt.loops, Block.loops, Block.loops]
    have hcond := c.lower_structures t g.behindLabels
    exact hcond.append (.choice (iht _) (ihe _))
  case loop =>
    intro c b s ih g
    have hrecord := Stmt.record_loop t g c b s
    rw [hrecord, Stmt.loops, Block.loops]
    exact .loop (c.lower_structures t _) (ih _) hrecord
  case call =>
    intro c s
    rw [Stmt.lower, Stmt.loops]
    exact (Operand.lower_structures t (.call c)).bind fun _ => .tell rfl
  case block =>
    intro b s ih
    rw [Stmt.lower, Stmt.loops, Block.lower, Block.loops]
    exact ih
  case skip =>
    intro s
    rw [Stmt.lower, Stmt.loops]
    exact .pure _
  case nil =>
    rw [Stmt.lowerAll, Stmt.loopsOfList]
    exact .pure _
  case cons =>
    intro s more ihs ihmore
    rw [Stmt.lowerAll, Stmt.loopsOfList]
    exact ihs.bind fun _ => ihmore

theorem Block.lower_structures (b : Block) : Structures (b.lower t) b.loops := by
  rw [Block.lower, Block.loops]
  exact (Stmt.lower_structures t).2 b.nodes

/-! ### Bodies -/

theorem RenameTable.register_structures (name : String) : Structures (t.register name) [] := .silent fun _ => rfl

theorem Decl.lowerLocal_structures (d : Decl) : Structures (d.lowerLocal t) [] := by
  cases d with
  | var x type s => exact t.register_structures x
  | const x type e s =>
    exact (e.lower_structures t).bind fun _ => (t.register_structures x).bind fun _ =>
      (Structures.tell rfl).bind fun _ => .pure _

theorem Decl.lowerGlobal_structures (d : Decl) : Structures (d.lowerGlobal t) [] := by
  cases d with
  | var x type s => exact .pure _
  | const x type e s => exact (e.lower_structures t).bind fun _ => .tell rfl

theorem fetchParams_structures (index : Nat) (ps : List Param) : Structures (fetchParams t index ps) [] := by
  induction ps generalizing index with
  | nil => exact .pure _
  | cons p more ih => exact (Structures.tell rfl).bind fun _ => ih _

end Lower

theorem Expr.lowerReturned_structures (t : RenameTable) (e : Expr) : Structures (e.lowerReturned t) [] := by
  refine (e.lower_structures t).bind fun v => ?_
  split
  · exact (Structures.atomOf _).bind fun _ => .pure _
  · exact .pure _

theorem Body.lowerStart_structures (b : Body) : Structures b.lowerStart [] := by
  refine Structures.bind (.silent fun _ => rfl) fun _ => ?_
  refine (Structures.forM (Decl.lowerGlobal_structures _) _).bind fun _ => ?_
  refine (Structures.foldlM (fun t p => t.register_structures p.name) _ _).bind fun params => ?_
  exact (fetchParams_structures _ _ _).bind fun _ => .foldlM Decl.lowerLocal_structures _ _

/-- The code of a body is structured if the code behind its statements is, up to its last instruction. -/
theorem Body.lower_structured (b : Body) {finish : RenameTable → Emit Unit} {P : Instruction → Prop}
    (hf : ∀ t g, ∃ c i, ((finish t).run g).record = c ++ [i] ∧ Structured [] c ∧ P i) (g : Generator) :
    ∃ c i, ((b.lower finish).run g).record = c ++ [i] ∧ Structured b.block.loops c ∧ P i := by
  let start := b.lowerStart.run g
  let stmts := (b.block.lower start.value).run start.state
  obtain ⟨c, i, hrecord, hc, hi⟩ := hf start.value stmts.state
  refine ⟨start.record ++ (stmts.record ++ c), i, ?_, ?_, hi⟩
  · show start.record ++ (stmts.record ++ ((finish start.value).run stmts.state).record) = _
    rw [hrecord]
    simp only [List.append_assoc]
  · have hall := (b.lowerStart_structures g).append ((b.block.lower_structures start.value start.state).append hc)
    rwa [List.append_nil] at hall

/-- The code of a function is structured up to its return. -/
theorem Func.lowerWithin_structured (f : Func) (g : Generator) :
    ∃ c v, (f.lowerWithin.run g).record = c ++ [.ret v] ∧ Structured f.body.loops c := by
  have hlast (t : RenameTable) (g : Generator) : ∃ c i, ((lowerReturn t f.returnValue).run g).record = c ++ [i] ∧
      Structured [] c ∧ ∃ v, i = .ret v := by
    cases f.returnValue with
    | none => exact ⟨[], _, rfl, .nil, none, rfl⟩
    | some e => exact ⟨_, _, rfl, e.lowerReturned_structures t g, _, rfl⟩
  obtain ⟨c, i, hrecord, hc, v, rfl⟩ := f.asBody.lower_structured hlast g
  exact ⟨c, v, hrecord, hc⟩

/-- The code of the main part is structured up to the call that ends the program. -/
theorem Program.lowerMainWithin_structured (p : Program) (g : Generator) :
    ∃ c, (p.lowerMainWithin.run g).record = c ++ [.call exitRoutine 0] ∧ Structured p.main.body.loops c := by
  have hlast (g : Generator) : ∃ c i, ((Pass.tell (.call exitRoutine 0) : Emit Unit).run g).record = c ++ [i] ∧
      Structured [] c ∧ i = .call exitRoutine 0 := ⟨[], _, rfl, .nil, rfl⟩
  obtain ⟨c, i, hrecord, hc, rfl⟩ := p.mainBody.lower_structured (fun _ => hlast) g
  exact ⟨c, hrecord, hc⟩

/-! ### Labels and jumps -/

/-- Beside its name, a function defines the labels that it jumps to. -/
theorem Func.labels_jumps (f : Func) (g : Generator) :
    (definedLabels (f.lower.run g).record).Perm (f.name :: jumpTargets (f.lower.run g).record) := by
  obtain ⟨c, v, hrecord, hc⟩ := f.lowerWithin_structured g
  rw [f.run_lower, hrecord]
  show (f.name :: definedLabels (c ++ [.ret v])).Perm (f.name :: jumpTargets (c ++ [.ret v]))
  rw [definedLabels_append, jumpTargets_append]
  exact (hc.jumpTargets.symm.append_right []).cons f.name

theorem Func.codeOf_labels_jumps (fs : List Func) (g : Generator) :
    (definedLabels (Func.codeOf fs g)).Perm (fs.map (·.name) ++ jumpTargets (Func.codeOf fs g)) := by
  induction fs generalizing g with
  | nil => exact .nil
  | cons f more ih =>
    have hfirst := f.labels_jumps g
    have hmore := ih (f.lower.run g).state
    rw [codeOf_cons, definedLabels_append, jumpTargets_append, List.map_cons, List.perm_iff_count]
    intro x
    have h₁ := hfirst.count_eq x
    have h₂ := hmore.count_eq x
    simp only [List.count_append, List.count_cons, List.cons_append] at h₁ h₂ ⊢
    omega

/-- **One jump for each label.**  Beside the names of the bodies, a program defines the labels that it jumps to. -/
theorem Program.labels_jumps (p : Program) :
    (definedLabels p.code).Perm (p.funcs.map (·.name) ++ "main" :: jumpTargets p.code) := by
  obtain ⟨c, hrecord, hc⟩ := p.lowerMainWithin_structured (Generator.first.behind p.funcs)
  have hfuncs := Func.codeOf_labels_jumps p.funcs .first
  rw [p.code_eq, hrecord, definedLabels_append, jumpTargets_append, List.perm_iff_count]
  intro x
  have h₁ := hfuncs.count_eq x
  have h₂ := hc.jumpTargets.count_eq x
  show (_ ++ "main" :: definedLabels (c ++ [.call exitRoutine 0])).count x =
    (_ ++ "main" :: (_ ++ jumpTargets (c ++ [.call exitRoutine 0]))).count x
  rw [definedLabels_append, jumpTargets_append]
  show (_ ++ "main" :: (definedLabels c ++ [])).count x = (_ ++ "main" :: (_ ++ (jumpTargets c ++ []))).count x
  simp only [List.count_append, List.count_cons, List.count_nil] at h₁ h₂ ⊢
  omega

theorem Program.nodup_jumpTargets {p : Program} (h : (definedLabels p.code).Nodup) :
    (jumpTargets p.code).Nodup := by
  rw [p.labels_jumps.nodup_iff, List.nodup_append, List.nodup_cons] at h
  exact h.2.1.2

end ThreeAddress
