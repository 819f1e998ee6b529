import ThreeAddress.Checking.Analyzer
import ThreeAddress.Proofs.Inspections
import ThreeAddress.Proofs.Leaves

/-!
# The walk of an analyser

An analyser that walks through a program finds what checking the program finds, and comes to the same table.

* `Walk.Follows` — a walk comes to the value, the table and the faults of a check;
* `Walk.Reports` — a walk comes to the table and the faults of a check, and keeps the warnings that it gives;
* `Stmt.walk_follows`, `Func.walk_reports` — the parts of a program;
* `Program.run_analyzeWith` — a program, from any analyser.
-/

namespace ThreeAddress

variable {α β γ : Type}

/-! ### Walks and checks -/

/-- A walk comes to the value and the table of a check, and keeps its faults. -/
def Walk.Follows (w : Walk α) (p : Check α) : Prop :=
  ∀ a, (w.run a).value = (p.run a.symbols).value ∧
    (w.run a).state = ⟨(p.run a.symbols).state, a.faults ++ (p.run a.symbols).record, a.warnings⟩

namespace Walk.Follows

theorem pure (x : α) : Walk.Follows (Pure.pure x) (Pure.pure x) := fun _ => ⟨rfl, by simp⟩

/-- One step after another. -/
theorem bind {w : Walk α} {p : Check α} {f : α → Walk β} {q : α → Check β} (h : Walk.Follows w p)
    (hf : ∀ x, Walk.Follows (f x) (q x)) : Walk.Follows (w >>= f) (p >>= q) := by
  intro a
  obtain ⟨hvalue, hstate⟩ := h a
  obtain ⟨hvalue', hstate'⟩ := hf (p.run a.symbols).value (w.run a).state
  rw [Pass.run_bind, Pass.run_bind, hvalue]
  refine ⟨hvalue'.trans ?_, hstate'.trans ?_⟩
  · rw [hstate]
  · rw [hstate, List.append_assoc]

/-- A walk that starts with a look at the table. -/
theorem symbols {f : SymbolTable → Walk α} {q : SymbolTable → Check α} (hf : ∀ s, Walk.Follows (f s) (q s)) :
    Walk.Follows (Walk.symbols >>= f) (Pass.get >>= q) := fun a => hf a.symbols a

/-- A check that only looks. -/
theorem inspect {p : Check α} (hp : p.Looks) : Walk.Follows (Walk.inspect p) p := by
  refine fun a => ⟨rfl, ?_⟩
  rw [hp a.symbols]
  rfl

/-- A change of the table. -/
theorem change (f : SymbolTable → SymbolTable) : Walk.Follows (Walk.change f) (Pass.modify f) :=
  fun _ => ⟨rfl, congrArg (Analyzer.mk _ · _) (List.append_nil _).symm⟩

theorem forM {f : β → Walk Unit} {q : β → Check Unit} (hf : ∀ b, Walk.Follows (f b) (q b)) (bs : List β) :
    Walk.Follows (bs.forM f) (bs.forM q) := by
  induction bs with
  | nil => exact pure ()
  | cons b more ih => exact (hf b).bind fun _ => ih

end Walk.Follows

open Walk (Follows)

/-! ### Expressions and conditions -/

theorem Call.walk_follows (c : Call) : Follows c.walk c.check := by
  refine .symbols fun s => ?_
  rcases (s.lookupGlobal? c.name).map Entity.kind with _ | (type | ⟨result, params⟩)
  · exact (Follows.inspect (.report _ _ _)).bind fun _ => .pure _
  · exact (Follows.inspect (.report _ _ _)).bind fun _ => .pure _
  · refine (Follows.inspect (.require _ _ _ _)).bind fun _ => (Follows.inspect (.require _ _ _ _)).bind fun _ => ?_
    refine (Follows.change _).bind fun _ => ?_
    refine (Follows.inspect (.mapM (Argument.check_looks _) _)).bind fun yields => ?_
    by_cases hcount : c.args.length = params.length
    · rw [if_pos hcount, if_pos hcount]
      exact (Follows.inspect (checkArguments_looks _ _ _ _)).bind fun _ => .pure _
    · rw [if_neg hcount, if_neg hcount]
      exact .pure _

theorem Expr.walk_follows (e : Expr) : Follows e.walk e.check := by
  induction e with
  | arith op l r s ihl ihr | logic op l r s ihl ihr =>
    exact ihl.bind fun _ => ihr.bind fun _ => (Follows.inspect (checkOperands_looks _ _ _ _ _ _)).bind fun _ => .pure _
  | paren e s ih => exact ih
  | call c s => exact c.walk_follows
  | fragment f s => exact .inspect (f.check_looks s)

theorem Cond.walk_follows (c : Cond) : Follows c.walk c.check := by
  induction c with
  | comparison op l r s =>
    exact l.walk_follows.bind fun _ => r.walk_follows.bind fun _ => .inspect (checkOperands_looks _ _ _ _ _ _)
  | equality op l r s =>
    exact l.walk_follows.bind fun _ => r.walk_follows.bind fun _ => .inspect (.require _ _ _ _)
  | neg c s ih | paren c s ih => exact ih
  | binary op l r s ihl ihr => exact ihl.bind fun _ => ihr
  | bool b s => exact .pure ()

/-! ### Statements -/

theorem walkReferenced_follows (e : Expr) : Follows (walkReferenced e) (markReferenced e) := by
  unfold walkReferenced markReferenced
  cases e.referencedName? with
  | none => exact .pure ()
  | some x =>
    refine .symbols fun s => ?_
    cases s.lookup? x with
    | none => exact .pure ()
    | some e =>
      dsimp only
      cases e.isFunction || e.isConstant with
      | true => exact .pure ()
      | false => exact .change _

theorem walkAssignment_follows (target : String) (value : Expr) (span : Span) :
    Follows (walkAssignment target value span) (checkAssignment target value span) := by
  refine value.walk_follows.bind fun found => (walkReferenced_follows value).bind fun _ => .symbols fun s => ?_
  cases s.lookup? target with
  | none => exact .inspect (.report _ _ _)
  | some e =>
    dsimp only
    cases e.valueType? with
    | none => exact .inspect (.report _ _ _)
    | some type =>
      cases e.isConstant with
      | true => exact .inspect (.report _ _ _)
      | false => exact (Follows.inspect (.require _ _ _ _)).bind fun _ => .change _

theorem Stmt.walk_follows : (∀ s : Stmt, Follows s.walk s.check) ∧
    ∀ ss, Follows (Stmt.walkAll ss) (Stmt.checkAll ss) := by
  refine Stmt.parts ?assign ?ite ?loop ?call ?block ?skip ?nil ?cons
  case assign =>
    intro x e a s
    rw [Stmt.walk, Stmt.check]
    exact walkAssignment_follows x e a
  case ite =>
    intro c th el s iht ihe
    rw [Stmt.walk, Stmt.check, Block.walk, Block.walk, Block.check, Block.check]
    exact c.walk_follows.bind fun _ => iht.bind fun _ => ihe
  case loop =>
    intro c b s ih
    rw [Stmt.walk, Stmt.check, Block.walk, Block.check]
    exact c.walk_follows.bind fun _ => ih
  case call =>
    intro c s
    rw [Stmt.walk, Stmt.check]
    exact c.walk_follows.bind fun _ => .pure ()
  case block =>
    intro b s ih
    rw [Stmt.walk, Stmt.check, Block.walk, Block.check]
    exact ih
  case skip =>
    intro s
    rw [Stmt.walk, Stmt.check]
    exact .pure ()
  case nil =>
    rw [Stmt.walkAll, Stmt.checkAll]
    exact .pure ()
  case cons =>
    intro s more ihs ihmore
    rw [Stmt.walkAll, Stmt.checkAll]
    exact ihs.bind fun _ => ihmore

theorem Block.walk_follows (b : Block) : Follows (Block.walk b) (Block.check b) := by
  rw [Block.walk, Block.check]
  exact Stmt.walk_follows.2 b.nodes

/-! ### Declarations -/

theorem walkEntity_follows (define : SymbolTable → Except Entity SymbolTable) (cause : Entity → SemanticCause)
    (span : Span) (since : String) :
    Follows (walkEntity define cause span since) (bindEntity define cause span since) := by
  refine .symbols fun s => ?_
  cases define s with
  | ok table => exact .change _
  | error existing => exact .inspect (.report _ _ _)

theorem Decl.walk_follows (d : Decl) : Follows d.walk d.check := by
  cases d with
  | var x type s => exact (Follows.inspect (checkReserved_looks _ _)).bind fun _ => walkEntity_follows _ _ _ _
  | const x type value s =>
    refine value.walk_follows.bind fun found => (Follows.inspect (checkReserved_looks _ _)).bind fun _ => ?_
    exact (walkEntity_follows _ _ _ _).bind fun _ => .inspect (.require _ _ _ _)

theorem Param.walk_follows (function : String) (p : Param) : Follows (p.walk function) (p.check function) :=
  (Follows.inspect (checkReserved_looks _ _)).bind fun _ => walkEntity_follows _ _ _ _

theorem Func.walkReturn_follows (f : Func) : Follows f.walkReturn f.checkReturn := by
  unfold Func.walkReturn Func.checkReturn
  cases f.returnValue with
  | some value => exact value.walk_follows.bind fun _ => .inspect (.require _ _ _ _)
  | none => exact .inspect (.require _ _ _ _)

theorem Func.walkName_follows (f : Func) : Follows f.walkName f.register :=
  (Follows.inspect (checkReserved_looks _ _)).bind fun _ => walkEntity_follows _ _ _ _

/-! ### Warnings -/

/-- A walk comes to the table of a check, and keeps its faults and the warnings that it gives. -/
def Walk.Reports (w : Walk Unit) (p : Check (List Warning)) : Prop :=
  ∀ a, (w.run a).state = ⟨(p.run a.symbols).state, a.faults ++ (p.run a.symbols).record,
    a.warnings ++ (p.run a.symbols).value⟩

namespace Walk.Reports

variable {p : Check (List Warning)} {w w' : Walk Unit}

/-- A step that gives no warnings comes first. -/
theorem behind {f : α → Walk Unit} {q : Check α} {v : Walk α} {p : α → Check (List Warning)} (h : Follows v q)
    (hf : ∀ x, Walk.Reports (f x) (p x)) : Walk.Reports (v >>= f) (q >>= p) := by
  intro a
  obtain ⟨hvalue, hstate⟩ := h a
  rw [Pass.run_bind, Pass.run_bind, hvalue]
  refine (hf _ _).trans ?_
  rw [hstate, List.append_assoc]

/-- The table is looked up, and warnings are kept. -/
theorem warn (f : SymbolTable → List Warning) : Walk.Reports (do Walk.warn (f (← Walk.symbols)))
    (do return f (← Pass.get)) :=
  fun _ => congrArg (Analyzer.mk _ · _) (List.append_nil _).symm

/-- Warnings of two parts are kept in order. -/
theorem append {p' : Check (List Warning)} (h : Walk.Reports w p) (h' : Walk.Reports w' p') :
    Walk.Reports (w >>= fun _ => w') (do
      let xs ← p
      let ys ← p'
      return xs ++ ys) := by
  intro a
  have hstate' := h' (w.run a).state
  rw [h a] at hstate'
  simp only [Pass.run_bind, Pass.run_pure, h a, hstate', List.append_assoc, List.append_nil]

/-- The parts of a list, in order. -/
theorem forM {f : β → Walk Unit} {q : β → Check (List Warning)} (hf : ∀ b, Walk.Reports (f b) (q b))
    (bs : List β) : Walk.Reports (bs.forM f) (List.flatten <$> bs.mapM q) := by
  induction bs with
  | nil =>
    intro a
    rw [List.mapM_nil, Pass.run_map, Pass.run_pure]
    show a = _
    simp
  | cons b more ih =>
    have hcons := (hf b).append ih
    intro a
    refine (hcons a).trans ?_
    rw [List.mapM_cons]
    simp only [Pass.run_map, Pass.run_bind, Pass.run_pure, List.flatten_cons, List.append_nil]

end Walk.Reports

/-- What a scope gives as warnings when it closes is kept. -/
theorem inScope_reports {w : Walk Unit} {p : Check Unit} (h : Follows w p) :
    Walk.Reports (Walk.inScope w) (inScope p) := by
  refine .behind (.change _) fun _ => .behind h fun _ a => ?_
  cases hpop : a.symbols.pop? with
  | none => simp [Walk.symbols, hpop]
  | some popped => simp [Walk.symbols, Walk.change, Walk.warn, hpop]

/-! ### Functions and programs -/

theorem Func.walk_reports (f : Func) : Walk.Reports f.walk f.check := by
  refine .behind f.walkName_follows fun _ => inScope_reports ?_
  refine (Follows.forM (Param.walk_follows f.name) _).bind fun _ => ?_
  refine (Follows.forM Decl.walk_follows _).bind fun _ => ?_
  exact (Block.walk_follows f.body).bind fun _ => f.walkReturn_follows

namespace Program

theorem walk_reports (p : Program) : Walk.Reports p.walk p.check := by
  have hmain : Follows (do p.main.decls.forM Decl.walk; Block.walk p.main.body)
      (do p.main.decls.forM Decl.check; Block.check p.main.body) :=
    (Follows.forM Decl.walk_follows _).bind fun _ => Block.walk_follows _
  have hbodies := (Walk.Reports.forM Func.walk_reports p.funcs).append
    ((inScope_reports hmain).append (.warn (·.globals.warnings)))
  have hall := Walk.Reports.behind (Follows.forM Decl.walk_follows p.decls) fun _ => hbodies
  intro a
  refine (hall a).trans ?_
  simp only [check, Pass.run_bind, Pass.run_map, Pass.run_pure, Pass.run_get, List.append_assoc, List.append_nil]

/-- **The analyser finds what checking finds.**  Whatever its table, it hands over the findings, comes to the
same table, and keeps nothing. -/
theorem run_analyzeWith (p : Program) {a : Analyzer} (hf : a.faults = []) (hw : a.warnings = []) :
    (p.analyzeWith.run a).value = (p.analyzeIn a.symbols).1 ∧
      (p.analyzeWith.run a).state = ⟨(p.analyzeIn a.symbols).2, [], []⟩ := by
  have hwalk := p.walk_reports a
  rw [hf, hw, List.nil_append, List.nil_append] at hwalk
  rw [analyzeWith, Walk.takeFindings, Pass.run_bind, hwalk]
  exact ⟨rfl, rfl⟩

end Program

end ThreeAddress
