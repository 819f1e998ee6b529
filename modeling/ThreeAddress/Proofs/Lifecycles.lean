import ThreeAddress.Proofs.TableSteps
import ThreeAddress.Proofs.Walks

/-!
# The life of an entity

A walk through a program takes its table from step to step.  What an entity is stays the same from the moment it is
bound until its scope is closed, and only its state moves, along the few ways that its role allows.

* `Trail` — states that come of each other one after another;
* `Walk.Edits`, `Walk.Steps`, `Program.walk_steps` — the walk of an analyser takes small steps only;
* `Lifecycles` — how entities live along some tables;
* `Program.analyze_lifecycles` — the tables that an analyser comes through.
-/

namespace ThreeAddress

/-! ### Trails -/

/-- From a first state to a last one, by way of a list of states each of which comes from the one before. -/
inductive Trail {σ : Type} (R : σ → σ → Prop) : σ → List σ → σ → Prop
  | nil {s : σ} : Trail R s [] s
  | cons {s s' last : σ} {more : List σ} (h : R s s') (hmore : Trail R s' more last) : Trail R s (s' :: more) last

namespace Trail

variable {σ : Type} {R S : σ → σ → Prop} {s₁ s₂ s₃ : σ} {xs ys : List σ}

theorem append (h : Trail R s₁ xs s₂) (h' : Trail R s₂ ys s₃) : Trail R s₁ (xs ++ ys) s₃ := by
  induction h with
  | nil => exact h'
  | cons hstep _ ih => exact .cons hstep (ih h')

theorem imp (hRS : ∀ s s', R s s' → S s s') (h : Trail R s₁ xs s₂) : Trail S s₁ xs s₂ := by
  induction h with
  | nil => exact .nil
  | cons hstep _ ih => exact .cons (hRS _ _ hstep) ih

/-- What steps keep holds all along. -/
theorem forall_mem {P : σ → Prop} (hP : ∀ s s', R s s' → P s → P s') (h : Trail R s₁ xs s₂) (h₁ : P s₁) :
    ∀ s ∈ s₁ :: xs, P s := by
  induction h with
  | nil => exact List.forall_mem_singleton.2 h₁
  | cons hstep _ ih => exact List.forall_mem_cons.2 ⟨h₁, ih (hP _ _ hstep h₁)⟩

theorem isChain (h : Trail R s₁ xs s₂) : (s₁ :: xs).IsChain R := by
  induction h with
  | nil => exact .singleton _
  | cons hstep _ ih => exact .cons_cons hstep ih

theorem getLast?_eq (h : Trail R s₁ xs s₂) : (s₁ :: xs).getLast? = some s₂ := by
  induction h with
  | nil => rfl
  | cons _ _ ih => rw [List.getLast?_cons_cons, ih]

theorem last_mem (h : Trail R s₁ xs s₂) : s₂ ∈ s₁ :: xs := List.mem_of_getLast? h.getLast?_eq

end Trail

/-! ### The tables of a walk -/

open SymbolTable (Edit Step)

variable {α β : Type} {s : SymbolTable}

/-- From a table on, a walk makes changes of single scopes. -/
def Walk.EditsFrom (s : SymbolTable) (w : Walk α) : Prop :=
  ∀ a : Analyzer, a.symbols = s → Trail Edit s (w.run a).record (w.run a).state.symbols

/-- A walk makes changes of single scopes. -/
def Walk.Edits (w : Walk α) : Prop := ∀ s, w.EditsFrom s

namespace Walk.EditsFrom

theorem pure (x : α) : Walk.EditsFrom s (Pure.pure x : Walk α) := by
  rintro a rfl
  exact .nil

theorem bind {w : Walk α} {f : α → Walk β} (h : w.EditsFrom s) (hf : ∀ x, (f x).Edits) : (w >>= f).EditsFrom s :=
  fun a ha => (h a ha).append (hf _ _ _ rfl)

/-- A look at the table. -/
theorem symbols {f : SymbolTable → Walk α} (hf : (f s).EditsFrom s) : (Walk.symbols >>= f).EditsFrom s := by
  rintro a rfl
  exact hf a rfl

/-- What is inspected leaves the table as it is. -/
theorem inspect {p : Check α} {f : α → Walk β} (hf : ∀ x, (f x).EditsFrom s) :
    (Walk.inspect p >>= f).EditsFrom s :=
  fun a ha => hf _ { a with faults := a.faults ++ (p.run a.symbols).record } ha

theorem inspect_only (p : Check α) : (Walk.inspect p).EditsFrom s := by
  rintro a rfl
  exact .nil

theorem change {f : SymbolTable → SymbolTable} (h : s.Edit (f s)) : (Walk.change f).EditsFrom s := by
  rintro a rfl
  exact .cons h .nil

end Walk.EditsFrom

namespace Walk.Edits

theorem pure (x : α) : Walk.Edits (Pure.pure x : Walk α) := fun _ => .pure x

theorem bind {w : Walk α} {f : α → Walk β} (h : w.Edits) (hf : ∀ x, (f x).Edits) : (w >>= f).Edits :=
  fun s => (h s).bind hf

theorem inspect (p : Check α) : (Walk.inspect p).Edits := fun _ => .inspect_only p

theorem forM {f : β → Walk Unit} (hf : ∀ b, (f b).Edits) (bs : List β) : Walk.Edits (bs.forM f) := by
  induction bs with
  | nil => exact pure ()
  | cons b more ih => exact (hf b).bind fun _ => ih

end Walk.Edits

open Walk (Edits EditsFrom)

/-! #### Expressions and conditions -/

/-- A function is used. -/
theorem Call.walk_edits (c : Call) : c.walk.Edits := by
  refine fun s => .symbols ?_
  cases hx : s.lookupGlobal? c.name with
  | none => exact .inspect fun _ => .pure _
  | some e =>
    cases hk : e.kind with
    | value type =>
      simp only [Option.map_some, hk]
      exact .inspect fun _ => .pure _
    | function result params =>
      simp only [Option.map_some, hk]
      have hm : e.Moves .used := .call (by rw [Entity.isFunction, hk])
      refine .inspect fun _ => .inspect fun _ => .bind (.change (SymbolTable.setGlobalState_edit hx hm)) fun _ => ?_
      refine fun s' => .inspect fun yields => ?_
      split
      · exact .inspect fun _ => .pure _
      · exact .pure _

theorem Expr.walk_edits (e : Expr) : e.walk.Edits := by
  induction e with
  | arith op l r s ihl ihr | logic op l r s ihl ihr =>
    exact ihl.bind fun _ => ihr.bind fun _ => (Edits.inspect _).bind fun _ => .pure _
  | paren e s ih => exact ih
  | call c s => exact c.walk_edits
  | fragment f s => exact .inspect _

theorem Cond.walk_edits (c : Cond) : c.walk.Edits := by
  induction c with
  | comparison op l r s | equality op l r s =>
    exact l.walk_edits.bind fun _ => r.walk_edits.bind fun _ => .inspect _
  | neg c s ih | paren c s ih => exact ih
  | binary op l r s ihl ihr => exact ihl.bind fun _ => ihr
  | bool b s => exact .pure ()

/-! #### Statements -/

/-- A variable or a parameter is used. -/
theorem walkReferenced_edits (e : Expr) : (walkReferenced e).Edits := by
  unfold walkReferenced
  cases e.referencedName? with
  | none => exact .pure ()
  | some x =>
    refine fun s => .symbols ?_
    cases hx : s.lookup? x with
    | none => exact .pure ()
    | some found =>
      dsimp only
      cases hguard : found.isFunction || found.isConstant with
      | true => exact .pure ()
      | false =>
        obtain ⟨hf, hc⟩ := Bool.or_eq_false_iff.1 hguard
        rw [if_neg Bool.false_ne_true]
        exact .change (SymbolTable.setState_edit hx (.use hf hc))

/-- A variable or a parameter is assigned. -/
theorem walkAssignment_edits (target : String) (value : Expr) (span : Span) :
    (walkAssignment target value span).Edits := by
  refine value.walk_edits.bind fun found => (walkReferenced_edits value).bind fun _ => fun s => .symbols ?_
  cases hx : s.lookup? target with
  | none => exact .inspect_only _
  | some e =>
    dsimp only
    cases htype : e.valueType? with
    | none => exact .inspect_only _
    | some type =>
      cases hc : e.isConstant with
      | true => exact .inspect_only _
      | false =>
        have hf : e.isFunction = false := by
          unfold Entity.valueType? at htype
          unfold Entity.isFunction
          cases hk : e.kind with
          | value _ => rfl
          | function _ _ => rw [hk] at htype; cases htype
        exact .inspect fun _ => .change (SymbolTable.setState_edit hx (.assign hf hc))

theorem Stmt.walk_edits : (∀ s : Stmt, s.walk.Edits) ∧ ∀ ss, (Stmt.walkAll ss).Edits := by
  refine Stmt.parts ?assign ?ite ?loop ?call ?block ?skip ?nil ?cons
  case assign =>
    intro x e a s
    rw [Stmt.walk]
    exact walkAssignment_edits x e a
  case ite =>
    intro c th el s iht ihe
    rw [Stmt.walk, Block.walk, Block.walk]
    exact c.walk_edits.bind fun _ => iht.bind fun _ => ihe
  case loop =>
    intro c b s ih
    rw [Stmt.walk, Block.walk]
    exact c.walk_edits.bind fun _ => ih
  case call =>
    intro c s
    rw [Stmt.walk]
    exact c.walk_edits.bind fun _ => .pure ()
  case block =>
    intro b s ih
    rw [Stmt.walk, Block.walk]
    exact ih
  case skip =>
    intro s
    rw [Stmt.walk]
    exact .pure ()
  case nil =>
    rw [Stmt.walkAll]
    exact .pure ()
  case cons =>
    intro s more ihs ihmore
    rw [Stmt.walkAll]
    exact ihs.bind fun _ => ihmore

theorem Block.walk_edits (b : Block) : (Block.walk b).Edits := by
  rw [Block.walk]
  exact Stmt.walk_edits.2 b.nodes

/-! #### Declarations -/

/-- An entity is bound, or its name is taken. -/
theorem walkEntity_edits {define : SymbolTable → Except Entity SymbolTable}
    (hdefine : ∀ t t', define t = .ok t' → t.Edit t') (cause : Entity → SemanticCause) (span : Span)
    (since : String) : (walkEntity define cause span since).Edits := by
  refine fun s => .symbols ?_
  cases h : define s with
  | ok table => exact .change (hdefine s table h)
  | error existing => exact .inspect_only _

theorem Decl.walk_edits (d : Decl) : d.walk.Edits := by
  cases d with
  | var x type s =>
    exact (Edits.inspect _).bind fun _ => walkEntity_edits (fun _ _ => SymbolTable.define_edit .var (by decide)) _ _ _
  | const x type value s =>
    refine value.walk_edits.bind fun found => (Edits.inspect _).bind fun _ => ?_
    exact (walkEntity_edits (fun _ _ => SymbolTable.define_edit .const (by decide)) _ _ _).bind fun _ => .inspect _

theorem Param.walk_edits (function : String) (p : Param) : (p.walk function).Edits :=
  (Edits.inspect _).bind fun _ => walkEntity_edits (fun _ _ => SymbolTable.define_edit .param (by decide)) _ _ _

theorem Func.walkReturn_edits (f : Func) : f.walkReturn.Edits := by
  unfold Func.walkReturn
  cases f.returnValue with
  | some value => exact value.walk_edits.bind fun _ => .inspect _
  | none => exact .inspect _

theorem Func.walkName_edits (f : Func) : f.walkName.Edits :=
  (Edits.inspect _).bind fun _ => walkEntity_edits (fun _ _ => SymbolTable.defineGlobal_edit .func) _ _ _

/-! #### Functions and programs -/

/-- Along changes of single scopes, the depth stays. -/
theorem Walk.Edits.depth_eq {w : Walk α} (h : w.Edits) (a : Analyzer) :
    ∀ t ∈ a.symbols :: (w.run a).record, t.depth = a.symbols.depth :=
  (h a.symbols a rfl).forall_mem (fun _ _ hedit hd => hedit.depth_eq.trans hd) rfl

/-- A walk takes steps.  It opens at most one scope at a time, and closes what it opens. -/
structure Walk.Steps (w : Walk α) : Prop where
  trail : ∀ a, Trail Step a.symbols (w.run a).record (w.run a).state.symbols
  depth_eq : ∀ a, (w.run a).state.symbols.depth = a.symbols.depth
  depth_le : ∀ a, ∀ t ∈ (w.run a).record, t.depth ≤ a.symbols.depth + 1

namespace Walk.Steps

theorem of_edits {w : Walk α} (h : w.Edits) : w.Steps where
  trail a := (h a.symbols a rfl).imp fun _ _ => .edit
  depth_eq a := h.depth_eq a _ (h a.symbols a rfl).last_mem
  depth_le a t ht := by
    rw [h.depth_eq a t (List.mem_cons_of_mem _ ht)]
    exact Nat.le_succ _

theorem bind {w : Walk α} {f : α → Walk β} (h : w.Steps) (hf : ∀ x, (f x).Steps) : (w >>= f).Steps where
  trail a := (h.trail a).append ((hf _).trail _)
  depth_eq a := ((hf _).depth_eq _).trans (h.depth_eq a)
  depth_le a t ht := by
    rw [Pass.run_bind] at ht
    rcases List.mem_append.1 ht with ht | ht
    · exact h.depth_le a t ht
    · rw [← h.depth_eq a]
      exact (hf _).depth_le _ t ht

theorem forM {f : β → Walk Unit} (hf : ∀ b, (f b).Steps) (bs : List β) : Walk.Steps (bs.forM f) := by
  induction bs with
  | nil => exact .of_edits (.pure ())
  | cons b more ih => exact (hf b).bind fun _ => ih

/-- A scope is opened, changes follow, and it is closed. -/
theorem run_inScope {body : Walk Unit} (h : body.Edits) (a : Analyzer) : ∃ outer,
    ((Walk.inScope body).run a).record =
      a.symbols.push :: (body.run { a with symbols := a.symbols.push }).record ++ [outer] ∧
    ((Walk.inScope body).run a).state.symbols = outer ∧ outer.depth = a.symbols.depth ∧
    (body.run { a with symbols := a.symbols.push }).state.symbols.Step outer := by
  have hdepth := h.depth_eq { a with symbols := a.symbols.push } _ (h _ _ rfl).last_mem
  obtain ⟨scope, outer, hpop, hinner⟩ := SymbolTable.pop?_of_depth (hdepth.trans a.symbols.depth_push)
    (Nat.succ_pos _)
  refine ⟨outer, ?_, ?_, hinner, SymbolTable.pop_step hpop⟩
  · simp [Walk.inScope, Walk.symbols, Walk.change, Walk.warn, hpop]
  · simp [Walk.inScope, Walk.symbols, Walk.change, Walk.warn, hpop]

theorem inScope {body : Walk Unit} (h : body.Edits) : (Walk.inScope body).Steps where
  trail a := by
    obtain ⟨outer, hrecord, hstate, -, hpop⟩ := run_inScope h a
    have hbody := (h _ { a with symbols := a.symbols.push } rfl).imp fun _ _ => Step.edit
    rw [hrecord, hstate]
    exact .cons a.symbols.push_step (hbody.append (.cons hpop .nil))
  depth_eq a := by
    obtain ⟨outer, -, hstate, hdepth, -⟩ := run_inScope h a
    rw [hstate, hdepth]
  depth_le a t ht := by
    obtain ⟨outer, hrecord, -, hdepth, -⟩ := run_inScope h a
    rw [hrecord] at ht
    rcases List.mem_append.1 ht with ht | ht
    · rw [h.depth_eq { a with symbols := a.symbols.push } t ht]
      exact Nat.le_refl _
    · rw [List.mem_singleton.1 ht, hdepth]
      exact Nat.le_succ _

end Walk.Steps

theorem Func.walk_steps (f : Func) : f.walk.Steps := by
  refine (Walk.Steps.of_edits f.walkName_edits).bind fun _ => .inScope ?_
  refine (Edits.forM (Param.walk_edits f.name) _).bind fun _ => ?_
  refine (Edits.forM Decl.walk_edits _).bind fun _ => ?_
  exact (Block.walk_edits f.body).bind fun _ => f.walkReturn_edits

/-- Warnings are kept without a change of the table. -/
theorem Walk.warn_edits (f : SymbolTable → List Warning) : Walk.Edits (do Walk.warn (f (← Walk.symbols))) := by
  rintro s a rfl
  exact .nil

/-- To hand over what was found changes no table. -/
theorem Walk.takeFindings_edits : Walk.takeFindings.Edits := by
  rintro s a rfl
  exact .nil

theorem Program.walk_steps (p : Program) : p.walk.Steps := by
  refine (Walk.Steps.of_edits (.forM Decl.walk_edits _)).bind fun _ => ?_
  refine (Walk.Steps.forM Func.walk_steps _).bind fun _ => ?_
  have hmain := (Edits.forM Decl.walk_edits p.main.decls).bind fun _ => Block.walk_edits p.main.body
  exact (Walk.Steps.inScope hmain).bind fun _ => .of_edits (Walk.warn_edits _)

theorem Program.analyzeWith_steps (p : Program) : p.analyzeWith.Steps :=
  p.walk_steps.bind fun _ => .of_edits Walk.takeFindings_edits

/-! ### Lifecycles -/

/-- A scope is open from one table to another. -/
def StaysOpen (ts : List SymbolTable) (level i j : Nat) : Prop :=
  ∀ k, i ≤ k → k ≤ j → ∃ t, ts[k]? = some t ∧ level < t.depth

/-- The entity at some place of a scope, in one of some tables. -/
def entityAfter? (ts : List SymbolTable) (i level place : Nat) : Option Entity :=
  (ts[i]?).bind (·.entityAt? level place)

/-- How entities live along some tables.  The first table is empty, and only the global scope is open at the end.
An entity is bound in some role where none was; while its scope stays open it stays at its place, only its state
changes, and that within the states of its role. -/
structure Lifecycles (ts : List SymbolTable) : Prop where
  starts : ts.head? = some .empty
  ends : ∃ t, ts.getLast? = some t ∧ t.depth = 1
  depth : ∀ t ∈ ts, 1 ≤ t.depth ∧ t.depth ≤ 2
  sound : ∀ t ∈ ts, t.Sound
  keeps : ∀ {i j level place : Nat} {e : Entity}, i ≤ j → StaysOpen ts level i j →
    entityAfter? ts i level place = some e → ∃ e', entityAfter? ts j level place = some e' ∧ e.Becomes e'
  bound : ∀ {j level place : Nat} {e' : Entity}, entityAfter? ts j level place = some e' →
    ∃ i < j, ∃ (role : Role) (e : Entity), entityAfter? ts i level place = none ∧
      entityAfter? ts (i + 1) level place = some e ∧ role.Binds e ∧ StaysOpen ts level (i + 1) j ∧
      e.Becomes e' ∧ role.Has e'

namespace Lifecycles

variable {ts : List SymbolTable} {i j level place : Nat} {e e' : Entity}

theorem entityAfter?_eq_some : entityAfter? ts i level place = some e ↔
    ∃ t, ts[i]? = some t ∧ t.entityAt? level place = some e := Option.bind_eq_some_iff

/-- In a chain of steps, each table comes from the one before. -/
theorem step_of_chain (hchain : ts.IsChain Step) {t t' : SymbolTable} (ht : ts[i]? = some t)
    (ht' : ts[i + 1]? = some t') : t.Step t' := by
  obtain ⟨hi, rfl⟩ := List.getElem?_eq_some_iff.1 ht
  obtain ⟨hi', rfl⟩ := List.getElem?_eq_some_iff.1 ht'
  exact List.isChain_iff_getElem.1 hchain i hi'

/-- An entity stays while its scope is open, one table after another. -/
theorem keeps_of_chain (hchain : ts.IsChain Step) (hsound : ∀ t ∈ ts, t.Sound) (hij : i ≤ j)
    (hopen : StaysOpen ts level i j) (he : entityAfter? ts i level place = some e) :
    ∃ e', entityAfter? ts j level place = some e' ∧ e.Becomes e' := by
  induction hij with
  | refl => exact ⟨e, he, .refl e⟩
  | @step j hij ih =>
    have hle : i ≤ j := hij
    obtain ⟨e', he', hbecomes⟩ := ih fun k hi hk => hopen k hi (by omega)
    obtain ⟨t, ht, he'⟩ := entityAfter?_eq_some.1 he'
    obtain ⟨t', ht', hlevel⟩ := hopen (j + 1) (by omega) (Nat.le_refl _)
    obtain ⟨e'', he'', hnext⟩ :=
      (step_of_chain hchain ht ht').keeps (hsound t (List.mem_of_getElem? ht)) hlevel he'
    exact ⟨e'', entityAfter?_eq_some.2 ⟨t', ht', he''⟩, hbecomes.trans hnext.becomes⟩

/-- From the empty table on, an entity was bound once, and has only been moved since. -/
theorem bound_of_chain (hchain : ts.IsChain Step) (hsound : ∀ t ∈ ts, t.Sound) (hstart : ts[0]? = some .empty)
    (he : entityAfter? ts j level place = some e') :
    ∃ i < j, ∃ (role : Role) (e : Entity), entityAfter? ts i level place = none ∧
      entityAfter? ts (i + 1) level place = some e ∧ role.Binds e ∧ StaysOpen ts level (i + 1) j ∧
      e.Becomes e' ∧ role.Has e' := by
  induction j generalizing e' with
  | zero =>
    obtain ⟨t, ht, he⟩ := entityAfter?_eq_some.1 he
    cases hstart.symm.trans ht
    rw [SymbolTable.entityAt?_empty] at he
    cases he
  | succ j ih =>
    obtain ⟨t', ht', he'⟩ := entityAfter?_eq_some.1 he
    have hj : j < ts.length := Nat.lt_of_succ_lt (List.getElem?_eq_some_iff.1 ht').1
    have ht := List.getElem?_eq_getElem hj
    have hlevel := SymbolTable.entityAt?_lt he'
    rcases (step_of_chain hchain ht ht').entity (hsound _ (List.mem_of_getElem? ht)) he' with
      ⟨e₀, he₀, hnext⟩ | ⟨hnone, role, hr, -⟩
    · obtain ⟨i, hi, role, e, hnone, hsome, hr, hopen, hbecomes, hhas⟩ :=
        ih (entityAfter?_eq_some.2 ⟨_, ht, he₀⟩)
      refine ⟨i, by omega, role, e, hnone, hsome, hr, fun k hk hk' => ?_, hbecomes.trans hnext.becomes,
        hnext.has hhas⟩
      rcases Nat.lt_or_eq_of_le hk' with hk' | rfl
      · exact hopen k hk (by omega)
      · exact ⟨t', ht', hlevel⟩
    · refine ⟨j, Nat.lt_succ_self j, role, e', ?_, he, hr, fun k hk hk' => ?_, .refl e', hr.has⟩
      · rw [entityAfter?, ht, Option.bind_some, hnone]
      · cases Nat.le_antisymm hk' hk
        exact ⟨t', ht', hlevel⟩

end Lifecycles

namespace Program

theorem tables_lifecycles (p : Program) : Lifecycles p.tables := by
  have htrail := p.analyzeWith_steps.trail .fresh
  have hsound : ∀ t ∈ p.tables, t.Sound :=
    htrail.forall_mem (fun _ _ hstep ht => hstep.sound ht) SymbolTable.Sound.empty
  exact {
    starts := rfl
    ends := ⟨_, htrail.getLast?_eq, p.analyzeWith_steps.depth_eq .fresh⟩
    depth := fun t ht => ⟨Nat.succ_pos _, by
      rcases List.mem_cons.1 ht with rfl | ht
      · decide
      · exact p.analyzeWith_steps.depth_le .fresh t ht⟩
    sound := hsound
    keeps := Lifecycles.keeps_of_chain htrail.isChain hsound
    bound := Lifecycles.bound_of_chain htrail.isChain hsound rfl }

/-- **The life of an entity.**  A fresh analyser comes through tables in which entities live as `Lifecycles` says, to
the table that analysing the program ends with.  It hands over the findings in the program, and keeps no fault and no
warning. -/
theorem analyze_lifecycles (p : Program) :
    Lifecycles p.tables ∧
      p.tables.getLast? = some (p.analyzeIn .empty).2 ∧
      (p.analyzeWith.run .fresh).value = p.analyze ∧
      (p.analyzeWith.run .fresh).state = ⟨(p.analyzeIn .empty).2, [], []⟩ := by
  obtain ⟨hvalue, hstate⟩ := p.run_analyzeWith (a := .fresh) rfl rfl
  have hlast := (p.analyzeWith_steps.trail .fresh).getLast?_eq
  rw [hstate] at hlast
  exact ⟨p.tables_lifecycles, hlast, hvalue, hstate⟩

end Program

end ThreeAddress
