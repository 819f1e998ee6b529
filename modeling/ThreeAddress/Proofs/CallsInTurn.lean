import ThreeAddress.Proofs.FlatCode
import ThreeAddress.Proofs.Mentions
import ThreeAddress.Proofs.StoredResults

/-!
# Calls in turn

Code passes arguments one by one until an instruction calls.  That call takes all of them, and what is no call passes
nothing and stands only where nothing is passed.  So the arguments of two calls are never mixed.

* `Instruction.called?`, `Instruction.isCallFree` — the calls that instructions make, and instructions beside calls;
* `CallsInTurn` — the calls that code makes, each with what is passed to it;
* `CallsInTurn.call_at`, `CallsInTurn.param_at` — what stands in front of a call, and behind an argument;
* `Emit.CallsAll` — a pass makes some calls in turn, and its laws;
* `Expr.calls_lower`, `Stmt.lower_calls`, `Body.lower_calls` — the parts of a program;
* `Program.passedCalls`, `Program.calls_code` — programs.
-/

namespace ThreeAddress

/-! ### Calls with their arguments -/

/-- The routine that an instruction calls, and the number of its arguments. -/
def Instruction.called? : Instruction → Option (String × Nat)
  | .call f n | .assign _ (.call f n) => some (f, n)
  | _ => none

theorem Instruction.called?_eq_some {i : Instruction} {f : String} {n : Nat} (h : i.called? = some (f, n)) :
    i = .call f n ∨ ∃ dest, i = .assign dest (.call f n) := by
  unfold called? at h
  split at h
  · cases h
    exact .inl rfl
  · cases h
    exact .inr ⟨_, rfl⟩
  · cases h

/-- Whether an instruction neither passes an argument nor holds the value of a call. -/
def Instruction.isCallFree : Instruction → Bool
  | .param _ | .call _ _ | .assign _ (.call _ _) | .ifz (.call _ _) _ | .ret (some (.call _ _)) => false
  | _ => true

/-- A routine that is called, and what is passed to it, in order. -/
abbrev PassedCall := String × List String

/-- Behind some arguments, code makes calls and leaves arguments behind.  A call takes all arguments that stand
before it, and any other instruction stands where there are none. -/
inductive CallsInTurn : List String → List Instruction → List PassedCall → List String → Prop
  | nil {args : List String} : CallsInTurn args [] [] args
  | param {args left : List String} {code : List Instruction} {calls : List PassedCall} {x : String}
    (h : CallsInTurn (args ++ [x]) code calls left) : CallsInTurn args (.param x :: code) calls left
  | call {args left : List String} {code : List Instruction} {calls : List PassedCall} {i : Instruction} {f : String}
    (hi : i.called? = some (f, args.length)) (h : CallsInTurn [] code calls left) :
    CallsInTurn args (i :: code) ((f, args) :: calls) left
  | other {left : List String} {code : List Instruction} {calls : List PassedCall} {i : Instruction}
    (hi : i.isCallFree = true) (h : CallsInTurn [] code calls left) : CallsInTurn [] (i :: code) calls left

namespace CallsInTurn

variable {args mid left : List String} {code code' before behind : List Instruction} {calls calls' : List PassedCall}
  {i : Instruction} {f x : String} {n : Nat}

theorem called?_of_isCallFree (hi : i.isCallFree = true) : i.called? = none := by
  unfold Instruction.called?
  split <;> first | rfl | cases hi

theorem append (h : CallsInTurn args code calls mid) (h' : CallsInTurn mid code' calls' left) :
    CallsInTurn args (code ++ code') (calls ++ calls') left := by
  induction h with
  | nil => exact h'
  | param _ ih => exact .param (ih h')
  | call hi _ ih => exact .call hi (ih h')
  | other hi _ ih => exact .other hi (ih h')

/-- Arguments are passed one by one. -/
theorem params (args passed : List String) :
    CallsInTurn args (passed.map .param) [] (args ++ passed) := by
  induction passed generalizing args with
  | nil =>
    rw [List.append_nil]
    exact .nil
  | cons x more ih =>
    have h := ih (args ++ [x])
    rw [List.append_assoc] at h
    exact .param h

/-- Instructions beside calls. -/
theorem ofCallFree (h : ∀ i ∈ code, i.isCallFree = true) : CallsInTurn [] code [] [] := by
  induction code with
  | nil => exact .nil
  | cons i more ih =>
    obtain ⟨hi, hmore⟩ := List.forall_mem_cons.1 h
    exact .other hi (ih hmore)

/-- Instructions beside calls, at the end. -/
theorem appendFree (h : CallsInTurn args code calls []) (h' : ∀ i ∈ code', i.isCallFree = true) :
    CallsInTurn args (code ++ code') calls [] := by
  have hboth := h.append (ofCallFree h')
  rwa [List.append_nil] at hboth

/-- Without an instruction beside calls that ends it, code makes the same calls. -/
theorem dropFree (h : CallsInTurn args (code ++ [i]) calls left) (hi : i.isCallFree = true) :
    CallsInTurn args code calls [] := by
  induction code generalizing args calls with
  | nil =>
    cases h with
    | param => cases hi
    | call hcalled =>
      rw [called?_of_isCallFree hi] at hcalled
      cases hcalled
    | other _ h =>
      cases h
      exact .nil
  | cons j more ih =>
    cases h with
    | param h => exact .param (ih h)
    | call hj h => exact .call hj (ih h)
    | other hj h => exact .other hj (ih h)

/-- Arguments and the call that takes them. -/
theorem group (args : List String) (hi : i.called? = some (f, args.length)) : CallsInTurn [] (args.map .param ++ [i]) [(f, args)] [] :=
  (params [] args).append (.call hi .nil)

/-- Each instruction passes an argument, calls, or does neither. -/
theorem kinds (h : CallsInTurn args code calls left) (hmem : i ∈ code) :
    (∃ x, i = .param x) ∨ (∃ f n, i.called? = some (f, n)) ∨ i.isCallFree = true := by
  induction h with
  | nil => cases hmem
  | param _ ih =>
    rcases List.mem_cons.1 hmem with rfl | hmem
    · exact .inl ⟨_, rfl⟩
    · exact ih hmem
  | call hi _ ih =>
    rcases List.mem_cons.1 hmem with rfl | hmem
    · exact .inr (.inl ⟨_, _, hi⟩)
    · exact ih hmem
  | other hi _ ih =>
    rcases List.mem_cons.1 hmem with rfl | hmem
    · exact .inr (.inr hi)
    · exact ih hmem

/-- Code that ends with no argument does so behind whatever else. -/
theorem getLast?_ne_param (before : List Instruction) {front : List Instruction} (hi : ∀ x, i ≠ .param x)
    (hfront : ∀ x, front.getLast? ≠ some (.param x)) (x : String) : (before ++ i :: front).getLast? ≠ some (.param x) := by
  rw [List.getLast?_append_of_ne_nil _ (List.cons_ne_nil _ _), List.getLast?_cons]
  cases hlast : front.getLast? with
  | none => exact fun h => hi x (Option.some.inj h)
  | some j => exact fun h => hfront x (hlast.trans h)

/-- **Calls.**  In front of a call stands what is passed to it, and in front of that no argument. -/
theorem call_at (h : CallsInTurn args code calls left) (hcode : code = before ++ i :: behind)
    (hi : i.called? = some (f, n)) : ∃ front passed, args.map .param ++ before = front ++ passed.map .param ∧
      passed.length = n ∧ (f, passed) ∈ calls ∧ ∀ x, front.getLast? ≠ some (.param x) := by
  induction h generalizing before with
  | nil => cases before <;> cases hcode
  | @param args _ _ _ y _ ih =>
    match before, hcode with
    | [], hcode =>
      cases hcode
      cases hi
    | _ :: before, hcode =>
      cases hcode
      obtain ⟨front, passed, heq, hrest⟩ := ih rfl
      refine ⟨front, passed, ?_, hrest⟩
      rw [← heq, List.map_append, List.append_assoc]
      rfl
  | @call args _ _ _ j g hj _ ih =>
    match before, hcode with
    | [], hcode =>
      cases hcode
      cases hj.symm.trans hi
      exact ⟨[], args, by simp, rfl, List.mem_cons_self, fun x hx => by cases hx⟩
    | _ :: before, hcode =>
      cases hcode
      obtain ⟨front, passed, heq, hlength, hmem, hfront⟩ := ih rfl
      refine ⟨args.map .param ++ j :: front, passed, ?_, hlength, List.mem_cons_of_mem _ hmem, ?_⟩
      · rw [List.append_assoc, List.cons_append, ← heq]
        rfl
      · exact getLast?_ne_param _ (by rintro y rfl; cases hj) hfront
  | @other _ _ _ j hj _ ih =>
    match before, hcode with
    | [], hcode =>
      cases hcode
      rw [called?_of_isCallFree hj] at hi
      cases hi
    | _ :: before, hcode =>
      cases hcode
      obtain ⟨front, passed, heq, hlength, hmem, hfront⟩ := ih rfl
      refine ⟨j :: front, passed, ?_, hlength, hmem, ?_⟩
      · rw [List.cons_append, ← heq]
        rfl
      · exact getLast?_ne_param [] (by rintro y rfl; cases hj) hfront

/-- Behind arguments, further ones may follow, and then the call that takes them all. -/
theorem next_call (h : CallsInTurn args code calls left) (hleft : left = []) (hargs : args ≠ []) :
    ∃ (more : List String) (j : Instruction) (rest : List Instruction) (f : String),
      code = more.map .param ++ j :: rest ∧ j.called? = some (f, args.length + more.length) := by
  induction h with
  | nil => exact absurd hleft hargs
  | @param args _ _ _ y _ ih =>
    obtain ⟨more, j, rest, f, rfl, hj⟩ := ih hleft (by simp)
    refine ⟨y :: more, j, rest, f, rfl, hj.trans ?_⟩
    rw [List.length_append, List.length_singleton, List.length_cons, Nat.add_assoc, Nat.add_comm 1]
  | @call args _ code _ j f hj => exact ⟨[], j, code, f, rfl, hj⟩
  | other => exact absurd rfl hargs

/-- **Arguments.**  Behind an argument stand only arguments of the same call, and then the call. -/
theorem param_at (h : CallsInTurn args code calls left) (hleft : left = []) (hcode : code = before ++ .param x :: behind) :
    ∃ (more : List String) (j : Instruction) (rest : List Instruction) (f : String) (n : Nat),
      behind = more.map .param ++ j :: rest ∧ j.called? = some (f, n) ∧ more.length < n := by
  induction h generalizing before with
  | nil => cases before <;> cases hcode
  | @param args _ _ _ y hmore ih =>
    match before, hcode with
    | [], hcode =>
      cases hcode
      obtain ⟨more, j, rest, f, rfl, hj⟩ := hmore.next_call hleft (by simp)
      refine ⟨more, j, rest, f, _, rfl, hj, ?_⟩
      rw [List.length_append, List.length_singleton]
      omega
    | _ :: before, hcode =>
      cases hcode
      exact ih hleft rfl
  | @call args _ _ _ j f hj _ ih =>
    match before, hcode with
    | [], hcode =>
      cases hcode
      cases hj
    | _ :: before, hcode =>
      cases hcode
      exact ih hleft rfl
  | @other _ _ _ j hj _ ih =>
    match before, hcode with
    | [], hcode =>
      cases hcode
      cases hj
    | _ :: before, hcode =>
      cases hcode
      exact ih hleft rfl

end CallsInTurn

/-! ### Passes that make calls -/

/-- A call with its arguments as they are written under a rename table. -/
def Call.passed (t : RenameTable) (c : Call) : PassedCall := (c.name, c.args.map fun a => a.atom.lower t)

/-- A pass makes some calls in turn. -/
def Emit.CallsAll {α : Type} (p : Emit α) (calls : List PassedCall) : Prop :=
  ∀ g, CallsInTurn [] (p.run g).record calls []

namespace Emit.CallsAll

variable {α β : Type} {calls calls' : List PassedCall} {p : Emit α} {f : α → Emit β}

/-- A pass that emits nothing. -/
theorem silent (hp : ∀ g, (p.run g).record = []) : Emit.CallsAll p [] := by
  intro g
  rw [hp g]
  exact .nil

theorem pure (a : α) : Emit.CallsAll (Pure.pure a) [] := silent fun _ => rfl

theorem bind (hp : Emit.CallsAll p calls) (hf : ∀ a, Emit.CallsAll (f a) calls') :
    Emit.CallsAll (p >>= f) (calls ++ calls') := fun g => (hp g).append (hf _ _)

/-- A first pass that makes no call. -/
theorem behind (hp : Emit.CallsAll p []) (hf : ∀ a, Emit.CallsAll (f a) calls') :
    Emit.CallsAll (p >>= f) calls' := hp.bind hf

/-- A last pass that makes no call. -/
theorem last (hp : Emit.CallsAll p calls) (hf : ∀ a, Emit.CallsAll (f a) []) : Emit.CallsAll (p >>= f) calls := by
  rw [← List.append_nil calls]
  exact hp.bind hf

theorem tell {i : Instruction} (hi : i.isCallFree = true) : Emit.CallsAll (Pass.tell i) [] :=
  fun _ => .other hi .nil

theorem forM {f : β → Emit Unit} {made : β → List PassedCall} (hf : ∀ b, Emit.CallsAll (f b) (made b))
    (bs : List β) : Emit.CallsAll (bs.forM f) (bs.flatMap made) := by
  induction bs with
  | nil => exact pure ()
  | cons b more ih =>
    rw [List.flatMap_cons]
    exact (hf b).bind fun _ => ih

end Emit.CallsAll

open Emit (CallsAll)

/-! ### Expressions -/

section Lowering

variable (t : RenameTable) (g : Generator)

theorem Expr.calls_operands (e : Expr) : e.calls = e.operands.flatMap Operand.calls := by
  induction e with
  | arith op l r s ihl ihr | logic op l r s ihl ihr => rw [Expr.calls, Expr.operands, List.flatMap_append, ihl, ihr]
  | paren e s ih => exact ih
  | call c s => rfl
  | fragment f s => rfl

/-- An operand that becomes an atom is called at once, if it is a call. -/
theorem Operand.calls_load (k : Nat) (o : Operand) :
    CallsInTurn [] (o.load t k) (o.calls.map (Call.passed t)) [] := by
  cases o with
  | call c =>
    have hgroup := CallsInTurn.group (c.args.map fun a => a.atom.lower t)
      (i := .assign (NameSupply.tempName k) (.call c.name c.args.length)) (f := c.name)
      (by rw [List.length_map]; rfl)
    rw [List.map_map] at hgroup
    exact hgroup
  | fragment f =>
    cases f with
    | atom negated a =>
      cases negated with
      | false => exact .nil
      | true => exact .other rfl .nil
    | not x => exact .other rfl .nil
    | zero | bool => exact .nil

theorem calls_loads (k : Nat) (os : List Operand) :
    CallsInTurn [] (loads t k os) ((os.flatMap Operand.calls).map (Call.passed t)) [] := by
  induction os generalizing k with
  | nil => exact .nil
  | cons o more ih =>
    rw [loads, List.flatMap_cons, List.map_append]
    exact (o.calls_load t k).append (ih _)

theorem callFree_folds (k : Nat) (ops : List Operator) (as : List String) :
    ∀ i ∈ folds k ops as, i.isCallFree = true := by
  induction ops generalizing k as with
  | nil => simp [folds]
  | cons op ops ih =>
    obtain _ | ⟨a, _ | ⟨b, more⟩⟩ := as
    · simp [folds]
    · simp [folds]
    · exact List.forall_mem_cons.2 ⟨rfl, ih _ _⟩

/-- An instruction that takes a value: if the value is a call, the instruction makes it. -/
def Instruction.Takes (i : Instruction) (v : Rvalue) : Prop :=
  match v with
  | .call f n => i.called? = some (f, n)
  | _ => i.isCallFree = true

theorem Instruction.takes_assign (dest : String) (v : Rvalue) : (Instruction.assign dest v).Takes v := by
  cases v <;> rfl

/-- **Expressions.**  With an instruction that takes its value, the code of an expression makes its calls in turn. -/
theorem Expr.calls_lower (e : Expr) {i : Instruction} (hi : i.Takes ((e.lower t).run g).value) :
    CallsInTurn [] (((e.lower t).run g).record ++ [i]) (e.calls.map (Call.passed t)) [] := by
  have hflat := e.lower_flattened t g
  have hloads := calls_loads t g.names.temp e.operands
  rw [e.calls_operands]
  match hops : e.operators with
  | [] =>
    obtain ⟨o, ho⟩ := Expr.operands_of_operators_nil hops
    rw [hflat.single o ho] at hi ⊢
    rw [ho, List.flatMap_singleton]
    cases o with
    | call c =>
      have hgroup := CallsInTurn.group (c.args.map fun a => a.atom.lower t) (hi.trans (by rw [List.length_map]))
      rw [List.map_map] at hgroup
      exact hgroup
    | fragment f =>
      cases f with
      | atom negated a => cases negated <;> exact .other hi .nil
      | not | zero | bool => exact .other hi .nil
  | [op] =>
    obtain ⟨a, b, -, hrun⟩ := hflat.pair op hops
    rw [hrun] at hi ⊢
    exact hloads.appendFree (List.forall_mem_singleton.2 hi)
  | op :: op' :: ops =>
    rw [hflat.longer (by rw [hops]; exact Nat.le_add_left 2 _)] at hi ⊢
    rw [List.append_assoc]
    exact hloads.appendFree (List.forall_mem_append.2 ⟨callFree_folds _ _ _, List.forall_mem_singleton.2 hi⟩)

theorem Expr.lowerAtom_calls (e : Expr) : CallsAll (e.lowerAtom t) (e.calls.map (Call.passed t)) := by
  intro g
  have h {i : Instruction} (hi : i.Takes ((e.lower t).run g).value) := e.calls_lower t g hi
  rw [Expr.lowerAtom, Pass.run_bind]
  generalize (e.lower t).run g = r at h ⊢
  obtain ⟨v, g', code⟩ := r
  cases v with
  | atom x =>
    show CallsInTurn [] (code ++ []) _ []
    rw [List.append_nil]
    exact (h (i := .assign x (.atom x)) rfl).dropFree rfl
  | binary | call | not => exact h (Instruction.takes_assign _ _)

/-- A value that is stored at once. -/
theorem Expr.assign_calls (e : Expr) (dest : String) :
    CallsAll (do Emit.assign dest (← e.lower t)) (e.calls.map (Call.passed t)) :=
  fun g => e.calls_lower t g (Instruction.takes_assign dest _)

/-! ### Conditions and statements -/

theorem flagOf_calls {predicate : Rvalue} (hp : ∀ l, (Instruction.ifz predicate l).isCallFree = true) :
    CallsAll (do return (Chain.single (← flagOf predicate) : Chain Connective String)) [] :=
  fun _ => .other rfl (.other (hp _) (.other rfl (.other rfl .nil)))

theorem combineFlags_calls (first : String) (more : List (Connective × String)) :
    CallsAll (combineFlags first more) [] := by
  induction more generalizing first with
  | nil => exact .pure first
  | cons x more ih =>
    refine (ih x.2).behind fun recent => (CallsAll.silent fun _ => rfl).behind fun flag => ?_
    exact (CallsAll.tell (i := .assign flag (.binary recent (.logic x.1) first)) rfl).last fun _ => .pure flag

theorem lowerCompared_calls (op : Operator) (l r : Expr) : CallsAll (do
      let a ← l.lowerAtom t
      let b ← r.lowerAtom t
      return (Chain.single (← flagOf (.binary a op b)) : Chain Connective String))
    (([l, r].flatMap Expr.calls).map (Call.passed t)) := by
  rw [List.flatMap_cons, List.flatMap_singleton, List.map_append]
  exact (l.lowerAtom_calls t).bind fun a => (r.lowerAtom_calls t).last fun b => flagOf_calls fun _ => rfl

/-- **Conditions.**  The code of a condition makes the calls in its expressions in turn. -/
theorem Cond.lowerFlags_calls (c : Cond) :
    CallsAll (c.lowerFlags t) ((c.exprs.flatMap Expr.calls).map (Call.passed t)) := by
  induction c with
  | comparison op l r s => exact lowerCompared_calls t (.order op) l r
  | equality op l r s => exact lowerCompared_calls t (.same op) l r
  | neg c s ih =>
    exact ih.last fun flags => (combineFlags_calls flags.head flags.tail).behind fun _ => flagOf_calls fun _ => rfl
  | paren c s ih => exact ih
  | binary op l r s ihl ihr =>
    rw [Cond.exprs, List.flatMap_append, List.map_append]
    exact ihl.bind fun a => ihr.last fun b => .pure (a.link op b)
  | bool b s => exact flagOf_calls fun _ => rfl

/-- The value of a condition is no call. -/
theorem Cond.ifz_calls (c : Cond) (label : String) : CallsAll (do Pass.tell (.ifz (← c.lower t) label))
    ((c.exprs.flatMap Expr.calls).map (Call.passed t)) := by
  unfold Cond.lower
  simp only [bind_assoc, pure_bind]
  exact (c.lowerFlags_calls t).last fun flags =>
    (combineFlags_calls flags.head flags.tail).behind fun _ => .tell rfl

mutual

/-- The calls in a statement, in order. -/
def Stmt.calls : Stmt → List Call
  | .assign _ value _ _ => value.calls
  | .ite cond thenBlock elseBlock _ =>
    cond.exprs.flatMap Expr.calls ++ (Block.calls thenBlock ++ Block.calls elseBlock)
  | .loop cond body _ => cond.exprs.flatMap Expr.calls ++ Block.calls body
  | .call c _ => [c]
  | .block inner _ => Block.calls inner
  | .skip _ => []

/-- The calls in a block. -/
def Block.calls : Block → List Call
  | ⟨stmts, _⟩ => Stmt.callsOfList stmts

/-- The calls in statements in order. -/
def Stmt.callsOfList : List Stmt → List Call
  | [] => []
  | s :: more => s.calls ++ Stmt.callsOfList more

end

theorem Call.statement_calls (c : Call) : CallsAll (do
    let _ ← c.lower t
    Pass.tell (.call c.name c.args.length)) [c.passed t] := by
  intro g
  have hgroup := CallsInTurn.group (c.args.map fun a => a.atom.lower t) (i := .call c.name c.args.length)
    (f := c.name) (by rw [List.length_map]; rfl)
  rw [List.map_map] at hgroup
  rw [Pass.run_bind, show (c.lower t).run g = _ from Operand.run_lower t g (.call c)]
  exact hgroup

/-- **Statements.**  The code of a statement makes its calls in turn. -/
theorem Stmt.lower_calls :
    (∀ s : Stmt, CallsAll (s.lower t) (s.calls.map (Call.passed t))) ∧
      ∀ ss, CallsAll (Stmt.lowerAll t ss) ((Stmt.callsOfList ss).map (Call.passed t)) := by
  refine Stmt.parts ?assign ?ite ?loop ?call ?block ?skip ?nil ?cons
  case assign =>
    intro x e a s
    rw [Stmt.lower, Stmt.calls]
    exact e.assign_calls t (t.resolve x)
  case ite =>
    intro c th el s iht ihe
    rw [Stmt.lower, Stmt.calls, Block.calls, Block.calls, Block.lower, Block.lower, List.map_append, List.map_append]
    refine (CallsAll.silent fun _ => rfl).behind fun labels => ?_
    have hall := (c.ifz_calls t labels.1).bind fun _ => iht.bind fun _ =>
      (CallsAll.tell (i := .goto labels.2) rfl).behind fun _ => (CallsAll.tell (i := .label labels.1) rfl).behind
        fun _ => ihe.last fun _ => .tell (i := .label labels.2) rfl
    rw [bind_assoc] at hall
    exact hall
  case loop =>
    intro c b s ih
    rw [Stmt.lower, Stmt.calls, Block.calls, Block.lower, List.map_append]
    refine (CallsAll.silent fun _ => rfl).behind fun labels => (CallsAll.tell rfl).behind fun _ => ?_
    have hall := (c.ifz_calls t labels.2).bind fun _ => ih.last fun _ =>
      (CallsAll.tell (i := .goto labels.1) rfl).behind fun _ => .tell (i := .label labels.2) rfl
    rw [bind_assoc] at hall
    exact hall
  case call =>
    intro c s
    rw [Stmt.lower, Stmt.calls]
    exact c.statement_calls t
  case block =>
    intro b s ih
    rw [Stmt.lower, Stmt.calls, Block.calls, Block.lower]
    exact ih
  case skip =>
    intro s
    rw [Stmt.lower, Stmt.calls]
    exact .pure ()
  case nil =>
    rw [Stmt.lowerAll, Stmt.callsOfList]
    exact .pure ()
  case cons =>
    intro s more ihs ihmore
    rw [Stmt.lowerAll, Stmt.callsOfList, List.map_append]
    exact ihs.bind fun _ => ihmore

/-! ### Declarations -/

theorem Decl.lowerGlobal_calls (d : Decl) :
    CallsAll (d.lowerGlobal t) ((d.collect Expr.calls).map (Call.passed t)) := by
  cases d with
  | var x type s => exact .pure ()
  | const x type e s => exact e.assign_calls t x

theorem Decl.lowerLocal_calls (d : Decl) :
    CallsAll (d.lowerLocal t) ((d.collect Expr.calls).map (Call.passed t)) := by
  cases d with
  | var x type s => exact .silent fun _ => rfl
  | const x type e s =>
    exact fun g => e.calls_lower t g (Instruction.takes_assign ((t.insert x).resolve x) _)

/-- What is called along local declarations, each time with the arguments as they are written there. -/
theorem Decl.lowerLocals_calls (ds : List Decl) :
    CallsAll (ds.foldlM Decl.lowerLocal t) ((Decl.along Expr.calls t ds).map fun c => c.2.passed c.1) := by
  induction ds generalizing t with
  | nil => exact .pure t
  | cons d more ih =>
    intro g
    have hrest := ih (t.insert d.name) ((d.lowerLocal t).run g).state
    rw [List.foldlM_cons, Pass.run_bind, d.value_lowerLocal, Decl.along, List.map_append, List.map_map]
    exact (d.lowerLocal_calls t g).append hrest

theorem fetchParams_calls (index : Nat) (ps : List Param) : CallsAll (fetchParams t index ps) [] := by
  induction ps generalizing index with
  | nil => exact .pure ()
  | cons q more ih => exact (CallsAll.tell rfl).behind fun _ => ih _

/-- A call that is returned goes through a temporary first. -/
theorem lowerReturn_calls (result : Option Expr) :
    CallsAll (lowerReturn t result) ((result.toList.flatMap Expr.calls).map (Call.passed t)) := by
  cases result with
  | none => exact .tell rfl
  | some e =>
    rw [Option.toList_some, List.flatMap_singleton]
    intro g
    have h {i : Instruction} (hi : i.Takes ((e.lower t).run g).value) := e.calls_lower t g hi
    rw [lowerReturn, Pass.run_bind, Expr.lowerReturned, Pass.run_bind]
    generalize (e.lower t).run g = r at h ⊢
    obtain ⟨v, g', code⟩ := r
    cases v with
    | call f n => exact (h (Instruction.takes_assign _ _)).appendFree (List.forall_mem_singleton.2 rfl)
    | atom | binary | not =>
      show CallsInTurn [] (code ++ [] ++ [.ret (some _)]) _ []
      rw [List.append_nil]
      exact h rfl

end Lowering

/-! ### Bodies and programs -/

/-- The calls of a body in order, each with its arguments as they are written there. -/
def Body.passedCalls (b : Body) (ordinal : Nat) : List PassedCall :=
  (b.along Expr.calls Stmt.callsOfList ordinal).map fun c => c.2.passed c.1

namespace Body

variable (b : Body) (g : Generator)

theorem lowerParams_calls : CallsInTurn [] (b.lowerParams.run g).record
    ((b.constants.flatMap (Decl.collect Expr.calls)).map (Call.passed (.empty g.names.ordinal))) [] := by
  rw [List.map_flatMap]
  exact ((CallsAll.forM (Decl.lowerGlobal_calls (.empty g.names.ordinal)) b.constants).last fun _ =>
    (CallsAll.silent fun g => (Param.run_registers b.params (.empty _) g).2.2).behind fun params =>
      (fetchParams_calls params 1 b.params).last fun _ => .pure params) g

theorem lowerStart_calls : CallsInTurn [] (b.lowerStart.run g).record
    ((b.constants.flatMap (Decl.collect Expr.calls)).map (Call.passed (.empty g.names.ordinal)) ++
      (Decl.along Expr.calls (b.paramTable g.names.ordinal) b.decls).map fun c => c.2.passed c.1) [] := by
  have hdecls := Decl.lowerLocals_calls (b.paramTable g.names.ordinal) b.decls (b.lowerParams.run g).state
  rw [← b.value_lowerParams] at hdecls ⊢
  rw [b.lowerStart_eq]
  exact (b.lowerParams_calls g).append hdecls

/-- **Bodies.**  The code of a body makes its calls in turn. -/
theorem lower_calls {finish : RenameTable → Emit Unit} (last : List PassedCall)
    (hf : ∀ t, CallsAll (finish t) ((b.result.toList.flatMap Expr.calls).map (Call.passed t) ++ last)) :
    CallsInTurn [] ((b.lower finish).run g).record (b.passedCalls g.names.ordinal ++ last) [] := by
  have hrest (t : RenameTable) : CallsAll (b.block.lower t >>= fun _ => finish t)
      ((Stmt.callsOfList b.block.nodes).map (Call.passed t) ++
        ((b.result.toList.flatMap Expr.calls).map (Call.passed t) ++ last)) := by
    rw [Block.lower]
    exact ((Stmt.lower_calls t).2 b.block.nodes).bind fun _ => hf t
  have hall := (b.lowerStart_calls g).append (hrest (b.lowerStart.run g).value (b.lowerStart.run g).state)
  rw [b.value_lowerStart, List.append_assoc] at hall
  rw [lower, Pass.run_bind, b.value_lowerStart]
  simp only [passedCalls, along, List.map_append, List.map_map, List.append_assoc]
  exact hall

end Body

/-- The calls of bodies, when the first one has some ordinal. -/
def Body.passedFrom (ordinal : Nat) (bs : List Body) : List PassedCall :=
  (bs.zipIdx ordinal).flatMap fun bi => bi.1.passedCalls bi.2

theorem Func.lowerAll_calls (fs : List Func) (g : Generator) : CallsInTurn [] ((fs.forM Func.lower).run g).record
    (Body.passedFrom g.names.ordinal (fs.map Func.asBody)) [] := by
  induction fs generalizing g with
  | nil => exact .nil
  | cons f more ih =>
    have hfirst : CallsInTurn [] (f.lower.run g).record (f.asBody.passedCalls g.names.ordinal) [] := by
      have hbody := f.asBody.lower_calls g [] fun t => by
        rw [List.append_nil]
        exact lowerReturn_calls t f.returnValue
      rw [f.run_lower]
      rw [List.append_nil] at hbody
      exact .other rfl hbody
    have hmore := ih (f.lower.run g).state
    rw [f.ordinal_lower] at hmore
    rw [List.map_cons, Body.passedFrom, List.zipIdx_cons, List.flatMap_cons]
    exact hfirst.append hmore

namespace Program

/-- The calls of a program in order, each with its arguments as they are written there, and the one that ends it. -/
def passedCalls (p : Program) : List PassedCall := Body.passedFrom 1 p.bodies ++ [(exitRoutine, [])]

/-- **Programs.**  The code of a program makes its calls in turn. -/
theorem calls_code (p : Program) : CallsInTurn [] p.code p.passedCalls [] := by
  let g := Generator.first.behind p.funcs
  have hordinal : g.names.ordinal = 1 + p.funcs.length := Generator.ordinal_behind _ _
  have hmain : CallsInTurn [] (p.lowerMain.run g).record
      (p.mainBody.passedCalls (1 + p.funcs.length) ++ [(exitRoutine, [])]) [] := by
    rw [p.run_lowerMain, ← hordinal]
    exact .other rfl (p.mainBody.lower_calls g [(exitRoutine, [])] fun t _ => CallsInTurn.group [] rfl)
  have hcalls : p.passedCalls = Body.passedFrom 1 (p.funcs.map Func.asBody) ++
      (p.mainBody.passedCalls (1 + p.funcs.length) ++ [(exitRoutine, [])]) := by
    rw [passedCalls, bodies, Body.passedFrom, List.zipIdx_append, List.flatMap_append, List.length_map,
      Body.passedFrom, List.append_assoc]
    simp
  rw [hcalls]
  exact (Func.lowerAll_calls p.funcs .first).append hmain

end Program

end ThreeAddress
