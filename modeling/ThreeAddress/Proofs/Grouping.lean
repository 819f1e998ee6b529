import ThreeAddress.Checking.Program
import ThreeAddress.Proofs.AlikeTrees

/-!
# Groups and empty statements

Parentheses, braces around statements and `skip` only group.  A tree may be given more of them, around any of its nodes
and at any place between its statements: its code stays the same, and checking it says the same.

* `Expr.Grouped`, `Cond.Grouped`, `Stmt.AllGrouped`, `Decl.Grouped`, `Func.Grouped`, `Program.Grouped` — trees with
  more groups and empty statements;
* `Expr.Grouped.chain`, `Stmt.AllGrouped.lower`, `Func.Grouped.sameCode` — they have the same code;
* `Fault.words`, `Check.SaysAs` — checks that change the table alike and find the same, whatever the hints say;
* `Expr.Grouped.check`, `Stmt.AllGrouped.check`, `Func.Grouped.check` — they are checked alike;
* `grouping_invisible` — programs.
-/

namespace ThreeAddress

variable {α β γ : Type}

/-! ### Trees with more groups -/

/-- Parentheses are put around nodes of an expression. -/
inductive Expr.Grouped : Expr → Expr → Prop
  | arith {op : ArithOp} {l l' r r' : Expr} {s : Span} (hl : Grouped l l') (hr : Grouped r r') :
      Grouped (.arith op l r s) (.arith op l' r' s)
  | logic {op : Connective} {l l' r r' : Expr} {s : Span} (hl : Grouped l l') (hr : Grouped r r') :
      Grouped (.logic op l r s) (.logic op l' r' s)
  | paren {e e' : Expr} {s : Span} (h : Grouped e e') : Grouped (.paren e s) (.paren e' s)
  | call {c : Call} {s : Span} : Grouped (.call c s) (.call c s)
  | fragment {f : Fragment} {s : Span} : Grouped (.fragment f s) (.fragment f s)
  | wrap {e e' : Expr} (h : Grouped e e') (s : Span) : Grouped e (.paren e' s)

/-- Parentheses are put around nodes of a condition, the expressions in it included. -/
inductive Cond.Grouped : Cond → Cond → Prop
  | comparison {op : Comparison} {l l' r r' : Expr} {s : Span} (hl : l.Grouped l') (hr : r.Grouped r') :
      Grouped (.comparison op l r s) (.comparison op l' r' s)
  | equality {op : Equality} {l l' r r' : Expr} {s : Span} (hl : l.Grouped l') (hr : r.Grouped r') :
      Grouped (.equality op l r s) (.equality op l' r' s)
  | neg {c c' : Cond} {s : Span} (h : Grouped c c') : Grouped (.neg c s) (.neg c' s)
  | paren {c c' : Cond} {s : Span} (h : Grouped c c') : Grouped (.paren c s) (.paren c' s)
  | binary {op : Connective} {l l' r r' : Cond} {s : Span} (hl : Grouped l l') (hr : Grouped r r') :
      Grouped (.binary op l r s) (.binary op l' r' s)
  | bool {b : Bool} {s : Span} : Grouped (.bool b s) (.bool b s)
  | wrap {c c' : Cond} (h : Grouped c c') (s : Span) : Grouped c (.paren c' s)

/-- Nodes within some statements are grouped, then statements that follow each other are put between braces, and
`skip` is put anywhere. -/
inductive Stmt.AllGrouped : List Stmt → List Stmt → Prop
  | nil : AllGrouped [] []
  | assign {x : String} {e e' : Expr} {a s : Span} {more more' : List Stmt} (he : e.Grouped e')
      (h : AllGrouped more more') : AllGrouped (.assign x e a s :: more) (.assign x e' a s :: more')
  | ite {c c' : Cond} {th th' el el' : List Stmt} {st se s : Span} {more more' : List Stmt} (hc : c.Grouped c')
      (ht : AllGrouped th th') (he : AllGrouped el el') (h : AllGrouped more more') :
      AllGrouped (.ite c ⟨th, st⟩ ⟨el, se⟩ s :: more) (.ite c' ⟨th', st⟩ ⟨el', se⟩ s :: more')
  | loop {c c' : Cond} {ss ss' : List Stmt} {sb s : Span} {more more' : List Stmt} (hc : c.Grouped c')
      (hb : AllGrouped ss ss') (h : AllGrouped more more') :
      AllGrouped (.loop c ⟨ss, sb⟩ s :: more) (.loop c' ⟨ss', sb⟩ s :: more')
  | call {c : Call} {s : Span} {more more' : List Stmt} (h : AllGrouped more more') :
      AllGrouped (.call c s :: more) (.call c s :: more')
  | block {ss ss' : List Stmt} {sb s : Span} {more more' : List Stmt} (hb : AllGrouped ss ss')
      (h : AllGrouped more more') : AllGrouped (.block ⟨ss, sb⟩ s :: more) (.block ⟨ss', sb⟩ s :: more')
  | skip {s : Span} {more more' : List Stmt} (h : AllGrouped more more') :
      AllGrouped (.skip s :: more) (.skip s :: more')
  | wrap {ss before inner behind : List Stmt} (h : AllGrouped ss (before ++ (inner ++ behind))) (sb s : Span) :
      AllGrouped ss (before ++ .block ⟨inner, sb⟩ s :: behind)
  | insert {ss before behind : List Stmt} (h : AllGrouped ss (before ++ behind)) (s : Span) :
      AllGrouped ss (before ++ .skip s :: behind)

/-- The value of a constant is grouped. -/
inductive Decl.Grouped : Decl → Decl → Prop
  | var {x : String} {type : Ty} {s : Span} : Grouped (.var x type s) (.var x type s)
  | const {x : String} {type : Ty} {e e' : Expr} {s : Span} (he : e.Grouped e') :
      Grouped (.const x type e s) (.const x type e' s)

/-- The constants, the body and the return of a function are grouped. -/
structure Func.Grouped (f f' : Func) : Prop where
  name : f.name = f'.name
  params : f.params = f'.params
  decls : List.Forall₂ Decl.Grouped f.decls f'.decls
  body : Stmt.AllGrouped f.body.nodes f'.body.nodes
  returnType : f.returnType = f'.returnType
  returnValue : Option.Rel Expr.Grouped f.returnValue f'.returnValue
  span : f.span = f'.span

/-- The constants and the body of a main part are grouped. -/
structure Main.Grouped (m m' : Main) : Prop where
  decls : List.Forall₂ Decl.Grouped m.decls m'.decls
  body : Stmt.AllGrouped m.body.nodes m'.body.nodes

/-- All parts of a program are grouped. -/
structure Program.Grouped (p p' : Program) : Prop where
  decls : List.Forall₂ Decl.Grouped p.decls p'.decls
  funcs : List.Forall₂ Func.Grouped p.funcs p'.funcs
  main : p.main.Grouped p'.main

/-! ### Code -/

section Code

variable (t : RenameTable)

/-- Parentheses do not interrupt a chain. -/
theorem Expr.Grouped.chain {e e' : Expr} (h : e.Grouped e') : e.chain = e'.chain := by
  induction h with
  | arith _ _ ihl ihr => rw [Expr.chain, Expr.chain, ihl, ihr]
  | logic _ _ ihl ihr => rw [Expr.chain, Expr.chain, ihl, ihr]
  | paren _ ih => exact ih
  | call => rfl
  | fragment => rfl
  | wrap _ _ ih => exact ih

theorem Expr.Grouped.lower {e e' : Expr} (h : e.Grouped e') : e.lower t = e'.lower t := by
  unfold Expr.lower
  rw [h.chain]

theorem Expr.Grouped.lowerAtom {e e' : Expr} (h : e.Grouped e') : e.lowerAtom t = e'.lowerAtom t := by
  rw [Expr.lowerAtom, Expr.lowerAtom, h.lower]

theorem Cond.Grouped.lowerFlags {c c' : Cond} (h : c.Grouped c') : c.lowerFlags t = c'.lowerFlags t := by
  induction h with
  | comparison hl hr => rw [Cond.lowerFlags, Cond.lowerFlags, hl.lowerAtom, hr.lowerAtom]
  | equality hl hr => rw [Cond.lowerFlags, Cond.lowerFlags, hl.lowerAtom, hr.lowerAtom]
  | neg _ ih => rw [Cond.lowerFlags, Cond.lowerFlags, ih]
  | paren _ ih => exact ih
  | binary _ _ ihl ihr => rw [Cond.lowerFlags, Cond.lowerFlags, ihl, ihr]
  | bool => rfl
  | wrap _ _ ih => exact ih

theorem Cond.Grouped.lower {c c' : Cond} (h : c.Grouped c') : c.lower t = c'.lower t := by
  rw [Cond.lower, Cond.lower, h.lowerFlags]

theorem Stmt.lowerAll_append (ss more : List Stmt) :
    Stmt.lowerAll t (ss ++ more) = (Stmt.lowerAll t ss >>= fun _ => Stmt.lowerAll t more) := by
  induction ss with
  | nil => rw [List.nil_append, Stmt.lowerAll, pure_bind]
  | cons s ss ih => rw [List.cons_append, Stmt.lowerAll, Stmt.lowerAll, ih, bind_assoc]

/-- The code of a block stands among the code of the statements around it. -/
theorem Stmt.lowerAll_block (before inner behind : List Stmt) (sb s : Span) :
    Stmt.lowerAll t (before ++ .block ⟨inner, sb⟩ s :: behind) =
      Stmt.lowerAll t (before ++ (inner ++ behind)) := by
  rw [lowerAll_append, lowerAll_append, lowerAll_append, lowerAll, lower, Block.lower]

theorem Stmt.lowerAll_skip (before behind : List Stmt) (s : Span) :
    Stmt.lowerAll t (before ++ .skip s :: behind) = Stmt.lowerAll t (before ++ behind) := by
  rw [lowerAll_append, lowerAll_append, lowerAll, lower, pure_bind]

theorem Stmt.AllGrouped.lower {ss ss' : List Stmt} (h : Stmt.AllGrouped ss ss') :
    Stmt.lowerAll t ss = Stmt.lowerAll t ss' := by
  induction h with
  | nil => rfl
  | assign he _ ih => rw [Stmt.lowerAll, Stmt.lowerAll, Stmt.lower, Stmt.lower, he.lower, ih]
  | ite hc _ _ _ iht ihe ih =>
    rw [Stmt.lowerAll, Stmt.lowerAll, Stmt.lower, Stmt.lower, Block.lower, Block.lower, Block.lower, Block.lower,
      hc.lower, iht, ihe, ih]
  | loop hc _ _ ihb ih =>
    rw [Stmt.lowerAll, Stmt.lowerAll, Stmt.lower, Stmt.lower, Block.lower, Block.lower, hc.lower, ihb, ih]
  | call _ ih => rw [Stmt.lowerAll, Stmt.lowerAll, ih]
  | block _ _ ihb ih => rw [Stmt.lowerAll, Stmt.lowerAll, Stmt.lower, Stmt.lower, Block.lower, Block.lower, ihb, ih]
  | skip _ ih => rw [Stmt.lowerAll, Stmt.lowerAll, ih]
  | wrap _ _ _ ih => rw [Stmt.lowerAll_block, ih]
  | insert _ _ ih => rw [Stmt.lowerAll_skip, ih]

theorem Decl.Grouped.lowerLocal {d d' : Decl} (h : d.Grouped d') : d.lowerLocal t = d'.lowerLocal t := by
  cases h with
  | var => rfl
  | const he => rw [Decl.lowerLocal, Decl.lowerLocal, he.lower]

theorem Decl.Grouped.lowerGlobal {d d' : Decl} (h : d.Grouped d') : d.lowerGlobal t = d'.lowerGlobal t := by
  cases h with
  | var => rfl
  | const he => rw [Decl.lowerGlobal, Decl.lowerGlobal, he.lower]

/-- A call that is returned stays a call between parentheses. -/
theorem Expr.Grouped.lowerReturned {e e' : Expr} (h : e.Grouped e') : e.lowerReturned t = e'.lowerReturned t := by
  rw [Expr.lowerReturned, Expr.lowerReturned, h.lower]

end Code

theorem Decl.Grouped.sameCode {d d' : Decl} (h : d.Grouped d') : d.SameCode d' :=
  ⟨fun t => h.lowerLocal t, fun t => h.lowerGlobal t⟩

theorem Stmt.AllGrouped.sameCode {b b' : Block} (h : Stmt.AllGrouped b.nodes b'.nodes) : b.SameCode b' := by
  intro t
  rw [Block.lower, Block.lower, h.lower]

theorem Func.Grouped.sameCode {f f' : Func} (h : f.Grouped f') : f.SameCode f' where
  name := h.name
  params := by
    rw [h.params]
    exact List.forall₂_same.2 fun _ _ => rfl
  decls := h.decls.imp fun _ _ hd => hd.sameCode
  body := h.body.sameCode
  returnValue := rel_imp h.returnValue fun _ _ _ he t => he.lowerReturned t

theorem Program.Grouped.code {p p' : Program} (h : p.Grouped p') : p.code = p'.code :=
  Program.SameCode.code {
    decls := h.decls.imp fun _ _ hd => hd.sameCode
    funcs := h.funcs.imp fun _ _ hf => hf.sameCode
    mainDecls := h.main.decls.imp fun _ _ hd => hd.sameCode
    mainBody := h.main.body.sameCode }

/-! ### Checks that say the same -/

/-- What a fault says: its code and its message. -/
def Fault.words (f : Fault) : FaultCode × String := (f.code, f.message)

/-- Two runs come to the same value and the same table, and their faults say the same. -/
structure Passed.SaysAs (r r' : Passed SymbolTable Fault α) : Prop where
  value : r.value = r'.value
  state : r.state = r'.state
  words : r.record.map Fault.words = r'.record.map Fault.words

/-- From each table, two checks come to the same and say the same. -/
def Check.SaysAs (p p' : Check α) : Prop := ∀ t, (p.run t).SaysAs (p'.run t)

namespace Check.SaysAs

variable {p p' : Check α}

theorem refl (p : Check α) : p.SaysAs p := fun _ => ⟨rfl, rfl, rfl⟩

theorem bind {f f' : α → Check β} (hp : p.SaysAs p') (hf : ∀ a, (f a).SaysAs (f' a)) :
    Check.SaysAs (p >>= f) (p' >>= f') := by
  intro t
  obtain ⟨hvalue, hstate, hwords⟩ := hp t
  obtain ⟨hvalue', hstate', hwords'⟩ := hf (p'.run t).value (p'.run t).state
  rw [Pass.run_bind, Pass.run_bind, hvalue, hstate]
  exact ⟨hvalue', hstate', by rw [List.map_append, List.map_append, hwords, hwords']⟩

/-- A first step that is the same. -/
theorem andThen {f f' : α → Check β} (hf : ∀ a, (f a).SaysAs (f' a)) : Check.SaysAs (p >>= f) (p >>= f') :=
  (refl p).bind hf

/-- What a fault says depends neither on its place nor on its hint. -/
theorem report (cause : SemanticCause) (s s' : Span) (hint hint' : String) :
    (Check.report cause s hint).SaysAs (Check.report cause s' hint') := fun _ => ⟨rfl, rfl, rfl⟩

theorem require (ok : Bool) (cause : SemanticCause) (s s' : Span) (hint hint' : String) :
    (Check.require ok cause s hint).SaysAs (Check.require ok cause s' hint') := by
  unfold Check.require
  split
  · exact refl _
  · exact report cause s s' hint hint'

variable {P : γ → γ → Prop} {as as' : List γ}

theorem forM {f : γ → Check Unit} (h : List.Forall₂ P as as') (hf : ∀ a a', P a a' → (f a).SaysAs (f a')) :
    Check.SaysAs (as.forM f) (as'.forM f) := by
  induction h with
  | nil => exact refl _
  | cons ha _ ih => exact (hf _ _ ha).bind fun _ => ih

theorem mapM {f : γ → Check α} (h : List.Forall₂ P as as') (hf : ∀ a a', P a a' → (f a).SaysAs (f a')) :
    Check.SaysAs (as.mapM f) (as'.mapM f) := by
  induction h with
  | nil => exact refl _
  | cons ha _ ih =>
    rw [List.mapM_cons, List.mapM_cons]
    exact (hf _ _ ha).bind fun _ => ih.bind fun _ => refl _

end Check.SaysAs

open Check (SaysAs)

theorem checkOperands_saysAs (cause : Yield → SemanticCause) (expected : Ty) (l r : Yield) (s : Span)
    (hint hint' : String) :
    (checkOperands cause expected l r s hint).SaysAs (checkOperands cause expected l r s hint') :=
  (SaysAs.require _ _ s s hint hint').bind fun _ => .require _ _ s s hint hint'

/-- Parentheses keep what an expression yields, also whether it is the result of a call. -/
theorem Expr.Grouped.check {e e' : Expr} (h : e.Grouped e') : e.check.SaysAs e'.check := by
  induction h with
  | arith _ _ ihl ihr =>
    exact ihl.bind fun _ => ihr.bind fun _ => (checkOperands_saysAs _ _ _ _ _ _ _).bind fun _ => .refl _
  | logic _ _ ihl ihr =>
    exact ihl.bind fun _ => ihr.bind fun _ => (checkOperands_saysAs _ _ _ _ _ _ _).bind fun _ => .refl _
  | paren _ ih => exact ih
  | call => exact .refl _
  | fragment => exact .refl _
  | wrap _ _ ih => exact ih

theorem Expr.Grouped.referencedName {e e' : Expr} (h : e.Grouped e') : e.referencedName? = e'.referencedName? := by
  induction h with
  | paren _ ih => exact ih
  | wrap _ _ ih => exact ih
  | _ => rfl

theorem Cond.Grouped.check {c c' : Cond} (h : c.Grouped c') : c.check.SaysAs c'.check := by
  induction h with
  | comparison hl hr =>
    exact hl.check.bind fun _ => hr.check.bind fun _ => checkOperands_saysAs _ _ _ _ _ _ _
  | equality hl hr => exact hl.check.bind fun _ => hr.check.bind fun _ => .require _ _ _ _ _ _
  | neg _ ih => exact ih
  | paren _ ih => exact ih
  | binary _ _ ihl ihr => exact ihl.bind fun _ => ihr
  | bool => exact .refl _
  | wrap _ _ ih => exact ih

/-! ### Statements that say the same -/

/-- What a value between parentheses copies counts as used just the same. -/
theorem Expr.Grouped.assignment {e e' : Expr} (h : e.Grouped e') (target : String) (span : Span) :
    (checkAssignment target e span).SaysAs (checkAssignment target e' span) := by
  unfold checkAssignment markReferenced
  rw [h.referencedName]
  refine h.check.bind fun found => .andThen fun _ => .andThen fun t => ?_
  cases t.lookup? target with
  | none => exact .report _ _ _ _ _
  | some entity =>
    dsimp only
    cases entity.valueType? with
    | none => exact .report _ _ _ _ _
    | some type =>
      dsimp only
      split
      · exact .report _ _ _ _ _
      · exact (SaysAs.require _ _ _ _ _ _).bind fun _ => .refl _

theorem Stmt.checkAll_append (ss more : List Stmt) :
    Stmt.checkAll (ss ++ more) = (Stmt.checkAll ss >>= fun _ => Stmt.checkAll more) := by
  induction ss with
  | nil => rw [List.nil_append, Stmt.checkAll, pure_bind]
  | cons s ss ih => rw [List.cons_append, Stmt.checkAll, Stmt.checkAll, ih, bind_assoc]

/-- The statements of a block are checked among those around it. -/
theorem Stmt.checkAll_block (before inner behind : List Stmt) (sb s : Span) :
    Stmt.checkAll (before ++ .block ⟨inner, sb⟩ s :: behind) = Stmt.checkAll (before ++ (inner ++ behind)) := by
  rw [checkAll_append, checkAll_append, checkAll_append, checkAll, check, Block.check]

theorem Stmt.checkAll_skip (before behind : List Stmt) (s : Span) :
    Stmt.checkAll (before ++ .skip s :: behind) = Stmt.checkAll (before ++ behind) := by
  rw [checkAll_append, checkAll_append, checkAll, check, pure_bind]

theorem Stmt.AllGrouped.check {ss ss' : List Stmt} (h : Stmt.AllGrouped ss ss') :
    (Stmt.checkAll ss).SaysAs (Stmt.checkAll ss') := by
  induction h with
  | nil => exact .refl _
  | assign he _ ih =>
    rw [Stmt.checkAll, Stmt.checkAll, Stmt.check, Stmt.check]
    exact (he.assignment _ _).bind fun _ => ih
  | ite hc _ _ _ iht ihe ih =>
    rw [Stmt.checkAll, Stmt.checkAll, Stmt.check, Stmt.check, Block.check, Block.check, Block.check, Block.check]
    exact (hc.check.bind fun _ => iht.bind fun _ => ihe).bind fun _ => ih
  | loop hc _ _ ihb ih =>
    rw [Stmt.checkAll, Stmt.checkAll, Stmt.check, Stmt.check, Block.check, Block.check]
    exact (hc.check.bind fun _ => ihb).bind fun _ => ih
  | call _ ih =>
    rw [Stmt.checkAll, Stmt.checkAll]
    exact .andThen fun _ => ih
  | block _ _ ihb ih =>
    rw [Stmt.checkAll, Stmt.checkAll, Stmt.check, Stmt.check, Block.check, Block.check]
    exact ihb.bind fun _ => ih
  | skip _ ih =>
    rw [Stmt.checkAll, Stmt.checkAll]
    exact .andThen fun _ => ih
  | wrap _ _ _ ih =>
    rw [Stmt.checkAll_block]
    exact ih
  | insert _ _ ih =>
    rw [Stmt.checkAll_skip]
    exact ih

/-! ### Declarations, functions and programs -/

theorem Decl.Grouped.check {d d' : Decl} (h : d.Grouped d') : d.check.SaysAs d'.check := by
  cases h with
  | var => exact .refl _
  | const he => exact he.check.bind fun _ => .andThen fun _ => .andThen fun _ => .require _ _ _ _ _ _

theorem inScope_saysAs {body body' : Check Unit} (h : body.SaysAs body') : (inScope body).SaysAs (inScope body') :=
  .andThen fun _ => h.bind fun _ => .refl _

theorem Block.check_saysAs {b b' : Block} (h : Stmt.AllGrouped b.nodes b'.nodes) :
    (Block.check b).SaysAs (Block.check b') := by
  rw [Block.check, Block.check]
  exact h.check

theorem Func.Grouped.checkReturn {f f' : Func} (h : f.Grouped f') : f.checkReturn.SaysAs f'.checkReturn := by
  have hvalue := h.returnValue
  unfold Func.checkReturn
  rw [h.name, h.returnType, h.span]
  generalize f.returnValue = value at hvalue
  generalize f'.returnValue = value' at hvalue
  cases hvalue with
  | none => exact .refl _
  | some he => exact he.check.bind fun _ => .require _ _ _ _ _ _

theorem Func.Grouped.check {f f' : Func} (h : f.Grouped f') : f.check.SaysAs f'.check := by
  have hregister : f.register = f'.register := by
    rw [Func.register, Func.register, h.name, h.span, h.returnType, h.params]
  unfold Func.check
  rw [hregister, h.name, h.params]
  refine .andThen fun _ => inScope_saysAs (.andThen fun _ => ?_)
  refine (SaysAs.forM h.decls fun _ _ hd => hd.check).bind fun _ => ?_
  exact (Block.check_saysAs h.body).bind fun _ => h.checkReturn

theorem Program.Grouped.check {p p' : Program} (h : p.Grouped p') : p.check.SaysAs p'.check := by
  refine (SaysAs.forM h.decls fun _ _ hd => hd.check).bind fun _ => ?_
  refine (SaysAs.mapM h.funcs fun _ _ hf => hf.check).bind fun _ => ?_
  refine (inScope_saysAs ?_).bind fun _ => .refl _
  exact (SaysAs.forM h.main.decls fun _ _ hd => hd.check).bind fun _ => Block.check_saysAs h.main.body

/-- **Programs.**  More parentheses, braces and empty statements change neither the code of a program nor what the
checks say, and the warnings stay the same. -/
theorem grouping_invisible {p p' : Program} (h : p.Grouped p') :
    p.code = p'.code ∧ p.analyze.faults.map Fault.words = p'.analyze.faults.map Fault.words ∧
      p.analyze.warnings = p'.analyze.warnings := by
  obtain ⟨hwarnings, -, hwords⟩ := h.check .empty
  exact ⟨h.code, hwords, hwarnings⟩

/-- A function that returns the result of a call, and a loop that reads a name which is never declared. -/
def askingTree : Program :=
  let here : Span := .origin
  let call : Expr := .call ⟨"f", [], here⟩ here
  let name (x : String) : Expr := .fragment (.atom false (.name x)) here
  let less : Cond := .comparison .less (name "x") (name "y") here
  ⟨[], [⟨"f", [], [], ⟨[], here⟩, .integer, some call, here⟩],
    ⟨[.var "x" .integer here],
      ⟨[.assign "x" (.arith .plus call (name "x") here) here here,
        .loop (.neg less here) ⟨[.assign "x" (name "x") here here], here⟩ here], here⟩, here⟩⟩

/-- The same with parentheses around the returned call, an operand, a bare name and the negated comparison, with braces
around both statements, and with empty statements. -/
def groupedAskingTree : Program :=
  let here : Span := .origin
  let call : Expr := .call ⟨"f", [], here⟩ here
  let name (x : String) : Expr := .fragment (.atom false (.name x)) here
  let less : Cond := .comparison .less (name "x") (name "y") here
  ⟨[], [⟨"f", [], [], ⟨[.skip here], here⟩, .integer, some (.paren call here), here⟩],
    ⟨[.var "x" .integer here],
      ⟨[.block ⟨[.assign "x" (.arith .plus (.paren (.paren call here) here) (name "x") here) here here,
        .loop (.neg (.paren less here) here) ⟨[.assign "x" (.paren (name "x") here) here here, .skip here], here⟩ here],
        here⟩ here], here⟩, here⟩⟩

theorem askingTree_grouped : askingTree.Grouped groupedAskingTree := by
  have hreturn : Func.Grouped ⟨"f", [], [], ⟨[], .origin⟩, .integer, some (.call ⟨"f", [], .origin⟩ .origin), .origin⟩
      ⟨"f", [], [], ⟨[.skip .origin], .origin⟩, .integer,
        some (.paren (.call ⟨"f", [], .origin⟩ .origin) .origin), .origin⟩ :=
    ⟨rfl, rfl, .nil, @Stmt.AllGrouped.insert _ [] [] .nil _, rfl, .some (.wrap .call _), rfl⟩
  have hloop : Stmt.AllGrouped [.assign "x" (.fragment (.atom false (.name "x")) .origin) .origin .origin]
      [.assign "x" (.paren (.fragment (.atom false (.name "x")) .origin) .origin) .origin .origin, .skip .origin] :=
    @Stmt.AllGrouped.insert _ [_] [] (.assign (.wrap .fragment _) .nil) _
  refine ⟨.nil, .cons hreturn .nil, .cons .var .nil, @Stmt.AllGrouped.wrap _ [] _ [] ?_ _ _⟩
  exact .assign (.arith (.wrap (.wrap .call _) _) .fragment)
    (.loop (.neg (.wrap (.comparison .fragment .fragment) _)) hloop .nil)

theorem grouping_invisible_askingTree :
    askingTree.Grouped groupedAskingTree ∧ askingTree.code = groupedAskingTree.code ∧
      askingTree.analyze.faults.map Fault.words = groupedAskingTree.analyze.faults.map Fault.words ∧
      askingTree.analyze.warnings = groupedAskingTree.analyze.warnings ∧
      groupedAskingTree.analyze.faults.map Fault.words =
        [(.unassignedVariable, "Variable 'x' is used before it was assigned a value"),
          (.undefinedVariable, "Undefined variable 'y'")] := by
  obtain ⟨hcode, hwords, hwarnings⟩ := grouping_invisible askingTree_grouped
  exact ⟨askingTree_grouped, hcode, hwords, hwarnings, by decide +kernel⟩

end ThreeAddress
