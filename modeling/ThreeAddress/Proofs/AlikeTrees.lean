import Mathlib.Data.Option.Defs
import ThreeAddress.Lowering.Program
import ThreeAddress.Proofs.Correspondence

/-!
# Trees that differ in their spans

The same tree may carry other spans.  What is written for such trees is the same, and so is their code.  Which
spans correspond is left open.

* `Expr.Alike`, `Cond.Alike`, `Stmt.AllAlike`, `Decl.Alike`, `Func.Alike`, `Program.Alike` — trees that differ in
  their spans only, and corresponding spans;
* `Expr.Alike.text` and the like — they are written alike;
* `Func.SameCode.lower`, `Program.SameCode.code` — functions and programs whose parts have the same code;
* `Program.Alike.code` — trees that differ in their spans have the same code.
-/

namespace ThreeAddress

variable {R : Span → Span → Prop}

/-! ### Trees -/

/-- Arguments that differ in their spans. -/
structure Argument.Alike (R : Span → Span → Prop) (a a' : Argument) : Prop where
  atom : a.atom = a'.atom
  span : R a.span a'.span

/-- Calls that differ in their spans. -/
structure Call.Alike (R : Span → Span → Prop) (c c' : Call) : Prop where
  name : c.name = c'.name
  args : List.Forall₂ (Argument.Alike R) c.args c'.args
  span : R c.span c'.span

/-- Expressions that differ in their spans. -/
inductive Expr.Alike (R : Span → Span → Prop) : Expr → Expr → Prop
  | arith {op : ArithOp} {l l' r r' : Expr} {s s' : Span} (hl : Alike R l l') (hr : Alike R r r') (hs : R s s') :
      Alike R (.arith op l r s) (.arith op l' r' s')
  | logic {op : Connective} {l l' r r' : Expr} {s s' : Span} (hl : Alike R l l') (hr : Alike R r r') (hs : R s s') :
      Alike R (.logic op l r s) (.logic op l' r' s')
  | paren {e e' : Expr} {s s' : Span} (h : Alike R e e') (hs : R s s') : Alike R (.paren e s) (.paren e' s')
  | call {c c' : Call} {s s' : Span} (h : c.Alike R c') (hs : R s s') : Alike R (.call c s) (.call c' s')
  | fragment {f : Fragment} {s s' : Span} (hs : R s s') : Alike R (.fragment f s) (.fragment f s')

/-- Conditions that differ in their spans. -/
inductive Cond.Alike (R : Span → Span → Prop) : Cond → Cond → Prop
  | comparison {op : Comparison} {l l' r r' : Expr} {s s' : Span} (hl : l.Alike R l') (hr : r.Alike R r')
      (hs : R s s') : Alike R (.comparison op l r s) (.comparison op l' r' s')
  | equality {op : Equality} {l l' r r' : Expr} {s s' : Span} (hl : l.Alike R l') (hr : r.Alike R r')
      (hs : R s s') : Alike R (.equality op l r s) (.equality op l' r' s')
  | neg {c c' : Cond} {s s' : Span} (h : Alike R c c') (hs : R s s') : Alike R (.neg c s) (.neg c' s')
  | paren {c c' : Cond} {s s' : Span} (h : Alike R c c') (hs : R s s') : Alike R (.paren c s) (.paren c' s')
  | binary {op : Connective} {l l' r r' : Cond} {s s' : Span} (hl : Alike R l l') (hr : Alike R r r')
      (hs : R s s') : Alike R (.binary op l r s) (.binary op l' r' s')
  | bool {b : Bool} {s s' : Span} (hs : R s s') : Alike R (.bool b s) (.bool b s')

/-- Statements that differ in their spans, one by one. -/
inductive Stmt.AllAlike (R : Span → Span → Prop) : List Stmt → List Stmt → Prop
  | nil : AllAlike R [] []
  | assign {x : String} {e e' : Expr} {a a' s s' : Span} {more more' : List Stmt} (he : e.Alike R e') (ha : R a a')
      (hs : R s s') (h : AllAlike R more more') :
      AllAlike R (.assign x e a s :: more) (.assign x e' a' s' :: more')
  | ite {c c' : Cond} {t t' e e' : Block} {s s' : Span} {more more' : List Stmt} (hc : c.Alike R c')
      (ht : AllAlike R t.nodes t'.nodes) (he : AllAlike R e.nodes e'.nodes) (hs : R s s')
      (h : AllAlike R more more') : AllAlike R (.ite c t e s :: more) (.ite c' t' e' s' :: more')
  | loop {c c' : Cond} {b b' : Block} {s s' : Span} {more more' : List Stmt} (hc : c.Alike R c')
      (hb : AllAlike R b.nodes b'.nodes) (hs : R s s') (h : AllAlike R more more') :
      AllAlike R (.loop c b s :: more) (.loop c' b' s' :: more')
  | call {c c' : Call} {s s' : Span} {more more' : List Stmt} (hc : c.Alike R c') (hs : R s s')
      (h : AllAlike R more more') : AllAlike R (.call c s :: more) (.call c' s' :: more')
  | block {b b' : Block} {s s' : Span} {more more' : List Stmt} (hb : AllAlike R b.nodes b'.nodes) (hs : R s s')
      (h : AllAlike R more more') : AllAlike R (.block b s :: more) (.block b' s' :: more')
  | skip {s s' : Span} {more more' : List Stmt} (hs : R s s') (h : AllAlike R more more') :
      AllAlike R (.skip s :: more) (.skip s' :: more')

/-- Statements that differ in their spans. -/
abbrev Stmt.Alike (R : Span → Span → Prop) (s s' : Stmt) : Prop := Stmt.AllAlike R [s] [s']

/-- Blocks that differ in their spans. -/
structure Block.Alike (R : Span → Span → Prop) (b b' : Block) : Prop where
  nodes : Stmt.AllAlike R b.nodes b'.nodes
  span : R b.span b'.span

/-- Declarations that differ in their spans. -/
inductive Decl.Alike (R : Span → Span → Prop) : Decl → Decl → Prop
  | var {x : String} {type : Ty} {s s' : Span} (hs : R s s') : Alike R (.var x type s) (.var x type s')
  | const {x : String} {type : Ty} {e e' : Expr} {s s' : Span} (he : e.Alike R e') (hs : R s s') :
      Alike R (.const x type e s) (.const x type e' s')

/-- Parameters that differ in their spans. -/
structure Param.Alike (R : Span → Span → Prop) (p p' : Param) : Prop where
  name : p.name = p'.name
  type : p.type = p'.type
  span : R p.span p'.span

/-- Functions that differ in their spans. -/
structure Func.Alike (R : Span → Span → Prop) (f f' : Func) : Prop where
  name : f.name = f'.name
  params : List.Forall₂ (Param.Alike R) f.params f'.params
  decls : List.Forall₂ (Decl.Alike R) f.decls f'.decls
  body : Stmt.AllAlike R f.body.nodes f'.body.nodes
  returnType : f.returnType = f'.returnType
  returnValue : Option.Rel (Expr.Alike R) f.returnValue f'.returnValue
  span : R f.span f'.span

/-- Main parts that differ in their spans. -/
structure Main.Alike (R : Span → Span → Prop) (m m' : Main) : Prop where
  decls : List.Forall₂ (Decl.Alike R) m.decls m'.decls
  body : Stmt.AllAlike R m.body.nodes m'.body.nodes

/-- Programs that differ in their spans. -/
structure Program.Alike (R : Span → Span → Prop) (p p' : Program) : Prop where
  decls : List.Forall₂ (Decl.Alike R) p.decls p'.decls
  funcs : List.Forall₂ (Func.Alike R) p.funcs p'.funcs
  main : p.main.Alike R p'.main

theorem Expr.Alike.span {e e' : Expr} (h : e.Alike R e') : R e.span e'.span := by
  cases h <;> assumption

theorem Cond.Alike.span {c c' : Cond} (h : c.Alike R c') : R c.span c'.span := by
  cases h <;> assumption

theorem Decl.Alike.span {d d' : Decl} (h : d.Alike R d') : R d.span d'.span := by
  cases h <;> assumption

/-- Sequences of statements are put together from single ones. -/
theorem Stmt.AllAlike.cons {s s' : Stmt} {more more' : List Stmt} (h : s.Alike R s')
    (hmore : Stmt.AllAlike R more more') : Stmt.AllAlike R (s :: more) (s' :: more') := by
  cases h with
  | assign he ha hs _ => exact .assign he ha hs hmore
  | ite hc ht he hs _ => exact .ite hc ht he hs hmore
  | loop hc hb hs _ => exact .loop hc hb hs hmore
  | call hc hs _ => exact .call hc hs hmore
  | block hb hs _ => exact .block hb hs hmore
  | skip hs _ => exact .skip hs hmore

theorem Stmt.AllAlike.of_forall₂ {ss ss' : List Stmt} (h : List.Forall₂ (Stmt.Alike R) ss ss') :
    Stmt.AllAlike R ss ss' := by
  induction h with
  | nil => exact .nil
  | cons hs _ ih => exact .cons hs ih

/-! ### Results that correspond -/

/-- Results that correspond: both are values, or both are errors. -/
inductive Except.Rel {ε α : Type} (E : ε → ε → Prop) (V : α → α → Prop) : Except ε α → Except ε α → Prop
  | ok {a a' : α} (h : V a a') : Except.Rel E V (.ok a) (.ok a')
  | error {e e' : ε} (h : E e e') : Except.Rel E V (.error e) (.error e')

/-! ### Texts -/

theorem Call.Alike.text {c c' : Call} (h : c.Alike R c') : c.text = c'.text := by
  have hargs : c.args.map (·.atom.text) = c'.args.map (·.atom.text) :=
    map_eq_of_forall₂ (h.args.imp fun a a' ha => by rw [ha.atom])
  rw [Call.text, Call.text, h.name, hargs]

/-- Expressions that differ in their spans are written alike. -/
theorem Expr.Alike.text {e e' : Expr} (h : e.Alike R e') : e.text = e'.text := by
  induction h with
  | arith _ _ _ ihl ihr => rw [Expr.text, Expr.text, ihl, ihr]
  | logic _ _ _ ihl ihr => rw [Expr.text, Expr.text, ihl, ihr]
  | paren _ _ ih => rw [Expr.text, Expr.text, ih]
  | call hc _ => exact hc.text
  | fragment _ => rfl

theorem Cond.Alike.text {c c' : Cond} (h : c.Alike R c') : c.text = c'.text := by
  induction h with
  | comparison hl hr _ => rw [Cond.text, Cond.text, hl.text, hr.text]
  | equality hl hr _ => rw [Cond.text, Cond.text, hl.text, hr.text]
  | neg _ _ ih => rw [Cond.text, Cond.text, ih]
  | paren _ _ ih => rw [Cond.text, Cond.text, ih]
  | binary _ _ _ ihl ihr => rw [Cond.text, Cond.text, ihl, ihr]
  | bool _ => rfl

theorem Decl.Alike.text {d d' : Decl} (h : d.Alike R d') : d.text = d'.text := by
  cases h with
  | var _ => rfl
  | const he _ => rw [Decl.text, Decl.text, he.text]

theorem Expr.Alike.referencedName {e e' : Expr} (h : e.Alike R e') : e.referencedName? = e'.referencedName? := by
  induction h with
  | paren _ _ ih => exact ih
  | fragment _ =>
    rename_i f _ _ _
    cases f with
    | atom negated a => cases negated <;> cases a <;> rfl
    | _ => rfl
  | _ => rfl

/-! ### Code -/

/-- Operands that differ in their spans. -/
inductive Operand.Alike (R : Span → Span → Prop) : Operand → Operand → Prop
  | call {c c' : Call} (h : c.Alike R c') : Alike R (.call c) (.call c')
  | fragment {f : Fragment} : Alike R (.fragment f) (.fragment f)

/-- Chains with the same operators, whose operands differ in their spans. -/
structure Chain.Alike (R : Span → Span → Prop) (c c' : Chain Operator Operand) : Prop where
  head : c.head.Alike R c'.head
  tail : List.Forall₂ (fun x x' => x.1 = x'.1 ∧ x.2.Alike R x'.2) c.tail c'.tail

theorem Chain.Alike.link {l l' r r' : Chain Operator Operand} (hl : Chain.Alike R l l') (hr : Chain.Alike R r r')
    (op : Operator) : Chain.Alike R (l.link op r) (l'.link op r') :=
  ⟨hl.head, List.rel_append hl.tail (.cons ⟨rfl, hr.head⟩ hr.tail)⟩

theorem Expr.Alike.chain {e e' : Expr} (h : e.Alike R e') : Chain.Alike R e.chain e'.chain := by
  induction h with
  | arith _ _ _ ihl ihr => exact ihl.link ihr _
  | logic _ _ _ ihl ihr => exact ihl.link ihr _
  | paren _ _ ih => exact ih
  | call hc _ => exact ⟨.call hc, .nil⟩
  | fragment _ => exact ⟨.fragment, .nil⟩

section Code

variable (t : RenameTable)

theorem Call.Alike.lower {c c' : Call} (h : c.Alike R c') : c.lower t = c'.lower t := by
  have hargs : (c.args.forM fun a => (Pass.tell (.param (a.atom.lower t)) : Emit Unit)) =
      c'.args.forM fun a => Pass.tell (.param (a.atom.lower t)) :=
    forM_eq_of_forall₂ (h.args.imp fun a a' ha => by rw [ha.atom])
  rw [Call.lower, Call.lower, hargs, h.name, h.args.length_eq]

theorem Operand.Alike.lower {o o' : Operand} (h : o.Alike R o') : o.lower t = o'.lower t := by
  cases h with
  | call hc => exact hc.lower t
  | fragment => rfl

theorem Operand.Alike.lowerAtom {o o' : Operand} (h : o.Alike R o') : o.lowerAtom t = o'.lowerAtom t := by
  rw [Operand.lowerAtom, Operand.lowerAtom, h.lower]

/-- Expressions that differ in their spans have the same code. -/
theorem Expr.Alike.lower {e e' : Expr} (h : e.Alike R e') : e.lower t = e'.lower t := by
  obtain ⟨hhead, htail⟩ := h.chain
  unfold Expr.lower
  generalize e.chain = c at hhead htail
  generalize e'.chain = c' at hhead htail
  obtain ⟨head, tail⟩ := c
  obtain ⟨head', tail'⟩ := c'
  cases htail with
  | nil => exact hhead.lower t
  | @cons x x' more more' hx hmore =>
    have hmember (y y' : Operator × Operand) (hy : y.1 = y'.1 ∧ y.2.Alike R y'.2) :
        (do return (y.1, ← y.2.lowerAtom t) : Emit (Operator × String)) =
          do return (y'.1, ← y'.2.lowerAtom t) := by
      rw [hy.1, hy.2.lowerAtom]
    have hmembers :
        ((x :: more).mapM fun y => (do return (y.1, ← y.2.lowerAtom t) : Emit (Operator × String))) =
          (x' :: more').mapM fun y => do return (y.1, ← y.2.lowerAtom t) :=
      mapM_eq_of_forall₂ (.cons (hmember x x' hx) (hmore.imp hmember))
    show (head.lowerAtom t >>= fun _ => _) = (head'.lowerAtom t >>= fun _ => _)
    rw [hhead.lowerAtom, hmembers]

theorem Expr.Alike.lowerAtom {e e' : Expr} (h : e.Alike R e') : e.lowerAtom t = e'.lowerAtom t := by
  rw [Expr.lowerAtom, Expr.lowerAtom, h.lower]

theorem Cond.Alike.lowerFlags {c c' : Cond} (h : c.Alike R c') : c.lowerFlags t = c'.lowerFlags t := by
  induction h with
  | comparison hl hr _ => rw [Cond.lowerFlags, Cond.lowerFlags, hl.lowerAtom, hr.lowerAtom]
  | equality hl hr _ => rw [Cond.lowerFlags, Cond.lowerFlags, hl.lowerAtom, hr.lowerAtom]
  | neg _ _ ih => rw [Cond.lowerFlags, Cond.lowerFlags, ih]
  | paren _ _ ih => exact ih
  | binary _ _ _ ihl ihr => rw [Cond.lowerFlags, Cond.lowerFlags, ihl, ihr]
  | bool _ => rfl

theorem Cond.Alike.lower {c c' : Cond} (h : c.Alike R c') : c.lower t = c'.lower t := by
  rw [Cond.lower, Cond.lower, h.lowerFlags]

/-- Statements that differ in their spans have the same code. -/
theorem Stmt.AllAlike.lower {ss ss' : List Stmt} (h : Stmt.AllAlike R ss ss') :
    Stmt.lowerAll t ss = Stmt.lowerAll t ss' := by
  induction h with
  | nil => rfl
  | assign he _ _ _ ih => rw [Stmt.lowerAll, Stmt.lowerAll, Stmt.lower, Stmt.lower, he.lower, ih]
  | ite hc _ _ _ _ iht ihe ih =>
    rw [Stmt.lowerAll, Stmt.lowerAll, Stmt.lower, Stmt.lower, Block.lower, Block.lower, Block.lower, Block.lower,
      hc.lower, iht, ihe, ih]
  | loop hc _ _ _ ihb ih =>
    rw [Stmt.lowerAll, Stmt.lowerAll, Stmt.lower, Stmt.lower, Block.lower, Block.lower, hc.lower, ihb, ih]
  | call hc _ _ ih =>
    rw [Stmt.lowerAll, Stmt.lowerAll, Stmt.lower, Stmt.lower, hc.lower, hc.name, hc.args.length_eq, ih]
  | block _ _ _ ihb ih => rw [Stmt.lowerAll, Stmt.lowerAll, Stmt.lower, Stmt.lower, Block.lower, Block.lower, ihb, ih]
  | skip _ _ ih => rw [Stmt.lowerAll, Stmt.lowerAll, Stmt.lower, Stmt.lower, ih]

theorem Decl.Alike.lowerLocal {d d' : Decl} (h : d.Alike R d') : d.lowerLocal t = d'.lowerLocal t := by
  cases h with
  | var _ => rfl
  | const he _ => rw [Decl.lowerLocal, Decl.lowerLocal, he.lower]

theorem Decl.Alike.lowerGlobal {d d' : Decl} (h : d.Alike R d') : d.lowerGlobal t = d'.lowerGlobal t := by
  cases h with
  | var _ => rfl
  | const he _ => rw [Decl.lowerGlobal, Decl.lowerGlobal, he.lower]

theorem Expr.Alike.lowerReturned {e e' : Expr} (h : e.Alike R e') : e.lowerReturned t = e'.lowerReturned t := by
  rw [Expr.lowerReturned, Expr.lowerReturned, h.lower]

end Code

/-! ### Parts that have the same code -/

/-- Declarations that have the same code, in a body as well as globally. -/
structure Decl.SameCode (d d' : Decl) : Prop where
  inBody : ∀ t, d.lowerLocal t = d'.lowerLocal t
  global : ∀ t, d.lowerGlobal t = d'.lowerGlobal t

/-- Blocks that have the same code. -/
def Block.SameCode (b b' : Block) : Prop := ∀ t, Block.lower t b = Block.lower t b'

/-- Functions that have the same code, part by part. -/
structure Func.SameCode (f f' : Func) : Prop where
  name : f.name = f'.name
  params : List.Forall₂ (fun p p' => p.name = p'.name) f.params f'.params
  decls : List.Forall₂ Decl.SameCode f.decls f'.decls
  body : f.body.SameCode f'.body
  returnValue : Option.Rel (fun e e' => ∀ t, Expr.lowerReturned t e = e'.lowerReturned t) f.returnValue f'.returnValue

/-- Programs that have the same code, part by part. -/
structure Program.SameCode (p p' : Program) : Prop where
  decls : List.Forall₂ Decl.SameCode p.decls p'.decls
  funcs : List.Forall₂ Func.SameCode p.funcs p'.funcs
  mainDecls : List.Forall₂ Decl.SameCode p.main.decls p'.main.decls
  mainBody : p.main.body.SameCode p'.main.body

theorem fetchParams_same (t : RenameTable) {ps ps' : List Param} (h : List.Forall₂ (fun p p' => p.name = p'.name) ps ps')
    (index : Nat) : fetchParams t index ps = fetchParams t index ps' := by
  induction h generalizing index with
  | nil => rfl
  | cons hp _ ih => rw [fetchParams, fetchParams, hp, ih]

/-- Local declarations are lowered one after another. -/
theorem Decl.SameCode.foldlM {ds ds' : List Decl} (h : List.Forall₂ Decl.SameCode ds ds') (t : RenameTable) :
    ds.foldlM Decl.lowerLocal t = ds'.foldlM Decl.lowerLocal t :=
  foldlM_eq_of_forall₂ (h.imp fun _ _ hd t => hd.inBody t) t

theorem Func.SameCode.lower {f f' : Func} (h : f.SameCode f') : f.lower = f'.lower := by
  have hparams (outer : RenameTable) : (f.params.foldlM (fun t p => t.register p.name) outer : Emit RenameTable) =
      f'.params.foldlM (fun t p => t.register p.name) outer :=
    foldlM_eq_of_forall₂ (h.params.imp fun p p' hp t => by rw [hp]) outer
  have hfetch (t : RenameTable) := fetchParams_same t h.params 1
  have hdecls := Decl.SameCode.foldlM h.decls
  have hvalue := h.returnValue
  unfold Func.lower
  generalize f.returnValue = value at hvalue
  generalize f'.returnValue = value' at hvalue
  cases hvalue with
  | none => simp only [h.name, hparams, hfetch, hdecls, h.body _]
  | some he => simp only [h.name, hparams, hfetch, hdecls, h.body _, he]

theorem Program.SameCode.code {p p' : Program} (h : p.SameCode p') : p.code = p'.code := by
  have hglobals (outer : RenameTable) :
      p.decls.forM (Decl.lowerGlobal outer) = p'.decls.forM (Decl.lowerGlobal outer) :=
    forM_eq_of_forall₂ (h.decls.imp fun _ _ hd => hd.global outer)
  have hfuncs : p.funcs.forM Func.lower = p'.funcs.forM Func.lower :=
    forM_eq_of_forall₂ (h.funcs.imp fun _ _ hf => hf.lower)
  have hlocals := Decl.SameCode.foldlM h.mainDecls
  unfold Program.code Program.lower Program.lowerMain
  simp only [hfuncs, hglobals, hlocals, h.mainBody _]

/-! #### Trees that differ in their spans -/

theorem Decl.Alike.sameCode {d d' : Decl} (h : d.Alike R d') : d.SameCode d' :=
  ⟨fun t => h.lowerLocal t, fun t => h.lowerGlobal t⟩

theorem Stmt.AllAlike.sameCode {b b' : Block} (h : Stmt.AllAlike R b.nodes b'.nodes) : b.SameCode b' := by
  intro t
  rw [Block.lower, Block.lower, h.lower]

theorem Func.Alike.sameCode {f f' : Func} (h : f.Alike R f') : f.SameCode f' where
  name := h.name
  params := h.params.imp fun _ _ hp => hp.name
  decls := h.decls.imp fun _ _ hd => hd.sameCode
  body := h.body.sameCode
  returnValue := rel_imp h.returnValue fun _ _ _ he t => he.lowerReturned t

/-- **Code.**  Programs that differ in their spans have the same code. -/
theorem Program.Alike.code {p p' : Program} (h : p.Alike R p') : p.code = p'.code :=
  Program.SameCode.code {
    decls := h.decls.imp fun _ _ hd => hd.sameCode
    funcs := h.funcs.imp fun _ _ hf => hf.sameCode
    mainDecls := h.main.decls.imp fun _ _ hd => hd.sameCode
    mainBody := h.main.body.sameCode }

end ThreeAddress
