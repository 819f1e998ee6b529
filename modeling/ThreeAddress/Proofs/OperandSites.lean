import ThreeAddress.Proofs.Assignments
import ThreeAddress.Proofs.OperandTiming

/-!
# Operands in programs

The code of a program is that of its sites, one behind another, each followed by an instruction that takes what the
site comes to, and with other instructions between them.  So what holds of the code of a site holds of programs.

* `Cond.sites`, `Stmt.sites`, `Body.sites`, `Program.sites` — the expressions and comparisons in a program, in order;
* `SitesInTurn` — the code of some sites, one behind another;
* `Emit.SitesAll` — a pass that emits the code of some sites in turn, and its laws;
* `Stmt.lower_sites`, `Body.lower_sites`, `Program.sites_code` — the parts of a program;
* `Program.Evaluates` — when plain variables are read in the code of a program;
* `compile_evaluatesLate` — in the code of an accepted source, they are read late.
-/

namespace ThreeAddress

open NameSupply (tempName flagName labelName)

/-! ### The sites of a program -/

/-- The comparisons in a condition, in order. -/
def Cond.sites : Cond → List Site
  | .comparison op left right _ => [.comparison (.order op) left right]
  | .equality op left right _ => [.comparison (.same op) left right]
  | .neg inner _ | .paren inner _ => inner.sites
  | .binary _ left right _ => left.sites ++ right.sites
  | .bool _ _ => []

mutual

/-- The values and comparisons in a statement, in order. -/
def Stmt.sites : Stmt → List Site
  | .assign _ value _ _ => [.value value]
  | .ite cond thenBlock elseBlock _ => cond.sites ++ (Block.sites thenBlock ++ Block.sites elseBlock)
  | .loop cond body _ => cond.sites ++ Block.sites body
  | .block inner _ => Block.sites inner
  | .call _ _ | .skip _ => []

/-- The values and comparisons in a block, in order. -/
def Block.sites : Block → List Site
  | ⟨stmts, _⟩ => Stmt.sitesOfList stmts

/-- The values and comparisons in statements, in order. -/
def Stmt.sitesOfList : List Stmt → List Site
  | [] => []
  | s :: more => s.sites ++ Stmt.sitesOfList more

end

/-- The one site of an expression. -/
def Expr.sites (e : Expr) : List Site := [.value e]

/-- The sites of a body in order, each with the names as they are there. -/
def Body.sites (b : Body) (ordinal : Nat) : List (RenameTable × Site) :=
  b.along Expr.sites Stmt.sitesOfList ordinal

namespace Program

/-- The sites of a program in order. -/
def sites (p : Program) : List (RenameTable × Site) := (p.bodies.zipIdx 1).flatMap fun bi => bi.1.sites bi.2

/-- The global variables of a program. -/
def globalVars (p : Program) : List String := p.decls.filterMap Decl.var?

end Program

/-! ### Plain sites -/

theorem Cond.sites_plain {c : Cond} (hp : AllPlain c.leaves) : ∀ x ∈ c.sites, AllPlain x.leaves := by
  induction c with
  | comparison | equality => exact List.forall_mem_singleton.2 hp
  | neg c s ih | paren c s ih => exact ih hp
  | binary op l r s ihl ihr => exact List.forall_mem_append.2 ⟨ihl hp.left, ihr hp.right⟩
  | bool => exact fun x hx => absurd hx List.not_mem_nil

theorem Stmt.sites_plain : (∀ s : Stmt, AllPlain s.leaves → ∀ x ∈ s.sites, AllPlain x.leaves) ∧
    ∀ ss, AllPlain (Stmt.leavesOfList ss) → ∀ x ∈ Stmt.sitesOfList ss, AllPlain x.leaves := by
  refine Stmt.parts ?assign ?ite ?loop ?call ?block ?skip ?nil ?cons
  case assign =>
    intro y e a s hp
    rw [Stmt.sites]
    exact List.forall_mem_singleton.2 fun a ha => hp a (List.mem_cons_of_mem _ ha)
  case ite =>
    intro c th el s iht ihe hp
    obtain ⟨hc, ht, he⟩ := hp.ite
    rw [Stmt.sites, Block.sites, Block.sites]
    exact List.forall_mem_append.2 ⟨Cond.sites_plain hc, List.forall_mem_append.2 ⟨iht ht, ihe he⟩⟩
  case loop =>
    intro c b s ih hp
    obtain ⟨hc, hb⟩ := hp.loop
    rw [Stmt.sites, Block.sites]
    exact List.forall_mem_append.2 ⟨Cond.sites_plain hc, ih hb⟩
  case call =>
    intro c s _
    rw [Stmt.sites]
    exact fun x hx => absurd hx List.not_mem_nil
  case block =>
    intro b s ih hp
    rw [Stmt.sites, Block.sites]
    exact ih hp.block
  case skip =>
    intro s _
    rw [Stmt.sites]
    exact fun x hx => absurd hx List.not_mem_nil
  case nil =>
    intro _
    rw [Stmt.sitesOfList]
    exact fun x hx => absurd hx List.not_mem_nil
  case cons =>
    intro s more ihs ihmore hp
    rw [Stmt.leavesOfList] at hp
    rw [Stmt.sitesOfList]
    exact List.forall_mem_append.2 ⟨ihs hp.left, ihmore hp.right⟩

theorem Decl.sites_plain {d : Decl} (hd : d.Plain) : ∀ x ∈ d.collect Expr.sites, AllPlain x.leaves := by
  cases d with
  | var => exact fun x hx => absurd hx List.not_mem_nil
  | const => exact List.forall_mem_singleton.2 hd.leaves

theorem Decl.sitesAlong_plain {ds : List Decl} (hds : ∀ d ∈ ds, d.Plain) (t : RenameTable) :
    ∀ x ∈ Decl.along Expr.sites t ds, AllPlain x.2.leaves := by
  induction ds generalizing t with
  | nil => exact fun x hx => absurd hx List.not_mem_nil
  | cons d more ih =>
    obtain ⟨hd, hmore⟩ := List.forall_mem_cons.1 hds
    rw [Decl.along, List.forall_mem_append, List.forall_mem_map]
    exact ⟨Decl.sites_plain hd, ih hmore _⟩

/-- The names at the sites of a plain body are plain. -/
theorem Body.Plain.sites {b : Body} (hb : b.Plain) (k : Nat) : ∀ x ∈ b.sites k, AllPlain x.2.leaves := by
  rw [Body.sites, along, List.forall_mem_append, List.forall_mem_append, List.forall_mem_map, List.forall_mem_map]
  refine ⟨fun x hx => ?_, Decl.sitesAlong_plain hb.decls _, List.forall_mem_append.2 ⟨?_, fun x hx => ?_⟩⟩
  · obtain ⟨d, hd, hx⟩ := List.mem_flatMap.1 hx
    exact Decl.sites_plain (hb.constants d hd) x hx
  · exact Stmt.sites_plain.2 _ hb.block
  · obtain ⟨e, he, hx⟩ := List.mem_flatMap.1 hx
    rw [List.mem_singleton.1 hx]
    exact hb.result e (Option.mem_toList.1 he)

/-! ### The code of sites -/

/-- The right-hand side that an instruction takes. -/
def Instruction.value? : Instruction → Option Rvalue
  | .assign _ value | .ifz value _ | .ret (some value) => some value
  | _ => none

/-- The code of some sites, one behind another, each followed by an instruction that takes what the site comes to.
Other instructions may stand between them. -/
inductive SitesInTurn : List Instruction → List (RenameTable × Site) → Prop
  | nil : SitesInTurn [] []
  | site {t : RenameTable} {x : Site} {g : Generator} {i : Instruction} {code : List Instruction}
    {xs : List (RenameTable × Site)} (hi : i.value? = some ((x.lower t).run g).value) (h : SitesInTurn code xs) :
    SitesInTurn (((x.lower t).run g).record ++ i :: code) ((t, x) :: xs)
  | other {i : Instruction} {code : List Instruction} {xs : List (RenameTable × Site)} (h : SitesInTurn code xs) :
    SitesInTurn (i :: code) xs

namespace SitesInTurn

variable {code code' : List Instruction} {xs ys : List (RenameTable × Site)}

theorem append (h : SitesInTurn code xs) (h' : SitesInTurn code' ys) : SitesInTurn (code ++ code') (xs ++ ys) := by
  induction h with
  | nil => exact h'
  | site hi _ ih =>
    rw [List.append_assoc]
    exact .site hi ih
  | other _ ih => exact .other ih

/-- Code without sites. -/
theorem none (code : List Instruction) : SitesInTurn code [] := by
  induction code with
  | nil => exact .nil
  | cons i more ih => exact .other ih

end SitesInTurn

/-- A pass emits the code of some sites in turn. -/
def Emit.SitesAll {α : Type} (p : Emit α) (xs : List (RenameTable × Site)) : Prop :=
  ∀ g, SitesInTurn (p.run g).record xs

namespace Emit.SitesAll

variable {α β : Type} {p : Emit α} {f : α → Emit β} {xs ys : List (RenameTable × Site)}

/-- A pass without sites. -/
theorem none (p : Emit α) : Emit.SitesAll p [] := fun g => .none (p.run g).record

theorem bind (hp : Emit.SitesAll p xs) (hf : ∀ a, Emit.SitesAll (f a) ys) : Emit.SitesAll (p >>= f) (xs ++ ys) :=
  fun g => (hp g).append (hf _ _)

/-- A first pass without sites. -/
theorem behind (hf : ∀ a, Emit.SitesAll (f a) ys) : Emit.SitesAll (p >>= f) ys := (none p).bind hf

/-- A last pass without sites. -/
theorem last (hp : Emit.SitesAll p xs) : Emit.SitesAll (p >>= f) xs := by
  rw [← List.append_nil xs]
  exact hp.bind fun a => none (f a)

theorem forM {f : β → Emit Unit} {sites : β → List (RenameTable × Site)} (hf : ∀ b, Emit.SitesAll (f b) (sites b))
    (bs : List β) : Emit.SitesAll (bs.forM f) (bs.flatMap sites) := by
  induction bs with
  | nil => exact none _
  | cons b more ih =>
    rw [List.flatMap_cons]
    exact (hf b).bind fun _ => ih

/-- A site, and an instruction that takes what it comes to. -/
theorem taken (t : RenameTable) (x : Site) {i : Rvalue → Instruction} (h : ∀ v, (i v).value? = some v) :
    Emit.SitesAll (do Pass.tell (i (← x.lower t))) [(t, x)] := fun _ => .site (h _) .nil

end Emit.SitesAll

open Emit (SitesAll)

section Lowering

variable (t : RenameTable)

theorem lowerCompared_sites (op : Operator) (l r : Expr) : SitesAll (do
      let a ← l.lowerAtom t
      let b ← r.lowerAtom t
      return (Chain.single (← flagOf (.binary a op b)) : Chain Connective String)) [(t, .comparison op l r)] := by
  intro g
  let left := (l.lowerAtom t).run g
  let right := (r.lowerAtom t).run left.state
  let n := right.state.names
  have hrecord : (((Site.comparison op l r).lower t).run g).record =
      left.record ++ (right.record ++ [.assign (flagName n.flag) (.atom "false")]) := rfl
  have hsite : SitesInTurn ((((Site.comparison op l r).lower t).run g).record ++
      [.ifz (.binary left.value op right.value) (labelName n.label), .assign (flagName n.flag) (.atom "true"),
        .label (labelName n.label)]) [(t, .comparison op l r)] := .site rfl (.none _)
  rw [hrecord, List.append_assoc, List.append_assoc] at hsite
  exact hsite

/-- **Conditions.**  The code of a condition is that of its comparisons, and then the flags are combined. -/
theorem Cond.lowerFlags_sites (c : Cond) : SitesAll (c.lowerFlags t) (c.sites.map (t, ·)) := by
  induction c with
  | comparison op l r s => exact lowerCompared_sites t (.order op) l r
  | equality op l r s => exact lowerCompared_sites t (.same op) l r
  | neg c s ih => exact ih.last
  | paren c s ih => exact ih
  | binary op l r s ihl ihr =>
    rw [Cond.sites, List.map_append]
    exact ihl.bind fun _ => ihr.last
  | bool b s => exact .none _

/-- **Statements.**  The code of a statement is that of its sites in turn. -/
theorem Stmt.lower_sites : (∀ s : Stmt, SitesAll (s.lower t) (s.sites.map (t, ·))) ∧
    ∀ ss, SitesAll (Stmt.lowerAll t ss) ((Stmt.sitesOfList ss).map (t, ·)) := by
  refine Stmt.parts ?assign ?ite ?loop ?call ?block ?skip ?nil ?cons
  case assign =>
    intro x e a s
    rw [Stmt.lower, Stmt.sites]
    exact .taken t (.value e) (i := .assign (t.resolve x)) fun _ => rfl
  case ite =>
    intro c th el s iht ihe
    rw [Stmt.lower, Stmt.sites, Block.sites, Block.sites, Block.lower, Block.lower, List.map_append, List.map_append]
    refine .behind fun labels => (c.lowerFlags_sites t).last.bind fun predicate => .behind fun _ => ?_
    exact iht.bind fun _ => .behind fun _ => .behind fun _ => ihe.last
  case loop =>
    intro c b s ih
    rw [Stmt.lower, Stmt.sites, Block.sites, Block.lower, List.map_append]
    refine .behind fun labels => .behind fun _ => (c.lowerFlags_sites t).last.bind fun predicate => ?_
    exact .behind fun _ => ih.last
  case call =>
    intro c s
    rw [Stmt.sites]
    exact .none _
  case block =>
    intro b s ih
    rw [Stmt.lower, Stmt.sites, Block.sites, Block.lower]
    exact ih
  case skip =>
    intro s
    rw [Stmt.sites]
    exact .none _
  case nil =>
    rw [Stmt.sitesOfList]
    exact .none _
  case cons =>
    intro s more ihs ihmore
    rw [Stmt.lowerAll, Stmt.sitesOfList, List.map_append]
    exact ihs.bind fun _ => ihmore

theorem Decl.lowerGlobal_sites (d : Decl) : SitesAll (d.lowerGlobal t) ((d.collect Expr.sites).map (t, ·)) := by
  cases d with
  | var => exact .none _
  | const x type e s => exact .taken t (.value e) (i := .assign x) fun _ => rfl

theorem Decl.lowerLocal_sites (d : Decl) : SitesAll (d.lowerLocal t) ((d.collect Expr.sites).map (t, ·)) := by
  cases d with
  | var => exact .none _
  | const x type e s =>
    exact fun g => .site (x := .value e) (g := g) (i := .assign ((t.insert x).resolve x) _) rfl .nil

theorem Decl.lowerLocals_sites (ds : List Decl) : SitesAll (ds.foldlM Decl.lowerLocal t) (Decl.along Expr.sites t ds) := by
  induction ds generalizing t with
  | nil => exact .none _
  | cons d more ih =>
    intro g
    have hrest := ih (t.insert d.name) ((d.lowerLocal t).run g).state
    rw [List.foldlM_cons, Pass.run_bind, d.value_lowerLocal, Decl.along]
    exact (d.lowerLocal_sites t g).append hrest

/-- A call that is returned goes through a temporary first. -/
theorem lowerReturn_sites (result : Option Expr) :
    SitesAll (lowerReturn t result) ((result.toList.flatMap Expr.sites).map (t, ·)) := by
  cases result with
  | none => exact .none _
  | some e =>
    rw [Option.toList_some, List.flatMap_singleton]
    intro g
    have h {i : Instruction} {code : List Instruction} (hi : i.value? = some ((e.lower t).run g).value) :
        SitesInTurn (((e.lower t).run g).record ++ i :: code) [(t, .value e)] := .site (x := .value e) hi (.none code)
    rw [lowerReturn, Pass.run_bind, Expr.lowerReturned, Pass.run_bind]
    generalize (e.lower t).run g = r at h ⊢
    obtain ⟨v, g', code⟩ := r
    cases v with
    | call f n =>
      show SitesInTurn (code ++ [.assign (tempName g'.names.temp) (.call f n)] ++ [.ret (some _)]) _
      rw [List.append_assoc]
      exact h rfl
    | atom | binary | not =>
      show SitesInTurn (code ++ [] ++ [.ret (some _)]) _
      rw [List.append_nil]
      exact h rfl

end Lowering

namespace Body

variable (b : Body) (g : Generator)

theorem lowerParams_sites : SitesInTurn (b.lowerParams.run g).record
    ((b.constants.flatMap (Decl.collect Expr.sites)).map (.empty g.names.ordinal, ·)) := by
  let rest : Unit → Emit RenameTable := fun _ => do
    let params ← b.params.foldlM (fun t q => t.register q.name) (.empty g.names.ordinal)
    fetchParams params 1 b.params
    return params
  rw [List.map_flatMap]
  exact (SitesAll.forM (Decl.lowerGlobal_sites (.empty g.names.ordinal)) b.constants).last (f := rest) g

theorem lowerStart_sites : SitesInTurn (b.lowerStart.run g).record
    ((b.constants.flatMap (Decl.collect Expr.sites)).map (.empty g.names.ordinal, ·) ++
      Decl.along Expr.sites (b.paramTable g.names.ordinal) b.decls) := by
  have hdecls := Decl.lowerLocals_sites (b.paramTable g.names.ordinal) b.decls (b.lowerParams.run g).state
  rw [← b.value_lowerParams] at hdecls ⊢
  rw [b.lowerStart_eq]
  exact (b.lowerParams_sites g).append hdecls

/-- **Bodies.**  The code of a body is that of its sites in turn. -/
theorem lower_sites {finish : RenameTable → Emit Unit}
    (hf : ∀ t, SitesAll (finish t) ((b.result.toList.flatMap Expr.sites).map (t, ·))) :
    SitesInTurn ((b.lower finish).run g).record (b.sites g.names.ordinal) := by
  have hrest (t : RenameTable) : SitesAll (b.block.lower t >>= fun _ => finish t)
      ((Stmt.sitesOfList b.block.nodes ++ b.result.toList.flatMap Expr.sites).map (t, ·)) := by
    rw [Block.lower, List.map_append]
    exact ((Stmt.lower_sites t).2 b.block.nodes).bind fun _ => hf t
  have hall := (b.lowerStart_sites g).append (hrest (b.lowerStart.run g).value (b.lowerStart.run g).state)
  rw [b.value_lowerStart, List.append_assoc] at hall
  rw [lower, Pass.run_bind, b.value_lowerStart]
  exact hall

end Body

/-! ### Programs -/

namespace Program

variable {p : Program}

/-- **Programs.**  The code of a program is that of its sites in turn. -/
theorem sites_code (p : Program) : SitesInTurn p.code p.sites := by
  refine p.code_along (R := SitesInTurn) .nil .append (fun f g => .other ?_) fun g => .other ?_
  · exact f.asBody.lower_sites g fun t => lowerReturn_sites t f.returnValue
  · exact p.mainBody.lower_sites g fun t => .none _

/-- The names at the sites of an accepted program are plain. -/
theorem WellFormed.sites_plain (hw : p.WellFormed) (hs : p.Spelled) : ∀ x ∈ p.sites, AllPlain x.2.leaves := by
  intro x hx
  obtain ⟨⟨b, k⟩, hb, hx⟩ := List.mem_flatMap.1 hx
  obtain ⟨-, hb⟩ := List.mk_mem_zipIdx_iff_le_and_getElem?_sub.1 hb
  exact (bodies_plain hs hw hb).sites k x hx

/-- The global variables of an accepted program are no names of the supply. -/
theorem WellFormed.globalVars_unreserved (hw : p.WellFormed) : ∀ x ∈ p.globalVars, isReservedName x = false := by
  intro x hx
  obtain ⟨d, hd, hvar⟩ := List.mem_filterMap.1 hx
  have hname : d.name = x := by
    cases d with
    | var => exact Option.some.inj hvar
    | const => cases hvar
  rw [← hname]
  exact hw.names.unreserved _ (List.mem_append_left _ (List.mem_map_of_mem hd))

/-- How code evaluates the operands of a program, when plain variables are read at some time: it is the code of the
sites in turn, and wherever the code of a site stands, a run through it comes to what the site comes to.  What is called
may change the global variables in any way. -/
structure Evaluates (p : Program) (τ : Timing) (code : List Instruction) : Prop where
  sites : SitesInTurn code p.sites
  runs : ∀ (t : RenameTable) (x : Site), (t, x) ∈ p.sites → ∀ (g : Generator) {V : Type} (B : Behaviour V p.globalVars)
    (s : Moment V), ((x.lower t).run g).record <+: code.drop s.pc →
    ∃ s', B.Computes code g.names.temp ((x.lower t).run g).record.length ((x.lower t).run g).value s s'
      (x.outcome τ B t s.situation)

end Program

/-! ### Accepted sources -/

/-- **Operands of accepted sources.**  The code of an accepted source evaluates operands from left to right, except that
an operand that is a plain variable is read late, when all operands of its expression have had their turns; and if it is
the left side of a comparison, when the right side has been evaluated.  That is the same as reading it in turn wherever
calls leave the plain global variables in front of them as they are. -/
theorem compile_evaluatesLate {source : String} {compiled : Compiled} (h : compile source = .ok compiled) :
    ∃ p, Program.ofSource source = .ok p ∧ p.Evaluates .late compiled.code ∧
      ∀ {V : Type} (B : Behaviour V p.globalVars) (t : RenameTable) (x : Site) (σ : Situation V),
        x.Steady B t σ → x.outcome .late B t σ = x.outcome .inTurn B t σ := by
  obtain ⟨p, hp, hclean, hcode⟩ := compile_eq_ok h
  have hw := Program.WellFormed.of_clean hclean
  refine ⟨p, hp, ⟨?_, fun t x hx g V B s hat => ?_⟩, fun B t x σ => Site.outcome_of_steady⟩
  · rw [hcode]
    exact p.sites_code
  · have hplain := hw.sites_plain (ofSource_spelled hp) (t, x) hx
    exact x.lower_computes_late hw.globalVars_unreserved hplain s.shares_situation hat

/-- A source with a sum whose right operand changes the left one. -/
def overtakenSource : String :=
  "var x: integer; integer f() \x7b x = 2; return (0); \x7d main \x7b var y: integer; x = 1; y = x + f(); \x7d"

/-- The code of that source. -/
def overtakenCode : List Instruction :=
  [.label "f", .assign "x" (.atom "2"), .ret (some (.atom "0")), .label "main", .assign "x" (.atom "1"),
    .assign "t1" (.call "f" 0), .assign "y.2" (.binary "x" (.arith .plus) "t1"), .call "_exit" 0]

/-- The sum in that source. -/
def overtakenSum : Expr :=
  .arith .plus (.fragment (.atom false (.name "x")) ⟨85, 86⟩) (.call ⟨"f", [], ⟨89, 92⟩⟩ ⟨89, 92⟩) ⟨85, 92⟩

theorem compile_overtakenSource : compile overtakenSource = .ok ⟨overtakenCode, []⟩ :=
  Except.eq_ok_of_toOption (by decide +kernel)

theorem compile_evaluatesLate_overtakenSource : compile overtakenSource = .ok ⟨overtakenCode, []⟩ ∧
    ∃ p, Program.ofSource overtakenSource = .ok p ∧ p.Evaluates .late overtakenCode ∧
      ∀ {V : Type} (B : Behaviour V p.globalVars) (t : RenameTable) (x : Site) (σ : Situation V),
        x.Steady B t σ → x.outcome .late B t σ = x.outcome .inTurn B t σ :=
  ⟨compile_overtakenSource, compile_evaluatesLate compile_overtakenSource⟩

/-- Exact integers and truth values, where every call answers zero and leaves two in the global variables. -/
def Behaviour.overtaking (globals : List String) : Behaviour Value globals where
  constant := id
  apply := World.apply ⟨ArithOp.apply, fun _ _ _ => .nothing⟩
  invert := Value.invert
  holds := Value.holds
  call _ _ _ _ := (.integer 0, fun _ => .integer 2)

/-- From one in `x`, the sum is one in turn, but the code of that source comes to two. -/
theorem compile_overtakenSource_overtakes : compile overtakenSource = .ok ⟨overtakenCode, []⟩ ∧
    ∃ p, Program.ofSource overtakenSource = .ok p ∧ ¬p.Evaluates .inTurn overtakenCode := by
  obtain ⟨p, hp, -, -⟩ := compile_eq_ok compile_overtakenSource
  refine ⟨compile_overtakenSource, p, hp, fun h => ?_⟩
  have hdata : (Program.ofSource overtakenSource).toOption.map
      (fun p => (p.globalVars, decide ((⟨2, ["y"]⟩, Site.value overtakenSum) ∈ p.sites))) = some (["x"], true) := by
    decide +kernel
  rw [hp] at hdata
  obtain ⟨hglobals, hsite⟩ := Prod.mk.inj (Option.some.inj hdata)
  have hruns := h.runs ⟨2, ["y"]⟩ (.value overtakenSum) (of_decide_eq_true hsite) .first (V := Value)
  rw [hglobals] at hruns
  let lowered := ((Site.value overtakenSum).lower ⟨2, ["y"]⟩).run .first
  let s : Moment Value := ⟨5, fun _ => .integer 1, [], []⟩
  obtain ⟨s', hcomputes⟩ := hruns (.overtaking ["x"]) s (by decide)
  have hfound : ((Behaviour.overtaking ["x"]).steps overtakenCode lowered.record.length s).map
      (fun s' => ((Behaviour.overtaking ["x"]).eval s' lowered.value).1) = some (.integer 2) := by decide +kernel
  rw [hcomputes.steps, Option.map_some, hcomputes.gives] at hfound
  exact absurd (Option.some.inj hfound) (by decide +kernel)

end ThreeAddress
