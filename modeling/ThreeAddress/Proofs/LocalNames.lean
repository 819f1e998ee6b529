import ThreeAddress.Proofs.Assignments
import ThreeAddress.Proofs.GeneratedNames

/-!
# The names of locals

Each parameter and each local declaration makes one local, which is written with its name in the source and the
ordinal of its body.  Those texts differ all over a program, and each of them stays in the code of its body.

* `fetched` — what code fetches, and from which places among the arguments;
* `Emit.Registers` — the locals that a pass makes, and the parameters that it fetches;
* `RenameTable.localNames` — the locals that names make one after another;
* `Body.lower_registers`, `Program.lower_registers` — the locals of a body and of a program;
* `Program.Declares`, `Program.KeepsLocals` — the declarations of all bodies, and what their texts are like;
* `compile_keepsLocals` — the locals of an accepted source.
-/

namespace ThreeAddress

/-! ### Passes that make locals -/

/-- What an instruction fetches: the name that it stores into, and the index of the parameter. -/
def Instruction.fetched? : Instruction → Option (String × Nat)
  | .getparam dest index => some (dest, index)
  | _ => none

/-- What code fetches, in order. -/
def fetched (code : List Instruction) : List (String × Nat) := code.filterMap Instruction.fetched?

theorem fetched_append (a b : List Instruction) : fetched (a ++ b) = fetched a ++ fetched b := List.filterMap_append

/-- What a pass comes to has made some locals and has fetched some parameters. -/
structure Passed.Registers {α : Type} (r : Passed Generator Instruction α) (before made : List LocalName)
    (params : List (String × Nat)) : Prop where
  locals : r.state.locals = before ++ made
  fetched : ThreeAddress.fetched r.record = params

/-- A pass that makes some locals and fetches some parameters. -/
def Emit.Registers {α : Type} (p : Emit α) (made : List LocalName) (params : List (String × Nat)) : Prop :=
  ∀ g, (p.run g).Registers g.locals made params

/-- A pass that makes no local and fetches nothing. -/
abbrev Emit.RegistersNone {α : Type} (p : Emit α) : Prop := Emit.Registers p [] []

section Laws

variable {α β : Type} {p : Emit α} {f : α → Emit β} {made more : List LocalName}
  {params others : List (String × Nat)}

theorem Passed.Registers.bind {g : Generator} {before : List LocalName} (hp : (p.run g).Registers before made params)
    (hf : ((f (p.run g).value).run (p.run g).state).Registers (p.run g).state.locals more others) :
    ((p >>= f).run g).Registers before (made ++ more) (params ++ others) := by
  constructor
  · rw [Pass.run_bind, hf.locals, hp.locals, List.append_assoc]
  · rw [Pass.run_bind, fetched_append, hp.fetched, hf.fetched]

namespace Emit.Registers

theorem pure (a : α) : Emit.RegistersNone (Pure.pure a) := fun _ => ⟨(List.append_nil _).symm, rfl⟩

theorem bind (hp : Emit.Registers p made params) (hf : ∀ a, Emit.Registers (f a) more others) :
    Emit.Registers (p >>= f) (made ++ more) (params ++ others) := fun g => (hp g).bind (hf _ _)

/-- A first pass that makes no local and fetches nothing. -/
theorem behind (hp : Emit.RegistersNone p) (hf : ∀ a, Emit.Registers (f a) made params) :
    Emit.Registers (p >>= f) made params := hp.bind hf

theorem tell {i : Instruction} (hi : i.fetched? = none) : Emit.RegistersNone (Pass.tell i) := by
  intro g
  refine ⟨(List.append_nil _).symm, ?_⟩
  rw [Pass.run_tell, fetched, List.filterMap_cons_none hi, List.filterMap_nil]

theorem take (from? : NameSupply → α × NameSupply) : Emit.RegistersNone (Emit.take from?) :=
  fun _ => ⟨(List.append_nil _).symm, rfl⟩

theorem forM {f : β → Emit Unit} (hf : ∀ b, Emit.RegistersNone (f b)) (bs : List β) :
    Emit.RegistersNone (bs.forM f) := by
  induction bs with
  | nil => exact pure ()
  | cons b more ih => exact (hf b).behind fun _ => ih

theorem mapM {f : β → Emit α} (hf : ∀ b, Emit.RegistersNone (f b)) (bs : List β) :
    Emit.RegistersNone (bs.mapM f) := by
  induction bs with
  | nil =>
    rw [List.mapM_nil]
    exact pure []
  | cons b more ih =>
    rw [List.mapM_cons]
    exact (hf b).behind fun a => ih.behind fun as => pure (a :: as)

/-- A name is made local before the rest goes on. -/
theorem register {t : RenameTable} {x : String} {f : RenameTable → Emit α}
    (hf : Emit.Registers (f (t.insert x)) made params) :
    Emit.Registers (t.register x >>= f) (t.localName x :: made) params := by
  intro g
  have h := hf { g with locals := g.locals ++ [t.localName x] }
  exact ⟨h.locals.trans (List.append_assoc _ _ _), h.fetched⟩

end Emit.Registers

end Laws

open Emit (Registers RegistersNone)

/-! ### Statements make no locals -/

theorem Emit.atomOf_registers (r : Rvalue) : RegistersNone (Emit.atomOf r) := by
  unfold Emit.atomOf
  split
  · exact .pure _
  · exact (Registers.take _).behind fun _ => (Registers.tell rfl).behind fun _ => .pure _

section Statements

variable (t : RenameTable)

theorem Call.lower_registers (c : Call) : RegistersNone (c.lower t) :=
  (Registers.forM (fun _ => .tell rfl) c.args).behind fun _ => .pure _

theorem Operand.lower_registers (o : Operand) : RegistersNone (o.lower t) := by
  cases o with
  | call c => exact c.lower_registers t
  | fragment f => exact .pure _

theorem Operand.lowerAtom_registers (o : Operand) : RegistersNone (o.lowerAtom t) :=
  (o.lower_registers t).behind Emit.atomOf_registers

theorem foldAtoms_registers (head : String) (tail : List (Operator × String)) :
    RegistersNone (foldAtoms head tail) := by
  induction tail generalizing head with
  | nil => exact .pure _
  | cons x more ih => exact (Emit.atomOf_registers _).behind ih

theorem Expr.lower_registers (e : Expr) : RegistersNone (e.lower t) := by
  unfold Expr.lower
  split
  · exact Operand.lower_registers t _
  · apply (Operand.lowerAtom_registers t _).behind
    intro head
    apply (Registers.mapM (fun x => (x.2.lowerAtom_registers t).behind fun _ => .pure _) _).behind
    intro tail
    split
    · exact .pure _
    · exact (foldAtoms_registers _ _).behind fun _ => .pure _

theorem Expr.lowerAtom_registers (e : Expr) : RegistersNone (e.lowerAtom t) :=
  (e.lower_registers t).behind Emit.atomOf_registers

theorem flagOf_registers (predicate : Rvalue) : RegistersNone (flagOf predicate) :=
  (Registers.take _).behind fun _ => (Registers.take _).behind fun _ => (Registers.tell rfl).behind fun _ =>
    (Registers.tell rfl).behind fun _ => (Registers.tell rfl).behind fun _ => (Registers.tell rfl).behind fun _ =>
      .pure _

theorem combineFlags_registers (first : String) (more : List (Connective × String)) :
    RegistersNone (combineFlags first more) := by
  induction more generalizing first with
  | nil => exact .pure _
  | cons x more ih =>
    exact (ih x.2).behind fun _ => (Registers.take _).behind fun _ => (Registers.tell rfl).behind fun _ => .pure _

theorem Cond.lowerFlags_registers (c : Cond) : RegistersNone (c.lowerFlags t) := by
  induction c with
  | comparison op l r s =>
    exact (l.lowerAtom_registers t).behind fun _ => (r.lowerAtom_registers t).behind fun _ =>
      (flagOf_registers _).behind fun _ => .pure _
  | equality op l r s =>
    exact (l.lowerAtom_registers t).behind fun _ => (r.lowerAtom_registers t).behind fun _ =>
      (flagOf_registers _).behind fun _ => .pure _
  | neg c s ih =>
    exact ih.behind fun _ => (combineFlags_registers _ _).behind fun _ => (flagOf_registers _).behind fun _ => .pure _
  | paren c s ih => exact ih
  | binary op l r s ihl ihr => exact ihl.behind fun _ => ihr.behind fun _ => .pure _
  | bool b s => exact (flagOf_registers _).behind fun _ => .pure _

theorem Cond.lower_registers (c : Cond) : RegistersNone (c.lower t) :=
  (c.lowerFlags_registers t).behind fun _ => (combineFlags_registers _ _).behind fun _ => .pure _

/-- **Statements** make no locals and fetch nothing. -/
theorem Stmt.lower_registers :
    (∀ s : Stmt, RegistersNone (s.lower t)) ∧ ∀ ss, RegistersNone (Stmt.lowerAll t ss) := by
  refine Stmt.parts ?assign ?ite ?loop ?call ?block ?skip ?nil ?cons
  case assign => exact fun x e a s => (e.lower_registers t).behind fun _ => .tell rfl
  case ite =>
    intro c th el s iht ihe
    rw [Stmt.lower, Block.lower, Block.lower]
    refine (Registers.take _).behind fun labels => (c.lower_registers t).behind fun predicate => ?_
    refine (Registers.tell rfl).behind fun _ => iht.behind fun _ => ?_
    exact (Registers.tell rfl).behind fun _ => (Registers.tell rfl).behind fun _ => ihe.behind fun _ => .tell rfl
  case loop =>
    intro c b s ih
    rw [Stmt.lower, Block.lower]
    refine (Registers.take _).behind fun labels => (Registers.tell rfl).behind fun _ => ?_
    refine (c.lower_registers t).behind fun predicate => (Registers.tell rfl).behind fun _ => ?_
    exact ih.behind fun _ => (Registers.tell rfl).behind fun _ => .tell rfl
  case call => exact fun c s => (c.lower_registers t).behind fun _ => .tell rfl
  case block =>
    intro b s ih
    rw [Stmt.lower, Block.lower]
    exact ih
  case skip => exact fun s => .pure _
  case nil => exact .pure _
  case cons => exact fun s more ihs ihmore => ihs.behind fun _ => ihmore

theorem Decl.lowerGlobal_registers (d : Decl) : RegistersNone (d.lowerGlobal t) := by
  cases d with
  | var x type s => exact .pure _
  | const x type e s => exact (e.lower_registers t).behind fun _ => .tell rfl

theorem lowerReturn_registers (result : Option Expr) : RegistersNone (lowerReturn t result) := by
  cases result with
  | none => exact .tell rfl
  | some e =>
    have hreturned : RegistersNone (e.lowerReturned t) := by
      refine (e.lower_registers t).behind fun v => ?_
      split
      · exact (Emit.atomOf_registers _).behind fun _ => .pure _
      · exact .pure _
    exact hreturned.behind fun _ => .tell rfl

end Statements

/-! ### The locals of a body -/

/-- The locals that names make one after another. -/
def RenameTable.localNames (t : RenameTable) : List String → List LocalName
  | [] => []
  | x :: more => t.localName x :: (t.insert x).localNames more

theorem RenameTable.localNames_append (t : RenameTable) (xs ys : List String) :
    t.localNames (xs ++ ys) = t.localNames xs ++ (t.insertAll xs).localNames ys := by
  induction xs generalizing t with
  | nil => rfl
  | cons x more ih => exact congrArg (t.localName x :: ·) (ih (t.insert x))

theorem RenameTable.length_localNames (t : RenameTable) (xs : List String) :
    (t.localNames xs).length = xs.length := by
  induction xs generalizing t with
  | nil => rfl
  | cons x more ih => exact congrArg (· + 1) (ih (t.insert x))

/-- Names that differ make locals with the indexes of their places. -/
theorem RenameTable.localNames_eq {t : RenameTable} {xs : List String} (hnew : ∀ x ∈ xs, t.contains x = false)
    (hxs : xs.Nodup) : t.localNames xs = (xs.zipIdx t.size).map fun xi => ⟨xi.1, t.ordinal, xi.2⟩ := by
  induction xs generalizing t with
  | nil => rfl
  | cons x more ih =>
    obtain ⟨hx, hmore⟩ := List.nodup_cons.1 hxs
    obtain ⟨hfirst, hrest⟩ := List.forall_mem_cons.1 hnew
    have hsize : (t.insert x).size = t.size + 1 := by
      rw [insert, hfirst, if_neg Bool.false_ne_true, size, List.length_append]
      rfl
    have hnew' : ∀ y ∈ more, (t.insert x).contains y = false := by
      intro y hy
      rw [contains_insert, hrest y hy, Bool.false_or, beq_eq_false_iff_ne]
      rintro rfl
      exact hx hy
    rw [localNames, ih hnew' hmore, hsize, ordinal_insert, List.zipIdx_cons, List.map_cons]
    rfl

section Declarations

variable {t : RenameTable} {f : RenameTable → Emit Unit} {made : List LocalName} {params : List (String × Nat)}

theorem Param.register_registers (ps : List Param)
    (hf : Registers (f (t.insertAll (ps.map (·.name)))) made params) :
    Registers (ps.foldlM (fun t q => t.register q.name) t >>= f) (t.localNames (ps.map (·.name)) ++ made) params := by
  induction ps generalizing t with
  | nil => exact hf
  | cons q more ih =>
    rw [List.foldlM_cons, bind_assoc]
    exact .register (ih hf)

theorem Decl.lowerLocal_registers (d : Decl) (hf : Registers (f (t.insert d.name)) made params) :
    Registers (d.lowerLocal t >>= f) (t.localName d.name :: made) params := by
  cases d with
  | var x type s => exact .register hf
  | const x type e s =>
    simp only [Decl.lowerLocal, bind_assoc, pure_bind]
    exact (e.lower_registers t).behind fun v => .register ((Registers.tell rfl).behind fun _ => hf)

theorem Decl.lowerLocals_registers (ds : List Decl)
    (hf : Registers (f (t.insertAll (ds.map (·.name)))) made params) :
    Registers (ds.foldlM Decl.lowerLocal t >>= f) (t.localNames (ds.map (·.name)) ++ made) params := by
  induction ds generalizing t with
  | nil => exact hf
  | cons d more ih =>
    rw [List.foldlM_cons, bind_assoc]
    exact d.lowerLocal_registers (ih hf)

end Declarations

theorem fetchParams_registers (t : RenameTable) (index : Nat) (ps : List Param) :
    Registers (fetchParams t index ps) [] ((ps.zipIdx index).map fun qi => (t.resolve qi.1.name, qi.2)) := by
  induction ps generalizing index with
  | nil => exact .pure _
  | cons q more ih =>
    have hfirst : Registers (Pass.tell (.getparam (t.resolve q.name) index)) [] [(t.resolve q.name, index)] :=
      fun g => ⟨(List.append_nil _).symm, rfl⟩
    exact hfirst.bind fun _ => ih (index + 1)

namespace Body

/-- What the code of a body fetches. -/
def fetches (b : Body) (ordinal : Nat) : List (String × Nat) :=
  (b.params.zipIdx 1).map fun qi => (localText qi.1.name ordinal, qi.2)

/-- Once all parameters are declared, each is fetched into its local name. -/
theorem fetches_resolved (b : Body) (k : Nat) :
    (b.params.zipIdx 1).map (fun qi => ((b.paramTable k).resolve qi.1.name, qi.2)) = b.fetches k :=
  List.map_congr_left fun qi hqi => by rw [b.resolve_param k (List.fst_mem_of_mem_zipIdx hqi)]

/-- **Bodies** make their parameters and declarations local, and fetch the parameters. -/
theorem lower_registers (b : Body) {finish : RenameTable → Emit Unit} (hf : ∀ t, RegistersNone (finish t))
    (g : Generator) : ((b.lower finish).run g).Registers g.locals
      ((RenameTable.empty g.names.ordinal).localNames b.scope) (b.fetches g.names.ordinal) := by
  let k := g.names.ordinal
  have hstmts (t : RenameTable) : RegistersNone (b.block.lower t >>= fun _ => finish t) := by
    rw [Block.lower]
    exact ((Stmt.lower_registers t).2 b.block.nodes).behind fun _ => hf t
  have hdecls : Registers (b.decls.foldlM Decl.lowerLocal (b.paramTable k) >>= fun t => b.block.lower t >>= fun _ =>
      finish t) ((b.paramTable k).localNames (b.decls.map (·.name)) ++ []) [] :=
    Decl.lowerLocals_registers b.decls (hstmts _)
  have hparams := Param.register_registers b.params (t := .empty k)
    (f := fun t => fetchParams t 1 b.params >>= fun _ => b.decls.foldlM Decl.lowerLocal t >>= fun t' =>
      b.block.lower t' >>= fun _ => finish t')
    ((fetchParams_registers (b.paramTable k) 1 b.params).bind fun _ => hdecls)
  have hall := (Registers.forM (Decl.lowerGlobal_registers (.empty k)) b.constants).behind fun _ => hparams
  rw [b.fetches_resolved, List.append_nil, List.append_nil, List.nil_append, paramTable,
    ← RenameTable.localNames_append] at hall
  simp only [lower, lowerStart, bind_assoc]
  exact hall g

/-- The locals of bodies, when the first one has some ordinal. -/
def localsFrom (ordinal : Nat) (bs : List Body) : List LocalName :=
  (bs.zipIdx ordinal).flatMap fun bi => (RenameTable.empty bi.2).localNames bi.1.scope

/-- What the code of bodies fetches, when the first one has some ordinal. -/
def fetchesFrom (ordinal : Nat) (bs : List Body) : List (String × Nat) :=
  (bs.zipIdx ordinal).flatMap fun bi => bi.1.fetches bi.2

end Body

/-! ### The locals of a program -/

theorem Func.lowerAll_registers (fs : List Func) (g : Generator) : ((fs.forM Func.lower).run g).Registers g.locals
    (Body.localsFrom g.names.ordinal (fs.map Func.asBody)) (Body.fetchesFrom g.names.ordinal (fs.map Func.asBody)) := by
  induction fs generalizing g with
  | nil => exact Registers.pure () g
  | cons f more ih =>
    have hfirst : (f.lower.run g).Registers g.locals ((RenameTable.empty g.names.ordinal).localNames f.asBody.scope)
        (f.asBody.fetches g.names.ordinal) := by
      have h := f.asBody.lower_registers (fun t => lowerReturn_registers t f.returnValue) g
      rw [f.run_lower]
      exact ⟨h.locals, h.fetched⟩
    have hmore := ih (f.lower.run g).state
    rw [f.ordinal_lower] at hmore
    rw [List.map_cons, Body.localsFrom, Body.fetchesFrom, List.zipIdx_cons, List.flatMap_cons, List.flatMap_cons]
    exact hfirst.bind hmore

namespace Program

/-- **Programs** make the parameters and declarations of their bodies local, and fetch the parameters. -/
theorem lower_registers (p : Program) (g : Generator) : (p.lower.run g).Registers g.locals
    (Body.localsFrom g.names.ordinal p.bodies) (Body.fetchesFrom g.names.ordinal p.bodies) := by
  have hmain : (p.lowerMain.run (g.behind p.funcs)).Registers (g.behind p.funcs).locals
      ((RenameTable.empty (g.names.ordinal + p.funcs.length)).localNames p.mainBody.scope)
      (p.mainBody.fetches (g.names.ordinal + p.funcs.length)) := by
    have hexit : RegistersNone (Pass.tell (.call exitRoutine 0)) := .tell rfl
    have h := p.mainBody.lower_registers (fun _ => hexit) (g.behind p.funcs)
    rw [p.run_lowerMain, ← g.ordinal_behind]
    exact ⟨h.locals, h.fetched⟩
  have hall : (p.lower.run g).Registers g.locals _ _ :=
    (Func.lowerAll_registers p.funcs g).bind (f := fun _ => p.lowerMain) hmain
  rw [bodies, Body.localsFrom, Body.fetchesFrom, List.zipIdx_append, List.flatMap_append, List.flatMap_append,
    List.length_map]
  simpa [Body.localsFrom, Body.fetchesFrom] using hall

/-- At some place of a body, parameters first, a name is declared. -/
def Declares (p : Program) (i k : Nat) (x : String) : Prop := ∃ b, p.bodies[i]? = some b ∧ b.scope[k]? = some x

/-- The locals of a program: the names that its bodies declare, with the ordinals of the bodies and their places
there. -/
def locals (p : Program) : List LocalName :=
  (p.bodies.zipIdx 1).flatMap fun bi => bi.1.scope.zipIdx.map fun xk => ⟨xk.1, bi.2, xk.2⟩

variable {p : Program} {i j k n : Nat} {x y : String}

/-- A program in order makes its locals, each with its place among the declarations of its body. -/
theorem WellFormed.lower_locals (hw : p.WellFormed) : (p.lower.run .first).state.locals = p.locals := by
  have hmade : (p.lower.run .first).state.locals = Body.localsFrom 1 p.bodies := (p.lower_registers .first).locals
  rw [hmade, Body.localsFrom, locals]
  refine List.flatMap_congr fun bi hbi => ?_
  obtain ⟨m, hm⟩ := List.getElem?_of_mem (List.fst_mem_of_mem_zipIdx hbi)
  exact RenameTable.localNames_eq (fun _ _ => rfl) (hw.bodyNames hm).distinct

/-- Two places of a program in order have locals that are written alike only if they are the same place. -/
theorem WellFormed.local_unique (hw : p.WellFormed) (hx : p.Declares i k x) (hy : p.Declares j n y)
    (h : localText x (i + 1) = localText y (j + 1)) : i = j ∧ k = n := by
  obtain ⟨b, hb, hk⟩ := hx
  obtain ⟨c, hc, hn⟩ := hy
  obtain ⟨rfl, hij⟩ := localText_inj h
  cases Nat.succ.inj hij
  cases hb.symm.trans hc
  have hlt := (List.getElem?_eq_some_iff.1 hk).1
  exact ⟨rfl, (List.getElem?_inj hlt (hw.bodyNames hb).distinct).1 (hk.trans hn.symm)⟩

/-! ### Where local names occur -/

theorem ordinal_of_mem_along {t t' : RenameTable} {ds : List Decl} {a : Atom}
    (h : (t', a) ∈ Decl.along Expr.leaves t ds) : t'.ordinal = t.ordinal := by
  induction ds generalizing t with
  | nil => cases h
  | cons d more ih =>
    rcases List.mem_append.1 h with h | h
    · obtain ⟨_, -, heq⟩ := List.mem_map.1 h
      cases heq
      rfl
    · exact (ih h).trans (t.ordinal_insert d.name)

/-- Whatever names are local at a leaf, they have the ordinal of the body. -/
theorem ordinal_of_mem_leavesAlong {b : Body} {t : RenameTable} {a : Atom} (h : (t, a) ∈ b.leavesAlong k) :
    t.ordinal = k := by
  rcases List.mem_append.1 h with h | h
  · obtain ⟨_, -, heq⟩ := List.mem_map.1 h
    cases heq
    rfl
  rcases List.mem_append.1 h with h | h
  · exact (ordinal_of_mem_along h).trans (b.ordinal_paramTable k)
  · obtain ⟨_, -, heq⟩ := List.mem_map.1 h
    cases heq
    exact b.ordinal_table k

/-- What the code of a body takes from the source has no local names but its own. -/
theorem ordinal_of_mem_texts {b : Body} (hb : b.Plain) (h : localText x n ∈ b.texts k) : n = k := by
  rcases List.mem_append.1 h with h | h
  · obtain ⟨⟨t, a⟩, hleaf, hwritten⟩ := List.mem_map.1 h
    have hplain : a.Plain := hb.leavesAlong k _ hleaf
    obtain ⟨rfl, hlocal⟩ := hplain.eq_of_lower hwritten
    have hresolve : t.resolve x = localText x n := hwritten
    rw [RenameTable.resolve_of_contains hlocal, ordinal_of_mem_leavesAlong hleaf] at hresolve
    exact (localText_inj hresolve).2.symm
  rcases List.mem_append.1 h with h | h
  · obtain ⟨d, hd, hstored⟩ := List.mem_flatMap.1 h
    cases d with
    | var => cases hstored
    | const y type e s =>
      rw [Decl.stored, List.mem_singleton] at hstored
      exact absurd hstored.symm (localText_ne_of_isIdentifier (hb.constants _ hd).name n)
  · obtain ⟨y, -, heq⟩ := List.mem_map.1 h
    exact (localText_inj heq).2.symm

/-- No label is written like a local. -/
theorem Spelled.localText_not_mem_definedLabels (hs : p.Spelled) : localText x n ∉ definedLabels p.code := by
  intro h
  obtain ⟨m, hlabels⟩ := p.labels_code
  rcases List.mem_append.1 (hlabels.mem_iff.1 h) with h | h
  · obtain ⟨f, hf, hname⟩ := List.mem_map.1 h
    exact localText_ne_of_isIdentifier (hs.funcs f hf).name n hname
  · refine not_generated_localText x n ?_
    rcases List.mem_cons.1 h with h | h
    · exact h ▸ .main
    · obtain ⟨l, -, hl⟩ := List.mem_map.1 h
      exact hl ▸ .label l

/-- An instruction in the code of a body names no locals but its own. -/
theorem WellFormed.local_within (hw : p.WellFormed) (hs : p.Spelled) {a : Nat} {ins : Instruction}
    (ha : p.code[a]? = some ins) (hx : localText x (i + 1) ∈ ins.names) : p.Within i a := by
  obtain ⟨j, hwithin⟩ := exists_within (List.getElem?_eq_some_iff.1 ha).1
  obtain ⟨b, -, -, -, -, hb, -⟩ := piece_at hwithin.body
  obtain ⟨before, behind, name, last, hcode, hbefore, hordinal, hfinish, hend⟩ := code_at_body hb
  rcases List.mem_append.1 hx with hx | hx
  · have hmiddle := mem_middle hcode ha (hbefore ▸ hwithin.from_start) (by
      have hto := hwithin.to_finish
      rw [List.length_cons]
      omega)
    have hrecord : localText x (i + 1) ∈ mentioned ((b.lower last).run (p.generatorAt j)).record := by
      rcases List.mem_cons.1 hmiddle with rfl | hmem
      · cases hx
      · exact mem_mentioned.2 ⟨ins, hmem, hx⟩
    have htexts : localText x (i + 1) ∈ b.texts (j + 1) := by
      by_contra hnot
      rw [← hordinal] at hnot
      exact ((b.lower_mentions (p.generatorAt j) hend.mentions).unmentioned hnot (isOwnText_localText x (i + 1))).1 hrecord
    cases Nat.succ.inj (ordinal_of_mem_texts (bodies_plain hs hw hb) htexts)
    exact hwithin
  · rcases hw.mem_linked hs (List.mem_of_getElem? ha) hx with hx | hx
    · exact absurd hx hs.localText_not_mem_definedLabels
    · exact absurd (hx ▸ .exit) (not_generated_localText x (i + 1))

/-! ### Fetched parameters -/

/-- The code of a program fetches the parameters of its bodies, in order. -/
theorem fetched_code (p : Program) : fetched p.code = Body.fetchesFrom 1 p.bodies := (p.lower_registers .first).fetched

/-- A program in order fetches no two parameters into one name. -/
theorem WellFormed.nodup_fetched (hw : p.WellFormed) : ((fetched p.code).map Prod.fst).Nodup := by
  have hdests : (fetched p.code).map Prod.fst =
      (p.bodies.zipIdx 1).flatMap fun bi => (bi.1.params.map (·.name)).map (localText · bi.2) := by
    rw [p.fetched_code, Body.fetchesFrom, List.map_flatMap]
    refine List.flatMap_congr fun bi _ => ?_
    rw [Body.fetches, List.map_map, List.map_map]
    conv_rhs => rw [← List.zipIdx_map_fst 1 bi.1.params, List.map_map]
    rfl
  rw [hdests, List.nodup_flatMap]
  constructor
  · intro bi hbi
    obtain ⟨m, hm⟩ := List.getElem?_of_mem (List.fst_mem_of_mem_zipIdx hbi)
    have hnames : (bi.1.params.map (·.name)).Nodup := (List.nodup_append.1 (hw.bodyNames hm).distinct).1
    exact hnames.map fun _ _ h => (localText_inj h).1
  · rw [List.pairwise_iff_getElem]
    intro m n hm hn hlt z hz hz'
    obtain ⟨x, -, rfl⟩ := List.mem_map.1 hz
    obtain ⟨y, -, heq⟩ := List.mem_map.1 hz'
    have hordinal := (localText_inj heq).2
    rw [List.getElem_zipIdx, List.getElem_zipIdx] at hordinal
    omega

/-- A parameter of a program in order is fetched at one place, from its place among the arguments. -/
theorem WellFormed.fetched_once (hw : p.WellFormed) {b : Body} {q : Param} (hb : p.bodies[i]? = some b)
    (hq : b.params[k]? = some q) :
    ∃ a : Nat, ∀ c n : Nat, p.code[c]? = some (.getparam (localText q.name (i + 1)) n) ↔ c = a ∧ n = k + 1 := by
  have hfetches : (localText q.name (i + 1), k + 1) ∈ b.fetches (i + 1) :=
    List.mem_map.2 ⟨(q, k + 1), List.mk_mem_zipIdx_iff_le_and_getElem?_sub.2 ⟨Nat.le_add_left 1 k, hq⟩, rfl⟩
  have hmem : (localText q.name (i + 1), k + 1) ∈ fetched p.code := by
    rw [p.fetched_code]
    have hbody : (b, i + 1) ∈ p.bodies.zipIdx 1 :=
      List.mk_mem_zipIdx_iff_le_and_getElem?_sub.2 ⟨Nat.le_add_left 1 i, hb⟩
    exact List.mem_flatMap.2 ⟨(b, i + 1), hbody, hfetches⟩
  obtain ⟨ins, hins, hfetched⟩ := List.mem_filterMap.1 hmem
  cases ins with
  | getparam dest index =>
    cases hfetched
    obtain ⟨a, ha⟩ := List.getElem?_of_mem hins
    refine ⟨a, fun c n => ⟨fun hc => ?_, ?_⟩⟩
    · have honce := hw.nodup_fetched
      rw [fetched, List.map_filterMap] at honce
      cases place_unique honce hc rfl ha rfl
      rw [ha] at hc
      cases hc
      exact ⟨rfl, rfl⟩
    · rintro ⟨rfl, rfl⟩
      exact ha
  | _ => cases hfetched

/-! ### Accepted sources -/

/-- What becomes of the parameters and local declarations of a program in its code. -/
structure KeepsLocals (p : Program) (code : List Instruction) : Prop where
  /-- Each declaration makes a local, with the ordinal of its body and its place there. -/
  registered : (p.lower.run .first).state.locals = p.locals
  injective : ∀ (i j k n : Nat) (x y : String), p.Declares i k x → p.Declares j n y →
    localText x (i + 1) = localText y (j + 1) → i = j ∧ k = n
  confined : ∀ (i k : Nat) (x : String), p.Declares i k x → ∀ (a : Nat) (ins : Instruction),
    code[a]? = some ins → localText x (i + 1) ∈ ins.names → p.Within i a
  /-- A parameter is fetched at one place of the code, with its index. -/
  fetched : ∀ (i k : Nat) (b : Body) (q : Param), p.bodies[i]? = some b → b.params[k]? = some q →
    ∃ a : Nat, ∀ c n : Nat, code[c]? = some (.getparam (localText q.name (i + 1)) n) ↔ c = a ∧ n = k + 1
  apart : ∀ (i k : Nat) (x : String), p.Declares i k x → localText x (i + 1) ∉ p.scopeNames ∧
    ¬Generated (localText x (i + 1)) ∧ literal? (localText x (i + 1)) = none

/-- The global names of a program are identifiers, so no local is written like one. -/
theorem Spelled.localText_not_mem_scopeNames (hs : p.Spelled) : localText x n ∉ p.scopeNames := by
  intro h
  have hid : isIdentifier (localText x n) = true := hs.declaredNames (List.mem_append_left _ h)
  rw [isIdentifier_localText] at hid
  cases hid

end Program

/-- **Local names.**  In an accepted source, the parameters and local declarations of all bodies are written with
texts that differ from each other, from the names of globals and functions, from all generated names and from
literals.  Such a text occurs only in the code of the body that declares it, and that of a parameter is fetched
exactly once. -/
theorem compile_keepsLocals {source : String} {compiled : Compiled} (h : compile source = .ok compiled) :
    ∃ p, Program.ofSource source = .ok p ∧ p.KeepsLocals compiled.code := by
  obtain ⟨p, hp, hclean, hcode⟩ := compile_eq_ok h
  have hw := Program.WellFormed.of_clean hclean
  have hs := ofSource_spelled hp
  refine ⟨p, hp, ?_⟩
  rw [hcode]
  exact {
    registered := hw.lower_locals
    injective := fun i j k n x y hx hy => hw.local_unique hx hy
    confined := fun i k x _ a ins ha => hw.local_within hs ha
    fetched := fun i k b q hb => hw.fetched_once hb
    apart := fun i k x _ =>
      ⟨hs.localText_not_mem_scopeNames, not_generated_localText x (i + 1), literal?_localText x (i + 1)⟩ }

theorem compile_keepsLocals_shadowingSource : compile shadowingSource = .ok ⟨shadowingCode, []⟩ ∧
    ∃ p, Program.ofSource shadowingSource = .ok p ∧ p.KeepsLocals shadowingCode := by
  have hcompile : compile shadowingSource = .ok ⟨shadowingCode, []⟩ := Except.eq_ok_of_toOption (by decide +kernel)
  exact ⟨hcompile, compile_keepsLocals hcompile⟩

end ThreeAddress
