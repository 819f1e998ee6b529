import Mathlib.Data.List.Perm.Basic
import ThreeAddress.Proofs.ControlFlow
import ThreeAddress.Proofs.Occurrences

/-!
# The names that code mentions

Lowering writes each operand, argument and target of a body exactly once, as the rename table of its place has
it.  Beside them it writes the names that the body declares, names of the supply, and a few literals.

* `Instruction.mentions`, `mentioned` — the texts in code, labels and names of routines aside;
* `isOwnText` — what lowering writes without finding it in the source;
* `Emit.Mentions` — a pass writes some texts, each once, and beside them only such own ones;
* `Stmt.lower_mentions`, `Body.lower_mentions` — statements and bodies;
* `Program.mentioned_code` — the code of a program.
-/

namespace ThreeAddress

/-! ### Texts in code -/

/-- The texts in an instruction, labels and names of routines aside. -/
def Instruction.mentions : Instruction → List String
  | .label _ | .goto _ | .call _ _ | .ret none => []
  | .assign dest value => dest :: value.operands
  | .ifz cond _ => cond.operands
  | .param value => [value]
  | .getparam dest _ => [dest]
  | .ret (some value) => value.operands

/-- The texts in code, labels and names of routines aside. -/
def mentioned (code : List Instruction) : List String := code.flatMap Instruction.mentions

@[simp] theorem mentioned_nil : mentioned [] = [] := rfl

@[simp] theorem mentioned_cons (i : Instruction) (more : List Instruction) :
    mentioned (i :: more) = i.mentions ++ mentioned more := rfl

@[simp] theorem mentioned_append (a b : List Instruction) : mentioned (a ++ b) = mentioned a ++ mentioned b :=
  List.flatMap_append

/-- An instruction mentions what it reads and what it stores into. -/
theorem Instruction.mem_mentions (i : Instruction) (x : String) :
    x ∈ i.mentions ↔ i.dest? = some x ∨ x ∈ i.uses := by
  cases i with
  | assign dest value => simp [mentions, uses, dest?, eq_comm]
  | getparam dest index => simp [mentions, uses, dest?, eq_comm]
  | ret value => cases value <;> simp [mentions, uses, dest?]
  | _ => simp [mentions, uses, dest?]

theorem mem_mentioned {code : List Instruction} {x : String} : x ∈ mentioned code ↔ ∃ i ∈ code, x ∈ i.mentions :=
  List.mem_flatMap

/-- Code that does not mention a name neither sets nor reads it. -/
theorem not_setAt_readAt {x : String} {code : List Instruction} (h : x ∉ mentioned code) (a : Nat) :
    ¬SetAt x code a ∧ ¬ReadAt x code a := by
  have hnone : ∀ i ∈ code, x ∉ i.mentions := fun i hi hx => h (mem_mentioned.2 ⟨i, hi, hx⟩)
  constructor
  · exact PlaceWith.none fun i hi hd => hnone i hi ((i.mem_mentions x).2 (.inl hd))
  · exact PlaceWith.none fun i hi hu => hnone i hi ((i.mem_mentions x).2 (.inr hu))

/-- What lowering writes without finding it in the source: names of the supply, and the literals of signs and
of flags. -/
def isOwnText (x : String) : Bool := isReservedName x || x == "0" || x == boolText true || x == boolText false

theorem isOwnText_of_isReservedName {x : String} (h : isReservedName x = true) : isOwnText x = true := by
  simp [isOwnText, h]

theorem isOwnText_boolText (b : Bool) : isOwnText (boolText b) = true := by
  cases b <;> decide

/-! ### What passes write -/

/-- What a pass has written, with what is left for later in its value, are some texts and own ones. -/
def Passed.Mentions {α : Type} (r : Passed Generator Instruction α) (left : α → List String)
    (xs : List String) : Prop :=
  ∃ own, (∀ x ∈ own, isOwnText x = true) ∧ (mentioned r.record ++ left r.value).Perm (xs ++ own)

/-- A pass that writes some texts, and beside them only own ones. -/
def Emit.Mentions {α : Type} (p : Emit α) (left : α → List String) (xs : List String) : Prop :=
  ∀ g, (p.run g).Mentions left xs

section Laws

variable {α β : Type} {left : α → List String} {left' : β → List String} {xs ys : List String} {p : Emit α}
  {f : α → Emit β} {g : Generator}

namespace Passed.Mentions

variable {r : Passed Generator Instruction α}

theorem perm (h : r.Mentions left xs) (hp : xs.Perm ys) : r.Mentions left ys := by
  obtain ⟨own, hown, hr⟩ := h
  exact ⟨own, hown, hr.trans (hp.append_right own)⟩

/-- Own texts need no mention. -/
theorem forget (h : r.Mentions left (xs ++ ys)) (hown : ∀ y ∈ ys, isOwnText y = true) :
    r.Mentions left xs := by
  obtain ⟨own, howns, hr⟩ := h
  refine ⟨ys ++ own, fun x hx => ?_, by rwa [List.append_assoc] at hr⟩
  rcases List.mem_append.1 hx with hx | hx
  · exact hown x hx
  · exact howns x hx

/-- What is neither an own text nor among the texts is not written, nor left for later. -/
theorem unmentioned (h : r.Mentions left xs) {y : String} (hy : y ∉ xs) (hown : isOwnText y = false) :
    y ∉ mentioned r.record ∧ y ∉ left r.value := by
  obtain ⟨own, howns, hr⟩ := h
  have hnot : y ∉ mentioned r.record ++ left r.value := by
    rw [hr.mem_iff, List.mem_append]
    rintro (hx | hx)
    · exact hy hx
    · rw [howns y hx] at hown
      cases hown
  exact ⟨fun hx => hnot (List.mem_append_left _ hx), fun hx => hnot (List.mem_append_right _ hx)⟩

/-- What the first pass leaves for later has to be written by the second one. -/
theorem bind (hp : (p.run g).Mentions left xs)
    (hf : ((f (p.run g).value).run (p.run g).state).Mentions left' (left (p.run g).value ++ ys)) :
    ((p >>= f).run g).Mentions left' (xs ++ ys) := by
  obtain ⟨own, hown, h⟩ := hp
  obtain ⟨own', hown', h'⟩ := hf
  refine ⟨own ++ own', fun x hx => ?_, ?_⟩
  · rcases List.mem_append.1 hx with hx | hx
    · exact hown x hx
    · exact hown' x hx
  · rw [List.perm_iff_count] at h h' ⊢
    intro x
    have hx := h x
    have hx' := h' x
    simp only [Pass.run_bind, mentioned_append, List.count_append] at hx hx' ⊢
    omega

/-- A first pass after which nothing is left. -/
theorem andThen (hp : (p.run g).Mentions (fun _ => []) xs)
    (hf : ((f (p.run g).value).run (p.run g).state).Mentions left' ys) :
    ((p >>= f).run g).Mentions left' (xs ++ ys) := hp.bind hf

end Passed.Mentions

namespace Emit.Mentions

theorem perm (h : Emit.Mentions p left xs) (hp : xs.Perm ys) : Emit.Mentions p left ys :=
  fun g => (h g).perm hp

theorem forget (h : Emit.Mentions p left (xs ++ ys)) (hown : ∀ y ∈ ys, isOwnText y = true) :
    Emit.Mentions p left xs := fun g => (h g).forget hown

theorem pure (left : α → List String) (a : α) : Emit.Mentions (Pure.pure a) left (left a) := by
  intro g
  exact ⟨[], fun x hx => absurd hx List.not_mem_nil, by simp⟩

theorem bind (hp : Emit.Mentions p left xs) (hf : ∀ a, Emit.Mentions (f a) left' (left a ++ ys)) :
    Emit.Mentions (p >>= f) left' (xs ++ ys) :=
  fun g => (hp g).bind (hf _ _)

/-- A last pass, which writes what is left and nothing else. -/
theorem last (hp : Emit.Mentions p left xs) (hf : ∀ a, Emit.Mentions (f a) left' (left a)) :
    Emit.Mentions (p >>= f) left' xs := by
  rw [← List.append_nil xs]
  exact hp.bind fun a => (List.append_nil (left a)).symm ▸ hf a

theorem andThen (hp : Emit.Mentions p (fun _ => []) xs) (hf : ∀ a, Emit.Mentions (f a) left' ys) :
    Emit.Mentions (p >>= f) left' (xs ++ ys) := hp.bind hf

theorem tell (i : Instruction) : Emit.Mentions (Pass.tell i) (fun _ => []) i.mentions := by
  intro g
  exact ⟨[], fun x hx => absurd hx List.not_mem_nil, by simp⟩

/-- A pass that goes on with an own name of the supply. -/
theorem fresh {from? : NameSupply → String × NameSupply} {f : String → Emit β}
    (hown : ∀ n, isReservedName (from? n).1 = true)
    (hf : ∀ x, isOwnText x = true → Emit.Mentions (f x) left' ys) :
    Emit.Mentions (Emit.take from? >>= f) left' ys := by
  intro g
  show ((f (from? g.names).1).run { g with names := (from? g.names).2 }).Mentions left' ys
  exact hf _ (isOwnText_of_isReservedName (hown g.names)) _

/-- A pass that writes nothing. -/
theorem silent (hp : ∀ g, (p.run g).record = []) : Emit.Mentions p (fun _ => []) [] := by
  intro g
  exact ⟨[], fun x hx => absurd hx List.not_mem_nil, by simp [hp g]⟩

/-- A label, a jump or the like. -/
theorem quiet {q : Emit β} {i : Instruction} (hi : i.mentions = []) (hq : Emit.Mentions q left' ys) :
    Emit.Mentions (Pass.tell i >>= fun _ => q) left' ys := by
  have h := (tell i).andThen fun _ => hq
  rwa [hi] at h

theorem close {i : Instruction} (hp : Emit.Mentions p (fun _ => []) xs) (hi : i.mentions = []) :
    Emit.Mentions (p >>= fun _ => Pass.tell i) (fun _ => []) xs :=
  hp.last fun _ => hi ▸ tell i

theorem forM {f : β → Emit Unit} {texts : β → List String}
    (hf : ∀ b, Emit.Mentions (f b) (fun _ => []) (texts b)) (bs : List β) :
    Emit.Mentions (bs.forM f) (fun _ => []) (bs.flatMap texts) := by
  induction bs with
  | nil => exact pure _ ()
  | cons b more ih =>
    rw [List.flatMap_cons]
    exact (hf b).andThen fun _ => ih

theorem mapM {f : β → Emit α} {texts : β → List String} (hf : ∀ b, Emit.Mentions (f b) left (texts b))
    (bs : List β) : Emit.Mentions (bs.mapM f) (fun as => as.flatMap left) (bs.flatMap texts) := by
  induction bs with
  | nil =>
    rw [List.mapM_nil]
    exact pure _ []
  | cons b more ih =>
    rw [List.mapM_cons, List.flatMap_cons]
    refine (hf b).bind fun a => ?_
    have hmore : Emit.Mentions (more.mapM f >>= fun as => Pure.pure (a :: as))
        (fun as => as.flatMap left) (more.flatMap texts ++ left a) := by
      refine ih.bind fun as => (pure _ (a :: as)).perm ?_
      rw [List.flatMap_cons]
      exact List.perm_append_comm
    exact hmore.perm List.perm_append_comm

end Emit.Mentions

end Laws

open Emit (Mentions)

/-! ### Expressions -/

theorem atomOf_mentions (r : Rvalue) : Mentions (Emit.atomOf r) ([·]) r.operands := by
  unfold Emit.atomOf
  split
  · exact .pure _ _
  · refine Mentions.fresh (fun n => isReservedName_tempName n.temp) fun temp htemp => ?_
    have htwice := ((Mentions.tell (.assign temp r)).andThen fun _ => .pure ([·]) temp).perm List.perm_middle.symm
    exact htwice.forget (by simp [htemp])

section Expressions

variable (t : RenameTable)

theorem Fragment.lower_mentions (f : Fragment) :
    Mentions (pure (f.lower t)) Rvalue.operands (f.leaves.map (Atom.lower t)) := by
  have hpure := Mentions.pure Rvalue.operands (f.lower t)
  cases f with
  | atom negated a =>
    cases negated with
    | false => exact hpure
    | true =>
      -- the sign brings a zero of its own
      have hperm : Mentions (pure (Fragment.lower t (.atom true a))) Rvalue.operands ([a.lower t] ++ ["0"]) :=
        hpure.perm (.swap _ _ [])
      exact hperm.forget (by decide)
  | not x => exact hpure
  | zero =>
    have hown : Mentions (pure (Fragment.lower t .zero)) Rvalue.operands ([] ++ ["0"]) := hpure
    exact hown.forget (by decide)
  | bool b =>
    have hown : Mentions (pure (Fragment.lower t (.bool b))) Rvalue.operands ([] ++ [boolText b]) := hpure
    refine hown.forget fun x hx => ?_
    rw [List.mem_singleton.1 hx]
    exact isOwnText_boolText b

/-- The code of a call mentions its arguments.  Nothing of them is left for later. -/
theorem Call.lower_mentions (c : Call) {left : Rvalue → List String}
    (hleft : ∀ name count, left (.call name count) = []) :
    Mentions (c.lower t) left (c.leaves.map (Atom.lower t)) := by
  have hargs : c.leaves.map (Atom.lower t) = (c.args.flatMap fun a => [a.atom.lower t]) ++ [] := by
    rw [List.append_nil, Call.leaves, List.map_map, List.map_eq_flatMap]
    rfl
  rw [hargs]
  refine (Mentions.forM (fun a => .tell (.param (a.atom.lower t))) c.args).andThen fun _ => ?_
  rw [← hleft c.name c.args.length]
  exact .pure _ _

theorem Operand.lower_mentions (o : Operand) :
    Mentions (o.lower t) Rvalue.operands (o.leaves.map (Atom.lower t)) := by
  cases o with
  | call c => exact c.lower_mentions t fun _ _ => rfl
  | fragment f => exact f.lower_mentions t

theorem Operand.lowerAtom_mentions (o : Operand) :
    Mentions (o.lowerAtom t) ([·]) (o.leaves.map (Atom.lower t)) :=
  (o.lower_mentions t).last atomOf_mentions

theorem lowerMember_mentions (x : Operator × Operand) :
    Mentions (lowerMember t x) (fun y => [y.2]) (x.2.leaves.map (Atom.lower t)) :=
  (x.2.lowerAtom_mentions t).last fun text => .pure _ (x.1, text)

theorem foldAtoms_mentions (head : String) (tail : List (Operator × String)) :
    Mentions (foldAtoms head tail) ([·]) (head :: tail.map (·.2)) := by
  induction tail generalizing head with
  | nil => exact .pure _ head
  | cons x more ih => exact (atomOf_mentions (.binary head x.1 x.2)).bind fun result => ih result

theorem lowerLinks_mentions (head : String) (tail : List (Operator × String)) :
    Mentions (lowerLinks head tail) Rvalue.operands (head :: tail.map (·.2)) := by
  unfold lowerLinks
  split
  · exact .pure _ (Rvalue.binary head _ _)
  · exact (foldAtoms_mentions head tail).last fun text => .pure _ (Rvalue.atom text)

/-- **Expressions.**  The code of an expression, with the right-hand side that it leads to, mentions each
operand and argument once. -/
theorem Expr.lower_mentions (e : Expr) :
    Mentions (e.lower t) Rvalue.operands (e.leaves.map (Atom.lower t)) := by
  rw [Expr.leaves_eq, chainLeaves, List.map_append, List.map_flatMap]
  unfold Expr.lower
  split
  · rename_i only hchain
    rw [hchain, List.flatMap_nil, List.append_nil]
    exact only.lower_mentions t
  · rename_i first more hne hchain
    rw [hchain]
    refine (first.lowerAtom_mentions t).bind fun head => ?_
    have htail := Mentions.mapM (lowerMember_mentions t) more
    have hall : Mentions (more.mapM (lowerMember t) >>= lowerLinks head) Rvalue.operands
        ((more.flatMap fun x => x.2.leaves.map (Atom.lower t)) ++ [head]) := by
      refine htail.bind fun tail => (lowerLinks_mentions head tail).perm ?_
      rw [List.map_eq_flatMap]
      exact (List.perm_append_singleton head _).symm
    exact hall.perm List.perm_append_comm

theorem Expr.lowerAtom_mentions (e : Expr) :
    Mentions (e.lowerAtom t) ([·]) (e.leaves.map (Atom.lower t)) :=
  (e.lower_mentions t).last atomOf_mentions

/-! ### Conditions -/

theorem flagOf_mentions (predicate : Rvalue) : Mentions (flagOf predicate) ([·]) predicate.operands := by
  refine Mentions.fresh (fun n => isReservedName_flagName n.flag) fun flag hflag => ?_
  refine (Mentions.silent fun _ => rfl).andThen fun skip => ?_
  have hset (b : Bool) : Mentions (Emit.assign flag (.atom (boolText b))) (fun _ => []) [flag, boolText b] := .tell _
  have hall := (hset false).andThen fun _ => (Mentions.tell (.ifz predicate skip)).andThen fun _ =>
    (hset true).andThen fun _ => (Mentions.tell (.label skip)).andThen fun _ => .pure ([·]) flag
  refine (hall.perm (List.perm_append_comm.trans (List.Perm.of_eq (List.append_assoc ..)))).forget ?_
  simp [hflag, isOwnText_boolText, Instruction.mentions]

/-- The flags in a chain. -/
def Chain.flags (c : Chain Connective String) : List String := c.head :: c.tail.map (·.2)

theorem Chain.flags_link (l r : Chain Connective String) (op : Connective) :
    (l.link op r).flags = l.flags ++ r.flags := by
  simp [flags, link]

theorem flagOf_single_mentions (predicate : Rvalue) :
    Mentions (do return Chain.single (← flagOf predicate)) Chain.flags predicate.operands :=
  (flagOf_mentions predicate).last fun flag => .pure Chain.flags (.single flag)

theorem combineFlags_mentions (first : String) (more : List (Connective × String)) :
    Mentions (combineFlags first more) ([·]) (first :: more.map (·.2)) := by
  induction more generalizing first with
  | nil => exact .pure _ first
  | cons x more ih =>
    have hflag (recent : String) : Mentions (do
        let flag ← Emit.take NameSupply.takeFlag
        Emit.assign flag (.binary recent (.logic x.1) first)
        return flag) ([·]) ([recent] ++ [first]) := by
      refine Mentions.fresh (fun n => isReservedName_flagName n.flag) fun flag hflag => ?_
      have htwice := ((Mentions.tell (.assign flag (.binary recent (.logic x.1) first))).andThen
        fun _ => .pure ([·]) flag).perm (List.perm_middle.symm)
      exact htwice.forget (by simp [hflag])
    exact ((ih x.2).bind hflag).perm (List.perm_append_singleton _ _)

theorem lowerCompared_mentions (op : Operator) (l r : Expr) : Mentions (do
      let a ← l.lowerAtom t
      let b ← r.lowerAtom t
      return Chain.single (← flagOf (.binary a op b))) Chain.flags ((l.leaves ++ r.leaves).map (Atom.lower t)) := by
  rw [List.map_append]
  refine (l.lowerAtom_mentions t).bind fun a => ?_
  have hright := (r.lowerAtom_mentions t).bind fun b =>
    (flagOf_single_mentions (.binary a op b)).perm (.swap b a [])
  exact hright.perm (List.perm_append_singleton _ _)

/-- **Conditions.**  The code of a condition, with its flags, mentions each operand and argument once. -/
theorem Cond.lowerFlags_mentions (c : Cond) :
    Mentions (c.lowerFlags t) Chain.flags (c.leaves.map (Atom.lower t)) := by
  induction c with
  | comparison op l r s => exact lowerCompared_mentions t (.order op) l r
  | equality op l r s => exact lowerCompared_mentions t (.same op) l r
  | neg c s ih =>
    refine ih.last fun flags => (combineFlags_mentions flags.head flags.tail).last fun flag => ?_
    have hnot : Mentions (do return Chain.single (← flagOf (.binary flag (.same .equal) "false"))) Chain.flags
        ([flag] ++ ["false"]) := flagOf_single_mentions _
    exact hnot.forget (by decide)
  | paren c s ih => exact ih
  | binary op l r s ihl ihr =>
    rw [Cond.leaves, List.map_append]
    refine ihl.bind fun a => ?_
    have hright := ihr.bind fun b => (Mentions.pure Chain.flags (a.link op b)).perm
      (by rw [a.flags_link]; exact List.perm_append_comm)
    exact hright.perm List.perm_append_comm
  | bool b s =>
    have hbool : Mentions (do return Chain.single (← flagOf (.atom (boolText b)))) Chain.flags
        ([] ++ [boolText b]) := flagOf_single_mentions _
    refine hbool.forget fun x hx => ?_
    rw [List.mem_singleton.1 hx]
    exact isOwnText_boolText b

theorem Cond.lower_mentions (c : Cond) :
    Mentions (c.lower t) Rvalue.operands (c.leaves.map (Atom.lower t)) := by
  refine (c.lowerFlags_mentions t).last fun flags => (combineFlags_mentions flags.head flags.tail).last
    fun flag => ?_
  have htrue : Mentions (pure (.binary flag (.same .equal) "true")) Rvalue.operands ([flag] ++ ["true"]) :=
    .pure _ _
  exact htrue.forget (by decide)

/-! ### Statements -/

/-- **Statements.**  The code of a statement mentions each operand, argument and target once. -/
theorem Stmt.lower_mentions :
    (∀ s : Stmt, Mentions (s.lower t) (fun _ => []) (s.leaves.map (Atom.lower t))) ∧
      ∀ ss, Mentions (Stmt.lowerAll t ss) (fun _ => []) ((Stmt.leavesOfList ss).map (Atom.lower t)) := by
  refine Stmt.parts ?assign ?ite ?loop ?call ?block ?skip ?nil ?cons
  case assign =>
    intro x e a s
    have hassign := (e.lower_mentions t).bind (f := fun v => Emit.assign (t.resolve x) v) fun v =>
      (Mentions.tell (.assign (t.resolve x) v)).perm (List.perm_append_singleton _ _).symm
    exact hassign.perm (List.perm_append_singleton _ _)
  case ite =>
    intro c th el s iht ihe
    rw [Stmt.lower, Stmt.leaves, List.map_append, List.map_append, Block.leaves, Block.leaves, Block.lower,
      Block.lower]
    refine (Mentions.silent fun _ => rfl).andThen fun labels => ?_
    refine (c.lower_mentions t).bind fun predicate => (Mentions.tell (.ifz predicate labels.1)).andThen fun _ => ?_
    exact iht.andThen fun _ => .quiet rfl (.quiet rfl (ihe.close rfl))
  case loop =>
    intro c b s ih
    rw [Stmt.lower, Stmt.leaves, List.map_append, Block.leaves, Block.lower]
    refine (Mentions.silent fun _ => rfl).andThen fun labels => .quiet rfl ?_
    refine (c.lower_mentions t).bind fun predicate => (Mentions.tell (.ifz predicate labels.2)).andThen fun _ => ?_
    exact ih.last fun _ => .quiet rfl (.tell (.label labels.2))
  case call =>
    intro c s
    exact (c.lower_mentions t fun _ _ => rfl).close rfl
  case block =>
    intro b s ih
    rw [Stmt.lower, Stmt.leaves, Block.lower, Block.leaves]
    exact ih
  case skip => exact fun s => .pure _ ()
  case nil => exact .pure _ ()
  case cons =>
    intro s more ihs ihmore
    rw [Stmt.lowerAll, Stmt.leavesOfList, List.map_append]
    exact ihs.andThen fun _ => ihmore

end Expressions

/-! ### Declarations -/

/-- The name that the code of a declaration stores into.  Variables have no code. -/
def Decl.stored : Decl → List String
  | .var _ _ _ => []
  | .const name _ _ _ => [name]

theorem Decl.collect_leaves (d : Decl) : d.collect Expr.leaves = d.leaves := by
  cases d <;> rfl

theorem Decl.lowerGlobal_mentions (t : RenameTable) (d : Decl) :
    Mentions (d.lowerGlobal t) (fun _ => []) (d.leaves.map (Atom.lower t) ++ d.stored) := by
  cases d with
  | var x type s => exact .pure _ ()
  | const x type e s =>
    refine (e.lower_mentions t).bind fun v => ?_
    exact (Mentions.tell (.assign x v)).perm (List.perm_append_singleton _ _).symm

/-- A name is made local before the rest goes on. -/
theorem Emit.Mentions.register {α : Type} {t : RenameTable} {x : String} {f : RenameTable → Emit α}
    {left : α → List String} {xs : List String} (hf : Mentions (f (t.insert x)) left xs) :
    Mentions (t.register x >>= f) left xs := by
  intro g
  exact hf { g with locals := g.locals ++ [t.localName x] }

theorem Emit.Mentions.registerAll {α : Type} {ps : List Param} {t : RenameTable} {f : RenameTable → Emit α}
    {left : α → List String} {xs : List String} (hf : Mentions (f (t.insertAll (ps.map (·.name)))) left xs) :
    Mentions (ps.foldlM (fun t q => t.register q.name) t >>= f) left xs := by
  induction ps generalizing t with
  | nil => exact hf
  | cons q more ih =>
    rw [List.foldlM_cons, bind_assoc]
    exact .register (ih hf)

theorem Decl.lowerLocal_mentions (t : RenameTable) (d : Decl) : Mentions (d.lowerLocal t) (fun _ => [])
    (d.leaves.map (Atom.lower t) ++ d.stored.map (localText · t.ordinal)) := by
  cases d with
  | var x type s => exact .silent fun _ => rfl
  | const x type e s =>
    refine (e.lower_mentions t).bind fun v => .register ?_
    rw [t.resolve_insert]
    refine Mentions.last ?_ fun _ => .pure _ _
    exact (Mentions.tell (.assign (localText x t.ordinal) v)).perm (List.perm_append_singleton _ _).symm

theorem Decl.value_lowerLocal (t : RenameTable) (d : Decl) (g : Generator) :
    ((d.lowerLocal t).run g).value = t.insert d.name := by
  cases d <;> rfl

/-- A leaf as it is written under a rename table. -/
def writtenLeaf (x : RenameTable × Atom) : String := x.2.lower x.1

theorem map_writtenLeaf (t : RenameTable) (leaves : List Atom) :
    (leaves.map (t, ·)).map writtenLeaf = leaves.map (Atom.lower t) := by
  rw [List.map_map]
  rfl

/-- Local declarations mention the leaves of their values, each under the table of its place, and the names
that they store into. -/
theorem Decl.lowerLocals_mentions (ds : List Decl) (t : RenameTable) (g : Generator) :
    ((ds.foldlM Decl.lowerLocal t).run g).value = t.insertAll (ds.map (·.name)) ∧
      ((ds.foldlM Decl.lowerLocal t).run g).Mentions (fun _ => [])
        ((Decl.along Expr.leaves t ds).map writtenLeaf ++ (ds.flatMap Decl.stored).map (localText · t.ordinal)) := by
  induction ds generalizing t g with
  | nil => exact ⟨rfl, Mentions.silent (fun _ => rfl) g⟩
  | cons d more ih =>
    have hvalue := d.value_lowerLocal t g
    obtain ⟨hmore, hrest⟩ := ih (t.insert d.name) ((d.lowerLocal t).run g).state
    rw [t.ordinal_insert] at hrest
    rw [List.foldlM_cons]
    refine ⟨?_, ?_⟩
    · rw [Pass.run_bind, hvalue, hmore]
      rfl
    · rw [← hvalue] at hrest
      refine ((d.lowerLocal_mentions t g).andThen hrest).perm ?_
      rw [hvalue, Decl.along, d.collect_leaves, List.map_append, map_writtenLeaf, List.flatMap_cons,
        List.map_append, List.perm_iff_count]
      intro x
      simp only [List.count_append]
      omega

theorem fetchParams_mentions (t : RenameTable) (index : Nat) (ps : List Param) :
    Mentions (fetchParams t index ps) (fun _ => []) (ps.map fun q => t.resolve q.name) := by
  induction ps generalizing index with
  | nil => exact .pure _ ()
  | cons q more ih => exact (Mentions.tell (.getparam (t.resolve q.name) index)).andThen fun _ => ih _

/-! ### Bodies -/

namespace Body

/-- The names and numerals in a body, each with the names that are local where it stands. -/
def leavesAlong (b : Body) (ordinal : Nat) : List (RenameTable × Atom) :=
  b.along Expr.leaves Stmt.leavesOfList ordinal

/-- The names that the declarations of a body store into. -/
def stored (b : Body) (ordinal : Nat) : List String :=
  b.constants.flatMap Decl.stored ++
    (b.params.map (·.name) ++ b.decls.flatMap Decl.stored).map (localText · ordinal)

/-- What the code of a body takes from the source. -/
def texts (b : Body) (ordinal : Nat) : List String :=
  (b.leavesAlong ordinal).map writtenLeaf ++ b.stored ordinal

/-- The code of a body up to its own declarations, and its rename table there. -/
def lowerParams (b : Body) : Emit RenameTable := do
  let outer ← openTable
  b.constants.forM (Decl.lowerGlobal outer)
  let params ← b.params.foldlM (fun t q => t.register q.name) outer
  fetchParams params 1 b.params
  return params

theorem lowerStart_eq (b : Body) : b.lowerStart = (do b.decls.foldlM Decl.lowerLocal (← b.lowerParams)) := by
  unfold lowerStart lowerParams
  simp

variable (b : Body) (g : Generator)

theorem value_lowerParams : (b.lowerParams.run g).value = b.paramTable g.names.ordinal := by
  let g₁ := ((b.constants.forM (Decl.lowerGlobal (.empty g.names.ordinal))).run g).state
  exact (Param.run_registers b.params (.empty g.names.ordinal) g₁).1

theorem lowerParams_mentions : (b.lowerParams.run g).Mentions (fun _ => [])
    ((b.constants.flatMap Decl.leaves).map (Atom.lower (.empty g.names.ordinal)) ++
      (b.constants.flatMap Decl.stored ++ (b.params.map (·.name)).map (localText · g.names.ordinal))) := by
  let k := g.names.ordinal
  have hfetch := (fetchParams_mentions (b.paramTable k) 1 b.params).last
    fun _ => .pure (fun _ => []) (b.paramTable k)
  have hparts : Mentions (do
      let params ← b.params.foldlM (fun t q => t.register q.name) (.empty k)
      fetchParams params 1 b.params
      return params) (fun _ => []) ((b.params.map (·.name)).map (localText · k)) :=
    b.resolve_params k ▸ Emit.Mentions.registerAll hfetch
  have hall := (Mentions.forM (Decl.lowerGlobal_mentions (.empty k)) b.constants).andThen fun _ => hparts
  refine (hall g).perm ?_
  rw [← List.append_assoc, List.map_flatMap]
  exact (List.flatMap_append_perm b.constants _ _).symm.append_right _

theorem value_lowerStart : (b.lowerStart.run g).value = b.table g.names.ordinal := by
  rw [b.lowerStart_eq, Pass.run_bind, (Decl.lowerLocals_mentions b.decls _ _).1, b.value_lowerParams, b.table_eq]

/-- The code of a body up to its statements mentions the leaves of the declarations, and the names that they
store into. -/
theorem lowerStart_mentions : (b.lowerStart.run g).Mentions (fun _ => [])
    ((b.constants.flatMap Decl.leaves).map (Atom.lower (.empty g.names.ordinal)) ++
      (b.constants.flatMap Decl.stored ++ (b.params.map (·.name)).map (localText · g.names.ordinal)) ++
      ((Decl.along Expr.leaves (b.paramTable g.names.ordinal) b.decls).map writtenLeaf ++
        (b.decls.flatMap Decl.stored).map (localText · g.names.ordinal))) := by
  have hlocals := (Decl.lowerLocals_mentions b.decls (b.paramTable g.names.ordinal) (b.lowerParams.run g).state).2
  rw [b.ordinal_paramTable, ← b.value_lowerParams] at hlocals
  rw [b.lowerStart_eq, ← b.value_lowerParams]
  exact (b.lowerParams_mentions g).andThen (f := fun t => b.decls.foldlM Decl.lowerLocal t) hlocals

/-- **Bodies.**  The code of a body mentions each leaf once, under the table of its place, and the names that
its declarations store into. -/
theorem lower_mentions {finish : RenameTable → Emit Unit}
    (hf : ∀ t, Mentions (finish t) (fun _ => []) ((b.result.toList.flatMap Expr.leaves).map (Atom.lower t))) :
    ((b.lower finish).run g).Mentions (fun _ => []) (b.texts g.names.ordinal) := by
  have hrest (t : RenameTable) : Mentions (b.block.lower t >>= fun _ => finish t) (fun _ => [])
      ((Stmt.leavesOfList b.block.nodes ++ b.result.toList.flatMap Expr.leaves).map (Atom.lower t)) := by
    rw [List.map_append, Block.lower]
    exact ((Stmt.lower_mentions t).2 b.block.nodes).andThen fun _ => hf t
  refine ((b.lowerStart_mentions g).andThen (hrest _ _)).perm ?_
  have hcollect : b.constants.flatMap (Decl.collect Expr.leaves) = b.constants.flatMap Decl.leaves :=
    List.flatMap_congr fun d _ => d.collect_leaves
  simp only [b.value_lowerStart, texts, leavesAlong, along, hcollect, stored,
    List.map_append, map_writtenLeaf, List.perm_iff_count]
  intro x
  simp only [List.count_append]
  omega

end Body

theorem Expr.lowerReturned_mentions (t : RenameTable) (e : Expr) :
    Mentions (e.lowerReturned t) Rvalue.operands (e.leaves.map (Atom.lower t)) := by
  refine (e.lower_mentions t).last fun v => ?_
  split
  · exact (atomOf_mentions _).last fun text => .pure _ (Rvalue.atom text)
  · exact .pure _ _

theorem lowerReturn_mentions (t : RenameTable) (result : Option Expr) : Mentions (lowerReturn t result)
    (fun _ => []) ((result.toList.flatMap Expr.leaves).map (Atom.lower t)) := by
  cases result with
  | none => exact .tell (.ret none)
  | some e =>
    rw [Option.toList_some, List.flatMap_singleton]
    exact (e.lowerReturned_mentions t).last fun v => .tell (.ret (some v))

theorem Body.Ending.mentions {b : Body} {last : RenameTable → Emit Unit} (h : b.Ending last) (t : RenameTable) :
    Mentions (last t) (fun _ => []) ((b.result.toList.flatMap Expr.leaves).map (Atom.lower t)) := by
  cases h with
  | returns => exact lowerReturn_mentions t b.result
  | exits hnone =>
    rw [hnone]
    exact .tell (.call exitRoutine 0)

/-! ### Programs -/

/-- What the code of bodies takes from the source, when the first one has some ordinal. -/
def Body.textsFrom (ordinal : Nat) (bs : List Body) : List String :=
  (bs.zipIdx ordinal).flatMap fun bi => bi.1.texts bi.2

namespace Program

/-- What the code of a program takes from the source. -/
def texts (p : Program) : List String := Body.textsFrom 1 p.bodies

/-- **Programs.**  The code of a program mentions each leaf of its bodies once, as it is written under the
table of its place, and the names that declarations store into; all else that it mentions is its own. -/
theorem mentioned_code (p : Program) : ∃ own, (∀ x ∈ own, isOwnText x = true) ∧
    (mentioned p.code).Perm (p.texts ++ own) := by
  have hroutine {r : Passed Generator Instruction Unit} {xs : List String} (h : r.Mentions (fun _ => []) xs) :
      ∃ own, (∀ x ∈ own, isOwnText x = true) ∧ (mentioned r.record).Perm (xs ++ own) := by
    obtain ⟨own, hown, hperm⟩ := h
    rw [List.append_nil] at hperm
    exact ⟨own, hown, hperm⟩
  refine p.code_along (R := fun code xs => ∃ own, (∀ x ∈ own, isOwnText x = true) ∧
    (mentioned code).Perm (xs ++ own)) (F := Body.texts) ⟨[], fun x hx => absurd hx List.not_mem_nil, .nil⟩ ?_
    (fun f g => hroutine (f.asBody.lower_mentions g fun t => lowerReturn_mentions t f.returnValue))
    fun g => hroutine (p.mainBody.lower_mentions g fun _ => .tell (.call exitRoutine 0))
  rintro c d xs ys ⟨own, hown, hperm⟩ ⟨own', hown', hperm'⟩
  refine ⟨own ++ own', List.forall_mem_append.2 ⟨hown, hown'⟩, ?_⟩
  rw [mentioned_append]
  refine (hperm.append hperm').trans ?_
  rw [List.append_assoc, List.append_assoc]
  exact .append_left xs (List.perm_append_comm_assoc own ys own')

end Program

end ThreeAddress
