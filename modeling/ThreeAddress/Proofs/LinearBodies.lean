import ThreeAddress.Proofs.CompiledRuns
import ThreeAddress.Proofs.LinearCode

/-!
# Lowering emits linear code

A pass begins with some names of the supply that wait for it, leaves others in its value, and keeps those that
wait for later code.  While an expression is lowered anything may wait, while a condition is lowered only flags
of the same condition, and nothing while a statement is.

* `Emit.LinearAt` — the code that a pass emits is linear;
* `Expr.lower_linear`, `Cond.lower_linear` — expressions and conditions;
* `Stmt.lower_linear`, `Body.lower_linear` — statements and bodies;
* `Program.linear_code` — the code of a program.
-/

namespace ThreeAddress

open NameSupply (tempName flagName labelName)

/-! ### Linear passes -/

/-- The stock of a generator, with some names waiting. -/
def Generator.stock (g : Generator) (pending : Multiset String) : Stock := ⟨g.names.temp, g.names.flag, pending⟩

/-- The code that a pass emits is linear: it takes some names that wait, and leaves others in its value. -/
def Emit.LinearAt {α : Type} (p : Emit α) (g : Generator) (rest taken : Multiset String)
    (left : α → Multiset String) : Prop :=
  Linear (g.stock (taken + rest)) (p.run g).record ((p.run g).state.stock (left (p.run g).value + rest))

namespace Emit.LinearAt

variable {α β : Type} {p : Emit α} {f : α → Emit β} {g : Generator} {rest taken more : Multiset String}
  {left : α → Multiset String} {left' : β → Multiset String}

/-- Nothing is emitted, and what is taken is left. -/
theorem pure {a : α} (h : left a = taken) : Emit.LinearAt (Pure.pure a) g rest taken left := by
  unfold Emit.LinearAt
  rw [Pass.run_pure, h]
  exact .nil

/-- One pass after another.  What the second one takes beside the value of the first waits meanwhile. -/
theorem bind (hp : Emit.LinearAt p g (more + rest) taken left)
    (hf : Emit.LinearAt (f (p.run g).value) (p.run g).state rest (left (p.run g).value + more) left') :
    Emit.LinearAt (p >>= f) g rest (taken + more) left' := by
  unfold Emit.LinearAt at hp hf ⊢
  rw [add_assoc] at hf ⊢
  exact hp.append hf

/-- One pass after another, the second one taking only the value of the first. -/
theorem andThen (hp : Emit.LinearAt p g rest taken left)
    (hf : Emit.LinearAt (f (p.run g).value) (p.run g).state rest (left (p.run g).value) left') :
    Emit.LinearAt (p >>= f) g rest taken left' := by
  have hp' : Emit.LinearAt p g (0 + rest) taken left := by
    rw [zero_add]
    exact hp
  rw [← add_zero taken]
  exact hp'.bind (by rw [add_zero]; exact hf)

/-- A pass that emits nothing and takes neither a temporary nor a flag. -/
theorem silent (hr : (p.run g).record = []) (ht : (p.run g).state.names.temp = g.names.temp)
    (hn : (p.run g).state.names.flag = g.names.flag)
    (hf : Emit.LinearAt (f (p.run g).value) (p.run g).state rest taken left') :
    Emit.LinearAt (p >>= f) g rest taken left' := by
  unfold Emit.LinearAt Generator.stock at hf ⊢
  rw [Pass.run_bind, hr, List.nil_append, ← ht, ← hn]
  exact hf

/-- One straight instruction that stores into no name of the supply. -/
theorem tell {i : Instruction} (hi : i.isPlain = true) (hd : ∀ x, i.dest? = some x → isReservedName x = false) :
    Emit.LinearAt (Pass.tell i) g rest (ownNames i.uses) fun _ => 0 := by
  unfold Emit.LinearAt
  rw [zero_add]
  exact .single (.plain hi hd)

/-- A label, a jump or a return. -/
theorem turn {i : Instruction} (hi : i.isPlain = false) :
    Emit.LinearAt (Pass.tell i) g 0 (ownNames i.uses) fun _ => 0 := by
  unfold Emit.LinearAt
  rw [add_zero, add_zero]
  exact .single (.turn hi)

end Emit.LinearAt

open Emit (LinearAt)

theorem atomOf_linear (r : Rvalue) (g : Generator) (rest : Multiset String) :
    LinearAt (Emit.atomOf r) g rest (ownNames r.operands) fun x => ownNames [x] := by
  unfold Emit.atomOf
  split
  · exact .pure rfl
  · have hown : ownNames [tempName g.names.temp] = {tempName g.names.temp} :=
      ownNames_own (isReservedName_tempName _)
    show Linear (g.stock _) [.assign (tempName g.names.temp) r]
      ⟨g.names.temp + 1, g.names.flag, ownNames [tempName g.names.temp] + rest⟩
    rw [hown]
    exact .single .temp

/-! ### Expressions -/

theorem ownNames_boolText (b : Bool) : ownNames [boolText b] = 0 := ownNames_other (by cases b <;> decide)

section Lower

variable {t : RenameTable}

/-- No name of the supply is in a fragment. -/
theorem Fragment.ownNames_lower {f : Fragment} (hp : AllPlain f.leaves) : ownNames (f.lower t).operands = 0 := by
  cases f with
  | atom negated a =>
    have ha : ownNames [a.lower t] = 0 := ownNames_other ((hp a List.mem_cons_self).unreserved t)
    cases negated with
    | false => exact ha
    | true =>
      show ownNames ["0", a.lower t] = 0
      rw [ownNames_cons, ha, ownNames_other (by decide), zero_add]
  | not x => exact ownNames_other ((hp (.name x) List.mem_cons_self).unreserved t)
  | zero => exact ownNames_other (by decide)
  | bool b => exact ownNames_boolText b

/-- The arguments of a call are passed, and nothing of them is left. -/
theorem Call.lower_linear {c : Call} (hp : AllPlain c.leaves) (g : Generator) (rest : Multiset String) :
    LinearAt (c.lower t) g rest 0 fun r => ownNames r.operands := by
  have hargs : ∀ (args : List Argument) (g : Generator), AllPlain (args.map (·.atom)) →
      LinearAt (args.forM fun a => Pass.tell (.param (a.atom.lower t))) g rest 0 fun _ => 0 := by
    intro args
    induction args with
    | nil => exact fun g _ => .pure rfl
    | cons a more ih =>
      intro g hp
      obtain ⟨ha, hmore⟩ := List.forall_mem_cons.1 hp
      have hnone : ownNames [a.atom.lower t] = 0 := ownNames_other (ha.unreserved t)
      have hparam : LinearAt (Pass.tell (.param (a.atom.lower t))) g rest (ownNames [a.atom.lower t]) fun _ => 0 :=
        .tell rfl fun _ h => by cases h
      rw [hnone] at hparam
      exact hparam.andThen (ih g hmore)
  exact (hargs c.args g hp).andThen (.pure rfl)

theorem Operand.lower_linear {o : Operand} (hp : AllPlain o.leaves) (g : Generator) (rest : Multiset String) :
    LinearAt (o.lower t) g rest 0 fun r => ownNames r.operands := by
  cases o with
  | call c => exact c.lower_linear hp g rest
  | fragment f =>
    exact .pure (f.ownNames_lower hp)

theorem Operand.lowerAtom_linear {o : Operand} (hp : AllPlain o.leaves) (g : Generator) (rest : Multiset String) :
    LinearAt (o.lowerAtom t) g rest 0 fun x => ownNames [x] :=
  (o.lower_linear hp g rest).andThen (atomOf_linear _ _ _)

theorem lowerMember_linear {x : Operator × Operand} (hp : AllPlain x.2.leaves) (g : Generator)
    (rest : Multiset String) : LinearAt (lowerMember t x) g rest 0 fun y => ownNames [y.2] :=
  (x.2.lowerAtom_linear hp g rest).andThen (.pure rfl)

/-- The members of a chain wait for the later ones. -/
theorem members_linear {xs : List (Operator × Operand)} (hp : AllPlain (xs.flatMap fun x => x.2.leaves))
    (g : Generator) (rest : Multiset String) :
    LinearAt (xs.mapM (lowerMember t)) g rest 0 fun ys => ownNames (ys.map (·.2)) := by
  induction xs generalizing g rest with
  | nil =>
    rw [List.mapM_nil]
    exact .pure rfl
  | cons x more ih =>
    rw [List.flatMap_cons] at hp
    rw [List.mapM_cons]
    let first := (lowerMember t x).run g
    have hmore := ih hp.right first.state (ownNames [first.value.2] + rest)
    have hrest : LinearAt (more.mapM (lowerMember t) >>= fun ys => pure (first.value :: ys)) first.state rest
        (0 + ownNames [first.value.2]) fun ys => ownNames (ys.map (·.2)) :=
      hmore.bind (.pure (by rw [List.map_cons, ownNames_cons, add_comm]))
    rw [zero_add] at hrest
    exact (lowerMember_linear hp.left g rest).andThen hrest

/-- The operators of a chain take its atoms one after another. -/
theorem foldAtoms_linear (left : String) (xs : List (Operator × String)) (g : Generator) (rest : Multiset String) :
    LinearAt (foldAtoms left xs) g rest (ownNames (left :: xs.map (·.2))) fun x => ownNames [x] := by
  induction xs generalizing left g with
  | nil => exact .pure rfl
  | cons x more ih =>
    have hsplit : ownNames (left :: (x :: more).map (·.2)) =
        ownNames [left, x.2] + ownNames (more.map (·.2)) := ownNames_append [left, x.2] (more.map Prod.snd)
    rw [hsplit]
    refine (atomOf_linear (.binary left x.1 x.2) g _).bind ?_
    rw [← ownNames_cons]
    exact ih _ _

theorem lowerLinks_linear (head : String) (xs : List (Operator × String)) (g : Generator) (rest : Multiset String) :
    LinearAt (lowerLinks head xs) g rest (ownNames (head :: xs.map (·.2))) fun r => ownNames r.operands := by
  unfold lowerLinks
  split
  · exact .pure rfl
  · exact (foldAtoms_linear head xs g rest).andThen (.pure rfl)

/-- **Expressions.** -/
theorem Expr.lower_linear {e : Expr} (hp : AllPlain e.leaves) (g : Generator) (rest : Multiset String) :
    LinearAt (e.lower t) g rest 0 fun r => ownNames r.operands := by
  rw [Expr.leaves_eq] at hp
  unfold Expr.lower
  split
  · rename_i only hchain
    rw [hchain] at hp
    exact only.lower_linear hp.left g rest
  · rename_i first more hne hchain
    rw [hchain] at hp
    let head := (first.lowerAtom t).run g
    have htail := members_linear (t := t) hp.right head.state (ownNames [head.value] + rest)
    have hrest : LinearAt (more.mapM (lowerMember t) >>= lowerLinks head.value) head.state rest
        (0 + ownNames [head.value]) fun r => ownNames r.operands := by
      refine htail.bind ?_
      rw [add_comm, ← ownNames_cons]
      exact lowerLinks_linear _ _ _ _
    rw [zero_add] at hrest
    exact (first.lowerAtom_linear hp.left g rest).andThen hrest

theorem Expr.lowerAtom_linear {e : Expr} (hp : AllPlain e.leaves) (g : Generator) (rest : Multiset String) :
    LinearAt (e.lowerAtom t) g rest 0 fun x => ownNames [x] :=
  (e.lower_linear hp g rest).andThen (atomOf_linear _ _ _)

/-! ### Conditions -/

/-- Only flags. -/
def OnlyFlags (xs : Multiset String) : Prop := ∀ x ∈ xs, ∃ k, x = flagName k

theorem OnlyFlags.add {xs ys : Multiset String} (hx : OnlyFlags xs) (hy : OnlyFlags ys) : OnlyFlags (xs + ys) := by
  intro x h
  rcases Multiset.mem_add.1 h with h | h
  · exact hx x h
  · exact hy x h

theorem ownNames_flag (k : Nat) : ownNames [flagName k] = {flagName k} := ownNames_own (isReservedName_flagName k)

theorem flagOf_linear (predicate : Rvalue) (g : Generator) {rest : Multiset String} (hf : OnlyFlags rest) :
    LinearAt (flagOf predicate) g rest (ownNames predicate.operands) fun x => ownNames [x] := by
  show Linear (g.stock _) [.assign (flagName g.names.flag) (.atom "false"),
    .ifz predicate (labelName g.names.label), .assign (flagName g.names.flag) (.atom "true"),
    .label (labelName g.names.label)] ⟨g.names.temp, g.names.flag + 1, ownNames [flagName g.names.flag] + rest⟩
  rw [ownNames_flag]
  exact .single (.atom hf)

theorem combineFlags_linear (first : String) (xs : List (Connective × String)) (g : Generator)
    (rest : Multiset String) :
    LinearAt (combineFlags first xs) g rest (ownNames (first :: xs.map (·.2))) fun x => ownNames [x] := by
  induction xs generalizing first g rest with
  | nil => exact .pure rfl
  | cons x more ih =>
    have hsplit : ownNames (first :: (x :: more).map (·.2)) =
        ownNames (x.2 :: more.map (·.2)) + ownNames [first] := by
      rw [List.map_cons, ownNames_cons, add_comm]
    rw [hsplit]
    refine (ih x.2 g _).bind ?_
    rw [← ownNames_cons]
    generalize ((combineFlags x.2 more).run g).value = recent
    generalize ((combineFlags x.2 more).run g).state = g'
    show Linear (g'.stock _) [.assign (flagName g'.names.flag) (.binary recent (.logic x.1) first)]
      ⟨g'.names.temp, g'.names.flag + 1, ownNames [flagName g'.names.flag] + rest⟩
    rw [ownNames_flag]
    exact .single .join

/-- The value of a pass is a chain of flags. -/
def AllFlags (c : Chain Connective String) : Prop := ∀ x ∈ c.flags, ∃ k, x = flagName k

theorem AllFlags.only {c : Chain Connective String} (h : AllFlags c) : OnlyFlags (ownNames c.flags) :=
  fun x hx => h x (mem_ownNames.1 hx).1

theorem AllFlags.flagOf (predicate : Rvalue) (g : Generator) : AllFlags (.single ((flagOf predicate).run g).value) := by
  intro x hx
  exact ⟨g.names.flag, List.mem_singleton.1 hx⟩

theorem Cond.lowerFlags_allFlags (c : Cond) (g : Generator) : AllFlags ((c.lowerFlags t).run g).value := by
  induction c generalizing g with
  | comparison op l r s => exact .flagOf _ _
  | equality op l r s => exact .flagOf _ _
  | neg c s ih => exact .flagOf _ _
  | paren c s ih => exact ih g
  | binary op l r s ihl ihr =>
    intro x hx
    have hlink : (((Cond.binary op l r s).lowerFlags t).run g).value.flags =
        ((l.lowerFlags t).run g).value.flags ++
          ((r.lowerFlags t).run ((l.lowerFlags t).run g).state).value.flags := Chain.flags_link _ _ op
    rw [hlink] at hx
    rcases List.mem_append.1 hx with hx | hx
    · exact ihl g x hx
    · exact ihr _ x hx
  | bool b s => exact .flagOf _ _

theorem flagOf_single_linear (predicate : Rvalue) (g : Generator) {rest : Multiset String} (hf : OnlyFlags rest) :
    LinearAt (do return Chain.single (← flagOf predicate)) g rest (ownNames predicate.operands)
      fun c => ownNames c.flags :=
  (flagOf_linear predicate g hf).andThen (.pure rfl)

/-- A flag is compared with a truth value. -/
theorem ownNames_compared (x : String) (b : Bool) : ownNames [x, boolText b] = ownNames [x] := by
  rw [ownNames_cons, ownNames_boolText, add_zero]

theorem lowerCompared_linear (op : Operator) {l r : Expr} (hp : AllPlain (l.leaves ++ r.leaves)) (g : Generator)
    {rest : Multiset String} (hf : OnlyFlags rest) :
    LinearAt (lowerCompared t op l r) g rest 0 fun c => ownNames c.flags := by
  let left := (l.lowerAtom t).run g
  let right := (r.lowerAtom t).run left.state
  have hright := Expr.lowerAtom_linear (t := t) hp.right left.state (ownNames [left.value] + rest)
  have hrest : LinearAt (do
      let b ← r.lowerAtom t
      return Chain.single (← flagOf (.binary left.value op b))) left.state rest (0 + ownNames [left.value])
      fun c => ownNames c.flags := by
    refine hright.bind ?_
    rw [add_comm, ← ownNames_cons]
    exact flagOf_single_linear (.binary left.value op right.value) right.state hf
  rw [zero_add] at hrest
  exact (Expr.lowerAtom_linear hp.left g rest).andThen hrest

/-- The flags of a condition wait for each other, and nothing else does. -/
theorem Cond.lowerFlags_linear {c : Cond} (hp : AllPlain c.leaves) (g : Generator) {rest : Multiset String}
    (hf : OnlyFlags rest) : LinearAt (c.lowerFlags t) g rest 0 fun c => ownNames c.flags := by
  induction c generalizing g rest with
  | comparison op l r s => exact lowerCompared_linear (.order op) hp g hf
  | equality op l r s => exact lowerCompared_linear (.same op) hp g hf
  | neg c s ih =>
    refine (ih hp g hf).andThen ((combineFlags_linear _ _ _ _).andThen ?_)
    rw [← ownNames_compared _ false]
    exact flagOf_single_linear _ _ hf
  | paren c s ih => exact ih hp g hf
  | binary op l r s ihl ihr =>
    let left := (l.lowerFlags t).run g
    have hflags : AllFlags left.value := l.lowerFlags_allFlags g
    have hright := ihr hp.right left.state (hflags.only.add hf)
    have hrest : LinearAt (r.lowerFlags t >>= fun b => pure (left.value.link op b)) left.state rest
        (0 + ownNames left.value.flags) fun c => ownNames c.flags :=
      hright.bind (.pure (by rw [Chain.flags_link, ownNames_append, add_comm]))
    rw [zero_add] at hrest
    exact (ihl hp.left g hf).andThen hrest
  | bool b s =>
    rw [← ownNames_boolText b]
    exact flagOf_single_linear (.atom (boolText b)) g hf

/-- **Conditions.** -/
theorem Cond.lower_linear {c : Cond} (hp : AllPlain c.leaves) (g : Generator) :
    LinearAt (c.lower t) g 0 0 fun r => ownNames r.operands := by
  have hnone : OnlyFlags 0 := fun x hx => absurd hx (Multiset.notMem_zero x)
  refine (c.lowerFlags_linear hp g hnone).andThen ((combineFlags_linear _ _ _ _).andThen (.pure ?_))
  exact ownNames_compared _ true

/-! ### Statements -/

/-- A value is computed and stored. -/
theorem Expr.lowerInto_linear {e : Expr} (hp : AllPlain e.leaves) {x : String} (hx : isReservedName x = false)
    (g : Generator) : LinearAt (do
      let v ← e.lower t
      Emit.assign x v) g 0 0 fun _ => 0 := by
  refine (e.lower_linear hp g 0).andThen (.tell (i := .assign x _) rfl fun y hy => ?_)
  rw [← Option.some.inj hy]
  exact hx

/-- A label, a goto or the like, with more code behind it. -/
theorem turnThen_linear {i : Instruction} {q : Emit Unit} (hi : i.isPlain = false) (hu : i.uses = []) {g : Generator}
    (hq : LinearAt q g 0 0 fun _ => 0) : LinearAt (Pass.tell i >>= fun _ => q) g 0 0 fun _ => 0 := by
  have hturn : LinearAt (Pass.tell i) g 0 (ownNames i.uses) fun _ => 0 := .turn hi
  rw [hu] at hturn
  exact hturn.andThen hq

/-- A condition is computed, and code that branches on it follows. -/
theorem Cond.lowerThen_linear {c : Cond} (hp : AllPlain c.leaves) {target : String} {q : Emit Unit} {g : Generator}
    (hq : ∀ g, LinearAt q g 0 0 fun _ => 0) : LinearAt (do
      let r ← c.lower t
      Pass.tell (.ifz r target)
      q) g 0 0 fun _ => 0 := by
  refine (c.lower_linear hp g).andThen ?_
  have hturn : LinearAt (Pass.tell (.ifz ((c.lower t).run g).value target)) ((c.lower t).run g).state 0
      (ownNames ((c.lower t).run g).value.operands) fun _ => 0 := .turn rfl
  exact hturn.andThen (hq _)

/-- **Statements.** -/
theorem Stmt.lower_linear :
    (∀ s : Stmt, AllPlain s.leaves → ∀ g, LinearAt (s.lower t) g 0 0 fun _ => 0) ∧
      ∀ ss, AllPlain (Stmt.leavesOfList ss) → ∀ g, LinearAt (Stmt.lowerAll t ss) g 0 0 fun _ => 0 := by
  refine Stmt.parts ?assign ?ite ?loop ?call ?block ?skip ?nil ?cons
  case assign =>
    intro x e a s hp g
    obtain ⟨hx, he⟩ := List.forall_mem_cons.1 hp
    rw [Stmt.lower]
    exact e.lowerInto_linear he (t.resolve_unreserved hx.2) g
  case ite =>
    intro c th el s iht ihe hp g
    obtain ⟨hpc, hpt, hpe⟩ := hp.ite
    rw [Stmt.lower, Block.lower, Block.lower]
    refine .silent rfl rfl rfl (Cond.lowerThen_linear hpc fun g₁ => (iht hpt g₁).andThen ?_)
    refine turnThen_linear rfl rfl (turnThen_linear rfl rfl ((ihe hpe _).andThen ?_))
    exact .turn rfl
  case loop =>
    intro c b s ih hp g
    obtain ⟨hpc, hpb⟩ := hp.loop
    rw [Stmt.lower, Block.lower]
    refine .silent rfl rfl rfl (turnThen_linear rfl rfl (Cond.lowerThen_linear hpc fun g₁ => ?_))
    exact (ih hpb g₁).andThen (turnThen_linear rfl rfl (.turn rfl))
  case call =>
    intro c s hp g
    rw [Stmt.lower]
    refine (c.lower_linear hp g 0).andThen ?_
    exact .tell rfl fun x hx => by cases hx
  case block =>
    intro b s ih hp g
    rw [Stmt.lower, Block.lower]
    exact ih hp.block g
  case skip =>
    intro s _ g
    rw [Stmt.lower]
    exact .pure rfl
  case nil =>
    intro _ g
    rw [Stmt.lowerAll]
    exact .pure rfl
  case cons =>
    intro s more ihs ihmore hp g
    rw [Stmt.lowerAll]
    exact (ihs hp.left g).andThen (ihmore hp.right _)

/-! ### Bodies -/

theorem Decl.lowerGlobal_linear {d : Decl} (hp : d.Plain) (hd : isReservedName d.name = false) (g : Generator) :
    LinearAt (d.lowerGlobal t) g 0 0 fun _ => 0 := by
  cases d with
  | var x type s => exact .pure rfl
  | const x type e s => exact e.lowerInto_linear hp.leaves hd g

theorem Decl.lowerLocal_linear {d : Decl} (hp : d.Plain) (g : Generator) :
    LinearAt (d.lowerLocal t) g 0 0 fun _ => 0 := by
  cases d with
  | var x type s => exact Linear.nil
  | const x type e s =>
    refine (e.lower_linear hp.leaves g 0).andThen (.silent rfl rfl rfl (.andThen (.tell (i := .assign _ _) rfl ?_)
      (.pure rfl)))
    intro y hy
    rw [← Option.some.inj hy]
    show isReservedName ((t.insert x).resolve x) = false
    rw [t.resolve_insert]
    exact isReservedName_localText x _

theorem fetchParams_linear (index : Nat) {ps : List Param} (hp : ∀ q ∈ ps, isReservedName (t.resolve q.name) = false)
    (g : Generator) : LinearAt (fetchParams t index ps) g 0 0 fun _ => 0 := by
  induction ps generalizing index g with
  | nil => exact .pure rfl
  | cons q more ih =>
    obtain ⟨hq, hmore⟩ := List.forall_mem_cons.1 hp
    have hfetch : LinearAt (Pass.tell (.getparam (t.resolve q.name) index)) g 0 0 fun _ => 0 :=
      .tell rfl fun y hy => Option.some.inj hy ▸ hq
    exact hfetch.andThen (ih _ hmore _)

theorem Decl.lowerGlobals_linear {ds : List Decl} (hp : ∀ d ∈ ds, d.Plain)
    (hd : ∀ d ∈ ds, isReservedName d.name = false) (g : Generator) :
    LinearAt (ds.forM (Decl.lowerGlobal t)) g 0 0 fun _ => 0 := by
  induction ds generalizing g with
  | nil => exact .pure rfl
  | cons d more ih =>
    obtain ⟨hfirst, hp⟩ := List.forall_mem_cons.1 hp
    obtain ⟨hname, hd⟩ := List.forall_mem_cons.1 hd
    exact (d.lowerGlobal_linear hfirst hname g).andThen (ih hp hd _)

theorem Decl.lowerLocals_linear {ds : List Decl} (hp : ∀ d ∈ ds, d.Plain) (g : Generator) :
    LinearAt (ds.foldlM Decl.lowerLocal t) g 0 0 fun _ => 0 := by
  induction ds generalizing t g with
  | nil => exact .pure rfl
  | cons d more ih =>
    obtain ⟨hfirst, hp⟩ := List.forall_mem_cons.1 hp
    rw [List.foldlM_cons]
    exact (d.lowerLocal_linear hfirst g).andThen (ih hp _)

theorem lowerReturn_linear {result : Option Expr} (hp : ∀ e, result = some e → AllPlain e.leaves) (g : Generator) :
    LinearAt (lowerReturn t result) g 0 0 fun _ => 0 := by
  cases result with
  | none => exact .turn (i := .ret none) rfl
  | some e =>
    have hvalue : LinearAt (e.lowerReturned t) g 0 0 fun r => ownNames r.operands := by
      refine (e.lower_linear (hp e rfl) g 0).andThen ?_
      split
      · rename_i name count hcall
        rw [hcall]
        exact (atomOf_linear (.call name count) _ 0).andThen (.pure rfl)
      · exact .pure rfl
    exact hvalue.andThen (.turn (i := .ret (some _)) rfl)

end Lower

/-- **Bodies.** -/
theorem Body.lower_linear {b : Body} (hp : b.Plain) (hc : ∀ d ∈ b.constants, isReservedName d.name = false)
    {finish : RenameTable → Emit Unit} (hf : ∀ t g, LinearAt (finish t) g 0 0 fun _ => 0) (g : Generator) :
    LinearAt (b.lower finish) g 0 0 fun _ => 0 := by
  let k := g.names.ordinal
  have hstart : LinearAt b.lowerStart g 0 0 fun _ => 0 := by
    refine .silent rfl rfl rfl ((Decl.lowerGlobals_linear hp.constants hc g).andThen ?_)
    obtain ⟨hvalue, hnames, hnothing⟩ := Param.run_registers b.params (.empty k)
      ((b.constants.forM (Decl.lowerGlobal (.empty k))).run g).state
    refine .silent hnothing (congrArg NameSupply.temp hnames) (congrArg NameSupply.flag hnames) ?_
    have hparams : ∀ q ∈ b.params, isReservedName ((b.paramTable k).resolve q.name) = false := by
      intro q hq
      rw [b.resolve_param k hq]
      exact isReservedName_localText _ _
    refine (fetchParams_linear 1 (hvalue.symm ▸ hparams) _).andThen ?_
    exact Decl.lowerLocals_linear hp.decls _
  have hblock (t : RenameTable) (g : Generator) : LinearAt (b.block.lower t) g 0 0 fun _ => 0 := by
    rw [Block.lower]
    exact Stmt.lower_linear.2 _ hp.block g
  exact hstart.andThen ((hblock _ _).andThen (hf _ _))

theorem Func.lower_linear {f : Func} (hp : f.asBody.Plain) (g : Generator) :
    LinearAt f.lower g 0 0 fun _ => 0 := by
  rw [f.lower_eq]
  refine turnThen_linear rfl rfl ((f.asBody.lower_linear hp (fun d hd => absurd hd List.not_mem_nil)
    (fun t g => lowerReturn_linear hp.result g) g).andThen ?_)
  exact Linear.nil

/-- Functions one behind the other. -/
theorem Func.codeOf_linear {fs : List Func} (hp : ∀ f ∈ fs, f.asBody.Plain) (g : Generator) :
    Linear (g.stock 0) (Func.codeOf fs g) ((g.behind fs).stock 0) := by
  induction fs generalizing g with
  | nil => exact .nil
  | cons f more ih =>
    obtain ⟨hf, hmore⟩ := List.forall_mem_cons.1 hp
    rw [Func.codeOf_cons, Generator.behind_cons]
    have hfirst := Func.lower_linear hf g
    unfold Emit.LinearAt at hfirst
    rw [add_zero] at hfirst
    exact hfirst.append (ih hmore _)

namespace Program

variable {p : Program}

/-- The names that the code of a well-formed program takes are those up to the supply that it leaves. -/
theorem WellFormed.linear_taken (hw : p.WellFormed) (hs : p.Spelled) :
    Linear ⟨1, 1, 0⟩ p.code ((p.lower.run .first).state.stock 0) := by
  have hfuncs : ∀ f ∈ p.funcs, f.asBody.Plain := by
    intro f hf
    obtain ⟨i, hi⟩ := List.getElem?_of_mem hf
    exact bodies_plain hs hw (bodies_func hi)
  let g := Generator.first.behind p.funcs
  have hconstants : ∀ d ∈ p.decls, isReservedName d.name = false :=
    fun d hd => hw.names.unreserved _ (List.mem_append_left _ (List.mem_map_of_mem hd))
  have hmain : LinearAt p.lowerMain g 0 0 fun _ => 0 := by
    rw [p.lowerMain_eq]
    refine turnThen_linear rfl rfl ?_
    exact p.mainBody.lower_linear (bodies_plain hs hw p.bodies_length) hconstants
      (fun t g => .tell rfl fun x hx => by cases hx) g
  unfold Emit.LinearAt at hmain
  rw [add_zero] at hmain
  exact (Func.codeOf_linear hfuncs .first).append hmain

/-- **Programs.**  The code of a well-formed program is linear, and no name waits behind it. -/
theorem WellFormed.linear_code (hw : p.WellFormed) (hs : p.Spelled) :
    ∃ n k, Linear ⟨1, 1, 0⟩ p.code ⟨n, k, 0⟩ :=
  ⟨_, _, hw.linear_taken hs⟩

end Program

end ThreeAddress
