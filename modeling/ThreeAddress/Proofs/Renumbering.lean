import ThreeAddress.Proofs.LinearBodies

/-!
# Lowering from other numbers

A pass that starts with other counters does the same with other numbers: what it yields and what it emits differ in
the numbers of labels, temporaries, flags and locals only, each kind moved by its own distance, and so do the
counters that it leaves.

* `Shift` — a distance for each kind of number;
* `renumberName`, `Instruction.renumber` — names and code with their numbers moved;
* `Emit.Renumbers` — what a pass does is what another does with numbers moved, and its laws;
* `Expr.lower_renumbers`, `Cond.lower_renumbers`, `Stmt.lower_renumbers`, `Body.lower_renumbers` — the parts;
* `Program.WellFormed.lower_renumbers` — programs.
-/

namespace ThreeAddress

open NameSupply (labelName tempName flagName)

/-! ### Moving numbers -/

/-- How far the numbers of each kind are moved. -/
structure Shift where
  label : Nat
  temp : Nat
  flag : Nat
  ordinal : Nat
deriving DecidableEq

/-- The number that some digits stand for. -/
def numberOf (digits : List Char) : Nat := Nat.ofDigitChars 10 digits 0

/-- A name with its number moved.  A reserved name has it behind its letter, and a local has its ordinal behind the
dot; any other name has none. -/
def renumberName (k : Shift) (x : String) : String :=
  if isReservedName x then
    match x.toList with
    | 'L' :: digits => labelName (numberOf digits + k.label)
    | 't' :: digits => tempName (numberOf digits + k.temp)
    | 'c' :: digits => flagName (numberOf digits + k.flag)
    | _ => x
  else
    match x.toList.span (· != '.') with
    | (name, '.' :: digits) => localText (String.ofList name) (numberOf digits + k.ordinal)
    | _ => x

/-- A right-hand side with its numbers moved. -/
def Rvalue.renumber (k : Shift) : Rvalue → Rvalue
  | .atom text => .atom (renumberName k text)
  | .binary left op right => .binary (renumberName k left) op (renumberName k right)
  | .call name count => .call name count
  | .not operand => .not (renumberName k operand)

/-- An instruction with its numbers moved. -/
def Instruction.renumber (k : Shift) : Instruction → Instruction
  | .label name => .label (renumberName k name)
  | .assign dest value => .assign (renumberName k dest) (value.renumber k)
  | .ifz cond target => .ifz (cond.renumber k) (renumberName k target)
  | .goto target => .goto (renumberName k target)
  | .param value => .param (renumberName k value)
  | .call name count => .call name count
  | .getparam dest index => .getparam (renumberName k dest) index
  | .ret value => .ret (value.map (Rvalue.renumber k))

/-- Counters that have gone further. -/
def NameSupply.shift (n : NameSupply) (k : Shift) : NameSupply :=
  ⟨n.label + k.label, n.temp + k.temp, n.flag + k.flag, n.ordinal + k.ordinal⟩

/-- The table of a later body. -/
def RenameTable.shift (t : RenameTable) (k : Shift) : RenameTable := { t with ordinal := t.ordinal + k.ordinal }

section Names

variable (k : Shift)

theorem numberOf_toString (n : Nat) : numberOf (toString n).toList = n := by
  rw [numberOf, toList_toString, Nat.ofDigitChars_ten_toDigits]

theorem renumberName_labelName (n : Nat) : renumberName k (labelName n) = labelName (n + k.label) := by
  rw [renumberName, if_pos (isReservedName_labelName n), NameSupply.labelName_toList]
  show labelName (numberOf _ + k.label) = _
  rw [numberOf_toString]

theorem renumberName_tempName (n : Nat) : renumberName k (tempName n) = tempName (n + k.temp) := by
  rw [renumberName, if_pos (isReservedName_tempName n), NameSupply.tempName_toList]
  show tempName (numberOf _ + k.temp) = _
  rw [numberOf_toString]

theorem renumberName_flagName (n : Nat) : renumberName k (flagName n) = flagName (n + k.flag) := by
  rw [renumberName, if_pos (isReservedName_flagName n), NameSupply.flagName_toList]
  show flagName (numberOf _ + k.flag) = _
  rw [numberOf_toString]

/-- What stands before the first dot. -/
theorem span_dot {xs : List Char} (hx : '.' ∉ xs) (rest : List Char) :
    (xs ++ rest).span (· != '.') = (xs ++ rest.takeWhile (· != '.'), rest.dropWhile (· != '.')) := by
  have hxs : ∀ c ∈ xs, (c != '.') = true := by
    intro c hc
    rw [bne_iff_ne]
    rintro rfl
    exact hx hc
  rw [List.span_eq_takeWhile_dropWhile, List.takeWhile_append_of_pos hxs, List.dropWhile_append_of_pos hxs]

theorem renumberName_localText {x : String} (hx : '.' ∉ x.toList) (n : Nat) :
    renumberName k (localText x n) = localText x (n + k.ordinal) := by
  have hreserved : ¬isReservedName (localText x n) = true := by
    rw [isReservedName_localText]
    exact Bool.false_ne_true
  have hspan : (localText x n).toList.span (· != '.') = (x.toList ++ [], '.' :: (toString n).toList) := by
    rw [localText_toList, span_dot hx]
    rfl
  rw [renumberName, if_neg hreserved, hspan, List.append_nil]
  show localText (String.ofList x.toList) (numberOf _ + k.ordinal) = _
  rw [numberOf_toString, String.ofList_toList]

/-- A name without a number stays. -/
theorem renumberName_plain {x : String} (hr : isReservedName x = false) (hx : '.' ∉ x.toList) :
    renumberName k x = x := by
  have hspan := span_dot hx []
  rw [List.append_nil] at hspan
  rw [renumberName, hr, hspan]
  rfl

theorem renumberName_numeral {x : String} (h : isNumeral x = true) : renumberName k x = x := by
  refine renumberName_plain k (isReservedName_of_isNumeral h) fun hdot => ?_
  rw [isNumeral, Bool.and_eq_true, List.all_eq_true] at h
  exact absurd (h.2 _ hdot) (by decide)

theorem renumberName_boolText (b : Bool) : renumberName k (boolText b) = boolText b := by
  cases b <;> exact renumberName_plain k (by decide) (by decide)

theorem RenameTable.resolve_shift (t : RenameTable) {x : String} (hx : isIdentifier x = true)
    (hr : isReservedName x = false) : (t.shift k).resolve x = renumberName k (t.resolve x) := by
  have hdot := dot_not_mem_of_isIdentifier hx
  have hsame : (t.shift k).contains x = t.contains x := rfl
  unfold RenameTable.resolve
  rw [hsame]
  by_cases h : t.contains x = true
  · rw [if_pos h, if_pos h, renumberName_localText k hdot]
    rfl
  · rw [if_neg h, if_neg h, renumberName_plain k hr hdot]

theorem RenameTable.insert_shift (t : RenameTable) (x : String) : (t.shift k).insert x = (t.insert x).shift k := by
  have hsame : (t.shift k).contains x = t.contains x := rfl
  unfold RenameTable.insert
  rw [hsame]
  by_cases h : t.contains x = true
  · rw [if_pos h, if_pos h]
  · rw [if_neg h, if_neg h]
    rfl

theorem Atom.Plain.lower_shift {a : Atom} (h : a.Plain) (t : RenameTable) :
    a.lower (t.shift k) = renumberName k (a.lower t) := by
  cases a with
  | name x => exact t.resolve_shift k h.1 h.2
  | number digits => exact (renumberName_numeral k h).symm

end Names

/-! ### Passes -/

/-- What a pass comes to is what another comes to, with numbers moved. -/
structure Passed.Renumbered {α β : Type} (k : Shift) (f : α → β) (r : Passed Generator Instruction α)
    (r' : Passed Generator Instruction β) : Prop where
  value : r'.value = f r.value
  record : r'.record = r.record.map (Instruction.renumber k)
  names : r'.state.names = r.state.names.shift k

/-- With counters that have gone further, the second pass does what the first does, with numbers moved. -/
def Emit.Renumbers {α β : Type} (k : Shift) (f : α → β) (p : Emit α) (p' : Emit β) : Prop :=
  ∀ g g', g'.names = g.names.shift k → Passed.Renumbered k f (p.run g) (p'.run g')

namespace Emit.Renumbers

variable {α β γ δ : Type} {k : Shift} {f : α → β} {h : γ → δ}

theorem pure {a : α} {b : β} (hab : b = f a) : Emit.Renumbers k f (Pure.pure a) (Pure.pure b) :=
  fun _ _ hg => ⟨hab, rfl, hg⟩

theorem bind {p : Emit α} {p' : Emit β} {q : α → Emit γ} {q' : β → Emit δ} (hp : Emit.Renumbers k f p p')
    (hq : ∀ a, Emit.Renumbers k h (q a) (q' (f a))) : Emit.Renumbers k h (p >>= q) (p' >>= q') := by
  intro g g' hg
  have h₁ := hp g g' hg
  have h₂ := hq (p.run g).value (p.run g).state (p'.run g').state h₁.names
  rw [← h₁.value] at h₂
  refine ⟨h₂.value, ?_, h₂.names⟩
  rw [Pass.run_bind, Pass.run_bind, List.map_append, ← h₁.record, ← h₂.record]

theorem tell {i j : Instruction} (hij : j = i.renumber k) : Emit.Renumbers k id (Pass.tell i) (Pass.tell j) := by
  intro g g' hg
  refine ⟨rfl, ?_, hg⟩
  rw [Pass.run_tell, Pass.run_tell, hij]
  rfl

theorem takeTemp : Emit.Renumbers k (renumberName k) (Emit.take NameSupply.takeTemp)
    (Emit.take NameSupply.takeTemp) := by
  intro g g' hg
  rw [Emit.run_take, Emit.run_take, hg]
  refine ⟨(renumberName_tempName k _).symm, rfl, ?_⟩
  simp [NameSupply.takeTemp, NameSupply.shift, Nat.add_right_comm]

theorem takeFlag : Emit.Renumbers k (renumberName k) (Emit.take NameSupply.takeFlag)
    (Emit.take NameSupply.takeFlag) := by
  intro g g' hg
  rw [Emit.run_take, Emit.run_take, hg]
  refine ⟨(renumberName_flagName k _).symm, rfl, ?_⟩
  simp [NameSupply.takeFlag, NameSupply.shift, Nat.add_right_comm]

theorem takeLabel : Emit.Renumbers k (renumberName k) (Emit.take NameSupply.takeLabel)
    (Emit.take NameSupply.takeLabel) := by
  intro g g' hg
  rw [Emit.run_take, Emit.run_take, hg]
  refine ⟨(renumberName_labelName k _).symm, rfl, ?_⟩
  simp [NameSupply.takeLabel, NameSupply.shift, Nat.add_right_comm]

theorem takeLabels : Emit.Renumbers k (Prod.map (renumberName k) (renumberName k))
    (Emit.take NameSupply.takeLabels) (Emit.take NameSupply.takeLabels) := by
  intro g g' hg
  rw [Emit.run_take, Emit.run_take, hg]
  refine ⟨?_, rfl, ?_⟩
  · simp [NameSupply.takeLabels, NameSupply.shift, renumberName_labelName, Nat.add_right_comm]
  · simp [NameSupply.takeLabels, NameSupply.shift, Nat.add_right_comm]

theorem forM {as : List γ} {q q' : γ → Emit Unit} (hq : ∀ a ∈ as, Emit.Renumbers k id (q a) (q' a)) :
    Emit.Renumbers k id (as.forM q) (as.forM q') := by
  induction as with
  | nil => exact pure rfl
  | cons a more ih =>
    obtain ⟨ha, hmore⟩ := List.forall_mem_cons.1 hq
    exact ha.bind fun _ => ih hmore

theorem mapM {as : List γ} {q : γ → Emit α} {q' : γ → Emit β} (hq : ∀ a ∈ as, Emit.Renumbers k f (q a) (q' a)) :
    Emit.Renumbers k (List.map f) (as.mapM q) (as.mapM q') := by
  induction as with
  | nil =>
    rw [List.mapM_nil, List.mapM_nil]
    exact pure rfl
  | cons a more ih =>
    obtain ⟨ha, hmore⟩ := List.forall_mem_cons.1 hq
    rw [List.mapM_cons, List.mapM_cons]
    exact ha.bind fun b => (ih hmore).bind fun bs => pure rfl

theorem atomOf {r r' : Rvalue} (hr : r' = r.renumber k) :
    Emit.Renumbers k (renumberName k) (Emit.atomOf r) (Emit.atomOf r') := by
  subst hr
  have hstored (v : Rvalue) : Emit.Renumbers k (renumberName k)
      (do let temp ← Emit.take NameSupply.takeTemp; Emit.assign temp v; return temp)
      (do let temp ← Emit.take NameSupply.takeTemp; Emit.assign temp (v.renumber k); return temp) :=
    takeTemp.bind fun temp => (tell rfl).bind fun _ => pure rfl
  cases r with
  | atom text => exact pure rfl
  | binary l op r => exact hstored (.binary l op r)
  | call name count => exact hstored (.call name count)
  | not x => exact hstored (.not x)

end Emit.Renumbers

open Emit (Renumbers)

/-! ### Expressions and conditions -/

section Parts

variable (k : Shift) (t : RenameTable)

theorem Fragment.lower_shift {f : Fragment} (hp : AllPlain f.leaves) :
    f.lower (t.shift k) = (f.lower t).renumber k := by
  cases f with
  | atom negated a =>
    have ha := (hp a List.mem_cons_self).lower_shift k t
    cases negated with
    | false =>
      rw [Fragment.lower, Fragment.lower, ha]
      rfl
    | true =>
      have hzero : renumberName k "0" = "0" := renumberName_numeral k (by decide)
      rw [Fragment.lower, Fragment.lower, ha, Rvalue.renumber, hzero]
  | not x =>
    have hx := hp (.name x) List.mem_cons_self
    rw [Fragment.lower, Fragment.lower, t.resolve_shift k hx.1 hx.2]
    rfl
  | zero => exact congrArg Rvalue.atom (renumberName_numeral k (by decide)).symm
  | bool b => exact congrArg Rvalue.atom (renumberName_boolText k b).symm

theorem Call.lower_renumbers {c : Call} (hp : AllPlain c.leaves) :
    Renumbers k (Rvalue.renumber k) (c.lower t) (c.lower (t.shift k)) := by
  refine (Renumbers.forM fun a ha => .tell ?_).bind fun _ => .pure rfl
  exact congrArg Instruction.param ((hp a.atom (List.mem_map_of_mem ha)).lower_shift k t)

theorem Operand.lower_renumbers {o : Operand} (hp : AllPlain o.leaves) :
    Renumbers k (Rvalue.renumber k) (o.lower t) (o.lower (t.shift k)) := by
  cases o with
  | call c => exact c.lower_renumbers k t hp
  | fragment f => exact .pure (f.lower_shift k t hp)

theorem Operand.lowerAtom_renumbers {o : Operand} (hp : AllPlain o.leaves) :
    Renumbers k (renumberName k) (o.lowerAtom t) (o.lowerAtom (t.shift k)) :=
  (o.lower_renumbers k t hp).bind fun _ => .atomOf rfl

/-- The links of a chain with numbers moved. -/
def renumberLinks (links : List (Operator × String)) : List (Operator × String) :=
  links.map fun x => (x.1, renumberName k x.2)

theorem foldAtoms_renumbers (left : String) (links : List (Operator × String)) :
    Renumbers k (renumberName k) (foldAtoms left links)
      (foldAtoms (renumberName k left) (renumberLinks k links)) := by
  induction links generalizing left with
  | nil => exact .pure rfl
  | cons x more ih => exact (Renumbers.atomOf rfl).bind fun result => ih result

theorem lowerLinks_renumbers (head : String) (links : List (Operator × String)) :
    Renumbers k (Rvalue.renumber k) (lowerLinks head links)
      (lowerLinks (renumberName k head) (renumberLinks k links)) := by
  cases links with
  | nil => exact (foldAtoms_renumbers k head []).bind fun _ => .pure rfl
  | cons x more =>
    cases more with
    | nil => exact .pure rfl
    | cons y more => exact (foldAtoms_renumbers k head (x :: y :: more)).bind fun _ => .pure rfl

/-- **Expressions.** -/
theorem Expr.lower_renumbers {e : Expr} (hp : AllPlain e.leaves) :
    Renumbers k (Rvalue.renumber k) (e.lower t) (e.lower (t.shift k)) := by
  rw [Expr.leaves_eq] at hp
  unfold Expr.lower
  generalize e.chain = c at hp
  obtain ⟨first, more⟩ := c
  cases more with
  | nil => exact first.lower_renumbers k t hp.left
  | cons x more =>
    have hmembers : Renumbers k (renumberLinks k) ((x :: more).mapM (lowerMember t))
        ((x :: more).mapM (lowerMember (t.shift k))) := by
      refine .mapM fun y hy => ?_
      have hleaves : AllPlain y.2.leaves := fun a ha => hp.right a (List.mem_flatMap.2 ⟨y, hy, ha⟩)
      exact (y.2.lowerAtom_renumbers k t hleaves).bind fun _ => .pure rfl
    exact (first.lowerAtom_renumbers k t hp.left).bind fun head => hmembers.bind fun links =>
      lowerLinks_renumbers k head links

theorem Expr.lowerAtom_renumbers {e : Expr} (hp : AllPlain e.leaves) :
    Renumbers k (renumberName k) (e.lowerAtom t) (e.lowerAtom (t.shift k)) :=
  (e.lower_renumbers k t hp).bind fun _ => .atomOf rfl

theorem flagOf_renumbers {r r' : Rvalue} (hr : r' = r.renumber k) :
    Renumbers k (renumberName k) (flagOf r) (flagOf r') := by
  subst hr
  have hstore (b : Bool) (flag : String) : Renumbers k id (Emit.assign flag (.atom (boolText b)))
      (Emit.assign (renumberName k flag) (.atom (boolText b))) := by
    refine .tell ?_
    rw [Instruction.renumber, Rvalue.renumber, renumberName_boolText]
  refine Renumbers.takeFlag.bind fun flag => Renumbers.takeLabel.bind fun skip => (hstore false flag).bind fun _ => ?_
  refine (Renumbers.tell rfl).bind fun _ => (hstore true flag).bind fun _ => ?_
  exact (Renumbers.tell rfl).bind fun _ => .pure rfl

/-- The flags of a condition with numbers moved. -/
def Chain.renumber (c : Chain Connective String) : Chain Connective String :=
  ⟨renumberName k c.head, c.tail.map fun x => (x.1, renumberName k x.2)⟩

theorem Chain.renumber_link (l r : Chain Connective String) (op : Connective) :
    (l.link op r).renumber k = (l.renumber k).link op (r.renumber k) := by
  simp [Chain.link, Chain.renumber]

theorem combineFlags_renumbers (first : String) (more : List (Connective × String)) :
    Renumbers k (renumberName k) (combineFlags first more)
      (combineFlags (renumberName k first) (more.map fun x => (x.1, renumberName k x.2))) := by
  induction more generalizing first with
  | nil => exact .pure rfl
  | cons x more ih =>
    exact (ih x.2).bind fun recent => Renumbers.takeFlag.bind fun flag => (Renumbers.tell rfl).bind fun _ => .pure rfl

theorem Chain.combine_renumbers (c : Chain Connective String) :
    Renumbers k (renumberName k) c.combine (c.renumber k).combine := combineFlags_renumbers k c.head c.tail

theorem flagOf_single_renumbers {r r' : Rvalue} (hr : r' = r.renumber k) : Renumbers k (Chain.renumber k)
    (do return Chain.single (← flagOf r)) (do return Chain.single (← flagOf r')) :=
  (flagOf_renumbers k hr).bind fun _ => .pure rfl

/-- **Conditions.** -/
theorem Cond.lowerFlags_renumbers {c : Cond} (hp : AllPlain c.leaves) :
    Renumbers k (Chain.renumber k) (c.lowerFlags t) (c.lowerFlags (t.shift k)) := by
  have hliteral (b : Bool) (op : Operator) (x : String) :
      (Rvalue.binary (renumberName k x) op (boolText b)) = (Rvalue.binary x op (boolText b)).renumber k := by
    rw [Rvalue.renumber, renumberName_boolText]
  induction c with
  | comparison op l r s =>
    exact (l.lowerAtom_renumbers k t hp.left).bind fun _ => (r.lowerAtom_renumbers k t hp.right).bind fun _ =>
      flagOf_single_renumbers k rfl
  | equality op l r s =>
    exact (l.lowerAtom_renumbers k t hp.left).bind fun _ => (r.lowerAtom_renumbers k t hp.right).bind fun _ =>
      flagOf_single_renumbers k rfl
  | neg c s ih =>
    exact (ih hp).bind fun flags => (flags.combine_renumbers k).bind fun flag =>
      flagOf_single_renumbers k (hliteral false _ flag)
  | paren c s ih => exact ih hp
  | binary op l r s ihl ihr =>
    exact (ihl hp.left).bind fun a => (ihr hp.right).bind fun b => .pure (a.renumber_link k b op).symm
  | bool b s => exact flagOf_single_renumbers k (congrArg Rvalue.atom (renumberName_boolText k b).symm)

theorem Cond.lower_renumbers {c : Cond} (hp : AllPlain c.leaves) :
    Renumbers k (Rvalue.renumber k) (c.lower t) (c.lower (t.shift k)) := by
  have htrue : renumberName k "true" = "true" := renumberName_boolText k true
  refine (c.lowerFlags_renumbers k t hp).bind fun flags => (flags.combine_renumbers k).bind fun flag => .pure ?_
  rw [Rvalue.renumber, htrue]

/-! ### Statements -/

theorem Stmt.lower_renumbers :
    (∀ s : Stmt, AllPlain s.leaves → Renumbers k id (s.lower t) (s.lower (t.shift k))) ∧
      ∀ ss, AllPlain (Stmt.leavesOfList ss) → Renumbers k id (Stmt.lowerAll t ss) (Stmt.lowerAll (t.shift k) ss) := by
  refine Stmt.parts ?_ ?_ ?_ ?_ ?_ ?_ ?_ ?_
  · intro x e a s hp
    obtain ⟨hx, he⟩ := List.forall_mem_cons.1 hp
    rw [Stmt.lower, Stmt.lower]
    refine (e.lower_renumbers k t he).bind fun v => .tell ?_
    rw [t.resolve_shift k hx.1 hx.2]
    rfl
  · intro c th el s iht ihe hp
    obtain ⟨hc, hth, hel⟩ := hp.ite
    rw [Stmt.lower, Stmt.lower, Block.lower, Block.lower, Block.lower, Block.lower]
    refine Renumbers.takeLabels.bind fun labels => ?_
    obtain ⟨elseLabel, endLabel⟩ := labels
    refine (c.lower_renumbers k t hc).bind fun predicate => (Renumbers.tell rfl).bind fun _ => ?_
    refine (iht hth).bind fun _ => (Renumbers.tell rfl).bind fun _ => (Renumbers.tell rfl).bind fun _ => ?_
    exact (ihe hel).bind fun _ => .tell rfl
  · intro c b s ih hp
    obtain ⟨hc, hb⟩ := hp.loop
    rw [Stmt.lower, Stmt.lower, Block.lower, Block.lower]
    refine Renumbers.takeLabels.bind fun labels => ?_
    obtain ⟨startLabel, endLabel⟩ := labels
    refine (Renumbers.tell rfl).bind fun _ => (c.lower_renumbers k t hc).bind fun predicate => ?_
    refine (Renumbers.tell rfl).bind fun _ => (ih hb).bind fun _ => ?_
    exact (Renumbers.tell rfl).bind fun _ => .tell rfl
  · intro c s hp
    rw [Stmt.lower, Stmt.lower]
    exact (c.lower_renumbers k t hp).bind fun _ => .tell rfl
  · intro b s ih hp
    rw [Stmt.lower, Stmt.lower, Block.lower, Block.lower]
    exact ih hp.block
  · intro s _
    rw [Stmt.lower, Stmt.lower]
    exact .pure rfl
  · intro _
    rw [Stmt.lowerAll, Stmt.lowerAll]
    exact .pure rfl
  · intro s more ihs ihmore hp
    rw [Stmt.leavesOfList] at hp
    rw [Stmt.lowerAll, Stmt.lowerAll]
    exact (ihs hp.left).bind fun _ => ihmore hp.right

/-! ### Bodies -/

theorem Decl.lowerGlobal_renumbers {d : Decl} (hp : d.Plain) (hr : isReservedName d.name = false) :
    Renumbers k id (d.lowerGlobal t) (d.lowerGlobal (t.shift k)) := by
  cases d with
  | var x type s => exact .pure rfl
  | const x type e s =>
    have hx : renumberName k x = x := renumberName_plain k hr (dot_not_mem_of_isIdentifier hp.name)
    refine (e.lower_renumbers k t hp.leaves).bind fun v => .tell ?_
    rw [Instruction.renumber, hx]

/-- A name is made local before the rest goes on. -/
theorem RenameTable.register_renumbers {α β : Type} {f : α → β} (x : String) {q : RenameTable → Emit α}
    {q' : RenameTable → Emit β} (hq : Renumbers k f (q (t.insert x)) (q' ((t.insert x).shift k))) :
    Renumbers k f (t.register x >>= q) ((t.shift k).register x >>= q') := by
  intro g g' hg
  have hrest := hq { g with locals := g.locals ++ [t.localName x] }
    { g' with locals := g'.locals ++ [(t.shift k).localName x] } hg
  rw [← t.insert_shift] at hrest
  exact hrest

theorem Decl.lowerLocal_renumbers {d : Decl} (hp : d.Plain) :
    Renumbers k (RenameTable.shift · k) (d.lowerLocal t) (d.lowerLocal (t.shift k)) := by
  cases d with
  | var x type s => exact t.register_renumbers k x (.pure rfl)
  | const x type e s =>
    refine (e.lower_renumbers k t hp.leaves).bind fun v => t.register_renumbers k x ?_
    have hx : ((t.insert x).shift k).resolve x = renumberName k ((t.insert x).resolve x) := by
      rw [← t.insert_shift, RenameTable.resolve_insert, RenameTable.resolve_insert]
      exact (renumberName_localText k (dot_not_mem_of_isIdentifier hp.name) t.ordinal).symm
    exact (Renumbers.tell (by rw [hx]; rfl)).bind fun _ => .pure rfl

theorem Decl.lowerLocals_renumbers {ds : List Decl} (hp : ∀ d ∈ ds, d.Plain) :
    Renumbers k (RenameTable.shift · k) (ds.foldlM Decl.lowerLocal t) (ds.foldlM Decl.lowerLocal (t.shift k)) := by
  induction ds generalizing t with
  | nil => exact .pure rfl
  | cons d more ih =>
    obtain ⟨hd, hmore⟩ := List.forall_mem_cons.1 hp
    exact (d.lowerLocal_renumbers k t hd).bind fun t' => ih t' hmore

theorem Param.registerAll_renumbers (ps : List Param) : Renumbers k (RenameTable.shift · k)
    (ps.foldlM (fun t p => t.register p.name) t) (ps.foldlM (fun t p => t.register p.name) (t.shift k)) := by
  induction ps generalizing t with
  | nil => exact .pure rfl
  | cons p more ih =>
    rw [List.foldlM_cons, List.foldlM_cons]
    exact t.register_renumbers k p.name (ih (t.insert p.name))

/-- A parameter whose name is plain. -/
def Param.Plain (p : Param) : Prop := isIdentifier p.name = true ∧ isReservedName p.name = false

theorem fetchParams_renumbers {ps : List Param} (hp : ∀ q ∈ ps, q.Plain) (index : Nat) :
    Renumbers k id (fetchParams t index ps) (fetchParams (t.shift k) index ps) := by
  induction ps generalizing index with
  | nil => exact .pure rfl
  | cons p more ih =>
    obtain ⟨hfirst, hmore⟩ := List.forall_mem_cons.1 hp
    refine (Renumbers.tell ?_).bind fun _ => ih hmore (index + 1)
    rw [t.resolve_shift k hfirst.1 hfirst.2]
    rfl

theorem lowerReturn_renumbers {result : Option Expr} (hp : ∀ e, result = some e → AllPlain e.leaves) :
    Renumbers k id (lowerReturn t result) (lowerReturn (t.shift k) result) := by
  cases result with
  | none => exact .tell rfl
  | some e =>
    refine Renumbers.bind (f := Rvalue.renumber k) ((e.lower_renumbers k t (hp e rfl)).bind fun v => ?_)
      fun v => .tell rfl
    cases v with
    | call name count => exact (Renumbers.atomOf rfl).bind fun _ => .pure rfl
    | atom text => exact .pure rfl
    | binary l op r => exact .pure rfl
    | not x => exact .pure rfl

/-- The table of a body has the ordinal that the counter shows. -/
theorem openTable_renumbers : Renumbers k (RenameTable.shift · k) openTable openTable := by
  intro g g' hg
  refine ⟨?_, rfl, hg⟩
  show RenameTable.empty g'.names.ordinal = (RenameTable.empty g.names.ordinal).shift k
  rw [hg]
  rfl

end Parts

/-- **Bodies.** -/
theorem Body.lower_renumbers (k : Shift) {b : Body} (hp : b.Plain) (hparams : ∀ q ∈ b.params, q.Plain)
    (hconstants : ∀ d ∈ b.constants, isReservedName d.name = false) {last : RenameTable → Emit Unit}
    (hlast : ∀ t, Renumbers k id (last t) (last (t.shift k))) : Renumbers k id (b.lower last) (b.lower last) := by
  have hstart : Renumbers k (RenameTable.shift · k) b.lowerStart b.lowerStart := by
    refine (openTable_renumbers k).bind fun outer => ?_
    refine (Renumbers.forM fun d hd => ?_).bind fun _ => ?_
    · exact d.lowerGlobal_renumbers k outer (hp.constants d hd) (hconstants d hd)
    · exact (Param.registerAll_renumbers k outer b.params).bind fun t =>
        (fetchParams_renumbers k t hparams 1).bind fun _ => Decl.lowerLocals_renumbers k t hp.decls
  refine hstart.bind fun t => Renumbers.bind (f := id) ?_ fun _ => hlast t
  rw [Block.lower, Block.lower]
  exact (Stmt.lower_renumbers k t).2 _ hp.block

/-! ### Programs -/

theorem Func.lower_renumbers (k : Shift) {f : Func} (hp : f.asBody.Plain) (hparams : ∀ q ∈ f.params, q.Plain)
    (hname : renumberName k f.name = f.name) : Renumbers k id f.lower f.lower := by
  have hbody : Renumbers k id (f.asBody.lower (lowerReturn · f.returnValue))
      (f.asBody.lower (lowerReturn · f.returnValue)) :=
    Body.lower_renumbers k hp hparams (fun _ hd => absurd hd List.not_mem_nil)
      fun t => lowerReturn_renumbers k t hp.result
  have hnext : Renumbers k id (Pass.modify fun g : Generator => { g with names := g.names.nextOrdinal } : Emit Unit)
      (Pass.modify fun g => { g with names := g.names.nextOrdinal }) := by
    intro g g' hg
    refine ⟨rfl, rfl, ?_⟩
    rw [Pass.run_modify, Pass.run_modify, hg]
    simp [NameSupply.nextOrdinal, NameSupply.shift, Nat.add_right_comm]
  rw [f.lower_eq]
  exact (Renumbers.tell (by rw [Instruction.renumber, hname])).bind fun _ => hbody.bind fun _ => hnext

namespace Program

variable {p : Program}

theorem WellFormed.params_plain (hw : p.WellFormed) (hs : p.Spelled) {i : Nat} {f : Func}
    (hf : p.funcs[i]? = some f) : ∀ q ∈ f.params, q.Plain := by
  intro q hq
  refine ⟨(hs.funcs f (List.mem_of_getElem? hf)).params q hq, ?_⟩
  exact (hw.func hf).names.unreserved q.name (List.mem_append_left _ (List.mem_map_of_mem hq))

/-- **Programs.**  From counters that have gone further, the code of a well-formed program is the same with numbers
moved, and the counters have gone further by the same distances. -/
theorem WellFormed.lower_renumbers (hw : p.WellFormed) (hs : p.Spelled) (k : Shift) :
    Renumbers k id p.lower p.lower := by
  have hfuncs : ∀ f ∈ p.funcs, Renumbers k id f.lower f.lower := by
    intro f hf
    obtain ⟨i, hi⟩ := List.getElem?_of_mem hf
    have hreserved : isReservedName f.name = false :=
      hw.names.unreserved _ (List.mem_append_right _ (List.mem_map_of_mem hf))
    exact Func.lower_renumbers k (bodies_plain hs hw (bodies_func hi)) (hw.params_plain hs hi)
      (renumberName_plain k hreserved (dot_not_mem_of_isIdentifier (hs.funcs f hf).name))
  have hconstants : ∀ d ∈ p.mainBody.constants, isReservedName d.name = false :=
    fun d hd => hw.names.unreserved _ (List.mem_append_left _ (List.mem_map_of_mem hd))
  have hmain : Renumbers k id (p.mainBody.lower fun _ => Pass.tell (.call exitRoutine 0))
      (p.mainBody.lower fun _ => Pass.tell (.call exitRoutine 0)) :=
    Body.lower_renumbers k (bodies_plain hs hw p.bodies_length) (fun q hq => absurd hq List.not_mem_nil) hconstants
      fun t => .tell rfl
  have hlabel : renumberName k "main" = "main" := renumberName_plain k (by decide) (by decide)
  rw [lower, lowerMain_eq]
  refine (Renumbers.forM hfuncs).bind fun _ => (Renumbers.tell ?_).bind fun _ => hmain
  rw [Instruction.renumber, hlabel]

end Program

end ThreeAddress
