import ThreeAddress.Proofs.NestedConditions

/-!
# Running the code of expressions and conditions

The machine runs code under the interpretation that its world gives, and sees calls but no tests.  So wherever the code
of an expression stands, the machine runs through it to a right-hand side of the value of the expression, and only
variables that are new by then have changed.  The code of a condition leads to a predicate in the same way.

* `World.interpretation`, `Moment.state` — the machine as an interpretation;
* `Interpretation.Through.reaches` — a run under it is a run of the machine;
* `Mirrors` — a store holds the variables of a body under the names that they have in the code;
* `Expr.eval_eq`, `Cond.eval_eq` — what the tree of a program means is what its code means;
* `Emit.Leads` — the code that a pass emits takes the machine from one state to another;
* `Call.lower_leads`, `Expr.lower_leads`, `Cond.lower_leads` — calls, expressions and conditions.
-/

namespace ThreeAddress

/-! ### The machine as an interpretation -/

/-- The call that was made, if it is one that was seen. -/
def Observation.event? : Observation Value → Option Event
  | .call callee args => some ⟨callee, args⟩
  | .test _ => none

/-- The calls among what was seen. -/
def callsOf (h : List (Observation Value)) : List Event := h.filterMap (·.event?)

theorem callsOf_call (h : List (Observation Value)) (callee : String) (args : List Value) :
    callsOf (h ++ [.call callee args]) = callsOf h ++ [⟨callee, args⟩] := List.filterMap_append

theorem callsOf_test (h : List (Observation Value)) (b : Bool) : callsOf (h ++ [.test b]) = callsOf h :=
  List.filterMap_append.trans (List.append_nil _)

/-- What code means in a world.  Calls are answered behind the calls before. -/
def World.interpretation (w : World) : Interpretation Value where
  constant := id
  apply := w.apply
  invert := Value.invert
  holds := Value.holds
  answer h := w.answer (callsOf h)

theorem World.interpretation_usual (w : World) : w.interpretation.Usual where
  holds := Value.holds_boolean
  logic _ _ _ := rfl
  equal a b := by cases a <;> cases b <;> rfl

/-- Where the machine stands.  Tests are forgotten. -/
def Moment.state (s : Moment Value) : State := ⟨s.pc, s.store, s.passed, callsOf s.trace⟩

/-- Where a run stands that has seen no tests. -/
def State.moment (s : State) : Moment Value :=
  ⟨s.pc, s.store, s.passed, s.history.map fun e => .call e.callee e.args⟩

theorem State.callsOf_moment (s : State) : callsOf s.moment.trace = s.history := by
  rw [callsOf, moment, List.filterMap_map]
  exact List.filterMap_some

theorem State.state_moment (s : State) : s.moment.state = s := by
  rw [Moment.state, s.callsOf_moment]
  rfl

theorem Moment.state_tested (s : Moment Value) (b : Bool) : (s.tested b).state = s.state := by
  rw [state, tested, callsOf_test]
  rfl

section Machine

variable {M : Machine} {s s' : Moment Value}

theorem Moment.read_state (w : World) (s : Moment Value) (a : String) :
    s.state.read a = w.interpretation.read s a := by
  rw [State.read, Interpretation.read]
  cases literal? a <;> rfl

theorem Machine.call_state (M : Machine) (s : Moment Value) (name : String) (count : Nat) :
    M.call s.state name count =
      ((M.world.interpretation.call s name count).1, (M.world.interpretation.call s name count).2.state) := by
  simp only [call, Interpretation.call, Moment.state, callsOf_call]
  rfl

/-- A right-hand side has the value that its interpretation gives, and leads to the same place. -/
theorem Machine.eval_state (M : Machine) (s : Moment Value) (r : Rvalue) :
    M.eval s.state r = ((M.world.interpretation.eval s r).1, (M.world.interpretation.eval s r).2.state) := by
  cases r with
  | atom => rw [eval, Interpretation.eval, Moment.read_state M.world]
  | binary => rw [eval, Interpretation.eval, Moment.read_state M.world, Moment.read_state M.world]; rfl
  | call => exact M.call_state s _ _
  | not => rw [eval, Interpretation.eval, Moment.read_state M.world]; rfl

theorem Machine.jump_state (M : Machine) (s : Moment Value) (label : String) :
    M.jump s.state label = (s.jump M.code label).map Moment.state := by
  rw [jump, Moment.jump]
  split <;> rfl

/-- A step under the interpretation is a step of the machine. -/
theorem Machine.step_state (h : M.world.interpretation.step M.code s = some s') : M.step s.state = some s'.state := by
  unfold Interpretation.step at h
  split at h
  · cases h
  · cases h
  · cases h
  · rename_i hat
    cases h
    exact step_label hat
  · rename_i hat
    cases h
    rw [step_assign hat, M.eval_state]
    rfl
  · rename_i cond target hat
    cases hholds : M.world.interpretation.holds (M.world.interpretation.eval s cond).1 with
    | true =>
      rw [hholds] at h
      cases h
      rw [step_ifz_true hat (by rw [M.eval_state]; exact hholds), M.eval_state]
      exact congrArg (fun s : State => some s.next) (Moment.state_tested _ true).symm
    | false =>
      rw [hholds] at h
      have hjump : ((M.world.interpretation.eval s cond).2.tested false).jump M.code target = some s' := h
      rw [step_ifz_false hat (by rw [M.eval_state]; exact hholds), M.eval_state, ← Moment.state_tested _ false,
        M.jump_state, hjump]
      rfl
  · rename_i hat
    rw [step_goto hat, M.jump_state, h]
    rfl
  · rename_i hat
    cases h
    rw [step_param hat, Moment.read_state M.world]
    rfl
  · rename_i hat
    cases h
    rw [step_call hat, M.call_state]
    rfl

/-- A run under the interpretation is a run of the machine. -/
theorem Interpretation.Through.reaches {first last : Nat} (h : M.world.interpretation.Through M.code first last s s') :
    M.Reaches s.state s'.state := by
  induction h with
  | refl => exact .refl _
  | tail _ hstep ih => exact ih.tail (Machine.step_state hstep.2.2)

end Machine

/-! ### Variables in the code -/

/-- No old name has another value. -/
def Kept (n : NameSupply) (s s' : State) : Prop := ∀ x, n.Old x → s'.store x = s.store x

/-- A store holds the variables of the body with an ordinal under their names in the code. -/
structure Mirrors (ordinal : Nat) (m : Memory) (s : State) : Prop where
  globals : ∀ x, isIdentifier x = true → isReservedName x = false → s.store x = m.globals x
  locals : ∀ x, isIdentifier x = true → s.store (localText x ordinal) = m.locals x

/-- A rename table holds the names of a scope. -/
def RenameTable.Covers (t : RenameTable) (scope : List String) : Prop :=
  ∀ x, t.contains x = scope.contains x

theorem Mirrors.kept {k : Nat} {m : Memory} {n : NameSupply} {s s' : State} (h : Mirrors k m s)
    (hk : Kept n s s') : Mirrors k m s' := by
  refine ⟨fun x hx hr => ?_, fun x hx => ?_⟩
  · rw [hk x (n.old_of_unreserved hr), h.globals x hx hr]
  · rw [hk _ (n.old_of_unreserved (isReservedName_localText x k)), h.locals x hx]

section Value

variable {w : World} {t : RenameTable} {scope : List String} {m : Memory} {s : State}

theorem Mirrors.resolve (hm : Mirrors t.ordinal m s) (hc : t.Covers scope) {x : String} (hx : isIdentifier x = true)
    (hr : isReservedName x = false) : s.store (t.resolve x) = m.read scope x := by
  unfold RenameTable.resolve Memory.read
  rw [← hc x]
  split
  · exact hm.locals x hx
  · exact hm.globals x hx hr

/-! ### The meaning of a tree and of its code -/

theorem Atom.value_eq {a : Atom} (hp : a.Plain) (hm : Mirrors t.ordinal m s) (hc : t.Covers scope) :
    a.value scope m = a.meaning w.interpretation t s.store := by
  cases a with
  | name x => exact (hm.resolve hc hp.1 hp.2).symm
  | number d => rfl

theorem Fragment.value_eq {f : Fragment} (hp : AllPlain f.leaves) (hm : Mirrors t.ordinal m s) (hc : t.Covers scope) :
    f.value w scope m = f.meaning w.interpretation t s.store := by
  cases f with
  | atom negated a =>
    have ha := Atom.value_eq (w := w) (hp a List.mem_cons_self) hm hc
    cases negated with
    | false => exact ha
    | true => exact congrArg (w.apply (.arith .minus) (.integer 0)) ha
  | not x =>
    have hx := hp (.name x) List.mem_cons_self
    exact congrArg Value.invert (hm.resolve hc hx.1 hx.2).symm
  | zero | bool => rfl

theorem Call.values_eq {c : Call} (hp : AllPlain c.leaves) (hm : Mirrors t.ordinal m s) (hc : t.Covers scope) :
    c.values scope m = c.arguments w.interpretation t s.store :=
  List.map_congr_left fun _ ha => Atom.value_eq (hp _ (List.mem_map_of_mem ha)) hm hc

theorem Call.eval_eq {c : Call} (hp : AllPlain c.leaves) (hm : Mirrors t.ordinal m s) (hc : t.Covers scope)
    (h : List (Observation Value)) : c.eval w scope m (callsOf h) =
      (((Operand.call c).meaning w.interpretation t s.store h).1,
        callsOf ((Operand.call c).meaning w.interpretation t s.store h).2) := by
  rw [eval, Operand.meaning, callsOf_call, Call.values_eq (w := w) hp hm hc]
  rfl

/-- The links and members of a chain come out even. -/
theorem leftFold?_chain (f : Operator → Value → Value → Value) (c : Chain Operator Value) :
    leftFold? f c.links c.members = some (c.foldLeft f) := by
  obtain ⟨head, tail⟩ := c
  induction tail generalizing head with
  | nil => rfl
  | cons x more ih => exact ih (f x.1 head x.2)

/-- The values of an expression are those of its operands, with its operators between them. -/
theorem Expr.values_eq {e : Expr} (hp : AllPlain e.leaves) (hm : Mirrors t.ordinal m s) (hc : t.Covers scope)
    (h : List (Observation Value)) :
    (e.values w scope m (callsOf h)).1.links = e.operators ∧
      (e.values w scope m (callsOf h)).1.members = (meanings w.interpretation t s.store e.operands h).1 ∧
      (e.values w scope m (callsOf h)).2 = callsOf (meanings w.interpretation t s.store e.operands h).2 := by
  induction e generalizing h with
  | arith op l r sp ihl ihr | logic op l r sp ihl ihr =>
    obtain ⟨hlinks, hmembers, hcalls⟩ := ihl hp.left h
    obtain ⟨hlinks', hmembers', hcalls'⟩ := ihr hp.right (meanings w.interpretation t s.store l.operands h).2
    simp only [values, operators, operands, meanings_append, Chain.links_link, Chain.members_link, hlinks, hmembers,
      hcalls, hlinks', hmembers', hcalls', true_and]
  | paren e sp ih => exact ih hp h
  | call c sp =>
    rw [values, c.eval_eq hp hm hc]
    exact ⟨rfl, rfl, rfl⟩
  | fragment f sp =>
    rw [values, f.value_eq hp hm hc]
    exact ⟨rfl, rfl, rfl⟩

/-- The value of an expression is what its code means. -/
theorem Expr.eval_eq {e : Expr} (hp : AllPlain e.leaves) (hm : Mirrors t.ordinal m s) (hc : t.Covers scope)
    (h : List (Observation Value)) : e.eval w scope m (callsOf h) =
      ((e.meaning w.interpretation t s.store h).1, callsOf (e.meaning w.interpretation t s.store h).2) := by
  obtain ⟨hlinks, hmembers, hcalls⟩ := Expr.values_eq (w := w) hp hm hc h
  have hvalue : leftFold? w.apply e.operators _ = _ := e.leftFold?_meanings w.interpretation t s.store h
  rw [← hlinks, ← hmembers, leftFold?_chain] at hvalue
  rw [eval, hcalls, Option.some.inj hvalue]
  rfl

theorem rightNest?_chain (c : Chain Connective Bool) :
    rightNest? c.links c.members = some (c.foldRight Connective.apply) := by
  obtain ⟨head, tail⟩ := c
  induction tail generalizing head with
  | nil => rfl
  | cons x more ih => exact congrArg (Option.map (x.1.apply head)) (ih x.2)

/-- The truths of a condition are what the tests in its code find, with its connectives between them. -/
theorem Cond.truths_eq {c : Cond} (hp : AllPlain c.leaves) (hm : Mirrors t.ordinal m s) (hc : t.Covers scope)
    (h : List (Observation Value)) :
    (c.truths w scope m (callsOf h)).1.links = c.connectives ∧
      (c.truths w scope m (callsOf h)).1.members = (c.outcomes w.interpretation t s.store h).1 ∧
      (c.truths w scope m (callsOf h)).2 = callsOf (c.outcomes w.interpretation t s.store h).2 := by
  induction c generalizing h with
  | comparison op l r sp | equality op l r sp =>
    simp only [truths, l.eval_eq (w := w) hp.left hm hc, r.eval_eq (w := w) hp.right hm hc]
    exact ⟨rfl, rfl, (callsOf_test _ _).symm⟩
  | neg c sp ih =>
    obtain ⟨hlinks, hmembers, hcalls⟩ := ih hp h
    have hvalue := rightNest?_chain (c.truths w scope m (callsOf h)).1
    rw [hlinks, hmembers] at hvalue
    simp only [truths, outcomes, hcalls, hvalue, callsOf_test, and_true]
    exact ⟨rfl, rfl⟩
  | paren c sp ih => exact ih hp h
  | binary op l r sp ihl ihr =>
    obtain ⟨hlinks, hmembers, hcalls⟩ := ihl hp.left h
    obtain ⟨hlinks', hmembers', hcalls'⟩ := ihr hp.right (l.outcomes w.interpretation t s.store h).2
    simp only [truths, connectives, outcomes, Chain.links_link, Chain.members_link, hlinks, hmembers, hcalls, hlinks',
      hmembers', hcalls', true_and]
  | bool b sp => exact ⟨rfl, rfl, (callsOf_test _ _).symm⟩

/-- The truth of a condition is what its code means. -/
theorem Cond.eval_eq {c : Cond} (hp : AllPlain c.leaves) (hm : Mirrors t.ordinal m s) (hc : t.Covers scope)
    (h : List (Observation Value)) : c.eval w scope m (callsOf h) =
      ((c.meaning w.interpretation t s.store h).1, callsOf (c.meaning w.interpretation t s.store h).2) := by
  obtain ⟨hlinks, hmembers, hcalls⟩ := Cond.truths_eq (w := w) hp hm hc h
  have hvalue := c.rightNest?_outcomes w.interpretation t s.store h
  rw [← hlinks, ← hmembers, rightNest?_chain] at hvalue
  rw [eval, hcalls, Option.some.inj hvalue]
  rfl

end Value

/-! ### Runs through emitted code -/

/-- No argument is waiting for a call, and some calls were made. -/
structure Idle (s : State) (h : List Event) : Prop where
  passed : s.passed = []
  history : s.history = h

/-- The code that a pass emits, wherever it stands, takes the machine to its end; only new names change, and
then `Q` holds of the value of the pass and the state. -/
def Emit.Leads {α : Type} (p : Emit α) (M : Machine) (g : Generator) (s : State)
    (Q : α → State → Prop) : Prop :=
  M.At s.pc (p.run g).record → ∃ s', M.Reaches s s' ∧ s'.pc = s.pc + (p.run g).record.length ∧
    Kept g.names s s' ∧ Q (p.run g).value s'

section Lower

variable {M : Machine} {t : RenameTable} {scope : List String} {m : Memory} {g : Generator} {s : State}
  {h : List Event}

theorem Machine.piece_of_at {pc : Nat} {code : List Instruction} (h : M.At pc code) : code <+: M.code.drop pc := by
  induction code generalizing pc with
  | nil => exact List.nil_prefix
  | cons i more ih =>
    obtain ⟨hlt, hi⟩ := List.getElem?_eq_some_iff.1 h.1
    rw [List.drop_eq_getElem_cons hlt, hi]
    exact List.cons_prefix_cons.2 ⟨rfl, ih h.2⟩

/-- The machine runs as its interpretation does. -/
theorem Emit.Leads.of_crosses {α : Type} {p : Emit α} {Q : α → State → Prop}
    (h : (p.run g).record <+: M.code.drop s.pc → ∃ s', M.world.interpretation.Crosses M.code g.names
      (p.run g).state.names (p.run g).record.length s.moment s' ∧ Q (p.run g).value s'.state) :
    Emit.Leads p M g s Q := by
  intro hat
  obtain ⟨s', hcross, hq⟩ := h (Machine.piece_of_at hat)
  have hreaches := hcross.through.reaches
  rw [s.state_moment] at hreaches
  exact ⟨s'.state, hreaches, hcross.pc, fun x hx => hcross.unchanged.old hx, hq⟩

/-- A label that stands at one place in the code of the machine. -/
theorem Machine.Unambiguous.definesOnce (hu : M.Unambiguous) (n n' : NameSupply) : DefinesOnce M.code n n' :=
  fun _ _ _ i j => hu _ i j

/-- A call takes the arguments that were just passed. -/
theorem Call.lower_leads {c : Call} (hp : AllPlain c.leaves) (hc : t.Covers scope)
    (hm : Mirrors t.ordinal m s) (hi : Idle s h) :
    Emit.Leads (c.lower t) M g s fun r s' =>
      r = .call c.name c.args.length ∧ M.call s' c.name c.args.length =
        ((c.eval M.world scope m h).1, { s' with passed := [], history := (c.eval M.world scope m h).2 }) := by
  obtain ⟨hpassed, rfl⟩ := hi
  rw [← s.callsOf_moment, c.eval_eq hp hm hc]
  have hrun : (c.lower t).run g = _ := (Operand.call c).run_lower t g
  refine .of_crosses fun hat => ?_
  rw [hrun] at hat ⊢
  obtain ⟨s', hcross, heval⟩ :=
    (Operand.call c).params_cross (I := M.world.interpretation) (n := g.names) (s := s.moment) hp hat
  refine ⟨s', hcross, rfl, (M.eval_state s' ((Operand.call c).rvalue t)).trans ?_⟩
  rw [heval, show s.moment.passed = [] from hpassed]
  rfl

/-- **Expressions.**  Wherever its code stands, it leads to a right-hand side of the value. -/
theorem Expr.lower_leads {e : Expr} (hp : AllPlain e.leaves) (hc : t.Covers scope)
    (hm : Mirrors t.ordinal m s) (hi : Idle s h) :
    Emit.Leads (e.lower t) M g s fun r s' => M.eval s' r =
      ((e.eval M.world scope m h).1, { s' with passed := [], history := (e.eval M.world scope m h).2 }) := by
  obtain ⟨hpassed, rfl⟩ := hi
  rw [← s.callsOf_moment, e.eval_eq hp hm hc]
  have hs : t.Sees s.store s.moment := fun _ _ _ => rfl
  refine .of_crosses fun hat => ?_
  obtain ⟨s', hcross, heval⟩ := e.lower_crosses (I := M.world.interpretation) hp hs hat
  refine ⟨s', hcross, ?_⟩
  rw [M.eval_state, heval, show s.moment.passed = [] from hpassed]
  rfl

/-- **Conditions.**  Wherever its code stands, it leads to a predicate that holds if the condition is true,
and that does not change the state. -/
theorem Cond.lower_leads {c : Cond} (hu : M.Unambiguous) (hp : AllPlain c.leaves) (hc : t.Covers scope)
    (hm : Mirrors t.ordinal m s) (hi : Idle s h) :
    Emit.Leads (c.lower t) M g s fun predicate s' =>
      M.eval s' predicate = (.boolean (c.eval M.world scope m h).1, s') ∧
        Idle s' (c.eval M.world scope m h).2 := by
  obtain ⟨hpassed, rfl⟩ := hi
  rw [← s.callsOf_moment, c.eval_eq hp hm hc]
  have hs : t.Sees s.store s.moment := fun _ _ _ => rfl
  refine .of_crosses fun hat => ?_
  obtain ⟨s', hcross, heval⟩ := c.lower_drives M.world.interpretation_usual hp hs hat (hu.definesOnce _ _)
  have hsame : (M.world.interpretation.eval s' ((c.lower t).run g).value).2 = s' := rfl
  refine ⟨s', hcross, ?_, ?_⟩
  · rw [M.eval_state, hsame, heval]
    rfl
  · rw [heval] at hsame
    rw [← hsame]
    exact ⟨hpassed, rfl⟩

end Lower

end ThreeAddress
