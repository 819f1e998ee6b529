import ThreeAddress.Proofs.Simulation

/-!
# Running the code of statements

Wherever the code of some statements stands, the machine comes to its end where the statements come to
theirs, with the same variables and the same calls; and where they never end, neither does the machine.

* `Matches`, `Machine.Arrives` — the machine stands at a configuration, or gets there;
* `Stmt.Exec.arrives` — a run of statements, told by induction on it;
* `Stmt.execOrLasts` — statements that have no run keep the machine busy for any number of steps.
-/

namespace ThreeAddress

open NameSupply (labelName)

/-- The machine holds the configuration of the body with an ordinal. -/
structure Matches (ordinal : Nat) (c : Config) (s : State) : Prop where
  mirrors : Mirrors ordinal c.memory s
  idle : Idle s c.history

/-- The machine gets to a place with a configuration. -/
def Machine.Arrives (M : Machine) (ordinal : Nat) (s : State) (pc : Nat) (c : Config) : Prop :=
  ∃ s', M.Reaches s s' ∧ s'.pc = pc ∧ Matches ordinal c s'

theorem Machine.Arrives.trans {M : Machine} {k : Nat} {s : State} {pc pc' : Nat} {c c' : Config}
    (h : M.Arrives k s pc c) (h' : ∀ s', s'.pc = pc → Matches k c s' → M.Arrives k s' pc' c') :
    M.Arrives k s pc' c' := by
  obtain ⟨s₁, hr₁, hpc₁, hs₁⟩ := h
  obtain ⟨s₂, hr₂, hpc₂, hs₂⟩ := h' s₁ hpc₁ hs₁
  exact ⟨s₂, hr₁.trans hr₂, hpc₂, hs₂⟩

theorem Machine.Arrives.of_reaches {M : Machine} {k : Nat} {s s₁ : State} {pc : Nat} {c : Config}
    (hr : M.Reaches s s₁) (h : M.Arrives k s₁ pc c) : M.Arrives k s pc c := by
  obtain ⟨s₂, hr₂, hpc, hm⟩ := h
  exact ⟨s₂, hr.trans hr₂, hpc, hm⟩

theorem localText_ne_of_isIdentifier {x y : String} (hy : isIdentifier y = true) (k : Nat) :
    y ≠ localText x k := by
  rintro rfl
  rw [isIdentifier_localText] at hy
  cases hy

section Run

variable {M : Machine} {t : RenameTable} {scope : List String} {m : Memory} {g : Generator} {s : State}
  {h : List Event}

/-- A local variable is assigned under its name in the code. -/
theorem Mirrors.setLocal {k : Nat} (hm : Mirrors k m s) (x : String) (v : Value) {s' : State}
    (hs : s'.store = fun y => if y = localText x k then v else s.store y) :
    Mirrors k (m.setLocal x v) s' := by
  refine ⟨fun y hy hr => ?_, fun y hy => ?_⟩
  · rw [hs]
    exact (if_neg (localText_ne_of_isIdentifier hy k)).trans (hm.globals y hy hr)
  · rw [hs]
    by_cases hyx : y = x
    · rw [hyx]
      exact (if_pos rfl).trans (if_pos rfl).symm
    · have hne : localText y k ≠ localText x k := fun h => hyx (localText_inj h).1
      exact (if_neg hne).trans ((hm.locals y hy).trans (if_neg hyx).symm)

/-- A global variable is assigned under its own name. -/
theorem Mirrors.setGlobal {k : Nat} (hm : Mirrors k m s) {x : String} (hx : isIdentifier x = true)
    (v : Value) {s' : State} (hs : s'.store = fun y => if y = x then v else s.store y) :
    Mirrors k (m.setGlobal x v) s' := by
  refine ⟨fun y hy hr => ?_, fun y hy => ?_⟩
  · rw [hs]
    by_cases hyx : y = x
    · rw [hyx]
      exact (if_pos rfl).trans (if_pos rfl).symm
    · exact (if_neg hyx).trans ((hm.globals y hy hr).trans (if_neg hyx).symm)
  · rw [hs]
    exact (if_neg fun h => localText_ne_of_isIdentifier hx k h.symm).trans (hm.locals y hy)

theorem Mirrors.write (hm : Mirrors t.ordinal m s) (hc : t.Covers scope) {x : String}
    (hx : isIdentifier x = true) (v : Value) {s' : State}
    (hs : s'.store = fun y => if y = t.resolve x then v else s.store y) :
    Mirrors t.ordinal (m.write scope x v) s' := by
  unfold RenameTable.resolve at hs
  unfold Memory.write
  rw [hc x] at hs
  by_cases hin : scope.contains x = true
  · rw [if_pos hin]
    rw [if_pos hin] at hs
    exact hm.setLocal x v hs
  · rw [if_neg hin]
    rw [if_neg hin] at hs
    exact hm.setGlobal hx v hs

/-- Code that computes an expression and assigns it. -/
theorem assign_arrives {e : Expr} {dest : String} {rest : List Instruction} {k : Nat}
    (hp : AllPlain e.leaves) (hc : t.Covers scope) (hm : Mirrors t.ordinal m s) (hi : Idle s h)
    (hat : M.At s.pc (((e.lower t).run g).record ++ .assign dest ((e.lower t).run g).value :: rest))
    {m' : Memory} (hw : ∀ s₁ s' : State, Kept g.names s s₁ → s'.store =
      (fun y => if y = dest then (e.eval M.world scope m h).1 else s₁.store y) → Mirrors k m' s') :
    M.Arrives k s (s.pc + (((e.lower t).run g).record.length + 1))
      ⟨m', (e.eval M.world scope m h).2⟩ := by
  rw [Machine.at_append] at hat
  obtain ⟨s₁, hr, hpc, hk, heval⟩ := e.lower_leads hp hc hm hi hat.1
  have hstep := Machine.step_assign (s := s₁) (hpc ▸ hat.2.1)
  rw [heval] at hstep
  refine ⟨_, hr.tail hstep, ?_, hw s₁ _ hk rfl, rfl, rfl⟩
  show s₁.pc + 1 = _
  rw [hpc, Nat.add_assoc]

/-- Code that makes a call as a statement. -/
theorem call_arrives {c : Call} {rest : List Instruction} (hp : AllPlain c.leaves) (hc : t.Covers scope)
    (hm : Mirrors t.ordinal m s) (hi : Idle s h)
    (hat : M.At s.pc (((c.lower t).run g).record ++ .call c.name c.args.length :: rest)) :
    M.Arrives t.ordinal s (s.pc + (((c.lower t).run g).record.length + 1))
      ⟨m, (c.eval M.world scope m h).2⟩ := by
  rw [Machine.at_append] at hat
  obtain ⟨s₁, hr, hpc, hk, -, hcall⟩ := c.lower_leads hp hc hm hi hat.1
  have hstep := Machine.step_call (s := s₁) (hpc ▸ hat.2.1)
  rw [hcall] at hstep
  refine ⟨_, hr.tail hstep, ?_, ⟨(hm.kept hk).globals, (hm.kept hk).locals⟩, rfl, rfl⟩
  show s₁.pc + 1 = _
  rw [hpc, Nat.add_assoc]

/-- A jump to a label. -/
theorem goto_arrives {k pc : Nat} {target : String} {c : Config} (hu : M.Unambiguous)
    (hat : M.code[s.pc]? = some (.goto target)) (hl : M.code[pc]? = some (.label target))
    (hs : Matches k c s) : M.Arrives k s pc c :=
  ⟨_, .single ((Machine.step_goto hat).trans (Machine.jump_eq hu hl)), rfl,
    ⟨hs.mirrors.globals, hs.mirrors.locals⟩, hs.idle.passed, hs.idle.history⟩

theorem label_arrives {k : Nat} {name : String} {c : Config} (hat : M.code[s.pc]? = some (.label name))
    (hs : Matches k c s) : M.Arrives k s (s.pc + 1) c :=
  ⟨_, .single (Machine.step_label hat), rfl, ⟨hs.mirrors.globals, hs.mirrors.locals⟩, hs.idle.passed,
    hs.idle.history⟩

/-- Code that computes a condition and jumps if it is false. -/
theorem branch_arrives {c : Cond} {target : String} {rest : List Instruction} {pc : Nat}
    (hu : M.Unambiguous) (hp : AllPlain c.leaves) (hc : t.Covers scope) (hs : Matches t.ordinal ⟨m, h⟩ s)
    (hat : M.At s.pc (((c.lower t).run g).record ++ .ifz ((c.lower t).run g).value target :: rest))
    (hl : M.code[pc]? = some (.label target)) :
    M.Arrives t.ordinal s
      (bif (c.eval M.world scope m h).1 then s.pc + ((c.lower t).run g).record.length + 1 else pc + 1)
      ⟨m, (c.eval M.world scope m h).2⟩ := by
  rw [Machine.at_append] at hat
  obtain ⟨s₁, hr, hpc, hk, heval, hi⟩ := c.lower_leads hu hp hc hs.mirrors hs.idle hat.1
  have hm₁ := hs.mirrors.kept hk
  have hifz := hpc ▸ hat.2.1
  cases htruth : (c.eval M.world scope m h).1 with
  | true =>
    have hstep := Machine.step_ifz_true (s := s₁) hifz (by rw [heval, htruth]; rfl)
    rw [heval] at hstep
    refine ⟨_, hr.tail hstep, ?_, ⟨hm₁.globals, hm₁.locals⟩, hi.passed, hi.history⟩
    show s₁.pc + 1 = _
    rw [hpc]
    rfl
  | false =>
    have hstep := Machine.step_ifz_false (s := s₁) hifz (by rw [heval, htruth]; rfl)
    rw [heval, Machine.jump_eq hu hl] at hstep
    have hlabel : M.step (s₁.goto pc) = some (s₁.goto pc).next := Machine.step_label hl
    exact ⟨_, (hr.tail hstep).tail hlabel, rfl, ⟨hm₁.globals, hm₁.locals⟩, hi.passed, hi.history⟩

end Run

/-! ### The code of statements -/

section Records

variable (t : RenameTable) (g : Generator)

theorem Stmt.record_lowerAll_cons (s : Stmt) (more : List Stmt) :
    ((Stmt.lowerAll t (s :: more)).run g).record =
      ((s.lower t).run g).record ++ ((Stmt.lowerAll t more).run ((s.lower t).run g).state).record := by
  rw [Stmt.lowerAll, Pass.run_bind]

theorem Stmt.record_assign (x : String) (e : Expr) (a s : Span) :
    (((Stmt.assign x e a s).lower t).run g).record =
      ((e.lower t).run g).record ++ [.assign (t.resolve x) ((e.lower t).run g).value] := by
  rw [Stmt.lower]
  rfl

theorem Stmt.record_call (c : Call) (s : Span) :
    (((Stmt.call c s).lower t).run g).record =
      ((c.lower t).run g).record ++ [.call c.name c.args.length] := by
  rw [Stmt.lower]
  rfl

theorem Stmt.record_block (b : Block) (s : Span) :
    (((Stmt.block b s).lower t).run g).record = ((Stmt.lowerAll t b.nodes).run g).record := by
  rw [Stmt.lower, Block.lower]

theorem Stmt.record_skip (s : Span) : (((Stmt.skip s).lower t).run g).record = [] := by
  rw [Stmt.lower]
  rfl

/-- The generator behind the two labels that a branching statement takes first. -/
def Generator.behindLabels (g : Generator) : Generator := { g with names := g.names.takeLabels.2 }

theorem Stmt.record_ite (c : Cond) (th el : Block) (s : Span) :
    let cond := (c.lower t).run g.behindLabels
    let first := (Stmt.lowerAll t th.nodes).run cond.state
    let second := (Stmt.lowerAll t el.nodes).run first.state
    (((Stmt.ite c th el s).lower t).run g).record =
      cond.record ++ .ifz cond.value (labelName g.names.label) ::
        (first.record ++ .goto (labelName (g.names.label + 1)) :: .label (labelName g.names.label) ::
          (second.record ++ [.label (labelName (g.names.label + 1))])) := by
  rw [Stmt.lower, Block.lower, Block.lower]
  rfl

theorem Stmt.record_loop (c : Cond) (b : Block) (s : Span) :
    let cond := (c.lower t).run g.behindLabels
    let body := (Stmt.lowerAll t b.nodes).run cond.state
    (((Stmt.loop c b s).lower t).run g).record =
      .label (labelName g.names.label) :: (cond.record ++
        .ifz cond.value (labelName (g.names.label + 1)) ::
          (body.record ++ [.goto (labelName g.names.label), .label (labelName (g.names.label + 1))])) := by
  rw [Stmt.lower, Block.lower]
  rfl

/-- Where the parts of a conditional statement stand. -/
theorem Stmt.at_ite {M : Machine} {pc : Nat} {c : Cond} {th el : Block} {s : Span}
    (hat : M.At pc (((Stmt.ite c th el s).lower t).run g).record) :
    let cond := (c.lower t).run g.behindLabels
    let first := (Stmt.lowerAll t th.nodes).run cond.state
    let second := (Stmt.lowerAll t el.nodes).run first.state
    let pc₁ := pc + cond.record.length + 1
    let pc₂ := pc₁ + first.record.length + 1
    (∃ rest, M.At pc (cond.record ++ .ifz cond.value (labelName g.names.label) :: rest)) ∧
      M.At pc₁ first.record ∧
      M.code[pc₁ + first.record.length]? = some (.goto (labelName (g.names.label + 1))) ∧
      M.code[pc₂]? = some (.label (labelName g.names.label)) ∧
      M.At (pc₂ + 1) second.record ∧
      M.code[pc₂ + 1 + second.record.length]? = some (.label (labelName (g.names.label + 1))) ∧
      pc + (((Stmt.ite c th el s).lower t).run g).record.length = pc₂ + 1 + second.record.length + 1 := by
  intro cond first second pc₁ pc₂
  rw [Stmt.record_ite] at hat ⊢
  have hall := hat
  rw [Machine.at_append, Machine.At, Machine.at_append, Machine.At, Machine.At, Machine.at_append] at hat
  obtain ⟨-, -, hfirst, hgoto, hlabel, hsecond, hend, -⟩ := hat
  refine ⟨⟨_, hall⟩, hfirst, hgoto, hlabel, hsecond, hend, ?_⟩
  simp only [List.length_append, List.length_cons, List.length_nil, pc₁, pc₂, cond, first, second]
  omega

/-- Where the parts of a loop stand. -/
theorem Stmt.at_loop {M : Machine} {pc : Nat} {c : Cond} {b : Block} {s : Span}
    (hat : M.At pc (((Stmt.loop c b s).lower t).run g).record) :
    let cond := (c.lower t).run g.behindLabels
    let body := (Stmt.lowerAll t b.nodes).run cond.state
    let pc₁ := pc + 1 + cond.record.length + 1
    M.code[pc]? = some (.label (labelName g.names.label)) ∧
      (∃ rest, M.At (pc + 1) (cond.record ++ .ifz cond.value (labelName (g.names.label + 1)) :: rest)) ∧
      M.At pc₁ body.record ∧
      M.code[pc₁ + body.record.length]? = some (.goto (labelName g.names.label)) ∧
      M.code[pc₁ + body.record.length + 1]? = some (.label (labelName (g.names.label + 1))) ∧
      pc + (((Stmt.loop c b s).lower t).run g).record.length = pc₁ + body.record.length + 1 + 1 := by
  intro cond body pc₁
  rw [Stmt.record_loop] at hat ⊢
  have hall := hat.2
  rw [Machine.At, Machine.at_append, Machine.At, Machine.at_append, Machine.At, Machine.At] at hat
  obtain ⟨hstart, -, -, hbody, hgoto, hend, -⟩ := hat
  refine ⟨hstart, ⟨_, hall⟩, hbody, hgoto, hend, ?_⟩
  simp only [List.length_append, List.length_cons, List.length_nil, pc₁, cond, body]
  omega

end Records

/-! ### Runs of statements -/

section Exec

variable {M : Machine} {t : RenameTable} {scope : List String}

/-- The machine comes to the code of statements with a configuration, and from its end to a place. -/
def Machine.Enters (M : Machine) (t : RenameTable) (s : State) (ss : List Stmt) (c : Config) (pc : Nat) :
    Prop :=
  ∃ g s₁, M.Reaches s s₁ ∧ M.At s₁.pc ((Stmt.lowerAll t ss).run g).record ∧ Matches t.ordinal c s₁ ∧
    ∀ s₂ c', s₂.pc = s₁.pc + ((Stmt.lowerAll t ss).run g).record.length → Matches t.ordinal c' s₂ →
      M.Arrives t.ordinal s₂ pc c'

theorem Machine.Enters.arrives {s : State} {ss : List Stmt} {c c' : Config} {pc : Nat}
    (h : M.Enters t s ss c pc)
    (hrun : ∀ {g : Generator} {s₁ : State}, M.At s₁.pc ((Stmt.lowerAll t ss).run g).record →
      Matches t.ordinal c s₁ → M.Arrives t.ordinal s₁ (s₁.pc + ((Stmt.lowerAll t ss).run g).record.length) c') :
    M.Arrives t.ordinal s pc c' := by
  obtain ⟨g, s₁, hr, hat, hs, hleave⟩ := h
  have hend := (hrun hat hs).trans fun s₂ hpc hs₂ => hleave s₂ c' hpc hs₂
  exact hend.of_reaches hr

/-- The code of the first statement takes the machine to the code of the others. -/
theorem Stmt.arrives_cons {x : Stmt} {more : List Stmt} {g : Generator} {s : State} {c₁ c' : Config}
    (hat : M.At s.pc ((Stmt.lowerAll t (x :: more)).run g).record)
    (hfirst : M.At s.pc ((x.lower t).run g).record →
      M.Arrives t.ordinal s (s.pc + ((x.lower t).run g).record.length) c₁)
    (hmore : ∀ s₁, M.At s₁.pc ((Stmt.lowerAll t more).run ((x.lower t).run g).state).record →
      Matches t.ordinal c₁ s₁ → M.Arrives t.ordinal s₁
        (s₁.pc + ((Stmt.lowerAll t more).run ((x.lower t).run g).state).record.length) c') :
    M.Arrives t.ordinal s (s.pc + ((Stmt.lowerAll t (x :: more)).run g).record.length) c' := by
  rw [Stmt.record_lowerAll_cons, Machine.at_append] at hat
  rw [Stmt.record_lowerAll_cons, List.length_append, ← Nat.add_assoc]
  refine (hfirst hat.1).trans fun s₁ hpc₁ hs₁ => ?_
  rw [← hpc₁] at hat ⊢
  exact hmore s₁ hat.2 hs₁

section Branching

variable {b : Cond} {g : Generator} {s : State} {m : Memory} {h : List Event} {sp : Span}

/-- The machine enters the branch that the condition selects. -/
theorem Stmt.ite_enters (hu : M.Unambiguous) (hc : t.Covers scope) (hp : AllPlain b.leaves) {th el : Block}
    (hat : M.At s.pc (((Stmt.ite b th el sp).lower t).run g).record) (hs : Matches t.ordinal ⟨m, h⟩ s) :
    M.Enters t s (bif (b.eval M.world scope m h).1 then th.nodes else el.nodes)
      ⟨m, (b.eval M.world scope m h).2⟩ (s.pc + (((Stmt.ite b th el sp).lower t).run g).record.length) := by
  obtain ⟨⟨rest, hcond⟩, hthen, hgoto, helse, hel, hend, hlen⟩ := Stmt.at_ite t g hat
  rw [hlen]
  obtain ⟨s₁, hr₁, hpc₁, hs₁⟩ := branch_arrives hu hp hc hs hcond helse
  cases htruth : (b.eval M.world scope m h).1 with
  | true =>
    rw [htruth, cond_true] at hpc₁
    rw [← hpc₁] at hthen hgoto
    rw [cond_true]
    refine ⟨_, s₁, hr₁, hthen, hs₁, fun s₂ c' hpc₂ hs₂ => ?_⟩
    rw [← hpc₂] at hgoto
    refine (goto_arrives hu hgoto hend hs₂).trans fun s₃ hpc₃ hs₃ => ?_
    rw [← hpc₃] at hend ⊢
    exact label_arrives hend hs₃
  | false =>
    rw [htruth, cond_false] at hpc₁
    rw [← hpc₁] at hel hend ⊢
    rw [cond_false]
    refine ⟨_, s₁, hr₁, hel, hs₁, fun s₂ c' hpc₂ hs₂ => ?_⟩
    rw [← hpc₂] at hend ⊢
    exact label_arrives hend hs₂

/-- A loop whose condition does not hold is left. -/
theorem Stmt.loop_leaves (hu : M.Unambiguous) (hc : t.Covers scope) (hp : AllPlain b.leaves) {body : Block}
    (hat : M.At s.pc (((Stmt.loop b body sp).lower t).run g).record) (hs : Matches t.ordinal ⟨m, h⟩ s)
    (hb : (b.eval M.world scope m h).1 = false) :
    M.Arrives t.ordinal s (s.pc + (((Stmt.loop b body sp).lower t).run g).record.length)
      ⟨m, (b.eval M.world scope m h).2⟩ := by
  obtain ⟨hstart, ⟨rest, hcond⟩, -, -, hend, hlen⟩ := Stmt.at_loop t g hat
  rw [hlen]
  refine (label_arrives hstart hs).trans fun s₁ hpc₁ hs₁ => ?_
  rw [← hpc₁] at hcond
  have hbranch := branch_arrives hu hp hc hs₁ hcond hend
  rw [hb] at hbranch
  exact hbranch

/-- Past its label, a loop whose condition holds has its body entered, and comes back from there. -/
theorem Stmt.loop_enters (hu : M.Unambiguous) (hc : t.Covers scope) (hp : AllPlain b.leaves) {body : Block}
    (hat : M.At s.pc (((Stmt.loop b body sp).lower t).run g).record) (hs : Matches t.ordinal ⟨m, h⟩ s)
    (hb : (b.eval M.world scope m h).1 = true) :
    M.step s = some s.next ∧ M.Enters t s.next body.nodes ⟨m, (b.eval M.world scope m h).2⟩ s.pc := by
  obtain ⟨hstart, ⟨rest, hcond⟩, hin, hgoto, hend, -⟩ := Stmt.at_loop t g hat
  have hs' : Matches t.ordinal ⟨m, h⟩ s.next :=
    ⟨⟨hs.mirrors.globals, hs.mirrors.locals⟩, hs.idle.passed, hs.idle.history⟩
  obtain ⟨s₁, hr₁, hpc₁, hs₁⟩ := branch_arrives (s := s.next) hu hp hc hs' hcond hend
  rw [hb, cond_true, State.next_pc] at hpc₁
  rw [← hpc₁] at hin hgoto
  refine ⟨Machine.step_label hstart, _, s₁, hr₁, hin, hs₁, fun s₂ c' hpc₂ hs₂ => ?_⟩
  rw [← hpc₂] at hgoto
  exact goto_arrives hu hgoto hstart hs₂

end Branching

/-- **Runs that end.**  The machine runs through the code of statements that have a run, to its end. -/
theorem Stmt.Exec.arrives {ss : List Stmt} {c c' : Config} (hrun : Stmt.Exec M.world scope ss c c')
    (hu : M.Unambiguous) (hc : t.Covers scope) (hp : AllPlain (Stmt.leavesOfList ss)) {g : Generator}
    {s : State} (hat : M.At s.pc ((Stmt.lowerAll t ss).run g).record) (hs : Matches t.ordinal c s) :
    M.Arrives t.ordinal s (s.pc + ((Stmt.lowerAll t ss).run g).record.length) c' := by
  induction hrun generalizing g s with
  | nil => exact ⟨s, .refl s, rfl, hs⟩
  | @assign x e a sp more m h c' hmore ih =>
    obtain ⟨hx, hvalue⟩ := List.forall_mem_cons.1 hp.left
    refine Stmt.arrives_cons hat (fun hfirst => ?_) fun s₁ hat₁ hs₁ => ih hp.right hat₁ hs₁
    rw [Stmt.record_assign] at hfirst ⊢
    rw [List.length_append]
    exact assign_arrives hvalue hc hs.mirrors hs.idle hfirst
      fun s₁ s' hk hstore => (hs.mirrors.kept hk).write hc hx.1 _ hstore
  | @call f sp more m h c' hmore ih =>
    refine Stmt.arrives_cons hat (fun hfirst => ?_) fun s₁ hat₁ hs₁ => ih hp.right hat₁ hs₁
    rw [Stmt.record_call] at hfirst ⊢
    rw [List.length_append]
    exact call_arrives hp.left hc hs.mirrors hs.idle hfirst
  | @block b sp more c c₁ c' hblock hmore ihblock ih =>
    refine Stmt.arrives_cons hat (fun hfirst => ?_) fun s₁ hat₁ hs₁ => ih hp.right hat₁ hs₁
    rw [Stmt.record_block] at hfirst ⊢
    exact ihblock hp.left.block hfirst hs
  | @skip sp more c c' hmore ih =>
    refine Stmt.arrives_cons hat (fun _ => ⟨s, .refl s, ?_, hs⟩) fun s₁ hat₁ hs₁ => ih hp.right hat₁ hs₁
    rw [Stmt.record_skip]
    rfl
  | @ite b th el sp more m h c c' hbranch hmore ihbranch ih =>
    refine Stmt.arrives_cons hat (fun hfirst => ?_) fun s₁ hat₁ hs₁ => ih hp.right hat₁ hs₁
    obtain ⟨hpc, hpt, hpe⟩ := hp.left.ite
    refine (Stmt.ite_enters hu hc hpc hfirst hs).arrives fun hin hs₁ => ihbranch ?_ hin hs₁
    cases (b.eval M.world scope m h).1 with
    | true => exact hpt
    | false => exact hpe
  | @loopEnd b body sp more m h c' hb hmore ih =>
    refine Stmt.arrives_cons hat (fun hfirst => ?_) fun s₁ hat₁ hs₁ => ih hp.right hat₁ hs₁
    exact Stmt.loop_leaves hu hc hp.left.left hfirst hs hb
  | @loopAgain b body sp more m h c c' hb hbody hagain ihbody ih =>
    obtain ⟨hpc, hpb⟩ := hp.left.loop
    have hloop := hat
    rw [Stmt.record_lowerAll_cons, Machine.at_append] at hloop
    obtain ⟨hstep, henters⟩ := Stmt.loop_enters hu hc hpc hloop.1 hs hb
    have hback := henters.arrives fun hin hs₁ => ihbody hpb hin hs₁
    refine (hback.of_reaches (.single hstep)).trans fun s₁ hpc₁ hs₁ => ?_
    rw [← hpc₁] at hat ⊢
    exact ih hp hat hs₁

theorem Stmt.Exec.append {w : World} {xs ys : List Stmt} {c c₁ c' : Config}
    (hx : Stmt.Exec w scope xs c c₁) (hy : Stmt.Exec w scope ys c₁ c') :
    Stmt.Exec w scope (xs ++ ys) c c' := by
  induction hx with
  | nil => exact hy
  | assign _ ih => exact .assign (ih hy)
  | ite hbranch _ _ ih => exact .ite hbranch (ih hy)
  | loopEnd hb _ ih => exact .loopEnd hb (ih hy)
  | loopAgain hb hbody _ _ ih => exact .loopAgain hb hbody (ih hy)
  | call _ ih => exact .call (ih hy)
  | block hblock _ _ ih => exact .block hblock (ih hy)
  | skip _ ih => exact .skip (ih hy)

/-- Statements have a run, or the machine does not come to an end within some steps. -/
def Stmt.ExecOrLasts (M : Machine) (t : RenameTable) (scope : List String) (n : Nat) (ss : List Stmt) :
    Prop :=
  ∀ (g : Generator) (s : State) (c : Config), AllPlain (Stmt.leavesOfList ss) →
    M.At s.pc ((Stmt.lowerAll t ss).run g).record → Matches t.ordinal c s →
    (∃ c', Stmt.Exec M.world scope ss c c') ∨ M.Lasts n s

/-- One round of a loop takes a step at least, so fewer steps are left for the next one. -/
theorem Stmt.execOrLasts_loop (hu : M.Unambiguous) (hc : t.Covers scope) {n : Nat} {b : Cond}
    {body : Block} {sp : Span} (hagain : Stmt.ExecOrLasts M t scope n [.loop b body sp])
    (hbody : Stmt.ExecOrLasts M t scope (n + 1) body.nodes) :
    Stmt.ExecOrLasts M t scope (n + 1) [.loop b body sp] := by
  intro g s c hp hat hs
  obtain ⟨hpc, hpb⟩ := hp.left.loop
  have hloop := hat
  rw [Stmt.record_lowerAll_cons, Machine.at_append] at hloop
  cases htruth : (b.eval M.world scope c.memory c.history).1 with
  | false => exact .inl ⟨_, .loopEnd htruth .nil⟩
  | true =>
    obtain ⟨hstep, henters⟩ := Stmt.loop_enters hu hc hpc hloop.1 hs htruth
    have hin := henters
    obtain ⟨g₁, s₁, hr₁, hin, hs₁, -⟩ := hin
    rcases hbody g₁ s₁ _ hpb hin hs₁ with ⟨c₁, hrun⟩ | hlasts
    · obtain ⟨s₂, hr₂, hpc₂, hs₂⟩ := henters.arrives fun hin hs₁ => hrun.arrives hu hc hpb hin hs₁
      rw [← hpc₂] at hat
      rcases hagain g s₂ c₁ hp hat hs₂ with ⟨c', hrun'⟩ | hlasts
      · exact .inl ⟨c', .loopAgain htruth hrun hrun'⟩
      · exact .inr (.of_step hstep (hlasts.of_reaches hr₂))
    · exact .inr (hlasts.of_reaches (.head hstep hr₁))

/-- **Runs without end.**  Statements that have no run keep the machine busy for any number of steps. -/
theorem Stmt.execOrLasts (hu : M.Unambiguous) (hc : t.Covers scope) (n : Nat) :
    (∀ st, Stmt.ExecOrLasts M t scope n [st]) ∧ ∀ ss, Stmt.ExecOrLasts M t scope n ss := by
  induction n with
  | zero => exact ⟨fun _ _ s _ _ _ _ => .inr (.zero s), fun _ _ s _ _ _ _ => .inr (.zero s)⟩
  | succ n ih =>
    refine Stmt.parts ?assign ?ite ?loop ?call ?block ?skip ?nil ?cons
    case assign => exact fun x e a sp g s c _ _ _ => .inl ⟨_, .assign .nil⟩
    case ite =>
      intro b th el sp ihth ihel g s c hp hat hs
      obtain ⟨hpc, hpt, hpe⟩ := hp.left.ite
      rw [Stmt.record_lowerAll_cons, Machine.at_append] at hat
      obtain ⟨g₁, s₁, hr₁, hin, hs₁, -⟩ := Stmt.ite_enters hu hc hpc hat.1 hs
      have hbranch : (∃ c₁, Stmt.Exec M.world scope
          (bif (b.eval M.world scope c.memory c.history).1 then th.nodes else el.nodes)
          ⟨c.memory, (b.eval M.world scope c.memory c.history).2⟩ c₁) ∨ M.Lasts (n + 1) s₁ := by
        cases htruth : (b.eval M.world scope c.memory c.history).1 with
        | true =>
          rw [htruth] at hin
          exact ihth g₁ s₁ _ hpt hin hs₁
        | false =>
          rw [htruth] at hin
          exact ihel g₁ s₁ _ hpe hin hs₁
      rcases hbranch with ⟨c₁, hrun⟩ | hlasts
      · exact .inl ⟨c₁, .ite hrun .nil⟩
      · exact .inr (hlasts.of_reaches hr₁)
    case loop => exact fun b body sp ihbody => Stmt.execOrLasts_loop hu hc (ih.1 _) ihbody
    case call => exact fun f sp g s c _ _ _ => .inl ⟨_, .call .nil⟩
    case block =>
      intro b sp ihb g s c hp hat hs
      have hpb := hp.left.block
      rw [Stmt.record_lowerAll_cons, Machine.at_append, Stmt.record_block] at hat
      rcases ihb g s c hpb hat.1 hs with ⟨c₁, hrun⟩ | hlasts
      · exact .inl ⟨c₁, .block hrun .nil⟩
      · exact .inr hlasts
    case skip => exact fun sp g s c _ _ _ => .inl ⟨c, .skip .nil⟩
    case nil => exact fun g s c _ _ _ => .inl ⟨c, .nil⟩
    case cons =>
      intro st more ihst ihmore g s c hp hat hs
      have hone : AllPlain (Stmt.leavesOfList [st]) := by
        rw [Stmt.leavesOfList, Stmt.leavesOfList, List.append_nil]
        exact hp.left
      rw [Stmt.record_lowerAll_cons, Machine.at_append] at hat
      have hrecord : ((Stmt.lowerAll t [st]).run g).record = ((st.lower t).run g).record := by
        rw [Stmt.record_lowerAll_cons, Stmt.lowerAll]
        exact List.append_nil _
      rw [← hrecord] at hat
      rcases ihst g s c hone hat.1 hs with ⟨c₁, hrun⟩ | hlasts
      · obtain ⟨s₁, hr₁, hpc₁, hs₁⟩ := hrun.arrives hu hc hone hat.1 hs
        rw [← hpc₁] at hat
        rcases ihmore _ s₁ c₁ hp.right hat.2 hs₁ with ⟨c₂, hrun'⟩ | hlasts
        · exact .inl ⟨c₂, hrun.append hrun'⟩
        · exact .inr (hlasts.of_reaches hr₁)
      · exact .inr hlasts

end Exec

end ThreeAddress
