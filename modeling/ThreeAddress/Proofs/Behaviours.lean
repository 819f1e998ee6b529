import ThreeAddress.Proofs.ExpressionValues

/-!
# Calls that change global variables

Code runs over values of any kind, and what it calls may read the global variables and assign them.  Behind a call the
global variables may have other values; all other names keep theirs.

* `Behaviour`, `Situation` — what a run depends on, and the variables and calls at some time;
* `Behaviour.react`, `Behaviour.eval`, `Behaviour.step` — calls, right-hand sides, and one step;
* `Interpretation.step_behaviour` — where calls change nothing, code runs as it does under an interpretation;
* `Moment.Shares`, `Moment.Keeps` — a run has the variables of a situation, and keeps its first temporaries;
* `Behaviour.Crosses`, `Behaviour.Computes` — steps to the end of some code, and to a right-hand side of some value;
* `Moment.Promises` — an atom that will be read as something.
-/

namespace ThreeAddress

open NameSupply (tempName)

variable {V : Type}

/-! ### Behaviours -/

/-- What code means over some values, when what is called may change global variables: a call depends on what was
seen before, on its arguments and on the values of the global variables; it gives an answer and new values to names. -/
structure Behaviour (V : Type) (globals : List String) where
  constant : Value → V
  apply : Operator → V → V → V
  invert : V → V
  holds : V → Bool
  call : List (Observation V) → String → List V → List V → V × (String → V)

/-- The variables, and what was seen so far. -/
structure Situation (V : Type) where
  store : String → V
  trace : List (Observation V)

/-- The situation of a run. -/
def Moment.situation (s : Moment V) : Situation V := ⟨s.store, s.trace⟩

namespace Behaviour

variable {globals : List String} (B : Behaviour V globals)

/-- The constants and operators.  No call is to be answered by them. -/
def operations : Interpretation V := ⟨B.constant, B.apply, B.invert, B.holds, fun _ _ _ => B.constant .nothing⟩

/-- A call with some arguments: its answer, and the situation behind it.  Only global variables have other values. -/
def react (σ : Situation V) (f : String) (args : List V) : V × Situation V :=
  let r := B.call σ.trace f args (globals.map σ.store)
  (r.1, ⟨fun x => if x ∈ globals then r.2 x else σ.store x, σ.trace ++ [.call f args]⟩)

/-- A call takes the arguments that were passed last. -/
def invoke (s : Moment V) (f : String) (count : Nat) : V × Moment V :=
  let r := B.react s.situation f (s.passed.drop (s.passed.length - count))
  (r.1, { s with
    store := r.2.store
    passed := s.passed.take (s.passed.length - count)
    trace := r.2.trace })

/-- The value of a right-hand side, and where the run stands then. -/
def eval (s : Moment V) : Rvalue → V × Moment V
  | .call f count => B.invoke s f count
  | value => B.operations.eval s value

/-- One step.  A run ends behind the code, and where a body begins or ends. -/
def step (code : List Instruction) (s : Moment V) : Option (Moment V) :=
  match code[s.pc]? with
  | none | some (.getparam _ _) | some (.ret _) => none
  | some (.label _) => some s.next
  | some (.assign dest value) => some ((B.eval s value).2.set dest (B.eval s value).1).next
  | some (.ifz cond target) =>
    let found := B.holds (B.eval s cond).1
    let s' := (B.eval s cond).2.tested found
    if found then some s'.next else s'.jump code target
  | some (.goto target) => s.jump code target
  | some (.param value) => some { s.next with passed := s.passed ++ [B.operations.read s value] }
  | some (.call f count) => some (B.invoke s f count).2.next

/-- Some steps. -/
def steps (code : List Instruction) : Nat → Moment V → Option (Moment V)
  | 0, s => some s
  | n + 1, s => (B.step code s).bind (steps code n)

section Step

variable {B} {code : List Instruction} {s s₁ s₂ : Moment V} {dest name : String} {value : Rvalue}

theorem step_assign (h : code[s.pc]? = some (.assign dest value)) :
    B.step code s = some ((B.eval s value).2.set dest (B.eval s value).1).next := by
  rw [step, h]

theorem step_param (h : code[s.pc]? = some (.param name)) :
    B.step code s = some { s.next with passed := s.passed ++ [B.operations.read s name] } := by
  rw [step, h]

theorem steps_add {m n : Nat} (h : B.steps code m s = some s₁) (h' : B.steps code n s₁ = some s₂) :
    B.steps code (m + n) s = some s₂ := by
  induction m generalizing s with
  | zero =>
    cases h
    rwa [Nat.zero_add]
  | succ m ih =>
    obtain ⟨s', hstep, hmore⟩ := Option.bind_eq_some_iff.1 h
    rw [Nat.add_right_comm, steps, hstep]
    exact ih hmore

theorem steps_one (h : B.step code s = some s₁) : B.steps code 1 s = some s₁ := by
  rw [steps, h]
  rfl

theorem eval_pc (s : Moment V) (value : Rvalue) : (B.eval s value).2.pc = s.pc := by
  cases value <;> rfl

/-- A fragment calls nothing. -/
theorem eval_fragment (s : Moment V) (f : Fragment) (t : RenameTable) :
    B.eval s (f.lower t) = B.operations.eval s (f.lower t) := by
  cases f with
  | atom negated a => cases negated <;> rfl
  | not | zero | bool => rfl

theorem react_store_other (σ : Situation V) (f : String) (args : List V) {x : String} (hx : x ∉ globals) :
    (B.react σ f args).2.store x = σ.store x := if_neg hx

end Step

end Behaviour

/-! ### Calls that change nothing -/

namespace Interpretation

variable (I : Interpretation V) (s : Moment V)

/-- An interpretation as a behaviour without global variables. -/
def behaviour : Behaviour V [] :=
  ⟨I.constant, I.apply, I.invert, I.holds, fun h f args _ => (I.answer h f args, fun _ => I.constant .nothing)⟩

theorem invoke_behaviour (f : String) (count : Nat) : I.behaviour.invoke s f count = I.call s f count := by
  have hstore (σ : Situation V) (args : List V) : (I.behaviour.react σ f args).2.store = σ.store :=
    funext fun _ => Behaviour.react_store_other σ f args List.not_mem_nil
  rw [Behaviour.invoke, hstore]
  rfl

theorem eval_behaviour (value : Rvalue) : I.behaviour.eval s value = I.eval s value := by
  cases value with
  | call f count => exact I.invoke_behaviour s f count
  | atom | binary | not => rfl

/-- Where calls change nothing, code runs as it does under the interpretation. -/
theorem step_behaviour (code : List Instruction) : I.behaviour.step code s = I.step code s := by
  unfold Behaviour.step step
  cases code[s.pc]? with
  | none => rfl
  | some i =>
    cases i with
    | assign dest value => simp only [I.eval_behaviour]
    | ifz cond target =>
      simp only [I.eval_behaviour]
      rfl
    | call f count => simp only [I.invoke_behaviour]
    | label | goto | param | getparam | ret => rfl

end Interpretation

/-! ### Agreement -/

/-- A run has the variables of a situation, as far as they have no names of the supply, and has seen the same. -/
structure Moment.Shares (s : Moment V) (σ : Situation V) : Prop where
  store : ∀ x, isReservedName x = false → s.store x = σ.store x
  trace : s.trace = σ.trace

/-- The temporaries below some number keep their values. -/
def Moment.Keeps (k : Nat) (s s' : Moment V) : Prop := ∀ j, j < k → s'.store (tempName j) = s.store (tempName j)

namespace Moment

variable {s s₁ s₂ : Moment V} {σ : Situation V} {k k' : Nat}

theorem shares_situation (s : Moment V) : s.Shares s.situation := ⟨fun _ _ => rfl, rfl⟩

theorem Shares.sees (h : s.Shares σ) (t : RenameTable) : t.Sees σ.store s :=
  fun _ _ hr => h.store _ (t.resolve_unreserved hr)

theorem Shares.next (h : s.Shares σ) : s.next.Shares σ := ⟨h.store, h.trace⟩

/-- A name of the supply is assigned. -/
theorem Shares.set (h : s.Shares σ) {x : String} (hx : isReservedName x = true) (v : V) : (s.set x v).Shares σ := by
  refine ⟨fun y hy => ?_, h.trace⟩
  refine (s.set_store_other v ?_).trans (h.store y hy)
  rintro rfl
  rw [hx] at hy
  cases hy

theorem Keeps.refl (k : Nat) (s : Moment V) : s.Keeps k s := fun _ _ => rfl

theorem Keeps.trans (h : s.Keeps k s₁) (h' : s₁.Keeps k' s₂) (hk : k ≤ k') : s.Keeps k s₂ :=
  fun j hj => (h' j (Nat.lt_of_lt_of_le hj hk)).trans (h j hj)

theorem Keeps.mono (h : s.Keeps k' s₁) (hk : k ≤ k') : s.Keeps k s₁ := fun j hj => h j (Nat.lt_of_lt_of_le hj hk)

theorem Keeps.set (h : s.Keeps k s₁) {x : String} (hx : ∀ j, j < k → tempName j ≠ x) (v : V) :
    s.Keeps k (s₁.set x v) := fun j hj => (s₁.set_store_other v (hx j hj)).trans (h j hj)

end Moment

namespace Behaviour

variable {globals : List String} {B : Behaviour V globals} {code : List Instruction} {s s₁ s₂ : Moment V}
  {σ : Situation V} {k k' m n : Nat} {value : Rvalue} {r : V × Situation V} {dest : String}

/-- What is called sees no names of the supply, and changes none. -/
theorem react_shares (hg : ∀ x ∈ globals, isReservedName x = false) (h : s.Shares σ) (f : String) (args : List V) :
    (B.react s.situation f args).1 = (B.react σ f args).1 ∧
      (∀ x, isReservedName x = false →
        (B.react s.situation f args).2.store x = (B.react σ f args).2.store x) ∧
      (B.react s.situation f args).2.trace = (B.react σ f args).2.trace := by
  have hvalues : globals.map s.store = globals.map σ.store :=
    List.map_congr_left fun x hx => h.store x (hg x hx)
  simp only [react, Moment.situation, hvalues, h.trace, true_and, and_true]
  intro x hx
  rw [h.store x hx]

/-! ### Runs through code -/

/-- Steps to the end of some code, where a situation has come about.  Temporaries below some number keep their
values. -/
structure Crosses (B : Behaviour V globals) (code : List Instruction) (k length : Nat) (s s' : Moment V)
    (σ : Situation V) : Prop where
  steps : B.steps code length s = some s'
  pc : s'.pc = s.pc + length
  passed : s'.passed = s.passed
  shares : s'.Shares σ
  keeps : s.Keeps k s'

/-- Steps to where a right-hand side is to be taken: it has some value and brings about some situation. -/
structure Computes (B : Behaviour V globals) (code : List Instruction) (k length : Nat) (value : Rvalue)
    (s s' : Moment V) (r : V × Situation V) : Prop where
  steps : B.steps code length s = some s'
  pc : s'.pc = s.pc + length
  gives : (B.eval s' value).1 = r.1
  passed : (B.eval s' value).2.passed = s.passed
  shares : (B.eval s' value).2.Shares r.2
  keeps : s.Keeps k (B.eval s' value).2

theorem Crosses.refl (k : Nat) (h : s.Shares σ) : B.Crosses code k 0 s s σ := ⟨rfl, rfl, rfl, h, .refl k s⟩

theorem Crosses.append {σ' : Situation V} (h : B.Crosses code k m s s₁ σ) (h' : B.Crosses code k' n s₁ s₂ σ')
    (hk : k ≤ k') : B.Crosses code k (m + n) s s₂ σ' where
  steps := steps_add h.steps h'.steps
  pc := by rw [h'.pc, h.pc, Nat.add_assoc]
  passed := h'.passed.trans h.passed
  shares := h'.shares
  keeps := h.keeps.trans h'.keeps hk

theorem Crosses.computes (h : B.Crosses code k m s s₁ σ) (h' : B.Computes code k' n value s₁ s₂ r) (hk : k ≤ k') :
    B.Computes code k (m + n) value s s₂ r where
  steps := steps_add h.steps h'.steps
  pc := by rw [h'.pc, h.pc, Nat.add_assoc]
  gives := h'.gives
  passed := h'.passed.trans h.passed
  shares := h'.shares
  keeps := h.keeps.trans h'.keeps hk

/-- A right-hand side that is no call can be taken at once. -/
theorem Computes.here {v : V} (k : Nat) (h : s.Shares σ) (heval : B.eval s value = (v, s)) :
    B.Computes code k 0 value s s (v, σ) := by
  refine ⟨rfl, rfl, ?_, ?_, ?_, ?_⟩ <;> rw [heval]
  · exact h
  · exact .refl k s

/-- Where an atom is to be taken, its code has come to its end. -/
theorem Computes.crosses {a : String} (h : B.Computes code k n (.atom a) s s₁ r) : B.Crosses code k n s s₁ r.2 :=
  ⟨h.steps, h.pc, h.passed, h.shares, h.keeps⟩

/-- A name of the supply is assigned. -/
theorem Computes.assign (h : B.Computes code k n value s s₁ r) (hdest : isReservedName dest = true)
    (hk : ∀ j, j < k → tempName j ≠ dest) (hat : code[s.pc + n]? = some (.assign dest value)) :
    ∃ s', B.Crosses code k (n + 1) s s' r.2 ∧ s'.store dest = r.1 := by
  rw [← h.pc] at hat
  refine ⟨_, ⟨steps_add h.steps (steps_one (step_assign hat)), ?_, h.passed, ?_, ?_⟩, ?_⟩
  · show (B.eval s₁ value).2.pc + 1 = _
    rw [eval_pc, h.pc, Nat.add_assoc]
  · exact (h.shares.set hdest _).next
  · exact h.keeps.set hk _
  · exact (Moment.set_store_same _ dest _).trans h.gives

/-- The next temporary is assigned. -/
theorem Computes.assignTemp (h : B.Computes code k n value s s₁ r) (hk : k ≤ k')
    (hat : code[s.pc + n]? = some (.assign (tempName k') value)) :
    ∃ s', B.Crosses code k (n + 1) s s' r.2 ∧ s'.store (tempName k') = r.1 := by
  refine h.assign (isReservedName_tempName k') (fun j hj heq => ?_) hat
  have hjk := NameSupply.tempName_inj heq
  omega

end Behaviour

/-! ### Atoms to be read later -/

/-- Whenever an atom is read while the temporaries below some number have kept their values, it is read as something
that depends on the variables of that time. -/
def Moment.Promises {globals : List String} (B : Behaviour V globals) (k : Nat) (s : Moment V) (a : String)
    (read : (String → V) → V) : Prop :=
  ∀ s' σ, s.Keeps k s' → s'.Shares σ → B.operations.read s' a = read σ.store

namespace Moment.Promises

variable {globals : List String} {B : Behaviour V globals} {code : List Instruction} {s s' : Moment V} {k k' n : Nat}
  {a : String} {read : (String → V) → V} {σ : Situation V}

theorem mono (h : s.Promises B k a read) (hcross : B.Crosses code k n s s' σ) (hk : k ≤ k') :
    s'.Promises B k' a read := fun s'' σ' hkeeps => h s'' σ' (hcross.keeps.trans (hkeeps.mono hk) (Nat.le_refl k))

/-- A temporary that has been assigned. -/
theorem temp {j : Nat} {v : V} (hj : j < k) (hv : s.store (tempName j) = v) :
    s.Promises B k (tempName j) fun _ => v := by
  intro s' σ hkeeps _
  rw [Interpretation.read_name s' (literal?_of_isReservedName (isReservedName_tempName j)), hkeeps j hj, hv]

end Moment.Promises

end ThreeAddress
