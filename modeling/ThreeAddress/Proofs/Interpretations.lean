import Mathlib.Logic.Relation
import ThreeAddress.Proofs.Supplies

/-!
# Code under any interpretation

Code runs over values of any kind: an interpretation says what the constants are, what the operators give, when a
branch is taken, and what calls answer.  Calls change no variable.

* `Observation`, `Interpretation`, `Moment` — what is seen of a run, what it depends on, and where it stands;
* `Interpretation.exact` — integers and truth values as they are;
* `Interpretation.step`, `Interpretation.Through` — one step, and a run that stays within a stretch of the code;
* `NameSupply.Gives`, `Unchanged` — the names between two supplies, and runs that change only these;
* `Interpretation.Crosses` — a run through a piece of code to its end;
* `Interpretation.Yields` — code that comes to a right-hand side of some value, wherever it stands.
-/

namespace ThreeAddress

open NameSupply (tempName flagName labelName)

variable {V : Type}

/-! ### Interpretations -/

/-- What is seen of a run: a call with its arguments, or a test with its outcome. -/
inductive Observation (V : Type)
  | call (callee : String) (args : List V)
  | test (outcome : Bool)

/-- What code means over some values: constants, operators, when a value counts as true, and what a call answers
behind what was seen before. -/
structure Interpretation (V : Type) where
  constant : Value → V
  apply : Operator → V → V → V
  invert : V → V
  holds : V → Bool
  answer : List (Observation V) → String → List V → V

/-- A sum or a difference of two integers. -/
def ArithOp.apply : ArithOp → Int → Int → Int
  | .plus, a, b => a + b
  | .minus, a, b => a - b

/-- Exact integers and truth values, with some answers to calls. -/
def Interpretation.exact (answer : List (Observation Value) → String → List Value → Value) :
    Interpretation Value where
  constant := id
  apply := World.apply ⟨ArithOp.apply, fun _ _ _ => .nothing⟩
  invert := Value.invert
  holds := Value.holds
  answer := answer

/-- Where a run stands: the instruction to come, the variables, the arguments passed for the next call, and what was
seen so far. -/
structure Moment (V : Type) where
  pc : Nat
  store : String → V
  passed : List V
  trace : List (Observation V)

namespace Moment

/-- A variable is assigned. -/
def set (s : Moment V) (x : String) (v : V) : Moment V :=
  { s with store := fun y => if y = x then v else s.store y }

/-- Go on to the next instruction. -/
def next (s : Moment V) : Moment V := { s with pc := s.pc + 1 }

/-- A test was seen. -/
def tested (s : Moment V) (outcome : Bool) : Moment V := { s with trace := s.trace ++ [.test outcome] }

/-- Go on at a label. -/
def jump (s : Moment V) (code : List Instruction) (label : String) : Option (Moment V) :=
  if .label label ∈ code then some { s with pc := code.idxOf (.label label) } else none

theorem set_store_same (s : Moment V) (x : String) (v : V) : (s.set x v).store x = v := if_pos rfl

theorem set_store_other (s : Moment V) {x y : String} (v : V) (h : y ≠ x) : (s.set x v).store y = s.store y :=
  if_neg h

end Moment

namespace Interpretation

variable (I : Interpretation V)

/-- The value of an atom. -/
def read (s : Moment V) (text : String) : V := ((literal? text).map I.constant).getD (s.store text)

/-- A call takes the arguments that were passed last. -/
def call (s : Moment V) (name : String) (count : Nat) : V × Moment V :=
  let args := s.passed.drop (s.passed.length - count)
  (I.answer s.trace name args,
    { s with
      passed := s.passed.take (s.passed.length - count)
      trace := s.trace ++ [.call name args] })

/-- The value of a right-hand side, and where the run stands then. -/
def eval (s : Moment V) : Rvalue → V × Moment V
  | .atom text => (I.read s text, s)
  | .binary left op right => (I.apply op (I.read s left) (I.read s right), s)
  | .call name count => I.call s name count
  | .not operand => (I.invert (I.read s operand), s)

/-- One step.  A run ends behind the code, and where a body begins or ends. -/
def step (code : List Instruction) (s : Moment V) : Option (Moment V) :=
  match code[s.pc]? with
  | none | some (.getparam _ _) | some (.ret _) => none
  | some (.label _) => some s.next
  | some (.assign dest value) => some ((I.eval s value).2.set dest (I.eval s value).1).next
  | some (.ifz cond target) =>
    let found := I.holds (I.eval s cond).1
    let s' := (I.eval s cond).2.tested found
    if found then some s'.next else s'.jump code target
  | some (.goto target) => s.jump code target
  | some (.param value) => some { s.next with passed := s.passed ++ [I.read s value] }
  | some (.call name count) => some (I.call s name count).2.next

/-- A run that stays within a stretch of the code until it arrives. -/
def Through (code : List Instruction) (first last : Nat) : Moment V → Moment V → Prop :=
  Relation.ReflTransGen fun s s' => first ≤ s.pc ∧ s.pc < last ∧ I.step code s = some s'

end Interpretation

namespace Interpretation.Through

variable {I : Interpretation V} {code : List Instruction} {a b c : Nat} {s s₁ s₂ : Moment V}

theorem widen {a' b' : Nat} (h : I.Through code a b s s₁) (ha : a' ≤ a) (hb : b ≤ b') : I.Through code a' b' s s₁ :=
  Relation.ReflTransGen.mono
    (fun _ _ hstep => ⟨Nat.le_trans ha hstep.1, Nat.lt_of_lt_of_le hstep.2.1 hb, hstep.2.2⟩) _ _ h

theorem append (h : I.Through code a b s s₁) (h' : I.Through code b c s₁ s₂) (hab : a ≤ b) (hbc : b ≤ c) :
    I.Through code a c s s₂ :=
  (h.widen (Nat.le_refl a) hbc).trans (h'.widen hab (Nat.le_refl c))

theorem single (h : I.step code s = some s₁) (ha : a ≤ s.pc) (hb : s.pc < b) : I.Through code a b s s₁ :=
  Relation.ReflTransGen.single ⟨ha, hb, h⟩

end Interpretation.Through

/-! ### Names between two supplies -/

/-- A temporary or a flag that is given on the way from one supply to another. -/
def NameSupply.Gives (n n' : NameSupply) (x : String) : Prop :=
  (∃ k, n.temp ≤ k ∧ k < n'.temp ∧ x = tempName k) ∨ ∃ k, n.flag ≤ k ∧ k < n'.flag ∧ x = flagName k

namespace NameSupply

variable {n n' n₁ n₂ : NameSupply} {x : String}

theorem Gives.mono (h : n₁.Gives n₂ x) (hn : n.Le n₁) (hn' : n₂.Le n') : n.Gives n' x := by
  rcases h with ⟨k, hk, hk', rfl⟩ | ⟨k, hk, hk', rfl⟩
  · exact .inl ⟨k, Nat.le_trans hn.temp hk, Nat.lt_of_lt_of_le hk' hn'.temp, rfl⟩
  · exact .inr ⟨k, Nat.le_trans hn.flag hk, Nat.lt_of_lt_of_le hk' hn'.flag, rfl⟩

/-- An old name is not given again. -/
theorem Old.not_gives (h : n.Old x) : ¬n.Gives n' x := by
  rintro (⟨k, hk, -, rfl⟩ | ⟨k, hk, -, rfl⟩)
  · exact (h k).1 hk rfl
  · exact (h k).2 hk rfl

end NameSupply

/-- Only names between two supplies have another value. -/
def Unchanged (n n' : NameSupply) (s s' : Moment V) : Prop := ∀ x, ¬n.Gives n' x → s'.store x = s.store x

namespace Unchanged

variable {n n' n₁ n₂ : NameSupply} {s s₁ s₂ : Moment V}

theorem of_eq (h : s₁.store = s.store) : Unchanged n n₁ s s₁ := fun x _ => congrFun h x

theorem widen (h : Unchanged n₁ n₂ s s₁) (hn : n.Le n₁) (hn' : n₂.Le n') : Unchanged n n' s s₁ :=
  fun x hx => h x fun hg => hx (hg.mono hn hn')

theorem trans (h : Unchanged n n' s s₁) (h' : Unchanged n n' s₁ s₂) : Unchanged n n' s s₂ :=
  fun x hx => (h' x hx).trans (h x hx)

theorem old (h : Unchanged n n₁ s s₁) {x : String} (hx : n.Old x) : s₁.store x = s.store x := h x hx.not_gives

end Unchanged

/-! ### Pieces of code -/

/-- Every label between two supplies stands at one place at most. -/
def DefinesOnce (code : List Instruction) (n n' : NameSupply) : Prop :=
  ∀ k, n.label ≤ k → k < n'.label → ∀ i j : Nat,
    code[i]? = some (.label (labelName k)) → code[j]? = some (.label (labelName k)) → i = j

theorem DefinesOnce.mono {code : List Instruction} {n n' n₁ n₂ : NameSupply} (h : DefinesOnce code n n')
    (hn : n.Le n₁) (hn' : n₂.Le n') : DefinesOnce code n₁ n₂ :=
  fun k hk hk' => h k (Nat.le_trans hn.label hk) (Nat.lt_of_lt_of_le hk' hn'.label)

/-- Where two pieces stand in a row, the first stands there, and the second behind it. -/
theorem piece_append {code a b : List Instruction} {pc : Nat} (h : a ++ b <+: code.drop pc) :
    a <+: code.drop pc ∧ b <+: code.drop (pc + a.length) := by
  obtain ⟨behind, h⟩ := h
  refine ⟨⟨b ++ behind, by rw [← h, List.append_assoc]⟩, behind, ?_⟩
  rw [← List.drop_drop, ← h, List.append_assoc, List.drop_left]

/-- Where a piece stands, its first instruction comes next. -/
theorem piece_head {code more : List Instruction} {i : Instruction} {pc : Nat}
    (h : i :: more <+: code.drop pc) : code[pc]? = some i := by
  obtain ⟨behind, h⟩ := h
  have hfirst := congrArg (·[0]?) h
  simpa [List.getElem?_drop] using hfirst.symm

namespace Interpretation

variable {I : Interpretation V} {code : List Instruction} {n n₁ n₂ : NameSupply} {s s₁ s₂ : Moment V}

/-- A run through a piece of code to its end.  Only names between two supplies change. -/
structure Crosses (I : Interpretation V) (code : List Instruction) (n n' : NameSupply) (length : Nat)
    (s s' : Moment V) : Prop where
  through : I.Through code s.pc (s.pc + length) s s'
  pc : s'.pc = s.pc + length
  unchanged : Unchanged n n' s s'

namespace Crosses

theorem refl (n : NameSupply) (s : Moment V) : I.Crosses code n n 0 s s := ⟨.refl, rfl, .of_eq rfl⟩

theorem append {j k : Nat} (h : I.Crosses code n n₁ j s s₁) (h' : I.Crosses code n n₁ k s₁ s₂) :
    I.Crosses code n n₁ (j + k) s s₂ := by
  have hthrough := h'.through
  rw [h.pc, Nat.add_assoc] at hthrough
  refine ⟨h.through.append hthrough (Nat.le_add_right _ _) (by omega), ?_, h.unchanged.trans h'.unchanged⟩
  rw [h'.pc, h.pc, Nat.add_assoc]

/-- A run through two pieces in a row, each with names of its own. -/
theorem trans {j k : Nat} (h : I.Crosses code n n₁ j s s₁) (h' : I.Crosses code n₁ n₂ k s₁ s₂) (hn : n.Le n₁)
    (hn' : n₁.Le n₂) : I.Crosses code n n₂ (j + k) s s₂ :=
  append ⟨h.through, h.pc, h.unchanged.widen (.refl n) hn'⟩ ⟨h'.through, h'.pc, h'.unchanged.widen hn (.refl n₂)⟩

/-- One step to the next instruction. -/
theorem single (h : I.step code s = some s₁) (hpc : s₁.pc = s.pc + 1) (hu : Unchanged n n₁ s s₁) :
    I.Crosses code n n₁ 1 s s₁ := ⟨.single h (Nat.le_refl _) (Nat.lt_succ_self _), hpc, hu⟩

end Crosses

/-- Wherever the code of a pass stands, with its labels nowhere else, a run through it comes to its end and changes
only names that it was given; the right-hand side of the pass then has some value, and some more has been seen. -/
def Yields (I : Interpretation V) (g : Generator) (r : Passed Generator Instruction Rvalue) (s : Moment V) (v : V)
    (trace : List (Observation V)) : Prop :=
  ∀ before behind : List Instruction, s.pc = before.length →
    (∀ l ∈ definedLabels r.record, l ∉ definedLabels before ∧ l ∉ definedLabels behind) →
    ∃ s', I.Crosses (before ++ r.record ++ behind) g.names r.state.names r.record.length s s' ∧
      I.eval s' r.value = (v, { s' with passed := s.passed, trace := trace })

/-! ### Steps -/

section Step

variable {dest target name : String} {value cond : Rvalue}

theorem step_label (h : code[s.pc]? = some (.label name)) : I.step code s = some s.next := by
  rw [step, h]

theorem step_assign (h : code[s.pc]? = some (.assign dest value)) :
    I.step code s = some ((I.eval s value).2.set dest (I.eval s value).1).next := by
  rw [step, h]

theorem step_param (h : code[s.pc]? = some (.param name)) :
    I.step code s = some { s.next with passed := s.passed ++ [I.read s name] } := by
  rw [step, h]

theorem step_ifz_true (h : code[s.pc]? = some (.ifz cond target)) (hc : I.holds (I.eval s cond).1 = true) :
    I.step code s = some ((I.eval s cond).2.tested true).next := by
  rw [step, h]
  simp only [hc, if_true]

theorem step_ifz_false (h : code[s.pc]? = some (.ifz cond target)) (hc : I.holds (I.eval s cond).1 = false) :
    I.step code s = ((I.eval s cond).2.tested false).jump code target := by
  rw [step, h]
  simp only [hc, Bool.false_eq_true, if_false]

end Step

theorem read_literal (s : Moment V) {text : String} {v : Value} (h : literal? text = some v) :
    I.read s text = I.constant v := by
  rw [read, h, Option.map_some, Option.getD_some]

theorem read_name (s : Moment V) {x : String} (h : literal? x = none) : I.read s x = s.store x := by
  rw [read, h, Option.map_none, Option.getD_none]

end Interpretation

/-- A label that stands at one place is where a jump goes. -/
theorem DefinesOnce.jump_eq {code : List Instruction} {n n' : NameSupply} {k pc : Nat} (h : DefinesOnce code n n')
    (hk : n.label ≤ k) (hk' : k < n'.label) (hat : code[pc]? = some (.label (labelName k))) (s : Moment V) :
    s.jump code (labelName k) = some { s with pc := pc } := by
  have hmem : Instruction.label (labelName k) ∈ code := List.mem_of_getElem? hat
  have hidx : code[code.idxOf (.label (labelName k))]? = some (.label (labelName k)) := by
    rw [List.getElem?_eq_getElem (List.idxOf_lt_length_of_mem hmem), List.getElem_idxOf]
  rw [Moment.jump, if_pos hmem, h k hk hk' _ _ hidx hat]

/-- An atom of the code has a value, and goes on to have it. -/
structure Shows (I : Interpretation V) (n : NameSupply) (s : Moment V) (a : String) (v : V) : Prop where
  read : I.read s a = v
  old : n.Old a

namespace Shows

variable {I : Interpretation V} {n n' : NameSupply} {s s' : Moment V} {a b : String} {v w : V}

theorem read_later (h : Shows I n s a v) (hu : Unchanged n n' s s') : I.read s' a = v := by
  rw [← h.read, Interpretation.read, Interpretation.read, hu.old h.old]

theorem mono (h : Shows I n s a v) (hu : Unchanged n n' s s') (hn : n.Le n') : Shows I n' s' a v :=
  ⟨h.read_later hu, h.old.mono hn⟩

/-- An operation on atoms gives the same when names that were given later have changed. -/
theorem eval_binary (op : Operator) (ha : Shows I n s a v) (hb : Shows I n s b w) (n' : NameSupply) (s' : Moment V)
    (hu : Unchanged n n' s s') : I.eval s' (.binary a op b) = (I.apply op v w, s') := by
  rw [Interpretation.eval, ha.read_later hu, hb.read_later hu]

end Shows

/-- A name that is given is assigned. -/
theorem Interpretation.assign_cross {I : Interpretation V} {code : List Instruction} {n n' : NameSupply}
    {s : Moment V} {dest : String} {value : Rvalue} {v : V} {p : List V} {h : List (Observation V)}
    (hat : code[s.pc]? = some (.assign dest value)) (heval : I.eval s value = (v, { s with passed := p, trace := h }))
    (hgives : n.Gives n' dest) (hold : n'.Old dest) (hname : literal? dest = none) :
    ∃ s', I.Crosses code n n' 1 s s' ∧ Shows I n' s' dest v ∧ s'.passed = p ∧ s'.trace = h := by
  have hstep := I.step_assign hat
  rw [heval] at hstep
  refine ⟨_, .single hstep rfl fun x hx => ?_, ⟨?_, hold⟩, rfl, rfl⟩
  · refine Moment.set_store_other _ v ?_
    rintro rfl
    exact hx hgives
  · exact (I.read_name _ hname).trans (Moment.set_store_same _ dest v)

end ThreeAddress
