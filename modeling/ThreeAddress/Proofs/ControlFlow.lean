import ThreeAddress.Proofs.Supplies

/-!
# Control flow of three-address code

The places that control can pass between, whatever the conditions come to.

* `SetAt`, `ReadAt` — the places of code that set a name and that read it;
* `Instruction.target?`, `Jump` — the label that an instruction may jump to, and the jumps of code;
* `Flow`, `Path` — control may pass from one place to the next one; a path, and the places that it leaves;
* `Machine.trace`, `Machine.path_of_steps` — the places that a run leaves, which are those of a path;
* `Jump.unique` — where labels are defined once, a jump has one end;
* `Path.enters`, `Path.passes` — a path enters a piece of code that nothing jumps into at its beginning, and passes
  each place that no jump leads around.
-/

namespace ThreeAddress

/-! ### Places -/

/-- The operands of a right-hand side. -/
def Rvalue.operands : Rvalue → List String
  | .atom text => [text]
  | .binary left _ right => [left, right]
  | .call _ _ => []
  | .not operand => [operand]

/-- The texts that an instruction reads. -/
def Instruction.uses : Instruction → List String
  | .assign _ value | .ifz value _ | .ret (some value) => value.operands
  | .param value => [value]
  | .label _ | .goto _ | .call _ _ | .getparam _ _ | .ret none => []

theorem getElem?_front {code more : List Instruction} {a : Nat} {i : Instruction} (h : code[a]? = some i) :
    (code ++ more)[a]? = some i := by
  rw [List.getElem?_append_left (List.getElem?_eq_some_iff.1 h).1]
  exact h

/-- The instruction at a place has a property. -/
def PlaceWith (P : Instruction → Prop) (code : List Instruction) (a : Nat) : Prop := ∃ i, code[a]? = some i ∧ P i

/-- A place that sets a name. -/
abbrev SetAt (x : String) : List Instruction → Nat → Prop := PlaceWith fun i => i.dest? = some x

/-- A place that reads a name. -/
abbrev ReadAt (x : String) : List Instruction → Nat → Prop := PlaceWith fun i => x ∈ i.uses

namespace PlaceWith

variable {P : Instruction → Prop} {code more : List Instruction} {a : Nat}

instance [DecidablePred P] : Decidable (PlaceWith P code a) := inferInstanceAs (Decidable (∃ i ∈ code[a]?, P i))

theorem append : PlaceWith P (code ++ more) a ↔ PlaceWith P code a ∨ ∃ c, a = code.length + c ∧ PlaceWith P more c := by
  constructor
  · intro ⟨i, hi, hp⟩
    by_cases ha : a < code.length
    · rw [List.getElem?_append_left ha] at hi
      exact .inl ⟨i, hi, hp⟩
    · rw [List.getElem?_append_right (by omega)] at hi
      exact .inr ⟨a - code.length, by omega, i, hi, hp⟩
  · rintro (⟨i, hi, hp⟩ | ⟨c, rfl, i, hi, hp⟩)
    · exact ⟨i, getElem?_front hi, hp⟩
    · refine ⟨i, ?_, hp⟩
      rw [List.getElem?_append_right (by omega), Nat.add_sub_cancel_left]
      exact hi

theorem lt_length (h : PlaceWith P code a) : a < code.length := by
  obtain ⟨i, hi, -⟩ := h
  exact (List.getElem?_eq_some_iff.1 hi).1

theorem none (h : ∀ i ∈ code, ¬P i) : ¬PlaceWith P code a := by
  intro ⟨i, hi, hp⟩
  exact h i (List.mem_of_getElem? hi) hp

theorem cons {i : Instruction} : PlaceWith P (i :: more) a ↔ a = 0 ∧ P i ∨ ∃ c, a = c + 1 ∧ PlaceWith P more c := by
  cases a with
  | zero => simp [PlaceWith]
  | succ a => simp [PlaceWith]

end PlaceWith

/-! ### Jumps -/

/-- The label that an instruction may jump to. -/
def Instruction.target? : Instruction → Option String
  | .ifz _ target | .goto target => some target
  | _ => none

/-- Whether control may go on to the instruction behind. -/
def Instruction.goesOn : Instruction → Bool
  | .goto _ | .ret _ => false
  | _ => true

/-- The labels that code may jump to, in order. -/
def jumpTargets (code : List Instruction) : List String := code.filterMap Instruction.target?

@[simp] theorem jumpTargets_append (a b : List Instruction) :
    jumpTargets (a ++ b) = jumpTargets a ++ jumpTargets b := List.filterMap_append

/-- The instruction at one place may jump to the label at another. -/
def Jump (code : List Instruction) (a b : Nat) : Prop :=
  ∃ i l, code[a]? = some i ∧ i.target? = some l ∧ code[b]? = some (.label l)

/-- Control may pass from one place to another. -/
inductive Flow (code : List Instruction) : Nat → Nat → Prop
  | next {a : Nat} {i : Instruction} (hi : code[a]? = some i) (hn : i.goesOn = true) : Flow code a (a + 1)
  | jump {a b : Nat} (h : Jump code a b) : Flow code a b

/-- A path from one place to another, with the places that it leaves, in order. -/
inductive Path (code : List Instruction) : Nat → List Nat → Nat → Prop
  | here (a : Nat) : Path code a [] a
  | step {a b c : Nat} {left : List Nat} (h : Flow code a b) (hp : Path code b left c) :
      Path code a (a :: left) c

/-- Control passes on from places in the code only. -/
theorem Flow.lt_length {code : List Instruction} {a b : Nat} (h : Flow code a b) : a < code.length := by
  cases h with
  | next hi => exact (List.getElem?_eq_some_iff.1 hi).1
  | jump hj =>
    obtain ⟨i, l, hi, -⟩ := hj
    exact (List.getElem?_eq_some_iff.1 hi).1

/-! ### Runs follow paths -/

section Runs

variable {M : Machine} {s s' : State}

theorem Machine.flow_of_jump {i : Instruction} {l : String} (hi : M.code[s.pc]? = some i)
    (hl : i.target? = some l) {s₁ : State} (hj : M.jump s₁ l = some s') : Flow M.code s.pc s'.pc := by
  unfold Machine.jump at hj
  split at hj
  · rename_i hmem
    cases hj
    refine .jump ⟨i, l, hi, hl, ?_⟩
    show M.code[M.code.idxOf (.label l)]? = some (.label l)
    rw [List.getElem?_eq_getElem (List.idxOf_lt_length_of_mem hmem), List.getElem_idxOf]
  · cases hj

theorem Machine.eval_pc (M : Machine) (s : State) (r : Rvalue) : (M.eval s r).2.pc = s.pc := by
  cases r <;> rfl

/-- A step of the machine passes control on. -/
theorem Machine.flow_of_step (h : M.step s = some s') : Flow M.code s.pc s'.pc := by
  unfold Machine.step at h
  split at h
  · cases h
  · cases h
  · rename_i hi
    cases h
    exact .next hi rfl
  · rename_i hi
    cases h
    rw [State.next_pc, State.set_pc, M.eval_pc]
    exact .next hi rfl
  · rename_i hi
    split at h
    · cases h
      rw [State.next_pc, M.eval_pc]
      exact .next hi rfl
    · exact Machine.flow_of_jump hi rfl h
  · rename_i hi
    exact Machine.flow_of_jump hi rfl h
  · rename_i hi
    cases h
    exact .next hi rfl
  · rename_i hi
    cases h
    exact .next hi rfl
  · rename_i hi
    cases h
    exact .next hi rfl

/-- The places that a run of some steps leaves, in order. -/
def Machine.trace (M : Machine) : Nat → State → List Nat
  | 0, _ => []
  | n + 1, s => s.pc :: (M.step s).elim [] (M.trace n)

/-- **Runs follow paths.** -/
theorem Machine.path_of_steps {n : Nat} (h : M.steps n s = some s') : Path M.code s.pc (M.trace n s) s'.pc := by
  induction n generalizing s with
  | zero =>
    cases h
    exact .here _
  | succ n ih =>
    rw [Machine.steps] at h
    obtain ⟨s₁, hs, hrest⟩ := Option.bind_eq_some_iff.1 h
    rw [Machine.trace, hs]
    exact .step (Machine.flow_of_step hs) (ih hrest)

end Runs

/-! ### Labels that are defined once -/

/-- Where labels are defined once, a jump has one end. -/
theorem Jump.unique {code : List Instruction} (hu : (definedLabels code).Nodup) {a b c : Nat}
    (hb : Jump code a b) (hc : Jump code a c) : b = c := by
  obtain ⟨i, l, hi, hl, hb⟩ := hb
  obtain ⟨i', l', hi', hl', hc⟩ := hc
  rw [hi] at hi'
  cases hi'
  rw [hl] at hl'
  cases hl'
  exact place_unique hu hb rfl hc rfl

/-! ### Paths -/

section Paths

variable {code : List Instruction} {a b : Nat} {left : List Nat}

/-- Nothing outside a piece of code jumps into it. -/
def SealedOff (code : List Instruction) (lo hi : Nat) : Prop :=
  ∀ a b, Jump code a b → lo ≤ b → b < hi → lo ≤ a ∧ a < hi

/-- **Paths enter at the beginning.**  A path into a piece of code that nothing jumps into comes by its first
instruction. -/
theorem Path.enters {lo hi : Nat} (hs : SealedOff code lo hi) (hp : Path code a left b)
    (ha : a ≤ lo ∨ hi ≤ a) (hb : lo ≤ b) (hb' : b < hi) : lo ∈ left ∨ b = lo := by
  induction hp with
  | here a =>
    right
    omega
  | @step a c b left hf hp ih =>
    by_cases h : a = lo
    · exact .inl (by rw [h]; exact List.mem_cons_self)
    · have hc : c ≤ lo ∨ hi ≤ c := by
        cases hf with
        | next => omega
        | jump hj =>
          have := hs _ _ hj
          omega
      rcases ih hc hb hb' with h | h
      · exact .inl (List.mem_cons_of_mem _ h)
      · exact .inr h

/-- A path leads from each place that it leaves to its end. -/
theorem Path.split {c : Nat} (hp : Path code a left b) (hc : c ∈ left) :
    ∃ front back, left = front ++ back ∧ Path code a front c ∧ Path code c back b := by
  induction hp with
  | here => exact absurd hc List.not_mem_nil
  | @step a d b left hf hp ih =>
    by_cases hca : c = a
    · subst hca
      exact ⟨[], c :: left, rfl, .here c, .step hf hp⟩
    · obtain ⟨front, back, hleft, hfront, hback⟩ := ih ((List.mem_cons.1 hc).resolve_left hca)
      exact ⟨a :: front, back, by rw [hleft, List.cons_append], .step hf hfront, hback⟩

/-- From one place on, jumps lead no farther than to another place. -/
def Funnels (code : List Instruction) (lo hi : Nat) : Prop :=
  ∀ a b, Jump code a b → lo ≤ a → a < hi → lo ≤ b ∧ b ≤ hi

/-- **Paths pass what no jump leads around.**  If jumps from one place on lead no farther than to another one, a path
from the one to behind the other leaves that other one. -/
theorem Path.passes {lo k : Nat} (hf : Funnels code lo k) (hp : Path code a left b) (ha : lo ≤ a) (ha' : a ≤ k)
    (hb : k < b) : k ∈ left := by
  induction hp with
  | here => omega
  | @step a c b left hflow _ ih =>
    by_cases hk : a = k
    · rw [hk]
      exact List.mem_cons_self
    · have hc : lo ≤ c ∧ c ≤ k := by
        cases hflow with
        | next => omega
        | jump hj => exact hf a c hj ha (by omega)
      exact List.mem_cons_of_mem _ (ih hc.1 hc.2 hb)

end Paths

end ThreeAddress
