import ThreeAddress.Proofs.Callees
import ThreeAddress.Proofs.StructuredBodies

/-!
# Control flow of compiled programs

The code of an accepted source is one piece for each body, and control stays in the piece where it is.

* `Program.label`, `Program.Within` — the label of a body, and the places in its code;
* `Program.Piece`, `Program.piece_at_body` — the code of a body: its label, structured code, and one instruction
  that ends it;
* `Program.FlowsAs` — what the labels, jumps, calls and returns of a program's code are like;
* `Program.Within.path`, `Program.FlowsAs.reaches` — paths and runs stay in the body where they begin;
* `compile_flowsAs` — the code of an accepted source is like that.
-/

namespace ThreeAddress

open NameSupply (labelName)

/-- A piece of code jumps only inside if all but the two places at its ends do, and those do not jump. -/
theorem Region.widen {code : List Instruction} {lo hi : Nat} {spans : List (Nat × Nat)} {i j : Instruction}
    (h : Region code (lo + 1) hi spans) (hi' : code[lo]? = some i) (hj : code[hi]? = some j)
    (ti : i.target? = none) (tj : j.target? = none) : Region code lo (hi + 1) spans where
  within := (JumpsWithin.quiet hi' ti).stretch.append
    ((h.stretch (Nat.le_succ lo) (Nat.le_succ hi) fun _ => id).append (JumpsWithin.quiet hj tj).stretch)
  back := h.loops (Nat.le_succ lo) (Nat.le_succ hi)
  distinct := h.distinct

namespace Program

/-! ### Bodies in the code -/

/-- The name of the label that the code of a body begins with. -/
def label (p : Program) (i : Nat) : String :=
  match p.funcs[i]? with
  | some f => f.name
  | none => "main"

/-- A place in the code of a body, from its label up to its last instruction. -/
structure Within (p : Program) (i a : Nat) : Prop where
  body : i ≤ p.funcs.length
  from_start : p.start i ≤ a
  to_finish : a ≤ p.finish i

/-- What ends a body: a function returns, and the main part makes the call that ends the program. -/
def EndsBy (p : Program) (i : Nat) (last : Instruction) : Prop :=
  (i < p.funcs.length ∧ ∃ v, last = .ret v) ∨ (i = p.funcs.length ∧ last = .call exitRoutine 0)

/-- The code of a body is its label, structured code, and what ends it. -/
structure Piece (p : Program) (i : Nat) (b : Body) (before c : List Instruction) (last : Instruction)
    (behind : List Instruction) : Prop where
  code : p.code = before ++ (.label (p.label i) :: (c ++ [last])) ++ behind
  start : before.length = p.start i
  finish : p.finish i = p.start i + (c.length + 1)
  structured : Structured b.block.loops c
  ends : p.EndsBy i last
  behind : i = p.funcs.length → behind = []

variable {p : Program}

theorem piece_at_body {i : Nat} {b : Body} (hb : p.bodies[i]? = some b) :
    ∃ before c last behind, p.Piece i b before c last behind := by
  rcases getElem?_bodies hb with ⟨f, hf, rfl⟩ | ⟨rfl, rfl⟩
  · obtain ⟨hi, -⟩ := List.getElem?_eq_some_iff.1 hf
    obtain ⟨⟨behind, hcode⟩, -, hfinish⟩ := code_at_nth hf
    obtain ⟨c, v, hrecord, hc⟩ := f.lowerWithin_structured (Generator.first.behind (p.funcs.take i))
    have hlabel : p.label i = f.name := by rw [label, hf]
    rw [hrecord] at hcode hfinish
    rw [← hlabel] at hcode
    rw [List.length_append] at hfinish
    exact ⟨_, c, .ret v, behind, hcode, rfl, hfinish, hc, .inl ⟨hi, v, rfl⟩, fun h => by omega⟩
  · obtain ⟨c, hrecord, hc⟩ := p.lowerMainWithin_structured (Generator.first.behind p.funcs)
    have hlabel : p.label p.funcs.length = "main" := by rw [label, List.getElem?_length]
    have hcode := p.code_eq
    have hfinish := p.finish_main
    rw [hrecord] at hcode hfinish
    rw [← hlabel] at hcode
    rw [List.length_append] at hfinish
    refine ⟨_, c, .call exitRoutine 0, [], ?_, p.start_main.symm, hfinish, hc, .inr ⟨rfl, rfl⟩, fun _ => rfl⟩
    rw [List.append_nil]
    exact hcode

namespace Piece

variable {i : Nat} {b : Body} {before c behind : List Instruction} {last : Instruction}

theorem at_start (h : p.Piece i b before c last behind) : p.code[p.start i]? = some (.label (p.label i)) := by
  have hcode : p.code = before ++ .label (p.label i) :: (c ++ [last] ++ behind) := by
    rw [h.code, List.append_assoc]
    rfl
  exact getElem?_behind hcode h.start

theorem at_finish (h : p.Piece i b before c last behind) : p.code[p.finish i]? = some last := by
  have hlength : (before ++ Instruction.label (p.label i) :: c).length = p.finish i := by
    rw [h.finish, ← h.start, List.length_append, List.length_cons]
  have hcode : p.code = (before ++ Instruction.label (p.label i) :: c) ++ last :: behind := by
    rw [h.code]
    simp
  exact getElem?_behind hcode hlength

/-- Where the code of a body jumps to. -/
theorem region (h : p.Piece i b before c last behind) :
    ∃ spans, Region p.code (p.start i) (p.finish i + 1) spans ∧
      List.Forall₂ (LoopSpan p.code) b.block.loops spans := by
  have hcode : p.code = (before ++ [.label (p.label i)]) ++ c ++ (last :: behind) := by simp [h.code]
  have hstart : (before ++ [Instruction.label (p.label i)]).length = p.start i + 1 := by
    rw [List.length_append, List.length_singleton, h.start]
  have hfinish : p.start i + 1 + c.length = p.finish i := by
    rw [h.finish]
    omega
  obtain ⟨spans, hr, hs⟩ := h.structured.region hcode hstart hfinish
  have hquiet : last.target? = none := by
    rcases h.ends with ⟨-, v, rfl⟩ | ⟨-, rfl⟩ <;> rfl
  exact ⟨spans, hr.widen h.at_start h.at_finish rfl hquiet, hs⟩

/-- A return in a body is its last instruction. -/
theorem ret_at (h : p.Piece i b before c last behind) {a : Nat} {v : Option Rvalue}
    (ha : p.code[a]? = some (.ret v)) (hlo : p.start i ≤ a) (hhi : a ≤ p.finish i) :
    i < p.funcs.length ∧ a = p.finish i := by
  have hfinish := h.finish
  have hlast : a = p.finish i := by
    by_contra hne
    have hmem : Instruction.ret v ∈ .label (p.label i) :: c := by
      have hcode : p.code = before ++ (.label (p.label i) :: c) ++ last :: behind := by
        rw [h.code]
        simp
      have hlo' : before.length ≤ a := by
        rw [h.start]
        exact hlo
      refine mem_middle hcode ha hlo' ?_
      rw [h.start, List.length_cons]
      omega
    rcases List.mem_cons.1 hmem with hmem | hmem
    · cases hmem
    · exact h.structured.not_ret v hmem
  have hreturn := h.at_finish
  rw [← hlast, ha] at hreturn
  rcases h.ends with ⟨hi, -⟩ | ⟨-, rfl⟩
  · exact ⟨hi, hlast⟩
  · cases hreturn

end Piece

/-! ### Bodies side by side -/

/-- Every body up to the main part has its piece. -/
theorem piece_at {i : Nat} (hi : i ≤ p.funcs.length) :
    ∃ b before c last behind, p.bodies[i]? = some b ∧ p.Piece i b before c last behind := by
  have hlt : i < p.bodies.length := by
    rw [bodies, List.length_append, List.length_map, List.length_singleton]
    omega
  have hb := List.getElem?_eq_getElem hlt
  obtain ⟨before, c, last, behind, h⟩ := piece_at_body hb
  exact ⟨_, before, c, last, behind, hb, h⟩

theorem start_lt_finish {i : Nat} (hi : i ≤ p.funcs.length) : p.start i < p.finish i := by
  obtain ⟨b, before, c, last, behind, -, h⟩ := piece_at hi
  rw [h.finish]
  omega

/-- A body begins behind the one before it. -/
theorem start_succ {i : Nat} (hi : i < p.funcs.length) : p.start (i + 1) = p.finish i + 1 := by
  have hlt := start_lt_finish (Nat.le_of_lt hi)
  have hfinish : p.finish i = p.start (i + 1) - 1 := by rw [finish, if_pos hi]
  omega

/-- The code ends with the main part. -/
theorem length_code : p.code.length = p.finish p.funcs.length + 1 := by
  have hlt := start_lt_finish (Nat.le_refl p.funcs.length)
  have hfinish : p.finish p.funcs.length = p.code.length - 1 := by rw [finish, if_neg (Nat.lt_irrefl _)]
  omega

/-- A body ends before all later ones begin. -/
theorem finish_lt_start {i j : Nat} (hij : i < j) (hj : j ≤ p.funcs.length) : p.finish i < p.start j := by
  induction j with
  | zero => omega
  | succ j ih =>
    rw [start_succ hj]
    by_cases h : i = j
    · rw [h]
      exact Nat.lt_succ_self _
    · have hearlier := ih (by omega) (by omega)
      have hlt : p.start j < p.finish j := start_lt_finish (by omega)
      omega

/-- No place belongs to two bodies. -/
theorem Within.unique {i j a : Nat} (hi : p.Within i a) (hj : p.Within j a) : i = j := by
  rcases Nat.lt_trichotomy i j with h | h | h
  · have := finish_lt_start h hj.body
    have := hi.to_finish
    have := hj.from_start
    omega
  · exact h
  · have := finish_lt_start h hi.body
    have := hj.to_finish
    have := hi.from_start
    omega

/-- Every place belongs to a body. -/
theorem exists_within {a : Nat} (ha : a < p.code.length) : ∃ i, p.Within i a := by
  have hbefore : ∀ k, k ≤ p.funcs.length → a < p.start k → ∃ i, p.Within i a := by
    intro k
    induction k with
    | zero => exact fun _ h => absurd h (Nat.not_lt_zero a)
    | succ k ih =>
      intro hk h
      rw [start_succ hk] at h
      by_cases hstart : a < p.start k
      · exact ih (by omega) hstart
      · exact ⟨k, by omega, by omega, by omega⟩
  by_cases hmain : a < p.start p.funcs.length
  · exact hbefore _ (Nat.le_refl _) hmain
  · rw [length_code] at ha
    exact ⟨_, Nat.le_refl _, by omega, by omega⟩

/-! ### Calls -/

/-- What a place of a body calls is a function declared up to there, but for the end of the program. -/
theorem WellFormed.calls (hw : p.WellFormed) (hs : p.Spelled) {i a : Nat} {ins : Instruction} {f : String}
    (ha : p.Within i a) (hend : a + 1 < p.code.length) (hins : p.code[a]? = some ins) (hf : ins.callee? = some f) :
    ∃ j, j ≤ i ∧ j < p.funcs.length ∧ p.label j = f := by
  have hmem : f ∈ (p.funcs.take (i + 1)).map (·.name) := by
    by_cases hi : i < p.funcs.length
    · have hfunc := List.getElem?_eq_getElem hi
      obtain ⟨⟨behind, hcode⟩, hordinal, hfinish⟩ := code_at_nth hfunc
      have ha' := ha.to_finish
      refine hw.callees_func hs hfunc hordinal ?_ hf
      rw [Func.run_lower]
      refine mem_middle hcode hins ha.from_start ?_
      rw [List.length_cons]
      show a < p.start i + _
      omega
    · have hmain : i = p.funcs.length := by
        have := ha.body
        omega
      obtain ⟨c, hrecord, -⟩ := p.lowerMainWithin_structured (Generator.first.behind p.funcs)
      have hordinal : (Generator.first.behind p.funcs).names.ordinal = p.funcs.length + 1 :=
        (Generator.ordinal_behind _ _).trans (Nat.add_comm _ _)
      have hcode := p.code_eq
      rw [hrecord] at hcode
      have hfrom := ha.from_start
      rw [hmain, p.start_main] at hfrom
      have hmiddle : ins ∈ Instruction.label "main" :: c := by
        have hsplit : p.code = Func.codeOf p.funcs .first ++ (.label "main" :: c) ++ [.call exitRoutine 0] :=
          hcode.trans (by simp)
        refine mem_middle hsplit hins hfrom ?_
        rw [hcode, List.length_append, List.length_cons, List.length_append, List.length_singleton] at hend
        rw [List.length_cons]
        omega
      rcases List.mem_cons.1 hmiddle with rfl | hmiddle
      · cases hf
      · have hnames := hw.callees_main hs hordinal hrecord hmiddle hf
        rw [hmain, List.take_of_length_le (Nat.le_succ _)]
        exact hnames
  obtain ⟨g, hg, rfl⟩ := List.mem_map.1 hmem
  obtain ⟨j, hj⟩ := List.getElem?_of_mem hg
  rw [List.getElem?_take] at hj
  split at hj
  · rename_i hle
    obtain ⟨hlt, -⟩ := List.getElem?_eq_some_iff.1 hj
    exact ⟨j, by omega, hlt, by rw [label, hj]⟩
  · cases hj

/-! ### The flow of a program -/

/-- The code of a program has the control flow of its bodies. -/
structure FlowsAs (p : Program) (code : List Instruction) : Prop where
  /-- The labels are the names of the bodies and numbered ones without a gap. -/
  labels : ∃ k, (definedLabels code).Perm
    (p.funcs.map (·.name) ++ "main" :: (List.range' 1 k).map labelName)
  once : (definedLabels code).Nodup
  /-- The code is that of the bodies, each behind its label. -/
  bodies : ∀ a, a < code.length → ∃! i, p.Within i a
  starts : ∀ i, i ≤ p.funcs.length → code[p.start i]? = some (.label (p.label i))
  /-- Jumps stay in their body, and go forward but for one jump back to the beginning of each loop. -/
  jumps : ∀ i b, p.bodies[i]? = some b → ∃ spans, Region code (p.start i) (p.finish i + 1) spans ∧
    List.Forall₂ (LoopSpan code) b.block.loops spans
  calls : ∀ i a ins f, p.Within i a → a + 1 < code.length → code[a]? = some ins → ins.callee? = some f →
    ∃ j, j ≤ i ∧ j < p.funcs.length ∧ p.label j = f
  returns : ∀ a, (∃ v, code[a]? = some (.ret v)) ↔ ∃ i, i < p.funcs.length ∧ a = p.finish i
  exits : code[p.finish p.funcs.length]? = some (.call exitRoutine 0) ∧
    code.length = p.finish p.funcs.length + 1
  stays : ∀ i a left b, Path code a left b → p.Within i a → b < code.length → p.Within i b

/-- Runs stay in the body where they begin, until they come to the end of the code. -/
theorem FlowsAs.reaches {M : Machine} {s s' : State} {i : Nat} (h : p.FlowsAs M.code) (hr : M.Reaches s s')
    (hs : p.Within i s.pc) (hs' : s'.pc < M.code.length) : p.Within i s'.pc := by
  obtain ⟨n, hn⟩ := hr
  exact h.stays i s.pc _ s'.pc (Machine.path_of_steps hn) hs hs'

theorem Within.flow {i a b : Nat} (hu : (definedLabels p.code).Nodup) (h : Flow p.code a b)
    (ha : p.Within i a) (hb : b < p.code.length) : p.Within i b := by
  obtain ⟨body, before, c, last, behind, -, hpiece⟩ := piece_at ha.body
  have hfrom := ha.from_start
  have hto := ha.to_finish
  cases h with
  | @next ins hi hn =>
    by_cases hlast : a = p.finish i
    · have hends := hpiece.at_finish
      rw [← hlast, hi] at hends
      cases hends
      rcases hpiece.ends with ⟨-, v, rfl⟩ | ⟨hmain, -⟩
      · cases hn
      · rw [length_code, hlast, hmain] at hb
        omega
    · exact ⟨ha.body, by omega, by omega⟩
  | jump hj =>
    obtain ⟨spans, hr, -⟩ := hpiece.region
    obtain ⟨ins, l, hi, hl, -⟩ := id hj
    obtain ⟨d, hd, hlo, hhi, -⟩ := hr.within a hfrom (by omega) ins l hi hl
    rw [Jump.unique hu hj hd]
    exact ⟨ha.body, hlo, by omega⟩

/-- **Paths stay in their body.** -/
theorem Within.path {i a b : Nat} {left : List Nat} (hu : (definedLabels p.code).Nodup)
    (h : Path p.code a left b) (ha : p.Within i a) (hb : b < p.code.length) : p.Within i b := by
  induction h with
  | here => exact ha
  | @step a c b left hf hp ih =>
    refine ih (ha.flow hu hf ?_) hb
    cases hp with
    | here => exact hb
    | step hf' _ => exact hf'.lt_length

theorem WellFormed.flowsAs (hw : p.WellFormed) (hs : p.Spelled) : p.FlowsAs p.code where
  labels := p.labels_code
  once := hw.nodup_labels hs
  bodies a ha := by
    obtain ⟨i, hi⟩ := exists_within ha
    exact ⟨i, hi, fun j hj => hj.unique hi⟩
  starts i hi := by
    obtain ⟨b, before, c, last, behind, -, h⟩ := piece_at hi
    exact h.at_start
  jumps i b hb := by
    obtain ⟨before, c, last, behind, h⟩ := piece_at_body hb
    exact h.region
  calls i a ins f := hw.calls hs
  returns a := by
    constructor
    · intro ⟨v, ha⟩
      obtain ⟨i, hi⟩ := exists_within (List.getElem?_eq_some_iff.1 ha).1
      obtain ⟨b, before, c, last, behind, -, h⟩ := piece_at hi.body
      exact ⟨i, h.ret_at ha hi.from_start hi.to_finish⟩
    · intro ⟨i, hi, ha⟩
      obtain ⟨b, before, c, last, behind, -, h⟩ := piece_at (Nat.le_of_lt hi)
      have hlast := h.at_finish
      rcases h.ends with ⟨-, v, rfl⟩ | ⟨hmain, -⟩
      · exact ⟨v, ha ▸ hlast⟩
      · omega
  exits := by
    obtain ⟨b, before, c, last, behind, -, h⟩ := piece_at (Nat.le_refl p.funcs.length)
    have hlast := h.at_finish
    rcases h.ends with ⟨hlt, -⟩ | ⟨-, rfl⟩
    · omega
    · exact ⟨hlast, length_code⟩
  stays i a left b := Within.path (hw.nodup_labels hs)

end Program

/-! ### Accepted sources -/

/-- **Control flow of compiled programs.**  The code of an accepted source is one piece of code for each body;
its labels are those of the bodies and numbered ones; its jumps stay inside of a body, and only one for each loop
goes back, to where that loop begins; each call is of a function declared by then; the functions return at their
ends, and only there; and so control stays in the body where it is. -/
theorem compile_flowsAs {source : String} {compiled : Compiled} (h : compile source = .ok compiled) :
    ∃ p, Program.ofSource source = .ok p ∧ p.FlowsAs compiled.code := by
  obtain ⟨p, hp, hclean, hcode⟩ := compile_eq_ok h
  refine ⟨p, hp, ?_⟩
  rw [hcode]
  exact (Program.WellFormed.of_clean hclean).flowsAs (ofSource_spelled hp)

theorem compile_flowsAs_loopingSource : compile loopingSource = .ok ⟨loopingCode, []⟩ ∧
    ∃ p, Program.ofSource loopingSource = .ok p ∧ p.FlowsAs loopingCode :=
  ⟨compile_loopingSource, compile_flowsAs compile_loopingSource⟩

end ThreeAddress
