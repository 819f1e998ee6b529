import ThreeAddress.Proofs.ControlIntegrity
import ThreeAddress.Proofs.LinearBodies

/-!
# The lives of temporaries and flags

In the code of an accepted source each temporary and each flag is set before it is read, on every path, and it is
read by one instruction.

* `Lifetime` — the code of a name's life: what sets it, what carries it, and what reads it;
* `Lifetime.sealedOff` — nothing jumps into a life from outside;
* `Program.NamesLive` — what the temporaries and flags of a program's code are like;
* `compile_namesLive` — the code of an accepted source is like that.
-/

namespace ThreeAddress

open NameSupply (tempName flagName labelName)

/-! ### Setting a name -/

namespace Sets

variable {x : String} {piece : List Instruction}

theorem structured (h : Sets x piece) : Structured [] piece := by
  cases h with
  | once => exact .plain rfl
  | twice => exact .append (.plain (i := .assign _ _) rfl) (.skip (.plain (i := .assign _ _) rfl))

theorem numbered (h : Sets x piece) : ∀ l ∈ definedLabels piece, isReservedName l = true := by
  intro l hl
  cases h with
  | once => cases hl
  | @twice r m _ _ =>
    rw [List.mem_singleton.1 (show l ∈ [labelName m] from hl)]
    exact isReservedName_labelName m

theorem not_readAt (h : Sets x piece) (hr : isReservedName x = true) (a : Nat) : ¬ReadAt x piece a := by
  refine PlaceWith.none fun i hi hu => ?_
  have hother (b : Bool) : x ∉ (Instruction.assign x (.atom (boolText b))).uses := by
    intro hx
    rw [List.mem_singleton.1 (show x ∈ [boolText b] from hx)] at hr
    exact absurd hr (by cases b <;> decide)
  cases h with
  | once hx _ =>
    rw [List.mem_singleton.1 hi] at hu
    exact hx hu
  | twice hx _ =>
    simp only [List.mem_cons, List.not_mem_nil, or_false] at hi
    rcases hi with rfl | rfl | rfl | rfl
    · exact hother false hu
    · exact hx hu
    · exact hother true hu
    · cases hu

end Sets

/-! ### Lives -/

/-- The code of a name's life: a piece sets the name, some code carries it, and an instruction reads it. -/
structure Lifetime (x : String) (code before piece mid : List Instruction) (ins : Instruction)
    (behind : List Instruction) : Prop where
  code : code = before ++ (piece ++ (mid ++ ins :: behind))
  early : x ∉ mentioned before
  sets : Sets x piece
  carries : Carries x mid
  reads : x ∈ ins.uses
  keeps : ins.dest? ≠ some x
  late : x ∉ mentioned behind

theorem Lives.lifetime {x : String} {code : List Instruction} (h : Lives x code) :
    ∃ before piece mid ins behind, Lifetime x code before piece mid ins behind := by
  obtain ⟨before, piece, rest, rfl, hearly, hsets, mid, ins, behind, rfl, hcarries, hreads, hkeeps, hlate⟩ := h
  exact ⟨before, piece, mid, ins, behind, rfl, hearly, hsets, hcarries, hreads, hkeeps, hlate⟩

namespace Lifetime

variable {x : String} {code before piece mid behind : List Instruction} {ins : Instruction} {a : Nat}

/-- The one place that reads the name. -/
theorem readAt_iff (h : Lifetime x code before piece mid ins behind) (hr : isReservedName x = true) :
    ReadAt x code a ↔ a = before.length + (piece.length + mid.length) := by
  simp only [h.code, PlaceWith.append]
  constructor
  · rintro (h' | ⟨c, rfl, h' | ⟨d, rfl, h' | ⟨e, rfl, h'⟩⟩⟩)
    · exact absurd h' (not_setAt_readAt h.early a).2
    · exact absurd h' (h.sets.not_readAt hr c)
    · exact absurd h' (not_setAt_readAt h.carries.silent d).2
    · rcases PlaceWith.cons.1 h' with ⟨rfl, -⟩ | ⟨f, rfl, hread⟩
      · rfl
      · exact absurd hread (not_setAt_readAt h.late f).2
  · rintro rfl
    exact .inr ⟨_, rfl, .inr ⟨_, rfl, .inr ⟨0, rfl, ins, rfl, h.reads⟩⟩⟩

/-- The places that set the name are in one piece. -/
theorem setAt_iff (h : Lifetime x code before piece mid ins behind) :
    SetAt x code a ↔ ∃ c, a = before.length + c ∧ SetAt x piece c := by
  simp only [h.code, PlaceWith.append]
  constructor
  · rintro (h' | ⟨c, rfl, h' | ⟨d, rfl, h' | ⟨e, rfl, h'⟩⟩⟩)
    · exact absurd h' (not_setAt_readAt h.early a).1
    · exact ⟨c, rfl, h'⟩
    · exact absurd h' (not_setAt_readAt h.carries.silent d).1
    · rcases PlaceWith.cons.1 h' with ⟨rfl, hset⟩ | ⟨f, rfl, hset⟩
      · exact absurd hset h.keeps
      · exact absurd hset (not_setAt_readAt h.late f).1
  · intro ⟨c, hc, h'⟩
    exact .inr ⟨c, hc, .inl h'⟩

/-- The piece that sets the name. -/
theorem at_piece (h : Lifetime x code before piece mid ins behind) {c : Nat} {i : Instruction}
    (hi : piece[c]? = some i) : code[before.length + c]? = some i := by
  rw [h.code, List.getElem?_append_right (by omega), Nat.add_sub_cancel_left]
  exact getElem?_front hi

/-- Between its setting and its reading, the name is carried. -/
theorem mem_mid (h : Lifetime x code before piece mid ins behind) {i : Instruction} (hi : code[a]? = some i)
    (hlo : before.length + piece.length ≤ a) (hhi : a < before.length + (piece.length + mid.length)) : i ∈ mid := by
  have hcode : code = (before ++ piece) ++ mid ++ ins :: behind := by
    rw [h.code]
    simp only [List.append_assoc]
  refine mem_middle hcode hi ?_ ?_
  · rw [List.length_append]
    exact hlo
  · rw [List.length_append]
    omega

/-- From the beginning of a life up to the reading, code is structured, and its labels are numbered. -/
theorem structured (h : Lifetime x code before piece mid ins behind) : Structured [] (piece ++ mid) :=
  h.sets.structured.append h.carries.structured

/-- The reading is no label. -/
theorem label_before (h : Lifetime x code before piece mid ins behind) {l : String} (hl : code[a]? = some (.label l))
    (hhi : a ≤ before.length + (piece.length + mid.length)) : a < before.length + (piece.length + mid.length) := by
  refine Nat.lt_of_le_of_ne hhi fun ha => ?_
  have hat : code[a]? = some ins := by
    have hcode : code = (before ++ (piece ++ mid)) ++ ins :: behind := by
      rw [h.code]
      simp only [List.append_assoc]
    exact getElem?_behind hcode (by rw [List.length_append, List.length_append, ha])
  have hreads := h.reads
  rw [← Option.some.inj (hl.symm.trans hat)] at hreads
  cases hreads

theorem label_mem (h : Lifetime x code before piece mid ins behind) {l : String} (hl : code[a]? = some (.label l))
    (hlo : before.length ≤ a) (hhi : a ≤ before.length + (piece.length + mid.length)) :
    l ∈ definedLabels (piece ++ mid) := by
  have hlt := h.label_before hl hhi
  have hcode : code = before ++ (piece ++ mid) ++ ins :: behind := by
    rw [h.code]
    simp only [List.append_assoc]
  exact mem_definedLabels (mem_middle hcode hl hlo (by rwa [List.length_append]))

theorem numbered (h : Lifetime x code before piece mid ins behind) {l : String} (hl : code[a]? = some (.label l))
    (hlo : before.length ≤ a) (hhi : a ≤ before.length + (piece.length + mid.length)) : isReservedName l = true := by
  have hmem := h.label_mem hl hlo hhi
  rw [definedLabels_append] at hmem
  rcases List.mem_append.1 hmem with hmem | hmem
  · exact h.sets.numbered l hmem
  · exact h.carries.numbered l hmem

/-- **Nothing jumps into a life.**  Each label in it has its one jump there. -/
theorem sealedOff (h : Lifetime x code before piece mid ins behind) (hu : (jumpTargets code).Nodup) :
    SealedOff code before.length (before.length + (piece.length + mid.length) + 1) := by
  intro c d hj hlo hhi
  obtain ⟨i, l, -, -, hl⟩ := id hj
  have hcode : code = before ++ (piece ++ mid) ++ ins :: behind := by
    rw [h.code]
    simp only [List.append_assoc]
  have hsealed := h.structured.sealedOff hcode hu
  rw [List.length_append] at hsealed
  have hc := hsealed c d hj hlo (h.label_before hl (by omega))
  omega

end Lifetime

/-! ### All names in code -/

/-- A letter and digits behind it. -/
def HasForm (letter : Char) (x : String) : Prop :=
  ∃ ds, x.toList = letter :: ds ∧ ds ≠ [] ∧ ∀ d ∈ ds, d.isDigit = true

/-- All names in an instruction: beside what it mentions, labels and names of routines. -/
def Instruction.names (i : Instruction) : List String :=
  i.mentions ++ (definedLabels [i] ++ (i.target?.toList ++ i.callee?.toList))

/-- All names in code. -/
def namesIn (code : List Instruction) : List String := code.flatMap Instruction.names

theorem HasForm.head {letter : Char} {x : String} (h : HasForm letter x) : x.toList.head? = some letter := by
  obtain ⟨ds, hx, -⟩ := h
  rw [hx]
  rfl

theorem HasForm.reserved {letter : Char} {x : String} (h : HasForm letter x) (hl : letter = 't' ∨ letter = 'c') :
    isReservedName x = true := by
  obtain ⟨ds, hx, hne, hdigits⟩ := h
  refine isReservedName_iff.2 ⟨letter, ds, hx, ?_, hne, hdigits⟩
  rcases hl with rfl | rfl
  · exact .inl rfl
  · exact .inr (.inl rfl)

namespace Program

variable {p : Program}

/-- The numbered labels in the code of a program in order have numbers up to the supply that it leaves. -/
theorem WellFormed.numbered_label (hw : p.WellFormed) {x : String} (hx : x ∈ definedLabels p.code)
    (hr : isReservedName x = true) :
    ∃ n, 1 ≤ n ∧ n < (p.lower.run .first).state.names.label ∧ x = labelName n := by
  obtain ⟨hpos, hlabels⟩ := p.labels_taken
  rcases List.mem_append.1 (hlabels.mem_iff.1 hx) with hx | hx
  · rw [hw.names.unreserved x (List.mem_append_right _ hx)] at hr
    cases hr
  · rcases List.mem_cons.1 hx with rfl | hx
    · exact absurd hr (by decide)
    · obtain ⟨n, hn, rfl⟩ := List.mem_map.1 hx
      have hn : 1 ≤ n ∧ n < 1 + ((p.lower.run .first).state.names.label - 1) := List.mem_range'_1.1 hn
      exact ⟨n, hn.1, by omega, rfl⟩

/-- No label has the form of a temporary or a flag. -/
theorem WellFormed.label_form (hw : p.WellFormed) {x : String} (hx : x ∈ definedLabels p.code)
    (hr : isReservedName x = true) : x.toList.head? = some 'L' := by
  obtain ⟨n, -, -, rfl⟩ := hw.numbered_label hx hr
  rw [NameSupply.labelName_toList]
  rfl

/-- The label of a body is not numbered. -/
theorem WellFormed.label_unreserved (hw : p.WellFormed) (i : Nat) : isReservedName (p.label i) = false := by
  unfold label
  split
  · rename_i f hf
    exact hw.names.unreserved _ (List.mem_append_right _ (List.mem_map_of_mem (List.mem_of_getElem? hf)))
  · decide

/-- What is called is a function of the program, or the routine that ends it. -/
theorem WellFormed.callee_cases (hw : p.WellFormed) (hs : p.Spelled) {i : Instruction} (hi : i ∈ p.code) {x : String}
    (hcallee : i.callee? = some x) : (∃ k, k < p.funcs.length ∧ p.label k = x) ∨ x = exitRoutine := by
  obtain ⟨a, ha⟩ := List.getElem?_of_mem hi
  have hlt := (List.getElem?_eq_some_iff.1 ha).1
  by_cases hend : a + 1 < p.code.length
  · obtain ⟨j, hwithin⟩ := exists_within hlt
    obtain ⟨k, -, hk, hlabel⟩ := hw.calls hs hwithin hend ha hcallee
    exact .inl ⟨k, hk, hlabel⟩
  · have hlast := (hw.flowsAs hs).exits
    rw [show p.finish p.funcs.length = a by omega, ha] at hlast
    cases hlast.1
    cases hcallee
    exact .inr rfl

/-- What an instruction names beside its mentions is a label of the code, but for the routine that ends the
program. -/
theorem WellFormed.mem_linked (hw : p.WellFormed) (hs : p.Spelled) {i : Instruction} (hi : i ∈ p.code) {x : String}
    (hx : x ∈ definedLabels [i] ++ (i.target?.toList ++ i.callee?.toList)) :
    x ∈ definedLabels p.code ∨ x = exitRoutine := by
  rcases List.mem_append.1 hx with hx | hx
  · obtain ⟨j, hj, hlabel⟩ := List.mem_filterMap.1 hx
    rw [List.mem_singleton.1 hj] at hlabel
    exact .inl (List.mem_filterMap.2 ⟨i, hi, hlabel⟩)
  rcases List.mem_append.1 hx with hx | hx
  · have htarget : x ∈ jumpTargets p.code := List.mem_filterMap.2 ⟨i, hi, Option.mem_toList.1 hx⟩
    exact .inl (p.labels_jumps.mem_iff.2 (List.mem_append_right _ (List.mem_cons_of_mem _ htarget)))
  · rcases hw.callee_cases hs hi (Option.mem_toList.1 hx) with ⟨k, hk, rfl⟩ | rfl
    · have hstart := (hw.flowsAs hs).starts k (Nat.le_of_lt hk)
      exact .inl (mem_definedLabels (List.mem_of_getElem? hstart))
    · exact .inr rfl

/-- The names in the code of a program are mentioned there, or they are labels, but for the routine that ends
the program. -/
theorem WellFormed.mem_namesIn (hw : p.WellFormed) (hs : p.Spelled) {x : String} (hx : x ∈ namesIn p.code) :
    x ∈ mentioned p.code ∨ x ∈ definedLabels p.code ∨ x = exitRoutine := by
  obtain ⟨i, hi, hx⟩ := List.mem_flatMap.1 hx
  rcases List.mem_append.1 hx with hx | hx
  · exact .inl (mem_mentioned.2 ⟨i, hi, hx⟩)
  · exact .inr (hw.mem_linked hs hi hx)

/-- What has the form of a temporary or a flag is no label and no name of a routine. -/
theorem WellFormed.mentioned_of_form (hw : p.WellFormed) (hs : p.Spelled) {x : String} (hx : x ∈ namesIn p.code)
    {letter : Char} (hf : HasForm letter x) (hl : letter = 't' ∨ letter = 'c') : x ∈ mentioned p.code := by
  have hr := hf.reserved hl
  rcases hw.mem_namesIn hs hx with hx | hx | rfl
  · exact hx
  · have hhead := hf.head
    rw [hw.label_form hx hr] at hhead
    rcases hl with rfl | rfl <;> exact absurd hhead (by decide)
  · exact absurd hr (by decide)

/-! ### Lives in programs -/

/-- A temporary is set at one place and read at a later one of the same body, with neither a label nor a jump
between. -/
def TempLives (p : Program) (code : List Instruction) (x : String) : Prop :=
  ∃ i a b, p.Within i a ∧ p.Within i b ∧ a < b ∧ (∀ c, SetAt x code c ↔ c = a) ∧ (∀ c, ReadAt x code c ↔ c = b) ∧
    ∀ c ins, a < c → c < b → code[c]? = some ins → ins.isPlain = true

end Program

theorem Sets.length_pos {x : String} {piece : List Instruction} (h : Sets x piece) : 0 < piece.length := by
  cases h with
  | once | twice => exact Nat.succ_pos _

theorem setAt_once (x : String) (r : Rvalue) (c : Nat) : SetAt x [.assign x r] c ↔ c = 0 := by
  unfold SetAt
  simp [PlaceWith.cons, PlaceWith.none, Instruction.dest?]

theorem setAt_twice (x : String) (r : Rvalue) (skip : String) (c : Nat) :
    SetAt x [.assign x (.atom "false"), .ifz r skip, .assign x (.atom "true"), .label skip] c ↔ c = 0 ∨ c = 2 := by
  unfold SetAt
  simp [PlaceWith.cons, PlaceWith.none, Instruction.dest?]

/-- A flag is set, from a place on: once to two flags combined, or twice, to false and then to true around a jump. -/
inductive FlagSet (x : String) (code : List Instruction) (a : Nat) : Prop
  | joined {l r : String} {op : Connective} (h : code[a]? = some (.assign x (.binary l (.logic op) r)))
      (hset : ∀ c, SetAt x code c ↔ c = a)
  | stored {r : Rvalue} {skip : String} (hfalse : code[a]? = some (.assign x (.atom "false")))
      (hifz : code[a + 1]? = some (.ifz r skip)) (htrue : code[a + 2]? = some (.assign x (.atom "true")))
      (hskip : code[a + 3]? = some (.label skip)) (hset : ∀ c, SetAt x code c ↔ c = a ∨ c = a + 2)

theorem Lifetime.flagSet {k : Nat} {code before piece mid behind : List Instruction} {ins : Instruction}
    (h : Lifetime (flagName k) code before piece mid ins behind) : FlagSet (flagName k) code before.length := by
  cases hsets : h.sets with
  | @once r _ hj =>
    obtain ⟨a, op, b, rfl⟩ := hj ⟨k, rfl⟩
    refine .joined (h.at_piece (c := 0) rfl) fun c => ?_
    rw [h.setAt_iff]
    simp only [setAt_once, exists_eq_right, Nat.add_zero]
  | @twice r m _ _ =>
    refine .stored (h.at_piece (c := 0) rfl) (h.at_piece (c := 1) rfl) (h.at_piece (c := 2) rfl)
      (h.at_piece (c := 3) rfl) fun c => ?_
    rw [h.setAt_iff]
    simp only [setAt_twice]
    constructor
    · rintro ⟨d, rfl, rfl | rfl⟩
      · exact .inl rfl
      · exact .inr rfl
    · rintro (rfl | rfl)
      · exact ⟨0, rfl, .inl rfl⟩
      · exact ⟨2, rfl, .inr rfl⟩

namespace Program

/-- A flag is read at one place, and on every path through its body it has been set by then. -/
def FlagLives (p : Program) (code : List Instruction) (x : String) : Prop :=
  ∃ i a b, p.Within i a ∧ p.Within i b ∧ FlagSet x code a ∧ (∀ c, ReadAt x code c ↔ c = b) ∧
    ∀ left, Path code (p.start i) left b → a ∈ left

variable {p : Program} {x : String} {before piece mid behind : List Instruction} {ins : Instruction}

/-- A life is inside of one body. -/
theorem WellFormed.life_within (hw : p.WellFormed) (hs : p.Spelled)
    (h : Lifetime x p.code before piece mid ins behind) :
    ∃ i, p.Within i before.length ∧ p.Within i (before.length + (piece.length + mid.length)) := by
  have hlength : before.length + (piece.length + mid.length) < p.code.length := by
    rw [h.code]
    simp only [List.length_append, List.length_cons]
    omega
  obtain ⟨i, hi⟩ := exists_within (show before.length < p.code.length by omega)
  refine ⟨i, hi, hi.body, Nat.le_trans hi.from_start (Nat.le_add_right _ _), ?_⟩
  by_contra hlt
  have hbody := hi.body
  have hto := hi.to_finish
  by_cases hmain : i = p.funcs.length
  · rw [length_code, ← hmain] at hlength
    omega
  · -- the label of the next body would stand inside of the life
    have hnext : i < p.funcs.length := by omega
    have hlabel := (hw.flowsAs hs).starts (i + 1) hnext
    rw [start_succ hnext] at hlabel
    have hnumbered := h.numbered hlabel (by omega) (by omega)
    rw [hw.label_unreserved] at hnumbered
    cases hnumbered

theorem WellFormed.tempLives (hw : p.WellFormed) (hs : p.Spelled) {k : Nat}
    (h : Lifetime (tempName k) p.code before piece mid ins behind) : p.TempLives p.code (tempName k) := by
  obtain ⟨i, ha, hb⟩ := hw.life_within hs h
  have hpos := h.sets.length_pos
  have hone : ∃ r, piece = [.assign (tempName k) r] := by
    cases h.sets with
    | once => exact ⟨_, rfl⟩
    | twice _ hf =>
      obtain ⟨j, hj⟩ := hf
      exact absurd hj (NameSupply.tempName_ne_flagName k j)
  obtain ⟨r, rfl⟩ := hone
  refine ⟨i, _, _, ha, hb, by omega, fun c => ?_, fun c => h.readAt_iff (isReservedName_tempName k), ?_⟩
  · rw [h.setAt_iff]
    simp only [setAt_once, exists_eq_right, Nat.add_zero]
  · intro c ins' hlo hhi hins
    exact h.carries.plain ⟨k, rfl⟩ _ (h.mem_mid hins hlo hhi)

theorem WellFormed.flagLives (hw : p.WellFormed) (hs : p.Spelled) {k : Nat}
    (h : Lifetime (flagName k) p.code before piece mid ins behind) : p.FlagLives p.code (flagName k) := by
  obtain ⟨i, ha, hb⟩ := hw.life_within hs h
  have hpos := h.sets.length_pos
  refine ⟨i, _, _, ha, hb, h.flagSet, fun c => h.readAt_iff (isReservedName_flagName k), ?_⟩
  · intro left hpath
    have hsealed := h.sealedOff (nodup_jumpTargets (hw.nodup_labels hs))
    have henter := hpath.enters hsealed (.inl ha.from_start) (Nat.le_add_right _ _) (Nat.lt_succ_self _)
    rcases henter with hleft | hsame
    · exact hleft
    · omega

/-- The temporaries and flags of code, and their lives. -/
structure NamesLive (p : Program) (code : List Instruction) : Prop where
  temps : ∃ m, (∀ x ∈ namesIn code, HasForm 't' x → ∃ k, 1 ≤ k ∧ k ≤ m ∧ x = tempName k) ∧
    ∀ k, 1 ≤ k → k ≤ m → p.TempLives code (tempName k)
  flags : ∃ m, (∀ x ∈ namesIn code, HasForm 'c' x → ∃ k, 1 ≤ k ∧ k ≤ m ∧ x = flagName k) ∧
    ∀ k, 1 ≤ k → k ≤ m → p.FlagLives code (flagName k)

/-- The names of the supply in the code of a program are those that have been given. -/
theorem gave_of_form {n k : Nat} (hlinear : Linear ⟨1, 1, 0⟩ p.code ⟨n, k, 0⟩) (hx : x ∈ mentioned p.code)
    (hr : isReservedName x = true) :
    (∃ j, 1 ≤ j ∧ j < n ∧ x = tempName j) ∨ ∃ j, 1 ≤ j ∧ j < k ∧ x = flagName j := by
  have hsound := Stock.sound_zero 1 1
  -- nothing has been given in front of the code
  have hlate : ¬(Stock.mk 1 1 0).Gave x := fun h => hlinear.silent h (Multiset.notMem_zero x) hx
  rcases hlinear.gave_of_mentioned hsound hx hr with ⟨j, hj, rfl⟩ | ⟨j, hj, rfl⟩
  · have hge : ¬j < 1 := fun h => hlate (.inl ⟨j, h, rfl⟩)
    exact .inl ⟨j, by omega, hj, rfl⟩
  · have hge : ¬j < 1 := fun h => hlate (.inr ⟨j, h, rfl⟩)
    exact .inr ⟨j, by omega, hj, rfl⟩

theorem WellFormed.namesLive (hw : p.WellFormed) (hs : p.Spelled) : p.NamesLive p.code := by
  obtain ⟨n, k, hlinear⟩ := hw.linear_code hs
  have hsound := Stock.sound_zero 1 1
  refine ⟨⟨n - 1, ?_, ?_⟩, ⟨k - 1, ?_, ?_⟩⟩
  · intro x hx hf
    have hmem := hw.mentioned_of_form hs hx hf (.inl rfl)
    rcases gave_of_form hlinear hmem (hf.reserved (.inl rfl)) with ⟨j, hj, hj', rfl⟩ | ⟨j, -, -, rfl⟩
    · exact ⟨j, hj, by omega, rfl⟩
    · have hhead := hf.head
      rw [NameSupply.flagName_toList, List.head?_cons] at hhead
      exact absurd (Option.some.inj hhead) (by decide)
  · intro j hj hj'
    have hlate : ¬(Stock.mk 1 1 0).Gave (tempName j) := fun h => absurd (Stock.gave_temp.1 h) (Nat.not_lt.2 hj)
    have hgave : (Stock.mk n k 0).Gave (tempName j) := .inl ⟨j, show j < n by omega, rfl⟩
    obtain ⟨before, piece, mid, ins, behind, h⟩ :=
      (hlinear.life hsound hlate hgave (Multiset.notMem_zero _)).lifetime
    exact hw.tempLives hs h
  · intro x hx hf
    have hmem := hw.mentioned_of_form hs hx hf (.inr rfl)
    rcases gave_of_form hlinear hmem (hf.reserved (.inr rfl)) with ⟨j, -, -, rfl⟩ | ⟨j, hj, hj', rfl⟩
    · have hhead := hf.head
      rw [NameSupply.tempName_toList, List.head?_cons] at hhead
      exact absurd (Option.some.inj hhead) (by decide)
    · exact ⟨j, hj, by omega, rfl⟩
  · intro j hj hj'
    have hlate : ¬(Stock.mk 1 1 0).Gave (flagName j) := fun h => absurd (Stock.gave_flag.1 h) (Nat.not_lt.2 hj)
    have hgave : (Stock.mk n k 0).Gave (flagName j) := .inr ⟨j, show j < k by omega, rfl⟩
    obtain ⟨before, piece, mid, ins, behind, h⟩ :=
      (hlinear.life hsound hlate hgave (Multiset.notMem_zero _)).lifetime
    exact hw.flagLives hs h

end Program

/-! ### Accepted sources -/

/-- **Lives of temporaries and flags.**  The temporaries in the code of an accepted source are numbered from one
without a gap; each is set by one instruction and read by one later instruction of the same body, with neither a
label nor a jump between.  So are its flags; each is read by one instruction, and is set before that on every path
through its body, either to two flags combined or to the truth of a predicate. -/
theorem compile_namesLive {source : String} {compiled : Compiled} (h : compile source = .ok compiled) :
    ∃ p, Program.ofSource source = .ok p ∧ p.NamesLive compiled.code := by
  obtain ⟨p, hp, hclean, hcode⟩ := compile_eq_ok h
  refine ⟨p, hp, ?_⟩
  rw [hcode]
  exact (Program.WellFormed.of_clean hclean).namesLive (ofSource_spelled hp)

theorem compile_namesLive_loopingSource : compile loopingSource = .ok ⟨loopingCode, []⟩ ∧
    ∃ p, Program.ofSource loopingSource = .ok p ∧ p.NamesLive loopingCode :=
  ⟨compile_loopingSource, compile_namesLive compile_loopingSource⟩

end ThreeAddress
