import ThreeAddress.Proofs.CallsInTurn
import ThreeAddress.Proofs.LocalNames

/-!
# The protocol of calls

A routine fetches its parameters right behind its label and nowhere else, and each call passes its arguments right in
front of it.  Where a source is accepted, both sides agree, unless the call that ends the program meets a routine of
the program that has its name.

* `Body.Begins`, `Program.pieces_code` — the code of a program routine by routine;
* `Program.KeepsCallProtocol`, `Program.keeps_code` — calls and fetches in the code of any program;
* `fetchedBehind`, `AgreesWith` — what a routine fetches, and calls that pass as much;
* `lower_keepsCallProtocol` — programs, and accepted sources.
-/

namespace ThreeAddress

/-! ### What routines fetch -/

/-- The code of a routine: its label, one fetch for each parameter in order, numbered from one on, and then no
further fetch. -/
def Body.Begins (b : Body) (name : String) (ordinal : Nat) (piece : List Instruction) : Prop :=
  ∃ rest, piece = .label name :: (((b.fetches ordinal).map fun x => .getparam x.1 x.2) ++ rest) ∧ fetched rest = []

theorem run_fetchParams (t : RenameTable) (index : Nat) (ps : List Param) (g : Generator) :
    ((fetchParams t index ps).run g).record = (ps.zipIdx index).map fun x => .getparam (t.resolve x.1.name) x.2 := by
  induction ps generalizing index with
  | nil => rfl
  | cons q more ih => exact congrArg _ (ih (index + 1))

theorem fetched_getparams (xs : List (String × Nat)) :
    fetched (xs.map fun x => .getparam x.1 x.2) = xs := by
  rw [fetched, List.filterMap_map]
  exact List.filterMap_some

namespace Body

variable (b : Body) {finish : RenameTable → Emit Unit} (hf : ∀ t, Emit.RegistersNone (finish t)) (g : Generator)

include hf

/-- A body without parameters fetches nothing. -/
theorem begins_main (name : String) (hparams : b.params = []) :
    b.Begins name g.names.ordinal (.label name :: ((b.lower finish).run g).record) := by
  have hfetches : b.fetches g.names.ordinal = [] := by rw [fetches, hparams]; rfl
  refine ⟨_, ?_, (b.lower_registers hf g).fetched.trans hfetches⟩
  rw [hfetches]
  rfl

/-- A body without global constants fetches its parameters first. -/
theorem begins_func (name : String) (hconstants : b.constants = []) :
    b.Begins name g.names.ordinal (.label name :: ((b.lower finish).run g).record) := by
  obtain ⟨rest, hrest⟩ : ∃ rest, ((b.lower finish).run g).record =
      ((b.fetches g.names.ordinal).map fun x => .getparam x.1 x.2) ++ rest := by
    let k := g.names.ordinal
    let globals := (b.constants.forM (Decl.lowerGlobal (.empty k))).run g
    let params := (b.params.foldlM (fun t q => t.register q.name) (.empty k) : Emit RenameTable).run globals.state
    let fetches := (fetchParams params.value 1 b.params).run params.state
    obtain ⟨locals, rest, hrecord⟩ : ∃ locals rest, ((b.lower finish).run g).record =
        (globals.record ++ (params.record ++ (fetches.record ++ locals))) ++ rest := ⟨_, _, rfl⟩
    obtain ⟨hvalue, -, hnothing⟩ := Param.run_registers b.params (.empty k) globals.state
    have hglobals : globals.record = [] := by
      show ((b.constants.forM (Decl.lowerGlobal (.empty k))).run g).record = []
      rw [hconstants]
      rfl
    have hfetches : fetches.record = (b.fetches k).map fun x => .getparam x.1 x.2 := by
      rw [← b.fetches_resolved, List.map_map, show fetches.record = _ from run_fetchParams _ 1 b.params _,
        show params.value = b.paramTable k from hvalue]
      rfl
    refine ⟨locals ++ rest, ?_⟩
    rw [hrecord, hglobals, show params.record = [] from hnothing, hfetches, List.nil_append, List.nil_append,
      List.append_assoc]
  have hfetched := (b.lower_registers hf g).fetched
  rw [hrest, fetched_append, fetched_getparams] at hfetched
  exact ⟨rest, congrArg _ hrest, List.append_right_eq_self.1 hfetched⟩

end Body

/-! ### Programs -/

namespace Program

/-- The routines of a program, each with the name of its label: the functions in order, and the main part. -/
def routines (p : Program) : List (String × Body) := p.funcs.map (fun f => (f.name, f.asBody)) ++ [("main", p.mainBody)]

/-- Code is that of some routines one behind another, when the first one has some ordinal. -/
def HasPieces (ordinal : Nat) (routines : List (String × Body)) (code : List Instruction) : Prop :=
  ∃ pieces, code = pieces.flatten ∧
    List.Forall₂ (fun r piece => r.1.2.Begins r.1.1 r.2 piece) (routines.zipIdx ordinal) pieces

theorem pieces_funcs (fs : List Func) (g : Generator) :
    HasPieces g.names.ordinal (fs.map fun f => (f.name, f.asBody)) (Func.codeOf fs g) := by
  induction fs generalizing g with
  | nil => exact ⟨[], rfl, .nil⟩
  | cons f more ih =>
    have hfirst : f.asBody.Begins f.name g.names.ordinal (f.lower.run g).record := by
      rw [f.run_lower]
      exact f.asBody.begins_func (fun t => lowerReturn_registers t f.returnValue) g f.name rfl
    obtain ⟨pieces, hcode, hpieces⟩ := ih (f.lower.run g).state
    rw [f.ordinal_lower] at hpieces
    refine ⟨(f.lower.run g).record :: pieces, ?_, .cons hfirst hpieces⟩
    rw [Func.codeOf_cons, hcode, List.flatten_cons]

/-- The code of a program routine by routine. -/
theorem pieces_code (p : Program) : HasPieces 1 p.routines p.code := by
  have hordinal : (Generator.first.behind p.funcs).names.ordinal = 1 + p.funcs.length := Generator.ordinal_behind _ _
  have hexit (_ : RenameTable) : Emit.RegistersNone (Pass.tell (.call exitRoutine 0)) := .tell rfl
  have hmain := p.mainBody.begins_main hexit (Generator.first.behind p.funcs) "main" rfl
  rw [hordinal] at hmain
  obtain ⟨pieces, hcode, hpieces⟩ := pieces_funcs p.funcs .first
  refine ⟨pieces ++ [.label "main" :: (p.lowerMainWithin.run (Generator.first.behind p.funcs)).record], ?_, ?_⟩
  · rw [p.code_eq, hcode, List.flatten_append, List.flatten_singleton]
  · rw [routines, List.zipIdx_append, List.length_map]
    exact List.rel_append hpieces (.cons hmain .nil)

/-- How code passes arguments and fetches parameters. -/
structure KeepsCallProtocol (p : Program) (code : List Instruction) : Prop where
  /-- The calls are those of the program in order, and nothing is passed but their arguments. -/
  calls : CallsInTurn [] code p.passedCalls []
  /-- In front of a call stands what is passed to it, and in front of that no argument. -/
  passed : ∀ before i behind f n, code = before ++ i :: behind → i.called? = some (f, n) →
    ∃ front args, before = front ++ args.map .param ∧ args.length = n ∧ (f, args) ∈ p.passedCalls ∧
      ∀ x, front.getLast? ≠ some (.param x)
  /-- Behind an argument stand only arguments of the same call, and then the call. -/
  taken : ∀ before x behind, code = before ++ .param x :: behind →
    ∃ (more : List String) (i : Instruction) (rest : List Instruction) (f : String) (n : Nat),
      behind = more.map .param ++ i :: rest ∧ i.called? = some (f, n) ∧ more.length < n
  /-- Nothing is tested or returned that is a call. -/
  stored : ∀ f n, (∀ l, .ifz (.call f n) l ∉ code) ∧ .ret (some (.call f n)) ∉ code
  /-- The routines fetch their parameters first. -/
  pieces : HasPieces 1 p.routines code

theorem keeps_code (p : Program) : p.KeepsCallProtocol p.code where
  calls := p.calls_code
  passed before i behind f n hcode hi := by
    obtain ⟨front, args, hbefore, hrest⟩ := p.calls_code.call_at hcode hi
    exact ⟨front, args, hbefore, hrest⟩
  taken before x behind hcode := p.calls_code.param_at rfl hcode
  stored f n := by
    have hkinds (i : Instruction) (hi : i ∈ p.code) := p.calls_code.kinds hi
    constructor
    · rintro l hl
      rcases hkinds _ hl with ⟨x, hx⟩ | ⟨f', n', hcall⟩ | hfree
      · cases hx
      · cases hcall
      · cases hfree
    · intro hret
      rcases hkinds _ hret with ⟨x, hx⟩ | ⟨f', n', hcall⟩ | hfree
      · cases hx
      · cases hcall
      · cases hfree
  pieces := p.pieces_code

end Program

/-! ### Accepted sources -/

/-- What a routine fetches: right behind its label, as long as there is nothing else. -/
def fetchedBehind (code : List Instruction) (f : String) : List (String × Nat) :=
  fetched (((code.dropWhile (· != .label f)).drop 1).takeWhile (·.fetched?.isSome))

/-- An instruction that calls a routine of some code passes as many arguments as that routine fetches. -/
def Instruction.AgreesWith (i : Instruction) (code : List Instruction) : Prop :=
  ∀ f n, i.called? = some (f, n) → f ∈ definedLabels code → (fetchedBehind code f).length = n

theorem fetchedBehind_eq {before rest behind : List Instruction} {f : String} (xs : List (String × Nat))
    (hbefore : .label f ∉ before) (hrest : fetched rest = []) (hne : rest ≠ []) :
    fetchedBehind (before ++ (.label f :: ((xs.map fun x => .getparam x.1 x.2) ++ rest)) ++ behind) f = xs := by
  have hdrop : ∀ i ∈ before, (i != .label f) = true := by
    intro i hi
    rw [bne_iff_ne]
    rintro rfl
    exact hbefore hi
  have hfetches : ∀ i ∈ xs.map fun x => Instruction.getparam x.1 x.2, i.fetched?.isSome = true := by
    intro i hi
    obtain ⟨x, -, rfl⟩ := List.mem_map.1 hi
    rfl
  obtain ⟨i, more, rfl⟩ := List.exists_cons_of_ne_nil hne
  have hstop : ¬i.fetched?.isSome = true := by
    rw [List.filterMap_eq_nil_iff.1 hrest i List.mem_cons_self]
    exact Bool.false_ne_true
  have hnone : (i :: (more ++ behind)).takeWhile (·.fetched?.isSome) = [] := List.takeWhile_cons_of_neg hstop
  rw [fetchedBehind, List.append_assoc, List.dropWhile_append_of_pos hdrop, List.cons_append,
    List.dropWhile_cons_of_neg (by simp), List.drop_one, List.tail_cons, List.append_assoc,
    List.takeWhile_append_of_pos hfetches, List.cons_append, hnone, List.append_nil, fetched_getparams]

namespace Program

variable {p : Program}

/-- A function of an accepted program fetches its parameters. -/
theorem WellFormed.fetchedBehind_func (hw : p.WellFormed) (hs : p.Spelled) {i : Nat} {f : Func}
    (hf : p.funcs[i]? = some f) : fetchedBehind p.code f.name = f.asBody.fetches (i + 1) := by
  obtain ⟨⟨behind, hcode⟩, hordinal, -⟩ := code_at_nth hf
  obtain ⟨c, v, hends, -, -⟩ := f.lowerWithin_ends (Generator.first.behind (p.funcs.take i))
  obtain ⟨rest, hpiece, hrest⟩ := f.asBody.begins_func (fun t => lowerReturn_registers t f.returnValue)
    (Generator.first.behind (p.funcs.take i)) f.name rfl
  have hne : rest ≠ [] := by
    rintro rfl
    have hrecord := hends.symm.trans ((List.cons.inj hpiece).2.trans (List.append_nil _))
    have hret : Instruction.ret v ∈ c ++ [.ret v] := by simp
    rw [hrecord] at hret
    obtain ⟨x, -, hx⟩ := List.mem_map.1 hret
    cases hx
  have hcode' := hcode.trans (congrArg (fun piece => _ ++ piece ++ behind) hpiece)
  rw [hcode', fetchedBehind_eq _ (hw.label_not_before hs hf) hrest hne, hordinal]

/-- Up to its end, the code of an accepted program calls its functions as they are declared. -/
theorem WellFormed.calls_agree (hw : p.WellFormed) (hs : p.Spelled) {i : Instruction}
    (hi : i ∈ (p.lowerToExit.run .first).record) {f : String} {n : Nat} (hcall : i.called? = some (f, n)) :
    f ∈ definedLabels p.code ∧ (fetchedBehind p.code f).length = n := by
  obtain ⟨T, a, hg, hc, -⟩ := hw.typed hs
  have hT := (Program.typing_declares hw hs).grows hg
  have hcallee : i.callee? = some f := by
    rcases Instruction.called?_eq_some hcall with rfl | ⟨dest, rfl⟩ <;> rfl
  obtain ⟨g, hgmem, rfl, hroutine⟩ := hw.callee_known hs hT hi hcallee
  obtain ⟨k, hk⟩ := List.getElem?_of_mem hgmem
  have hcount : n = g.params.length := by
    obtain ⟨b, c, hstep⟩ := hc.exists_step hi
    obtain ⟨types, type, hr⟩ : ∃ types type, T.Has types (.call g.name n) type := by
      rcases Instruction.called?_eq_some hcall with rfl | ⟨dest, rfl⟩
      · cases hstep with
        | call hr => exact ⟨_, _, hr⟩
      · cases hstep with
        | assign hr => exact ⟨_, _, hr⟩
    obtain ⟨s, hknown, rfl, -⟩ := hr.call_inv
    cases hroutine.symm.trans hknown
    exact List.length_map _
  refine ⟨?_, ?_⟩
  · obtain ⟨⟨behind, hcode⟩, -, -⟩ := code_at_nth hk
    rw [hcode]
    exact mem_definedLabels (by simp)
  · rw [hw.fetchedBehind_func hs hk, hcount, Body.fetches, List.length_map, List.length_zipIdx]
    rfl

/-- All calls agree with the routines that they reach exactly if the ending routine is spared. -/
theorem WellFormed.all_agree_iff (hw : p.WellFormed) (hs : p.Spelled) :
    (∀ i ∈ p.code, i.AgreesWith p.code) ↔ p.SparesExit := by
  constructor
  · intro hagree f hf hname
    obtain ⟨k, hk⟩ := List.getElem?_of_mem hf
    have hlast : .call exitRoutine 0 ∈ p.code := by
      rw [p.code_eq_toExit]
      exact List.mem_append_right _ (List.mem_singleton_self _)
    have hdefined : exitRoutine ∈ definedLabels p.code :=
      p.exit_mem_definedLabels.2 (hname ▸ List.mem_map_of_mem (f := Func.name) hf)
    have hcount := hagree _ hlast exitRoutine 0 rfl hdefined
    rw [← hname, hw.fetchedBehind_func hs hk, Body.fetches, List.length_map, List.length_zipIdx] at hcount
    exact List.length_eq_zero_iff.1 hcount
  · intro hspares i hi f n hcall hdefined
    rw [p.code_eq_toExit] at hi
    rcases List.mem_append.1 hi with hi | hi
    · exact (hw.calls_agree hs hi hcall).2
    · rw [List.mem_singleton.1 hi] at hcall
      cases hcall
      obtain ⟨f, hf, hname⟩ := List.mem_map.1 (p.exit_mem_definedLabels.1 hdefined)
      obtain ⟨k, hk⟩ := List.getElem?_of_mem hf
      rw [← hname, hw.fetchedBehind_func hs hk, Body.fetches, List.length_map, List.length_zipIdx]
      exact List.length_eq_zero_iff.2 (hspares f hf hname)

end Program

/-- **The protocol of calls.**  In the code of any program, each call stands right behind its arguments, no others are
passed, and each routine fetches its parameters behind its label.  If a source is accepted, each call but the last
reaches a routine that fetches as much as the call passes; so does the last one too, where it reaches a routine at all,
exactly if no function with parameters has the name of the routine that ends programs. -/
theorem lower_keepsCallProtocol (p : Program) : p.KeepsCallProtocol p.code ∧
    ∀ source compiled, Program.ofSource source = .ok p → compile source = .ok compiled → compiled.code = p.code ∧
      (∀ i ∈ p.code.dropLast, ∀ f n, i.called? = some (f, n) →
        f ∈ definedLabels p.code ∧ (fetchedBehind p.code f).length = n) ∧
      ((∀ i ∈ p.code, i.AgreesWith p.code) ↔ p.SparesExit) := by
  refine ⟨p.keeps_code, fun source compiled hsource h => ?_⟩
  obtain ⟨p', hp, hclean, hcode⟩ := compile_eq_ok h
  cases hsource.symm.trans hp
  have hw := Program.WellFormed.of_clean hclean
  have hs := ofSource_spelled hp
  refine ⟨hcode, fun i hi f n hcall => ?_, hw.all_agree_iff hs⟩
  refine hw.calls_agree hs ?_ hcall
  rwa [p.code_eq_toExit, List.dropLast_concat] at hi

theorem lower_keepsCallProtocol_loopingSource : ∃ p, Program.ofSource loopingSource = .ok p ∧
    p.KeepsCallProtocol loopingCode ∧ (∀ i ∈ loopingCode.dropLast, ∀ f n, i.called? = some (f, n) →
      f ∈ definedLabels loopingCode ∧ (fetchedBehind loopingCode f).length = n) ∧
    ((∀ i ∈ loopingCode, i.AgreesWith loopingCode) ↔ p.SparesExit) := by
  obtain ⟨p, hp, -, -⟩ := compile_eq_ok compile_loopingSource
  obtain ⟨hkeeps, haccepted⟩ := lower_keepsCallProtocol p
  obtain ⟨hcode, hagrees⟩ := haccepted _ _ hp compile_loopingSource
  rw [← hcode] at hkeeps hagrees
  exact ⟨p, hp, hkeeps, hagrees⟩

/-- The source with a routine of its own for the end is accepted, and the call that ends its code passes less than that
routine fetches. -/
theorem compile_exitingSource_disagrees : (compile exitingSource).toOption.map (·.code) = some exitingCode ∧
    ¬∀ i ∈ exitingCode, i.AgreesWith exitingCode := by
  refine ⟨by decide +kernel, fun h => ?_⟩
  have hcount := h (.call "_exit" 0) (by decide) "_exit" 0 rfl (by decide)
  exact absurd hcount (by decide)

end ThreeAddress
