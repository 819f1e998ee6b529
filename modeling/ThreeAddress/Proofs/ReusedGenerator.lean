import Mathlib.Algebra.GroupWithZero.Nat
import Mathlib.Data.List.Induction
import ThreeAddress.Proofs.NameLives
import ThreeAddress.Proofs.Renumbering
import ThreeAddress.Proofs.Workspaces

/-!
# One workspace for many programs

In a workspace that has lowered other programs, a program has the code that it has in a new one, with numbers moved:
those of its labels, temporaries and flags go on behind the ones that the programs before it use, and its ordinals
behind their functions.  So no numbered name is in two of the codes.

* `NameKind`, `NameKind.used` — labels, temporaries and flags, and how many of a kind some code uses;
* `Shift.behind` — how far some programs move the numbers of the next one;
* `Program.WellFormed.numbered_iff`, `Program.WellFormed.names_lower` — the numbered names in the code of a program,
  and the supply that it leaves;
* `Workspace.Behind`, `Program.Accepted.generate_behind` — the workspace behind some programs, and one more program;
* `Workspace.OnlyRenumbers`, `Workspace.codes_onlyRenumber` — a row of accepted programs.
-/

namespace ThreeAddress

open NameSupply (labelName tempName flagName)

/-! ### Kinds of numbered names -/

/-- The kinds of numbered names. -/
inductive NameKind
  | label
  | temp
  | flag
deriving DecidableEq

/-- The next number of a kind. -/
def NameSupply.next (s : NameSupply) : NameKind → Nat
  | .label => s.label
  | .temp => s.temp
  | .flag => s.flag

/-- How far the numbers of a kind are moved. -/
def Shift.distance (k : Shift) : NameKind → Nat
  | .label => k.label
  | .temp => k.temp
  | .flag => k.flag

theorem NameSupply.next_first (kind : NameKind) : NameSupply.first.next kind = 1 := by
  cases kind <;> rfl

theorem NameSupply.next_shift (s : NameSupply) (k : Shift) (kind : NameKind) :
    (s.shift k).next kind = s.next kind + k.distance kind := by
  cases kind <;> rfl

/-- Supplies are the same if all their next numbers are. -/
theorem NameSupply.eq_of_next {s r : NameSupply} (h : ∀ kind, s.next kind = r.next kind)
    (ho : s.ordinal = r.ordinal) : s = r := by
  have hlabel : s.label = r.label := h .label
  have htemp : s.temp = r.temp := h .temp
  have hflag : s.flag = r.flag := h .flag
  cases s
  cases r
  rw [NameSupply.mk.injEq]
  exact ⟨hlabel, htemp, hflag, ho⟩

namespace NameKind

/-- The letter in front of the number. -/
def letter : NameKind → Char
  | .label => 'L'
  | .temp => 't'
  | .flag => 'c'

/-- The name with a number. -/
def name : NameKind → Nat → String
  | .label => labelName
  | .temp => tempName
  | .flag => flagName

/-- Whether a name is a numbered one of a kind. -/
def covers (kind : NameKind) (x : String) : Bool := isReservedName x && x.toList.head? == some kind.letter

/-- The number of names of a kind that some code uses. -/
def used (kind : NameKind) (code : List Instruction) : Nat := ((namesIn code).filter kind.covers).dedup.length

variable {kind other : NameKind} {m n : Nat}

theorem toList_name (kind : NameKind) (n : Nat) : (kind.name n).toList = kind.letter :: (toString n).toList := by
  cases kind with
  | label => exact NameSupply.labelName_toList n
  | temp => exact NameSupply.tempName_toList n
  | flag => exact NameSupply.flagName_toList n

theorem isReservedName_name (kind : NameKind) (n : Nat) : isReservedName (kind.name n) = true := by
  cases kind with
  | label => exact isReservedName_labelName n
  | temp => exact isReservedName_tempName n
  | flag => exact isReservedName_flagName n

theorem letter_inj (h : kind.letter = other.letter) : kind = other := by
  cases kind <;> cases other <;> first | rfl | exact absurd h (by decide)

theorem name_inj (h : kind.name m = other.name n) : kind = other ∧ m = n := by
  have hl := congrArg String.toList h
  rw [toList_name, toList_name, List.cons.injEq] at hl
  exact ⟨letter_inj hl.1, toString_inj (String.toList_inj.1 hl.2)⟩

theorem covers_name : kind.covers (other.name n) = true ↔ other = kind := by
  rw [covers, isReservedName_name, toList_name, Bool.true_and, List.head?_cons, beq_iff_eq, Option.some.injEq]
  exact ⟨letter_inj, congrArg letter⟩

theorem renumberName_name (k : Shift) (kind : NameKind) (n : Nat) :
    renumberName k (kind.name n) = kind.name (n + k.distance kind) := by
  cases kind with
  | label => exact renumberName_labelName k n
  | temp => exact renumberName_tempName k n
  | flag => exact renumberName_flagName k n

/-- Code whose numbered names have all numbers from one on uses as many of a kind as there are numbers. -/
theorem used_eq {code : List Instruction} {top : NameKind → Nat}
    (h : ∀ x, x ∈ namesIn code ∧ isReservedName x = true ↔
      ∃ kind n, 1 ≤ n ∧ n < top kind ∧ x = NameKind.name kind n)
    (kind : NameKind) : kind.used code = top kind - 1 := by
  have hmem (x : String) : x ∈ ((namesIn code).filter kind.covers).dedup ↔
      x ∈ (List.range' 1 (top kind - 1)).map kind.name := by
    rw [List.mem_dedup, List.mem_filter, List.mem_map]
    constructor
    · rintro ⟨hx, hcovers⟩
      have hr : isReservedName x = true := (Bool.and_eq_true_iff.1 hcovers).1
      obtain ⟨other, n, hlo, hhi, rfl⟩ := (h x).1 ⟨hx, hr⟩
      obtain rfl := covers_name.1 hcovers
      exact ⟨n, List.mem_range'_1.2 (by omega), rfl⟩
    · rintro ⟨n, hn, rfl⟩
      have hn := List.mem_range'_1.1 hn
      exact ⟨((h _).2 ⟨kind, n, hn.1, by omega, rfl⟩).1, covers_name.2 rfl⟩
  have hnodup : ((List.range' 1 (top kind - 1)).map kind.name).Nodup :=
    List.Nodup.map (fun _ _ hmn => (name_inj hmn).2) List.nodup_range'
  have hperm := (List.perm_ext_iff_of_nodup (List.nodup_dedup _) hnodup).2 hmem
  rw [used, hperm.length_eq, List.length_map, List.length_range']

end NameKind

/-! ### Names in code -/

theorem definedLabels_subset_namesIn {code : List Instruction} {x : String} (hx : x ∈ definedLabels code) :
    x ∈ namesIn code := by
  obtain ⟨i, hi, hlabel⟩ := List.mem_filterMap.1 hx
  refine List.mem_flatMap.2 ⟨i, hi, List.mem_append_right _ (List.mem_append_left _ ?_)⟩
  exact List.mem_filterMap.2 ⟨i, List.mem_singleton_self i, hlabel⟩

theorem mem_namesIn_of_uses {code : List Instruction} {i : Instruction} {x : String} (hi : i ∈ code)
    (hx : x ∈ i.uses) : x ∈ namesIn code :=
  List.mem_flatMap.2 ⟨i, hi, List.mem_append_left _ ((i.mem_mentions x).2 (.inr hx))⟩

theorem Lifetime.mem_namesIn {x : String} {code before piece mid behind : List Instruction} {ins : Instruction}
    (h : Lifetime x code before piece mid ins behind) : x ∈ namesIn code := by
  refine mem_namesIn_of_uses ?_ h.reads
  rw [h.code]
  simp

namespace Instruction

variable (k : Shift) (i : Instruction)

theorem dest?_renumber : (i.renumber k).dest? = i.dest?.map (renumberName k) := by
  cases i <;> rfl

theorem uses_renumber : (i.renumber k).uses = i.uses.map (renumberName k) := by
  have hvalue (v : Rvalue) : (v.renumber k).operands = v.operands.map (renumberName k) := by cases v <;> rfl
  cases i with
  | assign dest v => exact hvalue v
  | ifz v target => exact hvalue v
  | ret v =>
    cases v with
    | none => rfl
    | some v => exact hvalue v
  | _ => rfl

theorem target?_renumber : (i.renumber k).target? = i.target?.map (renumberName k) := by
  cases i <;> rfl

theorem definedLabels_renumber : definedLabels [i.renumber k] = (definedLabels [i]).map (renumberName k) := by
  cases i <;> rfl

/-- What is called keeps its name. -/
theorem callee?_renumber : (i.renumber k).callee? = i.callee? := by
  have hvalue (v : Rvalue) : (v.renumber k).callee? = v.callee? := by cases v <;> rfl
  cases i with
  | assign dest v => exact hvalue v
  | ifz v target => exact hvalue v
  | ret v =>
    cases v with
    | none => rfl
    | some v => exact hvalue v
  | _ => rfl

/-- The names in an instruction have moved numbers, but for what it calls. -/
theorem names_renumber {x : String} (hx : x ∈ (i.renumber k).names) :
    (∃ y ∈ i.names, renumberName k y = x) ∨ i.callee? = some x := by
  unfold names at hx ⊢
  rcases List.mem_append.1 hx with hx | hx
  · left
    rcases ((i.renumber k).mem_mentions x).1 hx with hx | hx
    · rw [i.dest?_renumber, Option.map_eq_some_iff] at hx
      obtain ⟨y, hy, rfl⟩ := hx
      exact ⟨y, List.mem_append_left _ ((i.mem_mentions y).2 (.inl hy)), rfl⟩
    · rw [i.uses_renumber, List.mem_map] at hx
      obtain ⟨y, hy, rfl⟩ := hx
      exact ⟨y, List.mem_append_left _ ((i.mem_mentions y).2 (.inr hy)), rfl⟩
  rcases List.mem_append.1 hx with hx | hx
  · left
    rw [i.definedLabels_renumber, List.mem_map] at hx
    obtain ⟨y, hy, rfl⟩ := hx
    exact ⟨y, List.mem_append_right _ (List.mem_append_left _ hy), rfl⟩
  rcases List.mem_append.1 hx with hx | hx
  · left
    rw [i.target?_renumber, Option.mem_toList, Option.map_eq_some_iff] at hx
    obtain ⟨y, hy, rfl⟩ := hx
    have hmem : y ∈ i.target?.toList ++ i.callee?.toList := List.mem_append_left _ (Option.mem_toList.2 hy)
    exact ⟨y, List.mem_append_right _ (List.mem_append_right _ hmem), rfl⟩
  · right
    rw [i.callee?_renumber, Option.mem_toList] at hx
    exact hx

end Instruction

/-- A name that is numbered when its number has been moved was so before. -/
theorem isReservedName_of_renumberName {k : Shift} {x : String} (h : isReservedName (renumberName k x) = true) :
    isReservedName x = true := by
  by_contra hx
  rw [renumberName, if_neg hx] at h
  split at h
  · rw [isReservedName_localText] at h
    cases h
  · exact hx h

/-! ### The numbered names of a program -/

namespace Program

variable {p : Program} {x : String}

/-- What has been given by the end of a program in order has been used by it. -/
theorem WellFormed.mem_namesIn_of_gave (hw : p.WellFormed) (hs : p.Spelled) (hlate : ¬(Stock.mk 1 1 0).Gave x)
    (hgave : ((p.lower.run .first).state.stock 0).Gave x) : x ∈ namesIn p.code := by
  obtain ⟨before, piece, mid, ins, behind, h⟩ :=
    ((hw.linear_taken hs).life (Stock.sound_zero 1 1) hlate hgave (Multiset.notMem_zero x)).lifetime
  exact h.mem_namesIn

/-- **Numbered names.**  Those in the code of a program in order have the numbers from one up to the supply that it
leaves, all of them. -/
theorem WellFormed.numbered_iff (hw : p.WellFormed) (hs : p.Spelled) :
    x ∈ namesIn p.code ∧ isReservedName x = true ↔
      ∃ kind n, 1 ≤ n ∧ n < (p.lower.run .first).state.names.next kind ∧ x = NameKind.name kind n := by
  constructor
  · rintro ⟨hx, hr⟩
    rcases hw.mem_namesIn hs hx with hx | hx | rfl
    · rcases gave_of_form (hw.linear_taken hs) hx hr with ⟨n, hlo, hhi, rfl⟩ | ⟨n, hlo, hhi, rfl⟩
      · exact ⟨.temp, n, hlo, hhi, rfl⟩
      · exact ⟨.flag, n, hlo, hhi, rfl⟩
    · obtain ⟨n, hlo, hhi, rfl⟩ := hw.numbered_label hx hr
      exact ⟨.label, n, hlo, hhi, rfl⟩
    · exact absurd hr (by decide)
  · rintro ⟨kind, n, hlo, hhi, rfl⟩
    refine ⟨?_, kind.isReservedName_name n⟩
    cases kind with
    | label =>
      have hmem : n ∈ List.range' 1 ((p.lower.run .first).state.names.label - 1) := by
        have hhi : n < (p.lower.run .first).state.names.label := hhi
        exact List.mem_range'_1.2 (by omega)
      refine definedLabels_subset_namesIn (p.labels_taken.2.mem_iff.2 ?_)
      exact List.mem_append_right _ (List.mem_cons_of_mem _ (List.mem_map_of_mem hmem))
    | temp =>
      exact hw.mem_namesIn_of_gave hs (fun h => Nat.not_lt.2 hlo (Stock.gave_temp.1 h)) (Stock.gave_temp.2 hhi)
    | flag =>
      exact hw.mem_namesIn_of_gave hs (fun h => Nat.not_lt.2 hlo (Stock.gave_flag.1 h)) (Stock.gave_flag.2 hhi)

/-- A numbered name is in the code of a program with numbers moved only if one is in the code of the program. -/
theorem WellFormed.numbered_renumber (hw : p.WellFormed) (hs : p.Spelled) {k : Shift}
    (hx : x ∈ namesIn (p.code.map (Instruction.renumber k))) (hr : isReservedName x = true) :
    ∃ y ∈ namesIn p.code, isReservedName y = true ∧ renumberName k y = x := by
  obtain ⟨j, hj, hx⟩ := List.mem_flatMap.1 hx
  obtain ⟨i, hi, rfl⟩ := List.mem_map.1 hj
  rcases i.names_renumber k hx with ⟨y, hy, rfl⟩ | hcallee
  · exact ⟨y, List.mem_flatMap.2 ⟨i, hi, hy⟩, isReservedName_of_renumberName hr, rfl⟩
  · -- routines have no numbered names
    exfalso
    rcases hw.callee_cases hs hi hcallee with ⟨j, -, rfl⟩ | rfl
    · rw [hw.label_unreserved j] at hr
      cases hr
    · exact absurd hr (by decide)

end Program

/-! ### Programs one after another -/

namespace Program

/-- The code of a program in a workspace that has lowered nothing else. -/
def codeAlone (p : Program) : List Instruction := (p.generate.run Workspace.first).1

/-- The number of parameters and local declarations. -/
def localCount (p : Program) : Nat :=
  (p.funcs.map fun f => f.params.length + f.decls.length).sum + p.main.decls.length

/-- A program that some accepted source is read as. -/
def Accepted (p : Program) : Prop := ∃ source compiled, ofSource source = .ok p ∧ compile source = .ok compiled

theorem codeAlone_eq (p : Program) : p.codeAlone = p.code := by
  rw [codeAlone, p.run_generate]
  rfl

/-- Compiling a source gives the code of its program alone. -/
theorem code_of_compile (p : Program) {source : String} {compiled : Compiled} (hsource : ofSource source = .ok p)
    (hcompile : compile source = .ok compiled) : compiled.code = p.codeAlone := by
  obtain ⟨q, hq, -, hcode⟩ := compile_eq_ok hcompile
  rw [hsource] at hq
  cases hq
  rw [hcode, p.codeAlone_eq]

/-- Lowering a program makes as many locals as it declares. -/
theorem length_locals_lower (p : Program) (g : Generator) :
    (p.lower.run g).state.locals.length = g.locals.length + p.localCount := by
  have hlength (bs : List Body) (k : Nat) :
      (Body.localsFrom k bs).length = (bs.map fun b => b.params.length + b.decls.length).sum := by
    induction bs generalizing k with
    | nil => rfl
    | cons b more ih =>
      have hbody : (Body.localsFrom k (b :: more)).length = ((RenameTable.empty k).localNames b.scope).length +
          (Body.localsFrom (k + 1) more).length := List.length_append
      rw [hbody, ih, RenameTable.length_localNames, Body.scope, List.length_append, List.length_map, List.length_map,
        List.map_cons, List.sum_cons]
  rw [(p.lower_registers g).locals, List.length_append, hlength, bodies, List.map_append, List.sum_append,
    List.map_map]
  simp [localCount, Func.asBody, mainBody, Function.comp_def]

end Program

/-- How far some programs move the numbers of the next one: those of labels, temporaries and flags by what they use
of each, and ordinals by their functions. -/
def Shift.behind (ps : List Program) : Shift where
  label := (ps.map fun p => NameKind.label.used p.codeAlone).sum
  temp := (ps.map fun p => NameKind.temp.used p.codeAlone).sum
  flag := (ps.map fun p => NameKind.flag.used p.codeAlone).sum
  ordinal := (ps.map fun p => p.funcs.length).sum

theorem Shift.distance_behind (ps : List Program) (kind : NameKind) :
    (Shift.behind ps).distance kind = (ps.map fun p => kind.used p.codeAlone).sum := by
  cases kind <;> rfl

theorem Shift.distance_append (ps more : List Program) (kind : NameKind) :
    (Shift.behind (ps ++ more)).distance kind =
      (Shift.behind ps).distance kind + (Shift.behind more).distance kind := by
  rw [distance_behind, distance_behind, distance_behind, List.map_append, List.sum_append]

theorem NameSupply.shift_behind (s : NameSupply) (ps more : List Program) :
    (s.shift (Shift.behind more)).shift (Shift.behind ps) = s.shift (Shift.behind (ps ++ more)) := by
  apply NameSupply.eq_of_next
  · intro kind
    rw [NameSupply.next_shift, NameSupply.next_shift, NameSupply.next_shift, Shift.distance_append]
    omega
  · show s.ordinal + (more.map _).sum + (ps.map _).sum = s.ordinal + ((ps ++ more).map _).sum
    rw [List.map_append, List.sum_append]
    omega

/-- The supply that a program in order leaves has gone as far as the program moves numbers. -/
theorem Program.WellFormed.names_lower {p : Program} (hw : p.WellFormed) (hs : p.Spelled) :
    (p.lower.run .first).state.names = NameSupply.first.shift (Shift.behind [p]) := by
  have hpos (kind : NameKind) : 1 ≤ (p.lower.run .first).state.names.next kind := by
    have hgrows := (hw.linear_taken hs).grows
    cases kind with
    | label => exact p.labels_taken.1
    | temp => exact hgrows.1
    | flag => exact hgrows.2
  refine NameSupply.eq_of_next (fun kind => ?_) (p.ordinal_lower .first)
  have hused : kind.used p.codeAlone = (p.lower.run .first).state.names.next kind - 1 := by
    rw [p.codeAlone_eq]
    exact NameKind.used_eq (fun x => hw.numbered_iff hs) kind
  have hdistance : (Shift.behind [p]).distance kind = kind.used p.codeAlone := Shift.distance_behind [p] kind
  have hlo := hpos kind
  rw [NameSupply.next_shift, NameSupply.next_first, hdistance, hused]
  omega

/-! ### The workspace behind programs -/

namespace Workspace

theorem codes_concat (ps : List Program) (p : Program) :
    codes (ps ++ [p]) = codes ps ++ [(p.generate.run (after ps)).1] := by
  unfold codes after
  rw [List.mapM_append]
  rfl

theorem after_concat (ps : List Program) (p : Program) : after (ps ++ [p]) = (p.generate.run (after ps)).2 := by
  unfold after
  rw [List.mapM_append]
  rfl

/-- A workspace as some programs leave it: nothing is at hand, no body is open, and the names to come and the locals
go on behind those of the programs. -/
structure Behind (w : Workspace) (ps : List Program) : Prop where
  buffer : w.buffer = []
  tables : w.tables = []
  names : w.generator.names = NameSupply.first.shift (Shift.behind ps)
  locals : w.localCount = (ps.map Program.localCount).sum

end Workspace

namespace Program.Accepted

variable {p : Program}

theorem wellFormed (hp : p.Accepted) : p.WellFormed := by
  obtain ⟨source, compiled, hsource, hcompile⟩ := hp
  obtain ⟨q, hq, hclean, -⟩ := compile_eq_ok hcompile
  rw [hsource] at hq
  cases hq
  exact .of_clean hclean

theorem spelled (hp : p.Accepted) : p.Spelled := by
  obtain ⟨source, compiled, hsource, -⟩ := hp
  exact ofSource_spelled hsource

/-- **One more program.**  Behind some programs, an accepted program has its code with numbers moved, and it leaves
the workspace as all of them do. -/
theorem generate_behind (hp : p.Accepted) {w : Workspace} {ps : List Program} (h : w.Behind ps) :
    (p.generate.run w).1 = p.codeAlone.map (Instruction.renumber (Shift.behind ps)) ∧
      (p.generate.run w).2.Behind (ps ++ [p]) := by
  have hmoved := hp.wellFormed.lower_renumbers hp.spelled (Shift.behind ps) .first w.generator h.names
  rw [p.run_generate, h.buffer, List.nil_append, p.codeAlone_eq]
  refine ⟨hmoved.record, rfl, h.tables, ?_, ?_⟩
  · rw [hmoved.names, hp.wellFormed.names_lower hp.spelled, NameSupply.shift_behind]
  · rw [List.map_append, List.sum_append, ← h.locals]
    exact p.length_locals_lower w.generator

/-- The numbered names of a program behind others have numbers behind theirs. -/
theorem numbered_behind (hp : p.Accepted) {ps : List Program} {x : String}
    (hx : x ∈ namesIn (p.codeAlone.map (Instruction.renumber (Shift.behind ps)))) (hr : isReservedName x = true) :
    ∃ kind n, (Shift.behind ps).distance kind < n ∧ n ≤ (Shift.behind (ps ++ [p])).distance kind ∧
      x = NameKind.name kind n := by
  rw [p.codeAlone_eq] at hx
  obtain ⟨y, hy, hry, rfl⟩ := hp.wellFormed.numbered_renumber hp.spelled hx hr
  obtain ⟨kind, n, hlo, hhi, rfl⟩ := (hp.wellFormed.numbered_iff hp.spelled).1 ⟨hy, hry⟩
  refine ⟨kind, n + (Shift.behind ps).distance kind, by omega, ?_, NameKind.renumberName_name _ kind n⟩
  have hlast : (p.lower.run .first).state.names.next kind = 1 + (Shift.behind [p]).distance kind := by
    rw [hp.wellFormed.names_lower hp.spelled, NameSupply.next_shift, NameSupply.next_first]
  rw [Shift.distance_append]
  omega

end Program.Accepted

namespace Workspace

variable {ps : List Program}

/-- **Programs one after another** leave the workspace as each one more does. -/
theorem after_behind (h : ∀ p ∈ ps, p.Accepted) : (after ps).Behind ps := by
  induction ps using List.reverseRecOn with
  | nil => exact ⟨rfl, rfl, rfl, rfl⟩
  | append_singleton ps p ih =>
    obtain ⟨hps, hp⟩ := List.forall_mem_append.1 h
    rw [after_concat]
    exact ((hp p (List.mem_singleton_self p)).generate_behind (ih hps)).2

/-- The code of the last program has numbers moved as far as all before it move them. -/
theorem codes_behind {p : Program} (h : ∀ q ∈ ps ++ [p], q.Accepted) :
    codes (ps ++ [p]) = codes ps ++ [p.codeAlone.map (Instruction.renumber (Shift.behind ps))] := by
  obtain ⟨hps, hp⟩ := List.forall_mem_append.1 h
  rw [codes_concat, ((hp p (List.mem_singleton_self p)).generate_behind (after_behind hps)).1]

theorem length_codes (h : ∀ p ∈ ps, p.Accepted) : (codes ps).length = ps.length := by
  induction ps using List.reverseRecOn with
  | nil => rfl
  | append_singleton ps p ih =>
    rw [codes_behind h, List.length_append, List.length_append, ih (List.forall_mem_append.1 h).1]
    rfl

theorem getElem?_codes (h : ∀ p ∈ ps, p.Accepted) {i : Nat} {p : Program} (hp : ps[i]? = some p) :
    (codes ps)[i]? = some (p.codeAlone.map (Instruction.renumber (Shift.behind (ps.take i)))) := by
  induction ps using List.reverseRecOn with
  | nil => cases hp
  | append_singleton ps q ih =>
    have hps := (List.forall_mem_append.1 h).1
    have hlength := length_codes hps
    rw [codes_behind h]
    by_cases hi : i < ps.length
    · rw [List.getElem?_append_left hi] at hp
      rw [List.getElem?_append_left (by omega), List.take_append_of_le_length (Nat.le_of_lt hi)]
      exact ih hps hp
    · have hlast : i = ps.length := by
        have := (List.getElem?_eq_some_iff.1 hp).1
        rw [List.length_append, List.length_singleton] at this
        omega
      subst hlast
      rw [List.getElem?_concat_length, Option.some.injEq] at hp
      rw [← hlength, List.getElem?_concat_length, hlength, List.take_left, hp]

/-- The numbered names in the codes have numbers up to those that all programs use. -/
theorem numbered_codes (h : ∀ p ∈ ps, p.Accepted) {code : List Instruction} (hcode : code ∈ codes ps) {x : String}
    (hx : x ∈ namesIn code) (hr : isReservedName x = true) :
    ∃ kind n, n ≤ (Shift.behind ps).distance kind ∧ x = NameKind.name kind n := by
  induction ps using List.reverseRecOn with
  | nil => cases hcode
  | append_singleton ps p ih =>
    obtain ⟨hps, hp⟩ := List.forall_mem_append.1 h
    rw [codes_behind h] at hcode
    rcases List.mem_append.1 hcode with hcode | hcode
    · obtain ⟨kind, n, hn, rfl⟩ := ih hps hcode
      refine ⟨kind, n, Nat.le_trans hn ?_, rfl⟩
      rw [Shift.distance_append]
      exact Nat.le_add_right _ _
    · rw [List.mem_singleton.1 hcode] at hx
      obtain ⟨kind, n, -, hn, hname⟩ := (hp p (List.mem_singleton_self p)).numbered_behind hx hr
      exact ⟨kind, n, hn, hname⟩

/-- **No numbered name is in two of the codes.** -/
theorem codes_apart (h : ∀ p ∈ ps, p.Accepted) :
    (codes ps).Pairwise fun a b => ∀ x ∈ namesIn a, isReservedName x = true → x ∉ namesIn b := by
  induction ps using List.reverseRecOn with
  | nil => exact .nil
  | append_singleton ps p ih =>
    obtain ⟨hps, hp⟩ := List.forall_mem_append.1 h
    rw [codes_behind h]
    refine List.pairwise_append.2 ⟨ih hps, List.pairwise_singleton _ _, fun a ha b hb x hxa hr hxb => ?_⟩
    rw [List.mem_singleton.1 hb] at hxb
    obtain ⟨kind, m, hm, hold⟩ := numbered_codes hps ha hxa hr
    obtain ⟨other, n, hn, -, hnew⟩ := (hp p (List.mem_singleton_self p)).numbered_behind hxb hr
    obtain ⟨rfl, rfl⟩ := NameKind.name_inj (hold.symm.trans hnew)
    omega

/-! ### Accepted sources -/

/-- Programs that are lowered one after another in one workspace: each has the code that it has in a workspace of its
own with numbers moved, and nothing is left at hand behind any of them. -/
structure OnlyRenumbers (ps : List Program) : Prop where
  /-- The code in a workspace of its own is that which a source of the program compiles to. -/
  alone : ∀ p ∈ ps, ∀ source compiled, Program.ofSource source = .ok p → compile source = .ok compiled →
    compiled.code = p.codeAlone
  size : (codes ps).length = ps.length
  code : ∀ (i : Nat) (p : Program), ps[i]? = some p →
    (codes ps)[i]? = some (p.codeAlone.map (Instruction.renumber (Shift.behind (ps.take i))))
  apart : (codes ps).Pairwise fun a b => ∀ x ∈ namesIn a, isReservedName x = true → x ∉ namesIn b
  buffer : ∀ n, (after (ps.take n)).buffer = []
  tables : ∀ n, (after (ps.take n)).tables = []
  locals : ∀ n, (after (ps.take n)).localCount = ((ps.take n).map Program.localCount).sum

/-- **A workspace for many programs.**  Programs of accepted sources that are lowered one after another in one
workspace have the codes that they have in workspaces of their own, with the numbers of labels, temporaries and flags
moved by what the programs before use of each, and ordinals by the functions before.  So no numbered name is in two
of the codes.  Behind each program the buffer is empty, no body is open, and there are as many locals as there have
been parameters and local declarations. -/
theorem codes_onlyRenumber (h : ∀ p ∈ ps, p.Accepted) : OnlyRenumbers ps := by
  have hbehind (n : Nat) : (after (ps.take n)).Behind (ps.take n) :=
    after_behind fun p hp => h p (List.mem_of_mem_take hp)
  exact {
    alone := fun p _ source compiled => p.code_of_compile
    size := length_codes h
    code := fun i p hp => getElem?_codes h hp
    apart := codes_apart h
    buffer := fun n => (hbehind n).buffer
    tables := fun n => (hbehind n).tables
    locals := fun n => (hbehind n).locals }

theorem codes_onlyRenumber_loopingTwice : ∃ p q, Program.ofSource loopingSource = .ok p ∧
    Program.ofSource shadowingSource = .ok q ∧ (∀ r ∈ [p, q, p], r.Accepted) ∧ OnlyRenumbers [p, q, p] := by
  have hshadowing : compile shadowingSource = .ok ⟨shadowingCode, []⟩ :=
    Except.eq_ok_of_toOption (by decide +kernel)
  obtain ⟨p, hp, -⟩ := compile_eq_ok compile_loopingSource
  obtain ⟨q, hq, -⟩ := compile_eq_ok hshadowing
  have haccepted : ∀ r ∈ [p, q, p], r.Accepted := by
    intro r hr
    rcases List.mem_cons.1 hr with rfl | hr
    · exact ⟨_, _, hp, compile_loopingSource⟩
    rcases List.mem_cons.1 hr with rfl | hr
    · exact ⟨_, _, hq, hshadowing⟩
    · rw [List.mem_singleton.1 hr]
      exact ⟨_, _, hp, compile_loopingSource⟩
  exact ⟨p, q, hp, hq, haccepted, codes_onlyRenumber haccepted⟩

/-- Behind one loop, another has its labels from four on, the second flag, and its parameter in the second body. -/
example : (Program.ofSource loopingSource).toOption.map (fun p => codes [p, p]) = some [loopingCode,
    [.label "f", .getparam "a.2" 1, .ret (some (.atom "a.2")),
      .label "main", .assign "n" (.atom "1"), .label "L4",
      .assign "c2" (.atom "false"), .ifz (.binary "n" (.order .less) "3") "L6", .assign "c2" (.atom "true"),
      .label "L6", .ifz (.binary "c2" (.same .equal) "true") "L5",
      .param "n", .assign "n" (.call "f" 1), .goto "L4", .label "L5", .call "_exit" 0]] := by decide +kernel

end Workspace

end ThreeAddress
