import ThreeAddress.Proofs.AgreeingNames
import ThreeAddress.Proofs.NameLives

/-!
# Generated names

Lowering brings in numbered temporaries, flags and labels, the label of the main part, and the routine that ends
a program.  A declared name is none of those, but it may be the name of that routine: then the code may define
the routine itself, and the call that ends the program does not leave it.

* `Generated` — the names that lowering brings in;
* `Program.declaredNames` — the names that a program declares, in any scope;
* `Program.Writes` — what the code has for the names and literals of a program;
* `Program.WellFormed.namesIn_origin` — the names in code are those of the program and generated ones;
* `compile_namesApart` — the declared names of an accepted source and the generated ones.
-/

namespace ThreeAddress

open NameSupply (tempName flagName labelName)

/-! ### Names of both kinds -/

/-- A name that lowering brings in: a numbered one, the label of the main part, or the routine that ends a
program. -/
inductive Generated : String → Prop
  | temp (k : Nat) : Generated (tempName k)
  | flag (k : Nat) : Generated (flagName k)
  | label (k : Nat) : Generated (labelName k)
  | main : Generated "main"
  | exit : Generated exitRoutine

theorem Generated.form {x : String} (h : Generated x) :
    isReservedName x = true ∨ x = "main" ∨ x = exitRoutine := by
  cases h with
  | temp k => exact .inl (isReservedName_tempName k)
  | flag k => exact .inl (isReservedName_flagName k)
  | label k => exact .inl (isReservedName_labelName k)
  | main => exact .inr (.inl rfl)
  | exit => exact .inr (.inr rfl)

/-- A name that is not reserved, nor the label of the main part, is generated only if it is the name of the
routine that ends a program. -/
theorem generated_iff {x : String} (hr : isReservedName x = false) (hm : x ≠ "main") :
    Generated x ↔ x = exitRoutine := by
  constructor
  · intro h
    rcases h.form with h | h | h
    · rw [hr] at h
      cases h
    · exact absurd h hm
    · exact h
  · rintro rfl
    exact .exit

/-- The names of locals are not generated, whatever they are in the source. -/
theorem not_generated_localText (x : String) (k : Nat) : ¬Generated (localText x k) := by
  have hdot (y : String) (hy : '.' ∉ y.toList) : localText x k ≠ y := by
    rintro rfl
    exact hy (dot_mem_localText x k)
  rw [generated_iff (isReservedName_localText x k) (hdot _ (by decide))]
  exact hdot _ (by decide)

namespace Program

/-- The names that a program declares, in any scope. -/
def declaredNames (p : Program) : List String := p.scopeNames ++ p.bodies.flatMap Body.scope

/-- What code has for the names and literals of a program. -/
inductive Writes (p : Program) : String → Prop
  | global {d : Decl} (hd : d ∈ p.decls) : Writes p d.name
  | func {f : Func} (hf : f ∈ p.funcs) : Writes p f.name
  | inner {i : Nat} {b : Body} {x : String} (hb : p.bodies[i]? = some b) (hx : x ∈ b.scope) :
      Writes p (localText x (i + 1))
  | literal {x : String} {v : Value} (h : literal? x = some v) : Writes p x

variable {p : Program} {x : String}

theorem Spelled.scope (hs : p.Spelled) {b : Body} (hb : b ∈ p.bodies) (hx : x ∈ b.scope) :
    isIdentifier x = true := by
  have hof (params : List Param) (decls : List Decl) (hp : ∀ q ∈ params, isIdentifier q.name = true)
      (hd : ∀ d ∈ decls, d.Spelled) (hx : x ∈ params.map (·.name) ++ decls.map (·.name)) : isIdentifier x = true := by
    rcases List.mem_append.1 hx with hx | hx
    · obtain ⟨q, hq, rfl⟩ := List.mem_map.1 hx
      exact hp q hq
    · obtain ⟨d, hmem, rfl⟩ := List.mem_map.1 hx
      exact (hd d hmem).name
  rcases List.mem_append.1 hb with hb | hb
  · obtain ⟨f, hf, rfl⟩ := List.mem_map.1 hb
    exact hof f.params f.decls (hs.funcs f hf).params (hs.funcs f hf).decls hx
  · rw [List.mem_singleton.1 hb] at hx
    exact hof [] p.main.decls (fun _ hq => absurd hq List.not_mem_nil) hs.mainDecls hx

/-- Declared names are identifiers. -/
theorem Spelled.declaredNames (hs : p.Spelled) (hx : x ∈ p.declaredNames) : isIdentifier x = true := by
  rcases List.mem_append.1 hx with hx | hx
  · rcases List.mem_append.1 hx with hx | hx
    · obtain ⟨d, hd, rfl⟩ := List.mem_map.1 hx
      exact (hs.decls d hd).name
    · obtain ⟨f, hf, rfl⟩ := List.mem_map.1 hx
      exact (hs.funcs f hf).name
  · obtain ⟨b, hb, hx⟩ := List.mem_flatMap.1 hx
    exact hs.scope hb hx

/-- No declared name of a program in order is reserved. -/
theorem WellFormed.declared_unreserved (hw : p.WellFormed) (hx : x ∈ p.declaredNames) :
    isReservedName x = false := by
  rcases List.mem_append.1 hx with hx | hx
  · exact hw.names.unreserved x hx
  · obtain ⟨b, hb, hx⟩ := List.mem_flatMap.1 hx
    obtain ⟨i, hi⟩ := List.getElem?_of_mem hb
    exact (hw.bodyNames hi).unreserved x hx

/-- **Declared names.**  Of the generated names, a program in order can declare only that of the routine which ends
programs. -/
theorem WellFormed.declared_generated (hw : p.WellFormed) (hs : p.Spelled) (hx : x ∈ p.declaredNames) :
    Generated x ↔ x = exitRoutine := by
  refine generated_iff (hw.declared_unreserved hx) ?_
  rintro rfl
  exact absurd (hs.declaredNames hx) (by decide)

/-! ### Names in code -/

/-- The variables of a program are written as they are declared, local ones with the ordinal of their body. -/
theorem writes_of_mem_vars {type : Ty} (h : (x, type) ∈ p.vars) : p.Writes x := by
  rcases mem_vars.1 h with ⟨d, hd, rfl, -⟩ | ⟨i, b, y, hb, hy, rfl⟩
  · exact .global hd
  · refine .inner hb ?_
    rw [← b.map_fst_vars]
    exact List.mem_map_of_mem (f := Prod.fst) hy

theorem WellFormed.mentioned_origin (hw : p.WellFormed) (hs : p.Spelled) (hx : x ∈ mentioned p.code) :
    p.Writes x ∨ Generated x := by
  cases hr : isReservedName x with
  | true =>
    obtain ⟨n, k, hlinear⟩ := hw.linear_code hs
    rcases gave_of_form hlinear hx hr with ⟨j, -, -, rfl⟩ | ⟨j, -, -, rfl⟩
    · exact .inr (.temp j)
    · exact .inr (.flag j)
  | false =>
    rcases hw.var_of_mentioned hs hx hr with ⟨v, hv⟩ | ⟨type, hvar⟩
    · exact .inl (.literal hv)
    · exact .inl (writes_of_mem_vars hvar)

theorem definedLabels_origin (hx : x ∈ definedLabels p.code) : p.Writes x ∨ Generated x := by
  obtain ⟨n, hlabels⟩ := p.labels_code
  rcases List.mem_append.1 (hlabels.mem_iff.1 hx) with hx | hx
  · obtain ⟨f, hf, rfl⟩ := List.mem_map.1 hx
    exact .inl (.func hf)
  · rcases List.mem_cons.1 hx with rfl | hx
    · exact .inr .main
    · obtain ⟨k, -, rfl⟩ := List.mem_map.1 hx
      exact .inr (.label k)

/-- **Names apart.**  What code has for the names and literals of a program in order is not generated, but for the
name of the routine that ends programs. -/
theorem WellFormed.writes_generated (hw : p.WellFormed) (hs : p.Spelled) (hx : p.Writes x) (hg : Generated x) :
    x = exitRoutine := by
  cases hx with
  | global hd =>
    exact (hw.declared_generated hs (List.mem_append_left _ (List.mem_append_left _ (List.mem_map_of_mem hd)))).1 hg
  | func hf =>
    exact (hw.declared_generated hs (List.mem_append_left _ (List.mem_append_right _ (List.mem_map_of_mem hf)))).1 hg
  | inner hb hx => exact absurd hg (not_generated_localText _ _)
  | literal hv =>
    rcases hg.form with hr | rfl | h
    · rw [literal?_of_isReservedName hr] at hv
      cases hv
    · have hname : literal? "main" = none := by decide
      rw [hname] at hv
      cases hv
    · exact h

/-- **Names in code.**  Every name in the code of a program in order comes from the program or is generated. -/
theorem WellFormed.namesIn_origin (hw : p.WellFormed) (hs : p.Spelled) (hx : x ∈ namesIn p.code) :
    p.Writes x ∨ Generated x := by
  rcases hw.mem_namesIn hs hx with hx | hx | rfl
  · exact hw.mentioned_origin hs hx
  · exact definedLabels_origin hx
  · exact .inr .exit

/-- The code of a program defines the routine that ends it exactly if one of its functions has that name. -/
theorem exit_mem_definedLabels (p : Program) :
    exitRoutine ∈ definedLabels p.code ↔ exitRoutine ∈ p.funcs.map (·.name) := by
  obtain ⟨n, hlabels⟩ := p.labels_code
  rw [hlabels.mem_iff, List.mem_append, List.mem_cons, or_iff_left]
  rintro (hx | hx)
  · exact absurd hx (by decide)
  · obtain ⟨k, -, hk⟩ := List.mem_map.1 hx
    have hr := isReservedName_labelName k
    rw [hk] at hr
    exact absurd hr (by decide)

/-! ### Declared and generated names -/

/-- The declared names of a program and the names that its code has beside them. -/
structure NamesApart (p : Program) (code : List Instruction) : Prop where
  origin : ∀ x ∈ namesIn code, p.Writes x ∨ Generated x
  apart : ∀ x, p.Writes x → Generated x → x = exitRoutine
  /-- A declared name can be the one of the routine that ends a program, but no other generated one. -/
  declared : ∀ x ∈ p.declaredNames, Generated x ↔ x = exitRoutine
  closes : code.getLast? = some (.call exitRoutine 0)
  /-- The last call leaves the program exactly if no function has the name of what it calls. -/
  exit : exitRoutine ∈ definedLabels code ↔ exitRoutine ∈ p.funcs.map (·.name)

end Program

/-! ### Accepted sources -/

/-- **Generated names.**  In the code of an accepted source every name comes from a declaration, is a literal, or
is generated, and no declared name is a temporary, a flag, a numbered label, or the label of the main part.  It can
be the name of the routine that ends the program: the code defines that routine exactly if a function is declared
with its name. -/
theorem compile_namesApart {source : String} {compiled : Compiled} (h : compile source = .ok compiled) :
    ∃ p, Program.ofSource source = .ok p ∧ p.NamesApart compiled.code := by
  obtain ⟨p, hp, hclean, hcode⟩ := compile_eq_ok h
  have hw := Program.WellFormed.of_clean hclean
  have hs := ofSource_spelled hp
  refine ⟨p, hp, ?_⟩
  rw [hcode]
  refine ⟨fun x => hw.namesIn_origin hs, fun x => hw.writes_generated hs, fun x => hw.declared_generated hs, ?_, p.exit_mem_definedLabels⟩
  rw [p.code_eq_toExit, List.getLast?_concat]

theorem compile_namesApart_loopingSource : compile loopingSource = .ok ⟨loopingCode, []⟩ ∧
    ∃ p, Program.ofSource loopingSource = .ok p ∧ p.NamesApart loopingCode :=
  ⟨compile_loopingSource, compile_namesApart compile_loopingSource⟩

/-- A source with a function that has the name of the routine which ends programs. -/
def homeboundSource : String := "void _exit() \x7b return (); \x7d main \x7b \x7d"

/-- The code of that source. -/
def homeboundCode : List Instruction :=
  [.label "_exit", .ret none, .label "main", .call "_exit" 0]

/-- The source is accepted; it declares a generated name, and its code defines the routine that it calls last. -/
theorem compile_homeboundSource_collides : (compile homeboundSource).toOption.map (·.code) = some homeboundCode ∧
    exitRoutine ∈ definedLabels homeboundCode ∧
    (Program.ofSource homeboundSource).toOption.map (·.declaredNames) = some [exitRoutine] ∧
    Generated exitRoutine :=
  ⟨by decide +kernel, by decide, by decide +kernel, .exit⟩

end ThreeAddress
