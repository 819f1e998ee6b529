import ThreeAddress.Proofs.FileEffects
import ThreeAddress.Proofs.ReportedPlaces

/-!
# The order of reports

The reports on a refused source are sorted by their places, and those on an accepted one are not: its warnings are told
as they were discovered, which is the order of places only if they were discovered in that order.  Either way each
finding is told once.

* `Findings.discovered`, `Findings.InSourceOrder` — all reports as discovered, and in the order of their places;
* `Findings.InSourceOrder.unique` — there is one such order, and `Findings.reports_inSourceOrder` — sorting leads to it;
* `Options.err_script` — what a run tells about a source;
* `Options.run_reportsOn` — whether it does so in order;
* `Options.run_reportsOn_outOfOrder` — two warnings that are told in the wrong order.
-/

namespace ThreeAddress

/-! ### The order of places -/

namespace Findings

variable {f : Findings} {reports reports' : List Report}

/-- All reports as discovered, those of faults before those of warnings. -/
def discovered (f : Findings) : List Report := f.faults.map Fault.report ++ f.warnings.map Warning.report

/-- The reports of a list whose spans start at some place. -/
def startingAt (n : Nat) (reports : List Report) : List Report := reports.filter (·.span.start == n)

/-- All reports in the order in which their spans start; those that start together stand as they do among all that were
discovered. -/
structure InSourceOrder (f : Findings) (reports : List Report) : Prop where
  ascending : reports.Pairwise fun r r' => r.span.start ≤ r'.span.start
  ties : ∀ n, startingAt n reports = startingAt n f.discovered

theorem mem_startingAt {n : Nat} {r : Report} : r ∈ startingAt n reports ↔ r ∈ reports ∧ r.span.start = n := by
  rw [startingAt, List.mem_filter, beq_iff_eq]

theorem mem_iff_of_startingAt (h : ∀ n, startingAt n reports = startingAt n reports') (r : Report) :
    r ∈ reports ↔ r ∈ reports' := by
  simpa [mem_startingAt] using congrArg (r ∈ ·) (h r.span.start)

/-- Lists in ascending order that agree at each start are equal. -/
theorem eq_of_startingAt (h : reports.Pairwise fun r r' => r.span.start ≤ r'.span.start)
    (h' : reports'.Pairwise fun r r' => r.span.start ≤ r'.span.start)
    (hties : ∀ n, startingAt n reports = startingAt n reports') : reports = reports' := by
  induction reports generalizing reports' with
  | nil =>
    refine (List.eq_nil_iff_forall_not_mem.2 fun r hr => ?_).symm
    exact List.not_mem_nil ((mem_iff_of_startingAt hties r).2 hr)
  | cons r more ih =>
    cases reports' with
    | nil => exact absurd ((mem_iff_of_startingAt hties r).1 List.mem_cons_self) List.not_mem_nil
    | cons r' more' =>
      rw [List.pairwise_cons] at h h'
      -- each head starts no later than the other list's
      have hle : r.span.start ≤ r'.span.start := by
        rcases List.mem_cons.1 ((mem_iff_of_startingAt hties r').2 List.mem_cons_self) with heq | hr'
        · rw [heq]
        · exact h.1 r' hr'
      have hge : r'.span.start ≤ r.span.start := by
        rcases List.mem_cons.1 ((mem_iff_of_startingAt hties r).1 List.mem_cons_self) with heq | hr
        · rw [heq]
        · exact h'.1 r hr
      have hstart : r'.span.start = r.span.start := Nat.le_antisymm hge hle
      have hheads := hties r.span.start
      simp only [startingAt, List.filter_cons, hstart, beq_self_eq_true, if_true, List.cons.injEq] at hheads
      obtain ⟨rfl, -⟩ := hheads
      have hmore (n : Nat) : startingAt n more = startingAt n more' := by
        have hn := hties n
        simp only [startingAt, List.filter_cons] at hn ⊢
        split at hn
        · exact (List.cons.inj hn).2
        · exact hn
      rw [ih h.2 h'.2 hmore]

/-- There is only one order of places. -/
theorem InSourceOrder.unique (h : f.InSourceOrder reports) (h' : f.InSourceOrder reports') : reports = reports' :=
  eq_of_startingAt h.ascending h'.ascending fun n => (h.ties n).trans (h'.ties n).symm

/-- Each report is there once. -/
theorem InSourceOrder.perm (h : f.InSourceOrder reports) : reports.Perm f.discovered := by
  rw [List.perm_iff_count]
  intro r
  have hcount := congrArg (List.count r) (h.ties r.span.start)
  rwa [startingAt, startingAt, List.count_filter (by simp), List.count_filter (by simp)] at hcount

/-- Sorting leads to the order of places. -/
theorem reports_inSourceOrder (f : Findings) : f.InSourceOrder f.reports := by
  have hperm : f.reports.Perm f.discovered := List.mergeSort_perm _ _
  refine ⟨?_, fun n => ?_⟩
  · have hsorted : f.reports.Pairwise fun r r' => decide (r.span.start ≤ r'.span.start) = true :=
      List.pairwise_mergeSort (by simpa using fun a b c => Nat.le_trans)
        (by simpa using fun a b => Nat.le_total _ _) f.discovered
    simpa using hsorted
  · -- reports that start together are in order already, so they stay as they are
    have hequal : (startingAt n f.discovered).Pairwise fun r r' => decide (r.span.start ≤ r'.span.start) = true := by
      refine List.pairwise_of_forall_mem_list fun r hr r' hr' => ?_
      rw [(mem_startingAt.1 hr).2, (mem_startingAt.1 hr').2]
      simp
    have hsub : (startingAt n f.discovered).Sublist f.reports :=
      List.sublist_mergeSort (by simpa using fun a b c => Nat.le_trans) (by simpa using fun a b => Nat.le_total _ _)
        hequal List.filter_sublist
    have hfiltered := hsub.filter (·.span.start == n)
    rw [startingAt, List.filter_filter] at hfiltered
    simp only [Bool.and_self] at hfiltered
    exact (hfiltered.eq_of_length ((hperm.filter _).length_eq).symm).symm

/-- What was discovered is in the order of places if its spans start in ascending order. -/
theorem discovered_inSourceOrder_iff :
    f.InSourceOrder f.discovered ↔ f.discovered.Pairwise fun r r' => r.span.start ≤ r'.span.start :=
  ⟨InSourceOrder.ascending, fun h => ⟨h, fun _ => rfl⟩⟩

end Findings

/-! ### What a run tells -/

/-- All that is found in a source. -/
def findingsOn (source : String) : Findings :=
  match compile source with
  | .error findings => findings
  | .ok compiled => ⟨[], compiled.warnings⟩

/-- Reports on a source, one after the other, drawn in some way. -/
def reportsText (draw : Picture → Option String) (source fileName : String) (reports : List Report) : String :=
  String.join (reports.map fun r => r.drawn draw source fileName)

@[simp]
theorem Script.err_progress (S : FileSystem) (s : S.State) (o : Options) (text : String) (next : Script) :
    ((progress o text next).run S s).err = (next.run S s).err := by
  unfold progress
  split <;> rfl

namespace Options

variable {S : FileSystem} {o : Options} {s : S.State} {source : String}

/-- Writing tells nothing, or that it failed, unless the code goes where the reports go. -/
theorem err_writing (o : Options) (s : S.State) (c : Compiled) :
    ((o.writing c).run S s).err = "" ∨ (∃ reason, ((o.writing c).run S s).err = "Error: " ++ reason ++ "\n") ∨
      (S.writeText s o.output (codeText c.code)).err ≠ "" := by
  by_cases herr : (S.writeText s o.output (codeText c.code)).err = ""
  · rw [writing, Script.run]
    simp only [herr, String.empty_append]
    cases (S.writeText s o.output (codeText c.code)).failure with
    | none => exact .inl rfl
    | some reason => exact .inr (.inl ⟨_, String.append_empty⟩)
  · exact .inr (.inr herr)

theorem err_read (draw : Picture → Option String) (hname : NamesSource o.source)
    (hread : S.readText s o.source = .ok source) :
    ((o.script draw).run S s).err = ((o.compileScript draw source).run S s).err := by
  rw [script, if_pos (hasSourceExtension_iff.2 hname), Script.err_progress, Script.run, hread]

/-- A run on an accepted source tells the warnings, and then what writing tells. -/
theorem err_accepted {c : Compiled} (draw : Picture → Option String) (hname : NamesSource o.source)
    (hread : S.readText s o.source = .ok source) (hcompile : compile source = .ok c) :
    ((o.script draw).run S s).err =
      reportsText draw source o.reportName (c.warnings.map Warning.report) ++ ((o.writing c).run S s).err := by
  have hwriting : ((o.writeScript c).run S s).err = ((o.writing c).run S s).err := Script.err_progress S s o _ _
  rw [err_read draw hname hread, compileScript, Script.err_progress, hcompile, Script.run, hwriting, reportsText,
    List.map_map]
  rfl

/-- A run on a source tells the reports, and then perhaps that it failed, unless the code goes where the reports go. -/
theorem err_script (draw : Picture → Option String) (hname : NamesSource o.source)
    (hread : S.readText s o.source = .ok source) :
    ∃ rest, ((o.script draw).run S s).err = reportsText draw source o.reportName (reportsOn source) ++ rest ∧
      (rest = "" ∨ (∃ reason, rest = "Error: " ++ reason ++ "\n") ∨
        ∃ c, compile source = .ok c ∧ (S.writeText s o.output (codeText c.code)).err ≠ "") := by
  rw [reportsOn]
  cases hcompile : compile source with
  | error findings =>
    rw [err_read draw hname hread, compileScript, Script.err_progress, hcompile]
    exact ⟨_, rfl, .inr (.inl ⟨_, String.append_empty⟩)⟩
  | ok c =>
    refine ⟨_, err_accepted draw hname hread hcompile, ?_⟩
    rcases err_writing o s c with h | h | h
    · exact .inl h
    · exact .inr (.inl h)
    · exact .inr (.inr ⟨c, rfl, h⟩)

end Options

/-- The reports on a source are those of all that is found in it. -/
theorem reportsOn_perm (source : String) : (reportsOn source).Perm (findingsOn source).discovered := by
  unfold reportsOn findingsOn
  cases compile source with
  | error findings => exact findings.reports_inSourceOrder.perm
  | ok compiled => exact .refl _

theorem reportsOn_inSourceOrder_iff (source : String) : (findingsOn source).InSourceOrder (reportsOn source) ↔
    ∀ c, compile source = .ok c → c.warnings.Pairwise fun w w' => w.span.start ≤ w'.span.start := by
  unfold reportsOn findingsOn
  cases compile source with
  | error findings => exact iff_of_true findings.reports_inSourceOrder nofun
  | ok compiled =>
    simp only [Except.ok.injEq, forall_eq']
    refine (Findings.discovered_inSourceOrder_iff (f := ⟨[], compiled.warnings⟩)).trans ?_
    rw [Findings.discovered, List.map_nil, List.nil_append, List.pairwise_map]
    rfl

/-- **The order of reports.**  Whatever source is read, and however reports are drawn, each finding is reported once.  If
the source is refused, the reports come in the order of places; if it is accepted, they do exactly if its warnings were
discovered in ascending order. -/
theorem Options.run_reportsOn {S : FileSystem} {o : Options} {s : S.State} {source : String}
    (draw : Picture → Option String) (hname : NamesSource o.source) (hread : S.readText s o.source = .ok source) :
    (∃ rest, ((o.script draw).run S s).err = reportsText draw source o.reportName (reportsOn source) ++ rest ∧
      (rest = "" ∨ (∃ reason, rest = "Error: " ++ reason ++ "\n") ∨
        ∃ c, compile source = .ok c ∧ (S.writeText s o.output (codeText c.code)).err ≠ "")) ∧
    (reportsOn source).Perm (findingsOn source).discovered ∧
    ((findingsOn source).InSourceOrder (reportsOn source) ↔
      ∀ c, compile source = .ok c → c.warnings.Pairwise fun w w' => w.span.start ≤ w'.span.start) :=
  ⟨err_script draw hname hread, reportsOn_perm source, reportsOn_inSourceOrder_iff source⟩

/-- The options for a source with a name of its own. -/
def orderOptions : Options := ⟨.ofText "order.ccl", .ofText defaultOutput, false⟩

theorem namesSource_orderOptions : NamesSource orderOptions.source := hasSourceExtension_iff.1 (by decide +kernel)

/-- A working directory with a source. -/
def orderSandbox (source : String) : Sandbox := ⟨⟨[("order.ccl", source.toUTF8)]⟩, ⟨[]⟩⟩

/-- What is told about a source there. -/
def orderErr (draw : Picture → Option String) (source : String) : String :=
  ((orderOptions.script draw).run (sandbox none) (orderSandbox source)).err

/-- A source with an undeclared name in a function and a variable of `main` that is never assigned. -/
def faultyFunction : String :=
  "void f() \x7b\n    y = 1;\n    return ();\n\x7d\nmain \x7b\n    var late: integer;\n    f();\n\x7d\n"

/-- What is found in it. -/
def faultyFindings : Findings :=
  ⟨[⟨.undeclaredTarget, "'y' is assigned but was not previously declared", ⟨15, 21⟩, some "y = 1;"⟩],
    [⟨.neverAssigned, "'late' is never assigned", ⟨50, 68⟩⟩]⟩

/-- The fault is reported before the warning, and then that the run failed. -/
theorem Options.run_reportsOn_faultyFunction : NamesSource orderOptions.source ∧
    (sandbox none).readText (orderSandbox faultyFunction) orderOptions.source = .ok faultyFunction ∧
    compile faultyFunction = .error faultyFindings ∧
    ∀ draw, ∃ rest, orderErr draw faultyFunction =
      reportsText draw faultyFunction "order.ccl" faultyFindings.discovered ++ rest := by
  have hread : (sandbox none).readText (orderSandbox faultyFunction) orderOptions.source = .ok faultyFunction :=
    Sandbox.readText_ofText none (by decide +kernel)
  have hcompile : compile faultyFunction = .error faultyFindings := by decide +kernel
  refine ⟨namesSource_orderOptions, hread, hcompile, fun draw => ?_⟩
  obtain ⟨⟨rest, herr, -⟩, -, horder⟩ := run_reportsOn draw namesSource_orderOptions hread
  have hsorted := horder.2 fun c hc => by
    rw [hcompile] at hc
    cases hc
  have hname : orderOptions.reportName = "order.ccl" := by decide +kernel
  rw [findingsOn, hcompile] at hsorted
  rw [hsorted.unique (Findings.discovered_inSourceOrder_iff.2 (by decide)), hname] at herr
  exact ⟨rest, herr⟩

/-- A source with a global variable that is never assigned, and then one of `main`. -/
def idleVariables : String := "var g: integer;\nmain \x7b\n  var x: integer;\n\x7d\n"

/-- What is found about the global variable. -/
def idleGlobal : Warning := ⟨.neverAssigned, "'g' is never assigned", ⟨0, 15⟩⟩

/-- What is found about the other one. -/
def idleLocal : Warning := ⟨.neverAssigned, "'x' is never assigned", ⟨25, 40⟩⟩

theorem compile_idleVariables :
    compile idleVariables = .ok ⟨[.label "main", .call exitRoutine 0], [idleLocal, idleGlobal]⟩ := by
  decide +kernel

theorem findingsOn_idleVariables : findingsOn idleVariables = ⟨[], [idleLocal, idleGlobal]⟩ := by
  rw [findingsOn, compile_idleVariables]

/-- In the order of places the global variable comes first. -/
theorem inSourceOrder_idleVariables :
    (findingsOn idleVariables).InSourceOrder [idleGlobal.report, idleLocal.report] := by
  rw [findingsOn_idleVariables]
  refine ⟨by decide, fun n => ?_⟩
  by_cases hg : n = 0
  · subst hg
    decide
  · have hother : (idleGlobal.report.span.start == n) = false := beq_false_of_ne (Ne.symm hg)
    simp [Findings.startingAt, Findings.discovered, List.filter_cons, hother]

/-- Texts stand in another one, in turn. -/
def InTurn : List String → String → Prop
  | [], _ => True
  | text :: more, whole => ∃ before after, whole = before ++ text ++ after ∧ InTurn more after

/-- But it is told last: the scope of `main` is closed before the global one.  This shows wherever the two reports are
drawn as texts that are not the same in either order, as they are by `Picture.draw`. -/
theorem Options.run_reportsOn_outOfOrder : NamesSource orderOptions.source ∧
    (sandbox none).readText (orderSandbox idleVariables) orderOptions.source = .ok idleVariables ∧
    ((orderOptions.script (some ·.draw)).run (sandbox none) (orderSandbox idleVariables)).code = 0 ∧
    (∀ draw, reportsText draw idleVariables "order.ccl" [idleGlobal.report, idleLocal.report] ≠
        reportsText draw idleVariables "order.ccl" [idleLocal.report, idleGlobal.report] →
      ¬ ∃ reports, (findingsOn idleVariables).InSourceOrder reports ∧
        InTurn (reports.map (·.drawn draw idleVariables "order.ccl")) (orderErr draw idleVariables)) ∧
    reportsText (some ·.draw) idleVariables "order.ccl" [idleGlobal.report, idleLocal.report] ≠
      reportsText (some ·.draw) idleVariables "order.ccl" [idleLocal.report, idleGlobal.report] := by
  have hread : (sandbox none).readText (orderSandbox idleVariables) orderOptions.source = .ok idleVariables :=
    Sandbox.readText_ofText none (by decide +kernel)
  refine ⟨namesSource_orderOptions, hread, by decide +kernel, ?_, by decide +kernel⟩
  rintro draw hother ⟨reports, horder, hturn⟩
  rw [horder.unique inSourceOrder_idleVariables] at hturn
  have htold : orderErr draw idleVariables =
      idleLocal.report.drawn draw idleVariables "order.ccl" ++ idleGlobal.report.drawn draw idleVariables "order.ccl" := by
    have hwritten : ((orderOptions.writing ⟨[.label "main", .call exitRoutine 0], [idleLocal, idleGlobal]⟩).run
        (sandbox none) (orderSandbox idleVariables)).err = "" := by decide +kernel
    have hname : orderOptions.reportName = "order.ccl" := by decide +kernel
    rw [orderErr, Options.err_accepted draw namesSource_orderOptions hread compile_idleVariables, hwritten, hname]
    simp [reportsText]
  obtain ⟨before, rest, herr, between, after, rfl, -⟩ := hturn
  rw [htold] at herr
  -- both reports take up the whole text, so nothing comes before, between or after them
  have hlengths := congrArg String.length herr
  simp only [String.length_append] at hlengths
  obtain rfl : before = "" := String.length_eq_zero_iff.1 (by omega)
  obtain rfl : between = "" := String.length_eq_zero_iff.1 (by omega)
  obtain rfl : after = "" := String.length_eq_zero_iff.1 (by omega)
  rw [String.empty_append, String.empty_append, String.append_empty] at herr
  exact hother (by simpa [reportsText] using herr.symm)

end ThreeAddress
