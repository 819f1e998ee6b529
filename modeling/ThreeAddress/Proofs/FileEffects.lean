import Mathlib.Data.List.TakeDrop
import Mathlib.Data.List.TakeWhile
import ThreeAddress.Proofs.PathOutlets
import ThreeAddress.Proofs.ReadableCode

/-!
# What a run does to files

A run goes through four stages, and the first one that fails ends it with a code of its own.  Only the last stage touches
a file: it opens the output, which empties it, and puts the code there.  So a run that fails has changed no file, but for
an output that could be opened and then did not take the whole code.

* `NamesSource` — the extension of sources;
* `Stage`, `Stage.FailsFirst` — the stages of a run, and the one that ends it;
* `Options.Yields`, `Options.Stops`, `Options.Opens` — a run comes to write the code of its source or stops before, and
  opens a file for the code;
* `FileEffects`, `Options.run_fileEffects` — what a run does to files and the code it ends with, on every system that
  keeps what is written;
* `AllOrNothing`, `Options.run_not_allOrNothing` — that no file is changed if a run fails does not hold: on a full disk
  the output is made or emptied.
-/

namespace ThreeAddress

/-! ### Extensions -/

/-- What follows the last dot of a name, with something before that dot. -/
theorem extension?_eq_some_iff {name ext : List UInt8} :
    extension? name = some ext ↔ FilePath.dot ∉ ext ∧ ∃ stem, stem ≠ [] ∧ name = stem ++ FilePath.dot :: ext := by
  constructor
  · intro h
    unfold extension? at h
    split at h
    · rename_i ending dot last before hspan
      rw [List.span_eq_takeWhile_dropWhile] at hspan
      obtain ⟨hending, hrest⟩ := Prod.mk.inj hspan
      rw [Option.some.injEq] at h
      subst h
      have hdot : dot = FilePath.dot := by
        have hne : name.reverse.dropWhile (· != FilePath.dot) ≠ [] := by
          rw [hrest]
          exact List.cons_ne_nil _ _
        simpa [hrest] using List.head_dropWhile_not (· != FilePath.dot) hne
      subst hdot
      refine ⟨?_, (last :: before).reverse, by simp, ?_⟩
      · intro hmem
        rw [List.mem_reverse, ← hending] at hmem
        simpa using List.mem_takeWhile_imp hmem
      · have hsplit := List.takeWhile_append_dropWhile (p := (· != FilePath.dot)) (l := name.reverse)
        rw [hending, hrest] at hsplit
        rw [← List.reverse_inj, ← hsplit]
        simp
    · cases h
  · rintro ⟨hext, stem, hstem, rfl⟩
    have hending : ∀ c ∈ ext.reverse, (c != FilePath.dot) = true := by
      intro c hc
      rw [bne_iff_ne]
      exact ne_of_mem_of_not_mem (List.mem_reverse.1 hc) hext
    obtain ⟨last, before, hlast⟩ := List.exists_cons_of_ne_nil (l := stem.reverse) (by simpa using hstem)
    have hreverse : (stem ++ FilePath.dot :: ext).reverse = ext.reverse ++ FilePath.dot :: last :: before := by
      simp [← hlast]
    have hspan : (stem ++ FilePath.dot :: ext).reverse.span (· != FilePath.dot) =
        (ext.reverse, FilePath.dot :: last :: before) := by
      rw [hreverse, List.span_eq_takeWhile_dropWhile, List.takeWhile_append_of_pos hending,
        List.dropWhile_append_of_pos hending]
      simp
    rw [extension?, hspan]
    simp

/-- The final name of a path is a name with the extension of sources. -/
def NamesSource (path : FilePath) : Prop :=
  ∃ stem, stem ≠ [] ∧ path.fileName? = some (stem ++ FilePath.dot :: bytesOf sourceExtension)

theorem hasSourceExtension_iff {path : FilePath} : hasSourceExtension path = true ↔ NamesSource path := by
  have hdot : FilePath.dot ∉ bytesOf sourceExtension := by decide
  rw [hasSourceExtension, beq_iff_eq]
  simp only [Option.bind_eq_some_iff, textOf?_eq_some_iff, extension?_eq_some_iff]
  constructor
  · rintro ⟨ext, ⟨name, hname, -, stem, hstem, rfl⟩, rfl⟩
    exact ⟨stem, hstem, hname⟩
  · rintro ⟨stem, hstem, hname⟩
    exact ⟨_, ⟨_, hname, hdot, stem, hstem, rfl⟩, rfl⟩

/-! ### Stages -/

section Stages

variable (S : FileSystem) (o : Options) (s : S.State)

/-- A run comes to write the code of its source: the source is named as one, can be read, and is accepted. -/
def Options.Yields (c : Compiled) : Prop :=
  NamesSource o.source ∧ ∃ source, S.readText s o.source = .ok source ∧ compile source = .ok c

/-- A run comes to write the code of its source, and for this it opens a file. -/
def Options.Opens (f : S.File) : Prop := ∃ c, o.Yields S s c ∧ (S.create s o.output).2 = .ok (.file f)

/-- The stages of a run. -/
inductive Stage
  | extension
  | reading
  | compiling
  | writing

namespace Stage

/-- How many stages come before. -/
def position : Stage → Nat
  | .extension => 0
  | .reading => 1
  | .compiling => 2
  | .writing => 3

/-- The exit code of a run that ends here. -/
def code : Stage → Nat
  | .extension => 2
  | .reading => 3
  | .compiling => 1
  | .writing => 3

/-- When a stage fails; the output does if it cannot be opened, and if it does not take the whole code. -/
def Fails : Stage → Prop
  | .extension => ¬ NamesSource o.source
  | .reading => ∃ reason, S.readText s o.source = .error reason
  | .compiling => ∃ source findings, S.readText s o.source = .ok source ∧ compile source = .error findings
  | .writing => ∃ c, o.Yields S s c ∧ (S.writeText s o.output (codeText c.code)).failure ≠ none

/-- A stage fails, and none before it does. -/
def FailsFirst (stage : Stage) : Prop :=
  stage.Fails S o s ∧ ∀ stage' : Stage, stage'.position < stage.position → ¬ stage'.Fails S o s

variable {S o s} {source : String} {c : Compiled}

theorem code_ne_zero (stage : Stage) : stage.code ≠ 0 := by cases stage <;> decide

theorem not_reading_fails (hread : S.readText s o.source = .ok source) : ¬ reading.Fails S o s := by
  rintro ⟨reason, hreason⟩
  rw [hread] at hreason
  cases hreason

theorem not_compiling_fails (hread : S.readText s o.source = .ok source) (hcompile : compile source = .ok c) :
    ¬ compiling.Fails S o s := by
  rintro ⟨source', findings, hread', hrefused⟩
  rw [hread, Except.ok.injEq] at hread'
  rw [← hread', hcompile] at hrefused
  cases hrefused

/-- No stage before the last one fails if a run comes to write. -/
theorem not_fails (h : o.Yields S s c) {stage : Stage} (hstage : stage.position < writing.position) :
    ¬ stage.Fails S o s := by
  obtain ⟨hname, source, hread, hcompile⟩ := h
  cases stage with
  | extension => exact not_not.2 hname
  | reading => exact not_reading_fails hread
  | compiling => exact not_compiling_fails hread hcompile
  | writing => exact absurd hstage (Nat.lt_irrefl _)

end Stage

/-- The ways for a run to stop before it comes to write, with what it says at the end. -/
inductive Options.Stops : Stage → String → Prop
  | extension (hname : ¬ NamesSource o.source) : Stops .extension
      ("Unknown source format: " ++ o.source.display ++ ". Use the ." ++ sourceExtension ++ " extension.")
  | reading {reason : String} (hname : NamesSource o.source) (hread : S.readText s o.source = .error reason) :
      Stops .reading ("Cannot read " ++ o.source.display ++ ": " ++ reason)
  | compiling {source : String} {findings : Findings} (hname : NamesSource o.source)
      (hread : S.readText s o.source = .ok source) (hcompile : compile source = .error findings) :
      Stops .compiling (toString findings.faults.length ++ " error(s) found, no code generated")

namespace Options

variable {S o s} {stage : Stage} {reason : String} {c c' : Compiled}

/-- There is one code that a run comes to write. -/
theorem Yields.unique (h : o.Yields S s c) (h' : o.Yields S s c') : c = c' := by
  obtain ⟨-, source, hread, hcompile⟩ := h
  obtain ⟨-, source', hread', hcompile'⟩ := h'
  rw [hread, Except.ok.injEq] at hread'
  rw [← hread', hcompile, Except.ok.injEq] at hcompile'
  exact hcompile'

/-- The stage where a run stops is the first one that fails. -/
theorem Stops.failsFirst (h : o.Stops S s stage reason) : stage.FailsFirst S o s := by
  cases h with
  | extension hname => exact ⟨hname, nofun⟩
  | @reading reason hname hread =>
    refine ⟨⟨reason, hread⟩, fun before hbefore => ?_⟩
    cases before with
    | extension => exact not_not.2 hname
    | reading | compiling | writing => simp [Stage.position] at hbefore
  | @compiling source findings hname hread hcompile =>
    refine ⟨⟨source, findings, hread, hcompile⟩, fun before hbefore => ?_⟩
    cases before with
    | extension => exact not_not.2 hname
    | reading => exact Stage.not_reading_fails hread
    | compiling | writing => simp [Stage.position] at hbefore

theorem Stops.not_yields (h : o.Stops S s stage reason) (c : Compiled) : ¬ o.Yields S s c := by
  intro hyields
  have hlt : stage.position < Stage.writing.position := by cases h <;> decide
  exact Stage.not_fails hyields hlt h.failsFirst.1

/-- A run stops, or it comes to write. -/
theorem stops_or_yields (S : FileSystem) (o : Options) (s : S.State) :
    (∃ stage reason, o.Stops S s stage reason) ∨ ∃ c, o.Yields S s c := by
  by_cases hname : NamesSource o.source
  · cases hread : S.readText s o.source with
    | error reason => exact .inl ⟨_, _, .reading hname hread⟩
    | ok source =>
      cases hcompile : compile source with
      | error findings => exact .inl ⟨_, _, .compiling hname hread hcompile⟩
      | ok c => exact .inr ⟨c, hname, source, hread, hcompile⟩
  · exact .inl ⟨_, _, .extension hname⟩

end Options

end Stages

/-! ### Ends of runs -/

namespace Ended

variable {σ : Type} {e e' e'' : Ended σ} {s : σ} {reason : String} {code : Nat}

/-- A run has ended with some code and some last words, and has left everything as it was. -/
structure Aborted (e : Ended σ) (s : σ) (code : Nat) (reason : String) : Prop where
  code : e.code = code
  state : e.state = s
  lastWords : ∃ before, e.err = before ++ "Error: " ++ reason ++ "\n"

/-- A run ends as another one does, with more said before. -/
structure EndsAs (e' e : Ended σ) : Prop where
  code : e'.code = e.code
  state : e'.state = e.state
  err : ∃ before, e'.err = before ++ e.err

theorem EndsAs.refl (e : Ended σ) : e.EndsAs e := ⟨rfl, rfl, "", by simp⟩

theorem EndsAs.trans (h : e''.EndsAs e') (h' : e'.EndsAs e) : e''.EndsAs e := by
  obtain ⟨err, herr⟩ := h.err
  obtain ⟨err', herr'⟩ := h'.err
  refine ⟨h.code.trans h'.code, h.state.trans h'.state, err ++ err', ?_⟩
  rw [herr, herr', String.append_assoc]

theorem Aborted.of_endsAs (h : e.Aborted s code reason) (he : e'.EndsAs e) : e'.Aborted s code reason := by
  obtain ⟨before, hbefore⟩ := h.lastWords
  obtain ⟨said, hsaid⟩ := he.err
  refine ⟨he.code.trans h.code, he.state.trans h.state, said ++ before, ?_⟩
  simp only [hsaid, hbefore, String.append_assoc]

end Ended

/-! ### Runs of scripts -/

namespace Script

variable (S : FileSystem) (o : Options) (s : S.State) (text reason : String) (next : Script) (code : Nat)

theorem endsAs_print : ((print text next).run S s).EndsAs (next.run S s) := ⟨rfl, rfl, "", by simp [run]⟩

theorem endsAs_complain : ((complain text next).run S s).EndsAs (next.run S s) := ⟨rfl, rfl, text, rfl⟩

theorem endsAs_progress : ((progress o text next).run S s).EndsAs (next.run S s) := by
  unfold progress
  split
  · exact endsAs_print S s _ next
  · exact .refl _

theorem aborted_abort : ((abort reason code).run S s).Aborted s code reason := ⟨rfl, rfl, "", by simp [abort, run]⟩

end Script

namespace Options

variable {S : FileSystem} {draw : Picture → Option String} {o : Options} {s : S.State} {source : String} {c : Compiled}

/-- What is done once the code is there. -/
def writing (o : Options) (c : Compiled) : Script :=
  .write o.output (codeText c.code) fun
    | some reason => .abort ("Cannot write " ++ o.output.display ++ ": " ++ reason) 3
    | none => .print o.farewell (.exit 0)

theorem endsAs_compileScript (draw : Picture → Option String) (hname : NamesSource o.source)
    (h : S.readText s o.source = .ok source) :
    ((o.script draw).run S s).EndsAs ((o.compileScript draw source).run S s) := by
  rw [script, if_pos (hasSourceExtension_iff.2 hname)]
  refine (Script.endsAs_progress S o s _ _).trans ?_
  rw [Script.run, h]
  exact .refl _

/-- A run that stops has touched nothing. -/
theorem Stops.aborted {stage : Stage} {reason : String} (h : o.Stops S s stage reason)
    (draw : Picture → Option String) : ((o.script draw).run S s).Aborted s stage.code reason := by
  cases h with
  | extension hname =>
    rw [script, if_neg (hasSourceExtension_iff.not.2 hname)]
    exact Script.aborted_abort S s _ 2
  | reading hname hread =>
    rw [script, if_pos (hasSourceExtension_iff.2 hname)]
    refine .of_endsAs ?_ (Script.endsAs_progress S o s _ _)
    rw [Script.run, hread]
    exact Script.aborted_abort S s _ 3
  | compiling hname hread hcompile =>
    refine .of_endsAs ?_ (endsAs_compileScript draw hname hread)
    rw [compileScript, hcompile]
    refine .of_endsAs ?_ (Script.endsAs_progress S o s _ _)
    exact .of_endsAs (Script.aborted_abort S s _ 1) (Script.endsAs_complain S s _ _)

theorem endsAs_writing (draw : Picture → Option String) (h : o.Yields S s c) :
    ((o.script draw).run S s).EndsAs ((o.writing c).run S s) := by
  obtain ⟨hname, source, hread, hcompile⟩ := h
  refine (endsAs_compileScript draw hname hread).trans ?_
  rw [compileScript, hcompile]
  refine (Script.endsAs_progress S o s _ _).trans ((Script.endsAs_complain S s _ _).trans ?_)
  exact Script.endsAs_progress S o s _ _

/-- The end of a run that comes to write is told by what becomes of the output. -/
theorem run_of_yields (draw : Picture → Option String) (h : o.Yields S s c) :
    ((o.script draw).run S s).state = (S.writeText s o.output (codeText c.code)).state ∧
      ((o.script draw).run S s).code = if (S.writeText s o.output (codeText c.code)).failure = none then 0 else 3 := by
  have hends := endsAs_writing draw h
  rw [hends.state, hends.code, writing, Script.run]
  cases (S.writeText s o.output (codeText c.code)).failure with
  | none => exact ⟨rfl, rfl⟩
  | some reason => exact ⟨rfl, rfl⟩

end Options

/-! ### Runs on sources -/

/-- After a run a file that it opened holds the text, and the path leads to that file, so the text is what can be read
there. -/
structure FileSystem.Holds (S : FileSystem) (s : S.State) (path : FilePath) (f : S.File) (text : String) : Prop where
  leads : S.leadsTo? s path = some f
  contents : S.contents? s f = some text.toUTF8
  read : ∀ text', S.readText s path = .ok text' → text' = text

/-- What a run on a source does to files, and the code it ends with. -/
structure FileEffects (S : FileSystem) (o : Options) (s : S.State) (e : Ended S.State) : Prop where
  /-- The run succeeds if the source has the right name, is text and is accepted, and the output can be opened and takes
  the whole code. -/
  success : e.code = 0 ↔ ∃ c, o.Yields S s c ∧ (S.writeText s o.output (codeText c.code)).failure = none
  /-- Then the output has been opened; if it is a file, that file holds the text of the code, a line for each
  instruction. -/
  written : e.code = 0 → ∃ c outlet, o.Yields S s c ∧ (S.create s o.output).2 = .ok outlet ∧
    (∀ f, outlet = .file f → S.Holds e.state o.output f (codeText c.code)) ∧
    (codeText c.code).toList.splitOn '\n' = c.code.map (·.text.toList) ++ [[]]
  /-- Otherwise the code is that of the first stage that failed. -/
  failure : e.code ≠ 0 → ∃ stage : Stage, stage.FailsFirst S o s ∧ e.code = stage.code
  /-- No file is made or changed by a run that opens none. -/
  untouched : (∀ f, ¬ o.Opens S s f) → S.contents? e.state = S.contents? s
  /-- A run that opens a file leaves all others as they are. -/
  others : ∀ f, o.Opens S s f → ∀ g, g ≠ f → S.contents? e.state g = S.contents? s g
  /-- A run that fails although it opened a file leaves a beginning of the code there, of whatever length. -/
  cut : e.code ≠ 0 → ∀ f, o.Opens S s f → ∃ c count, o.Yields S s c ∧
    S.contents? e.state f = some ((codeText c.code).toUTF8.extract 0 count)
  /-- The code 1 says that the source was refused, and the last words say how many errors it has. -/
  refusal : e.code = 1 → ∃ source findings, S.readText s o.source = .ok source ∧ compile source = .error findings ∧
    ∃ before, e.err = before ++ "Error: " ++
      (toString findings.faults.length ++ " error(s) found, no code generated") ++ "\n"

variable {S : FileSystem} {o : Options} {s : S.State}

theorem fileEffects_of_stops {e : Ended S.State} {stage : Stage} {reason : String} (h : o.Stops S s stage reason)
    (habort : e.Aborted s stage.code reason) : FileEffects S o s e := by
  have hne : e.code ≠ 0 := habort.code ▸ stage.code_ne_zero
  have hopens (f : S.File) : ¬ o.Opens S s f := fun ⟨c, hyields, _⟩ => h.not_yields c hyields
  refine ⟨iff_of_false hne fun ⟨c, hyields, _⟩ => h.not_yields c hyields, fun hzero => absurd hzero hne,
    fun _ => ⟨stage, h.failsFirst, habort.code⟩, fun _ => congrArg S.contents? habort.state,
    fun f hf => absurd hf (hopens f), fun _ f hf => absurd hf (hopens f), fun hone => ?_⟩
  rw [habort.code] at hone
  cases h with
  | compiling _ hread hcompile => exact ⟨_, _, hread, hcompile, habort.lastWords⟩
  | extension => cases hone
  | reading => cases hone

/-- **Files and exit codes.**  Whatever the options are, and whatever system the run is on that keeps what is written, it
succeeds exactly if every stage does; then the output holds the code.  If it fails, the exit code is that of the first
stage that failed, and no file has changed but an output that could be opened, of which a beginning is written. -/
theorem Options.run_fileEffects (hS : S.Lawful) (draw : Picture → Option String) (o : Options) (s : S.State) :
    FileEffects S o s ((o.script draw).run S s) := by
  rcases stops_or_yields S o s with ⟨stage, reason, hstops⟩ | ⟨c, hyields⟩
  · exact fileEffects_of_stops hstops (hstops.aborted draw)
  · obtain ⟨hstate, hcode⟩ := run_of_yields draw hyields
    have hzero : ((o.script draw).run S s).code = 0 ↔
        (S.writeText s o.output (codeText c.code)).failure = none := by
      rw [hcode]
      split <;> simp_all
    refine ⟨?_, ?_, ?_, ?_, ?_, ?_, ?_⟩
    · rw [hzero]
      exact ⟨fun h => ⟨c, hyields, h⟩, fun ⟨c', h', h⟩ => hyields.unique h' ▸ h⟩
    · intro h
      have hdone := hzero.1 h
      obtain ⟨outlet, houtlet⟩ := FileSystem.exists_outlet_of_writeText hdone
      have ⟨_, source, _, hcompile⟩ := hyields
      refine ⟨c, outlet, hyields, houtlet, ?_, splitOn_codeText (codeNamed_of_compile hcompile)⟩
      rintro f rfl
      rw [hstate]
      have hcontents := hS.writeText_written houtlet hdone
      exact ⟨hS.writeText_leadsTo houtlet, hcontents, fun text' => hS.readText_eq (hS.writeText_leadsTo houtlet) hcontents⟩
    · intro h
      refine ⟨.writing, ⟨⟨c, hyields, fun hdone => h (hzero.2 hdone)⟩, fun stage => Stage.not_fails hyields⟩, ?_⟩
      rw [hcode, if_neg fun hdone => h (hzero.2 hdone)]
      rfl
    · intro h
      rw [hstate]
      exact hS.writeText_untouched fun f hf => h f ⟨c, hyields, hf⟩
    · rintro f ⟨-, -, hf⟩ g hg
      rw [hstate]
      exact hS.writeText_others hf hg
    · rintro - f ⟨-, -, hf⟩
      obtain ⟨count, hcontents, -⟩ := hS.writeText_file (codeText c.code) hf
      exact ⟨c, count, hyields, hstate ▸ hcontents⟩
    · intro h
      rw [hcode] at h
      split at h <;> cases h

/-! ### Runs in the sandbox -/

/-- A source. -/
def storedSource : String := "main \x7b var x: integer; x = 1; \x7d"

/-- Its code. -/
def storedCode : List Instruction := [.label "main", .assign "x.1" (.atom "1"), .call exitRoutine 0]

/-- The source beside a directory with another file in it. -/
def sourceAndStore : Sandbox := ⟨⟨[("source.ccl", storedSource.toUTF8), ("store/old.tac", "main:\n".toUTF8)]⟩, ⟨[]⟩⟩

/-- The options for the code to go to some path. -/
def storedTo (output : String) : Options := ⟨.ofText "source.ccl", .ofText output, false⟩

/-- A run there, on a disk with room for so many bytes or without a limit. -/
def storedRun (room : Option Nat) (output : String) : Ended Sandbox :=
  ((storedTo output).script (some ·.draw)).run (sandbox room) sourceAndStore

theorem storedTo_yields (room : Option Nat) (output : String) :
    (storedTo output).Yields (sandbox room) sourceAndStore ⟨storedCode, []⟩ := by
  have hname : hasSourceExtension (.ofText "source.ccl") = true := by decide +kernel
  have hread : (sandbox room).readText sourceAndStore (.ofText "source.ccl") = .ok storedSource :=
    Sandbox.readText_ofText room (by decide +kernel)
  exact ⟨hasSourceExtension_iff.1 hname, storedSource, hread, by decide +kernel⟩

theorem storedTo_opens (room : Option Nat) {output : String} {place : FilePlace}
    (h : sourceAndStore.outlet? output = .ok (.file place)) :
    (storedTo output).Opens (sandbox room) sourceAndStore place :=
  ⟨_, storedTo_yields room output, Sandbox.create_file room ((Sandbox.open?_ofText _ output).trans h)⟩

/-- The code of the source goes to a new file in the directory, beside the other one.  If it is to go to a directory that
is not there, no file changes and the exit code is 3.  It is 3 as well if the code is to take the place of the other file
and there is room for three bytes only, but then a beginning of the code is all that is left there. -/
theorem Options.run_fileEffects_store : (sandbox none).Lawful ∧ (sandbox (some 3)).Lawful ∧
    ((storedRun none "store/./new.tac").code = 0 ∧
      (storedRun none "store/./new.tac").state.contents? ⟨.inside, "store/new.tac"⟩ =
        some (codeText storedCode).toUTF8 ∧
      (storedRun none "store/./new.tac").state.contents? ⟨.inside, "store/old.tac"⟩ = some "main:\n".toUTF8) ∧
    ((storedRun none "none/new.tac").code = 3 ∧
      (storedRun none "none/new.tac").state.contents? = sourceAndStore.contents?) ∧
    (storedRun (some 3) "store/old.tac").code = 3 ∧
      (∃ count, (storedRun (some 3) "store/old.tac").state.contents? ⟨.inside, "store/old.tac"⟩ =
        some ((codeText storedCode).toUTF8.extract 0 count)) ∧
      (storedRun (some 3) "store/old.tac").state.contents? ⟨.inside, "source.ccl"⟩ = some storedSource.toUTF8 := by
  have hnew : (storedRun none "store/./new.tac").code = 0 := by decide +kernel
  have hnone : (storedRun none "none/new.tac").code = 3 := by decide +kernel
  have hold : (storedRun (some 3) "store/old.tac").code = 3 := by decide +kernel
  refine ⟨sandbox_lawful none, sandbox_lawful (some 3), ⟨hnew, ?_⟩, ⟨hnone, ?_⟩, hold, ?_⟩
  · have heffects := run_fileEffects (sandbox_lawful none) (some ·.draw) (storedTo "store/./new.tac") sourceAndStore
    have houtlet : sourceAndStore.outlet? "store/./new.tac" = .ok (.file ⟨.inside, "store/new.tac"⟩) := by
      decide +kernel
    obtain ⟨c, outlet, hyields, hcreate, hfile, -⟩ := heffects.written hnew
    obtain rfl := hyields.unique (storedTo_yields none "store/./new.tac")
    obtain ⟨-, -, hopened⟩ := storedTo_opens none houtlet
    have hholds := hfile ⟨.inside, "store/new.tac"⟩ (Except.ok.inj (hcreate.symm.trans hopened))
    have hother : (⟨.inside, "store/old.tac"⟩ : FilePlace) ≠ ⟨.inside, "store/new.tac"⟩ := by decide
    exact ⟨hholds.contents, heffects.others _ (storedTo_opens none houtlet) _ hother⟩
  · have heffects := run_fileEffects (sandbox_lawful none) (some ·.draw) (storedTo "none/new.tac") sourceAndStore
    refine heffects.untouched fun f hf => ?_
    obtain ⟨-, -, hcreate⟩ := hf
    have hmissing : sourceAndStore.outlet? "none/new.tac" = .error .missing := by decide +kernel
    rw [← Sandbox.open?_ofText] at hmissing
    cases (Sandbox.create_error none hmissing).symm.trans hcreate
  · have heffects := run_fileEffects (sandbox_lawful (some 3)) (some ·.draw) (storedTo "store/old.tac") sourceAndStore
    have houtlet : sourceAndStore.outlet? "store/old.tac" = .ok (.file ⟨.inside, "store/old.tac"⟩) := by decide +kernel
    have hopens := storedTo_opens (some 3) houtlet
    have hne : (storedRun (some 3) "store/old.tac").code ≠ 0 := by
      rw [hold]
      decide
    obtain ⟨c, count, hyields, hcontents⟩ := heffects.cut hne _ hopens
    obtain rfl := hyields.unique (storedTo_yields (some 3) "store/old.tac")
    have hother : (⟨.inside, "source.ccl"⟩ : FilePlace) ≠ ⟨.inside, "store/old.tac"⟩ := by decide
    exact ⟨⟨count, hcontents⟩, heffects.others _ hopens _ hother⟩

/-! ### Runs that fail at the end -/

/-- A run writes the code or changes no file, for some sense in which an output can be written. -/
structure AllOrNothing (S : FileSystem) (o : Options) (s : S.State) (writable : Prop) (e : Ended S.State) : Prop where
  success : e.code = 0 ↔ (∃ c, o.Yields S s c) ∧ writable
  written : e.code = 0 → ∃ c f, o.Yields S s c ∧ S.Holds e.state o.output f (codeText c.code) ∧
    ∀ g, g ≠ f → S.contents? e.state g = S.contents? s g
  unchanged : e.code ≠ 0 → S.contents? e.state = S.contents? s

/-- A run does not write the code or change no file: a path may be opened although it takes no text; and on a disk
without room a run fails and leaves a new file behind, in whatever sense an output can be written. -/
theorem Options.run_not_allOrNothing :
    ¬ AllOrNothing (sandbox none) (storedTo "/dev/full") sourceAndStore
        (∃ outlet, ((sandbox none).create sourceAndStore (storedTo "/dev/full").output).2 = .ok outlet)
        (storedRun none "/dev/full") ∧
      ∀ writable, ¬ AllOrNothing (sandbox (some 0)) (storedTo "new.tac") sourceAndStore writable
        (storedRun (some 0) "new.tac") := by
  refine ⟨fun h => ?_, fun writable h => ?_⟩
  · have hfull : sourceAndStore.open? (storedTo "/dev/full").output = .ok (.device .full) := by decide +kernel
    have hzero := h.success.2 ⟨⟨_, storedTo_yields none "/dev/full"⟩, _, Sandbox.create_device none hfull⟩
    revert hzero
    decide +kernel
  · have hsame := congrFun (h.unchanged (by decide +kernel)) ⟨.inside, "new.tac"⟩
    have hnew : (storedRun (some 0) "new.tac").state.contents? ⟨.inside, "new.tac"⟩ = some .empty := by decide +kernel
    cases hnew.symm.trans hsame

end ThreeAddress
