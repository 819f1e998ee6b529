import ThreeAddress.Command.FileSystem
import ThreeAddress.Command.Options
import ThreeAddress.Compile
import ThreeAddress.Report.Picture

/-!
# What the command does

* `hasSourceExtension` — the test on the extension of a path;
* `Script` — actions on the outside world, each followed by what to do next;
* `Options.script` — the run of the command: read the source, compile it, write the code;
* `Script.run`, `Ended` — the run of a script on a system with files, and what it leaves behind.

The exit code is that of the first stage that fails: 2 for the extension, 3 for reading, 1 for compiling,
3 for writing, and 0 if none does.
-/

namespace ThreeAddress

/-- Whether a path has the extension of sources. -/
def hasSourceExtension (path : FilePath) : Bool :=
  (path.fileName?.bind extension?).bind textOf? == some sourceExtension

/-! ### Scripts -/

/-- Actions on the outside world.  Reading gives a text or the reason of a failure, writing a reason if it
fails. -/
inductive Script
  | print (text : String) (next : Script)
  | complain (text : String) (next : Script)
  | read (path : FilePath) (next : Except String String → Script)
  | write (path : FilePath) (text : String) (next : Option String → Script)
  | exit (code : Nat)

namespace Script

/-- Print a line if progress is asked for. -/
def progress (o : Options) (text : String) (next : Script) : Script :=
  if o.verbose then .print (text ++ "\n") next else next

/-- Complain and stop. -/
def abort (reason : String) (code : Nat) : Script := .complain ("Error: " ++ reason ++ "\n") (.exit code)

end Script

namespace Options

/-- The name of the source in reports. -/
def reportName (o : Options) : String := (o.source.fileName?.bind textOf?).getD noFileName

/-- What is said at the end of a run. -/
def farewell (o : Options) : String :=
  if o.verbose then "Done!\n" else "Compiled " ++ o.reportName ++ " -> " ++ o.output.display ++ "\n"

/-- Write the code. -/
def writeScript (o : Options) (c : Compiled) : Script :=
  .progress o ("Generated " ++ toString c.code.length ++ " instructions\nWriting " ++ o.output.display ++ "...") <|
  .write o.output (codeText c.code) fun
    | some reason => .abort ("Cannot write " ++ o.output.display ++ ": " ++ reason) 3
    | none => .print o.farewell (.exit 0)

/-- Compile a text, and draw the reports in some way.  The warnings about an accepted source are reported in the order
of their discovery. -/
def compileScript (draw : Picture → Option String) (o : Options) (source : String) : Script :=
  .progress o "Compiling..." <|
  match compile source with
  | .error findings =>
    .complain (findings.drawn draw source o.reportName) <|
    .abort (toString findings.faults.length ++ " error(s) found, no code generated") 1
  | .ok compiled =>
    .complain (String.join (compiled.warnings.map fun w => w.report.drawn draw source o.reportName)) <|
    o.writeScript compiled

/-- The whole run. -/
def script (draw : Picture → Option String) (o : Options) : Script :=
  if hasSourceExtension o.source then
    .progress o (compilerName ++ " Compiler v" ++ compilerVersion ++ "\nSource: " ++ o.source.display ++
      "\nOutput: " ++ o.output.display ++ "\n\nReading " ++ o.source.display ++ "...") <|
    .read o.source fun
      | .error reason => .abort ("Cannot read " ++ o.source.display ++ ": " ++ reason) 3
      | .ok source => o.compileScript draw source
  else
    .abort ("Unknown source format: " ++ o.source.display ++ ". Use the ." ++ sourceExtension ++ " extension.") 2

end Options

/-! ### Runs -/

/-- What a run leaves behind: the exit code, both streams, and the state of the system. -/
structure Ended (σ : Type) where
  code : Nat
  out : String
  err : String
  state : σ

/-- Run a script on a system with files. -/
def Script.run (S : FileSystem) (s : S.State) : Script → Ended S.State
  | .print text next =>
    let e := next.run S s
    { e with out := text ++ e.out }
  | .complain text next =>
    let e := next.run S s
    { e with err := text ++ e.err }
  | .read path next => (next (S.readText s path)).run S s
  | .write path text next =>
    let w := S.writeText s path text
    let e := (next w.failure).run S w.state
    { e with out := w.out ++ e.out, err := w.err ++ e.err }
  | .exit code => ⟨code, "", "", s⟩

end ThreeAddress
