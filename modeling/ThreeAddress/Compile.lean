import ThreeAddress.Checking.Program
import ThreeAddress.Lowering.Program
import ThreeAddress.Reading.Program

/-!
# Compiling a source

* `Compiled` — code, and the warnings about its source;
* `compile` — a source is read, checked and lowered.  A fault in reading is the only finding; all
  faults of checking are found together, and warnings beside them.
-/

namespace ThreeAddress

/-- The name of the compiler. -/
def compilerName : String := "CCAL"

/-- The version of the compiler. -/
def compilerVersion : String := "0.1.0"

/-- What an accepted source compiles to. -/
structure Compiled where
  code : List Instruction
  warnings : List Warning
deriving DecidableEq

/-- Compile a source. -/
def compile (source : String) : Except Findings Compiled :=
  match Program.ofSource source with
  | .error fault => .error (.single fault)
  | .ok program =>
    let findings := program.analyze
    if findings.isClean then .ok ⟨program.code, findings.warnings⟩ else .error findings

end ThreeAddress
