import ThreeAddress.Command.FilePath

/-!
# Options of the command

* `sourceExtension`, `defaultOutput` — the extension of sources, and where code goes by default;
* `Options` — what a run needs to know.
-/

namespace ThreeAddress

/-- The extension of sources. -/
def sourceExtension : String := "ccl"

/-- Where code goes if nothing else is said. -/
def defaultOutput : String := "output.tac"

/-- What a run needs to know. -/
structure Options where
  source : FilePath
  output : FilePath
  verbose : Bool
deriving DecidableEq

end ThreeAddress
