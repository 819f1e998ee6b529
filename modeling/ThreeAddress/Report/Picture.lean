import ThreeAddress.Fault

/-!
# Reports

A report shows what was found, and where.  How it is drawn is left open here: a drawing is given a picture, which says
what to draw.

* `Report` — what was found; `Fault.report`, `Warning.report` — faults and warnings as reports;
* `Span.clamp` — a span within a source;
* `Picture`, `Report.picture` — what a drawing is given for a report;
* `Report.drawn`, `Findings.drawn` — a report drawn in some way, and all reports in the order of their places.
-/

namespace ThreeAddress

/-! ### Reports -/

/-- What a report shows. -/
structure Report where
  kind : String
  code : String
  message : String
  span : Span
  hint : Option String
deriving DecidableEq

/-- A fault as a report. -/
def Fault.report (f : Fault) : Report := ⟨"Error", f.code.text, f.message, f.span, f.hint⟩

/-- A warning as a report. -/
def Warning.report (w : Warning) : Report := ⟨"Warning", w.code.text, w.message, w.span, none⟩

/-! ### Pictures -/

/-- The span of a report within a source of some length in bytes: neither end lies behind the source,
and the end not before the start. -/
def Span.clamp (s : Span) (length : Nat) : Span :=
  let start := min s.start length
  ⟨start, max (min s.stop length) start⟩

/-- What a drawing is given: the texts, the range that it marks, and the source.  The offsets of the range are taken as
character offsets. -/
structure Picture where
  kind : String
  code : String
  message : String
  range : Span
  hint : Option String
  source : String
  fileName : String
deriving DecidableEq

/-- What is drawn for a report on a source. -/
def Report.picture (r : Report) (source fileName : String) : Picture :=
  ⟨r.kind, r.code, r.message, r.span.clamp source.utf8ByteSize, r.hint, source, fileName⟩

/-- A report on a source, drawn in some way; if that fails, only what was found is told. -/
def Report.drawn (draw : Picture → Option String) (r : Report) (source fileName : String) : String :=
  (draw (r.picture source fileName)).getD ("[" ++ r.code ++ "] " ++ r.message ++ "\n")

/-- The file name of a source that comes from no file. -/
def noFileName : String := "<input>"

/-- Findings in the order of their places, faults before warnings where they share one. -/
def Findings.reports (f : Findings) : List Report :=
  (f.faults.map Fault.report ++ f.warnings.map Warning.report).mergeSort
    fun a b => a.span.start ≤ b.span.start

/-- All reports on a source, drawn in some way. -/
def Findings.drawn (draw : Picture → Option String) (f : Findings) (source fileName : String) : String :=
  String.join (f.reports.map fun r => r.drawn draw source fileName)

end ThreeAddress
