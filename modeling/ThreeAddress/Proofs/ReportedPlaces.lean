import ThreeAddress.Proofs.Diagnostics
import ThreeAddress.Report.Picture

/-!
# Where reports point

Spans count bytes, and a report counts characters.  What a report is handed is the span itself, so the mark is off by
as many places as the characters before it have bytes beyond the first.  It is right where these are all of one byte.

* `Span.inCharacters` — the characters that a span occupies;
* `surplus` — the bytes of a text beyond the first of each character;
* `Report.handed` — the range that a report is drawn for;
* `reportsOn` — the reports on a source, `reportsOn_displaced` — where they point;
* `reportsOn_accentedComment_misplaced` — a report that points one character too far.
-/

namespace ThreeAddress

variable {source : String} {s : Span} {n : Nat}

/-! ### Characters and bytes -/

/-- The number of characters at the front of a text that fit in so many bytes. -/
def charsWithin : List Char → Nat → Nat
  | [], _ => 0
  | c :: cs, n => if c.utf8Size ≤ n then charsWithin cs (n - c.utf8Size) + 1 else 0

/-- The characters of a source that a span occupies, from the first up to, not including, the last. -/
def Span.inCharacters (s : Span) (source : String) : Span :=
  ⟨charsWithin source.toList s.start, charsWithin source.toList s.stop⟩

/-- The bytes of a text beyond the first of each character. -/
def surplus (text : List Char) : Nat := text.foldr (fun c n => c.utf8Size - 1 + n) 0

theorem surplus_cons (c : Char) (cs : List Char) : surplus (c :: cs) = c.utf8Size - 1 + surplus cs := rfl

theorem surplus_append (a b : List Char) : surplus (a ++ b) = surplus a + surplus b := by
  induction a with
  | nil => exact (Nat.zero_add _).symm
  | cons c cs ih => rw [List.cons_append, surplus_cons, surplus_cons, ih, Nat.add_assoc]

theorem byteLength_cons (c : Char) (cs : List Char) : byteLength (c :: cs) = c.utf8Size + byteLength cs := rfl

theorem utf8ByteSize_eq_byteLength (source : String) : source.utf8ByteSize = byteLength source.toList := by
  rw [byteLength_eq_utf8Len, ← String.utf8ByteSize_ofList, String.ofList_toList]

theorem byteLength_eq_length_add_surplus (text : List Char) : byteLength text = text.length + surplus text := by
  induction text with
  | nil => rfl
  | cons c cs ih =>
    have hpos := c.utf8Size_pos
    rw [byteLength_cons, surplus_cons, ih, List.length_cons]
    omega

theorem surplus_eq_zero_iff {text : List Char} : surplus text = 0 ↔ ∀ c ∈ text, c.utf8Size = 1 := by
  induction text with
  | nil => simp [surplus]
  | cons c cs ih =>
    have hpos := c.utf8Size_pos
    rw [List.forall_mem_cons, ← ih, surplus_cons]
    omega

theorem surplus_take_le (text : List Char) {i j : Nat} (h : i ≤ j) : surplus (text.take i) ≤ surplus (text.take j) := by
  rw [← List.take_append_drop i (text.take j), List.take_take, Nat.min_eq_left h, surplus_append]
  exact Nat.le_add_right _ _

theorem charsWithin_append (before behind : List Char) :
    charsWithin (before ++ behind) (byteLength before) = before.length := by
  induction before with
  | nil =>
    cases behind with
    | nil => rfl
    | cons c cs =>
      have hpos := c.utf8Size_pos
      show (if c.utf8Size ≤ 0 then _ else 0) = 0
      rw [if_neg (by omega)]
  | cons c cs ih =>
    rw [List.cons_append, charsWithin, byteLength_cons, if_pos (Nat.le_add_right _ _), Nat.add_sub_cancel_left, ih,
      List.length_cons]

/-- A place between characters is behind the characters that fit before it. -/
theorem byteLength_take_charsWithin (h : String.Pos.Raw.IsValid source ⟨n⟩) :
    charsWithin source.toList n ≤ source.toList.length ∧
      byteLength (source.toList.take (charsWithin source.toList n)) = n := by
  obtain ⟨before, behind, rfl, hn⟩ := String.Pos.Raw.isValid_iff_exists_append.1 h
  have hbytes : n = byteLength before.toList := by
    rw [← utf8ByteSize_eq_byteLength]
    exact congrArg String.Pos.Raw.byteIdx hn
  have hcount : charsWithin (before ++ behind).toList n = before.toList.length := by
    rw [String.toList_append, hbytes, charsWithin_append]
  rw [hcount, String.toList_append, List.take_left, List.length_append]
  exact ⟨Nat.le_add_right _ _, hbytes.symm⟩

theorem byteLength_take {text : List Char} {i : Nat} (hi : i ≤ text.length) :
    byteLength (text.take i) = i + surplus (text.take i) := by
  rw [byteLength_eq_length_add_surplus, List.length_take, Nat.min_eq_left hi]

/-- The bytes in front of a character grow with its place. -/
theorem byteLength_take_le_iff {text : List Char} {i j : Nat} (hi : i ≤ text.length) (hj : j ≤ text.length) :
    byteLength (text.take i) ≤ byteLength (text.take j) ↔ i ≤ j := by
  rw [byteLength_take hi, byteLength_take hj]
  by_cases h : i ≤ j
  · have hle := surplus_take_le text h
    omega
  · have hle := surplus_take_le text (Nat.le_of_lt (Nat.not_le.1 h))
    omega

namespace Span.LiesIn

variable (h : s.LiesIn source)
include h

theorem bytes_start : byteLength (source.toList.take (s.inCharacters source).start) = s.start :=
  (byteLength_take_charsWithin h.start).2

theorem bytes_stop : byteLength (source.toList.take (s.inCharacters source).stop) = s.stop :=
  (byteLength_take_charsWithin h.stop).2

theorem characters_start_le : (s.inCharacters source).start ≤ source.toList.length :=
  (byteLength_take_charsWithin h.start).1

theorem characters_stop_le : (s.inCharacters source).stop ≤ source.toList.length :=
  (byteLength_take_charsWithin h.stop).1

theorem characters_ordered : (s.inCharacters source).start ≤ (s.inCharacters source).stop := by
  rw [← byteLength_take_le_iff h.characters_start_le h.characters_stop_le, h.bytes_start, h.bytes_stop]
  exact h.ordered

/-- The characters of a span are those all of whose bytes it covers. -/
theorem occupied {i : Nat} (hi : i < source.toList.length) :
    (s.inCharacters source).start ≤ i ∧ i < (s.inCharacters source).stop ↔
      s.start ≤ byteLength (source.toList.take i) ∧ byteLength (source.toList.take (i + 1)) ≤ s.stop := by
  rw [← byteLength_take_le_iff h.characters_start_le (Nat.le_of_lt hi), h.bytes_start, ← Nat.succ_le_iff,
    ← byteLength_take_le_iff hi h.characters_stop_le, h.bytes_stop]

theorem start_eq :
    s.start = (s.inCharacters source).start + surplus (source.toList.take (s.inCharacters source).start) := by
  rw [← byteLength_take h.characters_start_le, h.bytes_start]

theorem stop_eq :
    s.stop = (s.inCharacters source).stop + surplus (source.toList.take (s.inCharacters source).stop) := by
  rw [← byteLength_take h.characters_stop_le, h.bytes_stop]

/-- Bytes and characters are numbered alike up to the end of the span exactly if none of these characters has more
than one byte. -/
theorem eq_inCharacters_iff :
    s = s.inCharacters source ↔ ∀ c ∈ source.toList.take (s.inCharacters source).stop, c.utf8Size = 1 := by
  have hstart := h.start_eq
  have hstop := h.stop_eq
  have hsurplus := surplus_take_le source.toList h.characters_ordered
  rw [← surplus_eq_zero_iff]
  constructor
  · intro heq
    have hends := congrArg Span.stop heq
    omega
  · intro hzero
    have hstarts : s.start = (s.inCharacters source).start := by omega
    have hends : s.stop = (s.inCharacters source).stop := by omega
    show (⟨s.start, s.stop⟩ : Span) = _
    rw [hstarts, hends]

end Span.LiesIn

/-! ### Reports and the characters they are about -/

/-- The range that a drawing is handed for a report on a source.  It is taken as a range of characters. -/
def Report.handed (r : Report) (source : String) : Span := (r.picture source noFileName).range

/-- The same report, for the characters that its span occupies. -/
def Report.atCharacters (r : Report) (source : String) : Report := { r with span := r.span.inCharacters source }

/-- The reports on a source, whether it is refused or accepted. -/
def reportsOn (source : String) : List Report :=
  match compile source with
  | .error findings => findings.reports
  | .ok compiled => compiled.warnings.map Warning.report

/-- Where a report points, beside the characters that its span occupies.

These are the characters all of whose bytes the span covers (`occupied`).  The range handed on is the span as it
stands (`handed`), and each end is too far by the surplus bytes in front of it (`start`, `stop`).  It is the range of
the characters only if no character up to the end of the span has surplus bytes (`exact_iff`); then, in whatever way
reports are drawn, what is drawn is the report for the characters (`drawn`), which is handed their range (`right`). -/
structure Report.Displaced (r : Report) (source : String) (chars : Span) : Prop where
  ordered : chars.start ≤ chars.stop
  in_bounds : chars.stop ≤ source.toList.length
  occupied : ∀ i, i < source.toList.length → (chars.start ≤ i ∧ i < chars.stop ↔
    r.span.start ≤ byteLength (source.toList.take i) ∧ byteLength (source.toList.take (i + 1)) ≤ r.span.stop)
  handed : r.handed source = r.span
  start : r.span.start = chars.start + surplus (source.toList.take chars.start)
  stop : r.span.stop = chars.stop + surplus (source.toList.take chars.stop)
  exact_iff : r.handed source = chars ↔ ∀ c ∈ source.toList.take chars.stop, c.utf8Size = 1
  right : (r.atCharacters source).handed source = chars
  drawn : (∀ c ∈ source.toList.take chars.stop, c.utf8Size = 1) →
    ∀ draw fileName, r.drawn draw source fileName = (r.atCharacters source).drawn draw source fileName

theorem length_le_utf8ByteSize (source : String) : source.toList.length ≤ source.utf8ByteSize := by
  rw [utf8ByteSize_eq_byteLength, byteLength_eq_length_add_surplus]
  exact Nat.le_add_right _ _

/-- A span in order within the source is not changed. -/
theorem Span.clamp_eq_self {length : Nat} (h : s.start ≤ s.stop) (h' : s.stop ≤ length) : s.clamp length = s := by
  rw [clamp, Nat.min_eq_left (Nat.le_trans h h'), Nat.min_eq_left h', Nat.max_eq_left h]

/-- What is drawn is told by the range handed on, whatever the span was. -/
theorem Report.drawn_of_handed {r : Report} {chars : Span}
    (h : r.handed source = ({ r with span := chars } : Report).handed source) (draw : Picture → Option String)
    (fileName : String) :
    r.drawn draw source fileName = ({ r with span := chars } : Report).drawn draw source fileName := by
  have hrange : r.span.clamp source.utf8ByteSize = chars.clamp source.utf8ByteSize := h
  rw [drawn, drawn, picture, picture, hrange]

theorem Report.displaced {r : Report} (h : r.span.LiesIn source) :
    r.Displaced source (r.span.inCharacters source) := by
  have hhanded : r.handed source = r.span := Span.clamp_eq_self h.ordered h.in_bounds
  have hexact : r.handed source = r.span.inCharacters source ↔
      ∀ c ∈ source.toList.take (r.span.inCharacters source).stop, c.utf8Size = 1 := by
    rw [hhanded]
    exact h.eq_inCharacters_iff
  have hright : (r.atCharacters source).handed source = r.span.inCharacters source :=
    Span.clamp_eq_self h.characters_ordered (Nat.le_trans h.characters_stop_le (length_le_utf8ByteSize source))
  refine ⟨h.characters_ordered, h.characters_stop_le, fun i => h.occupied, hhanded, h.start_eq, h.stop_eq, hexact,
    hright, ?_⟩
  intro hone draw fileName
  exact Report.drawn_of_handed ((hexact.2 hone).trans hright.symm) draw fileName

/-- **Where reports point.**  The reports on a source are handed the bytes of their spans.  That is the range of the
characters there if nothing but characters of one byte comes before the end of the span, and else it is not. -/
theorem reportsOn_displaced (source : String) :
    ∀ r ∈ reportsOn source, r.Displaced source (r.span.inCharacters source) := by
  have hplaced := compile_placed source
  intro r hr
  rw [reportsOn] at hr
  cases hcompile : compile source with
  | error findings =>
    rw [hcompile] at hplaced hr
    cases hplaced with
    | refused hstage hfaults hwarnings =>
      have hmem : r ∈ findings.faults.map Fault.report ++ findings.warnings.map Warning.report :=
        List.mem_mergeSort.1 hr
      rcases List.mem_append.1 hmem with hmem | hmem
      · obtain ⟨f, hf, rfl⟩ := List.mem_map.1 hmem
        exact Report.displaced (hfaults f hf)
      · obtain ⟨w, hw, rfl⟩ := List.mem_map.1 hmem
        exact Report.displaced (hwarnings w hw)
  | ok compiled =>
    rw [hcompile] at hplaced hr
    cases hplaced with
    | accepted hwarnings =>
      obtain ⟨w, hw, rfl⟩ := List.mem_map.1 hr
      exact Report.displaced (hwarnings w hw)

/-- A source with a character of two bytes in a comment, before a name that is not declared. -/
def accentedComment : String := "main \x7b /* \u00e9 */ x = 1; \x7d"

/-- What is said about that source. -/
def accentedReport : Report :=
  ⟨"Error", "E204", "'x' is assigned but was not previously declared", ⟨16, 22⟩, some "x = 1;"⟩

theorem reportsOn_accentedComment : reportsOn accentedComment = [accentedReport] := by
  decide +kernel

/-- Its report points one character too far: what is underlined is not the assignment. -/
theorem reportsOn_accentedComment_misplaced : reportsOn accentedComment = [accentedReport] ∧
    accentedReport.handed accentedComment = ⟨16, 22⟩ ∧
    accentedReport.span.inCharacters accentedComment = ⟨15, 21⟩ ∧
    String.ofList ((accentedComment.toList.drop 15).take 6) = "x = 1;" ∧
    String.ofList ((accentedComment.toList.drop 16).take 6) = " = 1; " ∧
    accentedReport.picture accentedComment noFileName ≠
      (accentedReport.atCharacters accentedComment).picture accentedComment noFileName :=
  ⟨reportsOn_accentedComment, by decide, by decide, by decide, by decide, by decide⟩

/-- The comment has one byte more than characters. -/
theorem reportsOn_displaced_accentedComment : accentedReport ∈ reportsOn accentedComment ∧
    accentedReport.Displaced accentedComment ⟨15, 21⟩ ∧ accentedReport.handed accentedComment ≠ ⟨15, 21⟩ := by
  have hmem : accentedReport ∈ reportsOn accentedComment := by
    rw [reportsOn_accentedComment]
    exact List.mem_singleton_self _
  exact ⟨hmem, reportsOn_displaced accentedComment accentedReport hmem, by decide⟩

end ThreeAddress
