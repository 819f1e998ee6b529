import ThreeAddress.Proofs.Layout
import ThreeAddress.Proofs.LayoutIndependence

/-!
# What is said about a source

A refused source is told one fault of reading, or all the faults of checking, and every remark is placed on whole
characters of the source.  The places of tokens mark whole characters, merging two such places gives another, and
from reading on no other places arise; only if there is no token at all, the complaint stands at the beginning.

* `Span.Marks` — a span marks whole characters of a source, at least one;
* `Lexeme.marks`, `Stuck.marks` — tokens and lexical faults do;
* `Refused.Staged` — what a refusal consists of;
* `Remarks.Placed` — what compiling says, all of it at places of some kind;
* `compile_diagnostics` — what holds of all remarks on a source.
-/

namespace ThreeAddress

variable {source : String}

/-! ### Places -/

/-- A span marks whole characters of a source, and at least one. -/
structure Span.Marks (s : Span) (source : String) : Prop where
  nonempty : s.start < s.stop
  start : String.Pos.Raw.IsValid source ⟨s.start⟩
  stop : String.Pos.Raw.IsValid source ⟨s.stop⟩

theorem isValid_of_append {before behind : List Char} (h : source.toList = before ++ behind) :
    String.Pos.Raw.IsValid source ⟨byteLength before⟩ := by
  rw [String.Pos.Raw.isValid_iff_exists_append]
  refine ⟨String.ofList before, String.ofList behind, ?_, ?_⟩
  · rw [← String.ofList_append, ← h, String.ofList_toList]
  · rw [String.Pos.Raw.ext_iff, String.byteIdx_rawEndPos, String.utf8ByteSize_ofList, byteLength_eq_utf8Len]

/-- Characters of the source are marked from where they start to where they end. -/
theorem marks_of_append {before marked behind : List Char} (h : source.toList = before ++ (marked ++ behind))
    (hne : marked ≠ []) :
    Span.Marks ⟨byteLength before, byteLength before + byteLength marked⟩ source where
  nonempty := Nat.lt_add_of_pos_right (byteLength_pos hne)
  start := isValid_of_append h
  stop := by
    rw [← byteLength_append]
    exact isValid_of_append (by rw [h, List.append_assoc])

/-- Merging starts and ends where one of the two spans does. -/
theorem Span.Marks.merge {a b : Span} (ha : a.Marks source) (hb : b.Marks source) : (a.merge b).Marks source where
  nonempty := by
    have := ha.nonempty
    rw [Span.merge_start, Span.merge_stop]
    omega
  start := by
    rcases min_choice a.start b.start with h | h
    · rw [Span.merge_start, h]
      exact ha.start
    · rw [Span.merge_start, h]
      exact hb.start
  stop := by
    rcases max_choice a.stop b.stop with h | h
    · rw [Span.merge_stop, h]
      exact ha.stop
    · rw [Span.merge_stop, h]
      exact hb.stop

theorem Lexeme.marks {ls : List Lexeme} (h : tokenize source = .ok ls) : ∀ l ∈ ls, l.span.Marks source := by
  intro l hl
  obtain ⟨hw, before, behind, htext, hspan⟩ := (layout_of_tokenize h).places l hl
  obtain ⟨c, cs, hcut⟩ := hw.cut
  have hne : l.token.text.toList ≠ [] := by
    rw [hcut.text]
    exact List.cons_ne_nil c cs
  rw [List.append_assoc] at htext
  rw [hspan, Nat.zero_add]
  exact marks_of_append htext hne

/-- Where nothing can stand, the characters that the fault marks stand in the text. -/
theorem Stuck.extent {cause : LexicalCause} {rest : List Char} (h : Stuck cause rest) :
    ∃ marked behind, rest = marked ++ behind ∧ marked ≠ [] ∧ byteLength marked = cause.extent := by
  cases cause with
  | invalidCharacter c =>
    obtain ⟨behind, hrest⟩ := List.head?_eq_some_iff.1 (h.invalid c rfl)
    exact ⟨[c], behind, hrest, List.cons_ne_nil c [], rfl⟩
  | unterminatedComment =>
    obtain ⟨behind, hrest⟩ := h.unterminated.1 rfl
    exact ⟨['/', '*'], behind, hrest.symm, List.cons_ne_nil _ _, rfl⟩

theorem Stuck.marks {cause : LexicalCause} {before rest : List Char} (h : Stuck cause rest)
    (htext : source.toList = before ++ rest) : (cause.fault (byteLength before)).span.Marks source := by
  obtain ⟨marked, behind, rfl, hne, hextent⟩ := h.extent
  show Span.Marks ⟨byteLength before, byteLength before + cause.extent⟩ source
  rw [← hextent]
  exact marks_of_append htext hne

/-! ### Stages -/

theorem LexicalCause.number_code (cause : LexicalCause) : cause.code.number < 100 := by
  cases cause <;> simp [LexicalCause.code, FaultCode.number]

theorem SyntaxCause.number_code (cause : SyntaxCause) : 100 ≤ cause.code.number ∧ cause.code.number < 200 := by
  cases cause with
  | missing sort wanted found =>
    cases found with
    | none => simp [SyntaxCause.code, FaultCode.number]
    | some t => cases sort <;> simp [SyntaxCause.code, Wanted.code, FaultCode.number]
  | _ => simp [SyntaxCause.code, FaultCode.number]

theorem SemanticCause.number_code (cause : SemanticCause) :
    200 ≤ cause.code.number ∧ cause.code.number < 300 := by
  cases cause <;> simp [SemanticCause.code, FaultCode.number]

/-- What a refusal consists of: a single lexical or syntactic fault without a hint and no warning, or some faults,
all of them semantic. -/
inductive Refused.Staged : Findings → Prop
  | reading {f : Fault} (hcode : f.code.number < 200) (hhint : f.hint = none) : Staged (.single f)
  | checking {f : Findings} (hne : f.faults ≠ [])
      (hcodes : ∀ x ∈ f.faults, 200 ≤ x.code.number ∧ x.code.number < 300) : Staged f

theorem Refused.Staged.faults_ne_nil {f : Findings} (h : Refused.Staged f) : f.faults ≠ [] := by
  cases h with
  | reading _ _ => exact List.cons_ne_nil _ _
  | checking hne _ => exact hne

/-- What compiling says, all of it at places of some kind. -/
inductive Remarks.Placed (P : Span → Prop) : Except Findings Compiled → Prop
  | refused {f : Findings} (hstage : Refused.Staged f) (hfaults : ∀ x ∈ f.faults, P x.span)
      (hwarnings : ∀ w ∈ f.warnings, P w.span) : Placed P (.error f)
  | accepted {c : Compiled} (hwarnings : ∀ w ∈ c.warnings, P w.span) : Placed P (.ok c)

namespace Remarks.Placed

variable {P Q : Span → Prop} {r r' : Except Findings Compiled}

theorem imp (h : Remarks.Placed P r) (hpq : ∀ s, P s → Q s) : Remarks.Placed Q r := by
  cases h with
  | refused hstage hfaults hwarnings =>
    exact .refused hstage (fun x hx => hpq _ (hfaults x hx)) fun w hw => hpq _ (hwarnings w hw)
  | accepted hwarnings => exact .accepted fun w hw => hpq _ (hwarnings w hw)

theorem single {f : Fault} (hcode : f.code.number < 200) (hhint : f.hint = none) (hspan : P f.span) :
    Remarks.Placed P (.error (.single f)) := by
  refine .refused (.reading hcode hhint) (fun x hx => ?_) fun w hw => absurd hw List.not_mem_nil
  rw [List.mem_singleton.1 hx]
  exact hspan

/-- Findings of checking are faults with semantic codes. -/
theorem checking {f f' : Findings} (h : f.Alike (fun s _ => P s) f') (hne : f.faults ≠ []) :
    Remarks.Placed P (.error f) := by
  refine .refused (.checking hne ?_) ?_ (forall_mem_of_forall₂ h.warnings fun w w' hw => hw.span)
  · refine forall_mem_of_forall₂ h.faults fun x x' hx => ?_
    cases hx with
    | fault cause _ _ => exact cause.number_code
  · refine forall_mem_of_forall₂ h.faults fun x x' hx => ?_
    cases hx with
    | fault _ hs _ => exact hs

/-- What corresponds to anything at places of some kind is at such places itself. -/
theorem of_alike (h : Except.Rel (Refused.Alike fun s _ => P s) (Compiled.Alike fun s _ => P s) r r') :
    Remarks.Placed P r := by
  cases h with
  | ok hcompiled => exact .accepted (forall_mem_of_forall₂ hcompiled.warnings fun w w' hw => hw.span)
  | error hrefused =>
    cases hrefused with
    | reading hfault =>
      cases hfault with
      | fault cause hs => exact single cause.number_code.2 rfl hs
    | checking hfindings hne => exact checking hfindings hne

end Remarks.Placed

/-! ### The three ways through a source -/

/-- Where scanning fails, the fault marks what it complains of. -/
theorem compile_placed_of_error {fault : Fault} (h : tokenize source = .error fault) :
    Remarks.Placed (·.Marks source) (compile source) := by
  obtain ⟨_, before, rest, cause, htext, _, hstuck, rfl⟩ := stuck_of_tokenize h
  have hcompile : compile source = .error (.single (cause.fault (byteLength before))) := by
    rw [compile, Program.ofSource, h]
    rfl
  rw [hcompile]
  have hcode := cause.number_code
  exact .single (Nat.lt_trans hcode (by decide)) rfl (hstuck.marks htext)

/-- A source without tokens lacks its main part, from its beginning on. -/
theorem compile_of_no_token (h : tokenize source = .ok []) :
    compile source = .error (.single ⟨.expectedMain, (SyntaxCause.missingMain none).message, .origin, none⟩) := by
  have hread : Program.ofLexemes [] =
      .error ⟨.expectedMain, (SyntaxCause.missingMain none).message, .origin, none⟩ := by
    unfold Program.ofLexemes Program.read Decl.readAll Cursor.many
    rfl
  rw [compile_of_tokenize h, hread]

/-- Places of tokens are all that reading starts from. -/
theorem Cursor.alike_self {P : Span → Prop} {ls : List Lexeme} (hne : ls ≠ []) (h : ∀ l ∈ ls, P l.span) :
    (Cursor.ofLexemes ls).Alike (fun s _ => P s) (.ofLexemes ls) := by
  constructor
  · exact List.forall₂_same.2 fun l hl => ⟨rfl, h l hl⟩
  · cases ls with
    | nil => exact absurd rfl hne
    | cons l _ => exact h l List.mem_cons_self

/-- Where there are tokens, all places are merged from theirs. -/
theorem compile_placed_of_tokens {ls : List Lexeme} (h : tokenize source = .ok ls) (hne : ls ≠ []) :
    Remarks.Placed (·.Marks source) (compile source) := by
  have hmerging : Merging fun s _ => s.Marks source := fun _ _ _ _ ha hb => ha.merge hb
  exact .of_alike (compile_alike hmerging h h (Cursor.alike_self hne (Lexeme.marks h)))

/-! ### All remarks -/

/-- A span lies in a source: it does not end before it starts nor behind the source, it starts and ends between
characters, and it is empty only if the source holds no token. -/
structure Span.LiesIn (s : Span) (source : String) : Prop where
  ordered : s.start ≤ s.stop
  in_bounds : s.stop ≤ source.utf8ByteSize
  start : String.Pos.Raw.IsValid source ⟨s.start⟩
  stop : String.Pos.Raw.IsValid source ⟨s.stop⟩
  nonempty : tokenize source ≠ .ok [] → s.start < s.stop

theorem Span.Marks.liesIn {s : Span} (h : s.Marks source) : s.LiesIn source :=
  ⟨Nat.le_of_lt h.nonempty, h.stop.le_utf8ByteSize, h.start, h.stop, fun _ => h.nonempty⟩

theorem Span.liesIn_origin (h : tokenize source = .ok []) : Span.origin.LiesIn source := by
  have hvalid : String.Pos.Raw.IsValid source ⟨0⟩ := isValid_of_append (List.nil_append _).symm
  exact ⟨Nat.le_refl 0, Nat.zero_le _, hvalid, hvalid, fun hne => absurd h hne⟩

theorem compile_placed (source : String) : Remarks.Placed (·.LiesIn source) (compile source) := by
  cases h : tokenize source with
  | error fault => exact (compile_placed_of_error h).imp fun s => Span.Marks.liesIn
  | ok ls =>
    by_cases hne : ls = []
    · subst hne
      rw [compile_of_no_token h]
      exact .single (by decide) rfl (Span.liesIn_origin h)
    · exact (compile_placed_of_tokens h hne).imp fun s => Span.Marks.liesIn

/-- **Remarks.**  A refusal consists of a single lexical or syntactic fault without a hint and no warning, or of
some faults that are all semantic; and the place of every fault and of every warning, be the source refused or
accepted, lies in the source. -/
theorem compile_diagnostics (source : String) :
    (∀ findings, compile source = .error findings → findings.faults ≠ [] ∧ Refused.Staged findings ∧
      (∀ f ∈ findings.faults, f.span.LiesIn source) ∧ ∀ w ∈ findings.warnings, w.span.LiesIn source) ∧
      ∀ compiled, compile source = .ok compiled → ∀ w ∈ compiled.warnings, w.span.LiesIn source := by
  have hplaced := compile_placed source
  constructor
  · intro findings h
    rw [h] at hplaced
    cases hplaced with
    | refused hstage hfaults hwarnings => exact ⟨hstage.faults_ne_nil, hstage, hfaults, hwarnings⟩
  · intro compiled h
    rw [h] at hplaced
    cases hplaced with
    | accepted hwarnings => exact hwarnings

/-- A source with a character of two bytes that fits nothing. -/
def accentedSource : String := "main \x7b \u00e9 \x7d"

/-- A source with a variable that is never assigned. -/
def untouchedSource : String := "main \x7b var x: integer; \x7d"

theorem compile_diagnostics_accentedSource :
    (∃ findings, compile accentedSource = .error findings ∧ findings.faults.map (·.span) = [⟨7, 9⟩] ∧
      Refused.Staged findings ∧ ∀ f ∈ findings.faults, f.span.LiesIn accentedSource) ∧
      ∃ compiled, compile untouchedSource = .ok compiled ∧ compiled.warnings.map (·.span) = [⟨7, 22⟩] ∧
        ∀ w ∈ compiled.warnings, w.span.LiesIn untouchedSource := by
  constructor
  · have hspans : (faultsOf accentedSource).map (·.span) = [⟨7, 9⟩] := by decide +kernel
    cases h : compile accentedSource with
    | ok compiled =>
      rw [faultsOf, h] at hspans
      cases hspans
    | error findings =>
      rw [faultsOf, h] at hspans
      obtain ⟨-, hstage, hfaults, -⟩ := (compile_diagnostics accentedSource).1 findings h
      exact ⟨findings, rfl, hspans, hstage, hfaults⟩
  · have hspans : (compile untouchedSource).toOption.map (·.warnings.map (·.span)) = some [⟨7, 22⟩] := by
      decide +kernel
    obtain ⟨compiled, h⟩ : ∃ compiled, compile untouchedSource = .ok compiled :=
      Except.exists_eq_ok (by decide +kernel)
    rw [h] at hspans
    exact ⟨compiled, h, Option.some.inj hspans, (compile_diagnostics untouchedSource).2 compiled h⟩

end ThreeAddress
