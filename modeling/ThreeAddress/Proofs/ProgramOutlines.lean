import ThreeAddress.Proofs.Layout
import ThreeAddress.Proofs.ReadOutlines
import ThreeAddress.Proofs.ReadPrograms

/-!
# The spans of a program

Declarations, statements, functions and programs stand where their spans say, as expressions and conditions do.

* `Stmt.read_takes`, `Func.read_takes`, `Program.read_takes` — the outline of what is read fits the tokens taken;
* `tokenize_inOrder` — the tokens of a source stand one behind the other;
* `Program.ofSource_outlined` — every node of a program that is read has the span of its tokens.
-/

namespace ThreeAddress

open Outline (AllFit)

variable {c : Cursor} {ls : List Lexeme}

/-! ### Declarations -/

theorem Ty.read_takes : (Ty.read c).Takes fun type w => ∃ l, w = [l] ∧ l.token = .word type.word := by
  refine Cursor.takeIf_takes.map ?_
  rintro p w ⟨l, rfl, hl, -⟩
  exact ⟨l, rfl, Ty.word_of_ofToken? hl⟩

namespace Decl

/-- The outline of a declaration fits. -/
def FitsAs (d : Decl) (w : List Lexeme) : Prop := d.outline.Fits w

theorem readVar_takes : (readVar c).Takes FitsAs := by
  refine Cursor.expect_takes.andThen ?_
  rintro _ c₁ _ _ h₁ ⟨l₁, rfl, hl₁, rfl⟩
  refine Cursor.expectName_takes.andThen ?_
  rintro ⟨name, _⟩ c₂ _ _ h₂ ⟨l₂, rfl, hl₂, -⟩
  refine Cursor.expect_takes.andThen ?_
  rintro _ c₃ _ _ h₃ ⟨l₃, rfl, hl₃, -⟩
  refine Ty.read_takes.andThen ?_
  rintro type c₄ _ _ h₄ ⟨l₄, rfl, hl₄⟩
  refine Cursor.expect_takes.andThen ?_
  rintro _ c₅ _ _ h₅ ⟨l₅, rfl, hl₅, -⟩
  refine Cursor.give_takes ?_
  rw [FitsAs, outline]
  exact .closed (h₁.trans (h₂.trans (h₃.trans (h₄.trans h₅))))
    (.token hl₁ (.token hl₂ (.token hl₃ (.token hl₄ (.token hl₅ .nil)))))

theorem readConst_takes : (readConst c).Takes FitsAs := by
  refine Cursor.expect_takes.andThen ?_
  rintro _ c₁ _ _ h₁ ⟨l₁, rfl, hl₁, rfl⟩
  refine Cursor.expectName_takes.andThen ?_
  rintro ⟨name, _⟩ c₂ _ _ h₂ ⟨l₂, rfl, hl₂, -⟩
  refine Cursor.expect_takes.andThen ?_
  rintro _ c₃ _ _ h₃ ⟨l₃, rfl, hl₃, -⟩
  refine Ty.read_takes.andThen ?_
  rintro type c₄ _ _ h₄ ⟨l₄, rfl, hl₄⟩
  refine Cursor.expect_takes.andThen ?_
  rintro _ c₅ _ _ h₅ ⟨l₅, rfl, hl₅, -⟩
  refine Expr.read_takes.andThen fun value c₆ _ w₆ h₆ hw₆ => ?_
  refine Cursor.expect_takes.andThen ?_
  rintro _ c₇ _ _ h₇ ⟨l₇, rfl, hl₇, -⟩
  refine Cursor.give_takes ?_
  rw [FitsAs, outline]
  exact .closed (h₁.trans (h₂.trans (h₃.trans (h₄.trans (h₅.trans (h₆.trans h₇))))))
    (.token hl₁ (.token hl₂ (.token hl₃ (.token hl₄ (.token hl₅ (.node hw₆ (.token hl₇ .nil)))))))

theorem readAll_takes : (readAll c).Takes fun ds w => AllFit (ds.map outline) w := by
  refine Cursor.many_takes fun d _ => ?_
  unfold read
  split
  · exact readConst_takes
  · exact readVar_takes

end Decl

/-! ### Statements -/

namespace Stmt

/-- The outline of a statement fits. -/
def FitsAs (s : Stmt) (w : List Lexeme) : Prop := s.outline.Fits w

/-- The outline of a block fits. -/
def BlockFitsAs (b : Block) (w : List Lexeme) : Prop := (Block.outline b).Fits w

theorem outlines_eq (ss : List Stmt) : outlines ss = ss.map outline := by
  induction ss with
  | nil => rfl
  | cons s more ih => rw [outlines, ih, List.map_cons]

theorem readNamed_takes : (readNamed c).Takes FitsAs := by
  refine Cursor.expectName_takes.andThen ?_
  rintro ⟨name, _⟩ c₁ _ _ h₁ ⟨l₁, rfl, hl₁, rfl⟩
  dsimp only
  split
  · refine Outcome.Takes.weaken (Cursor.expect_takes.andThen ?_)
    rintro _ c₂ _ _ h₂ ⟨l₂, rfl, hl₂, -⟩
    refine Expr.read_takes.andThen fun value c₃ _ w₃ h₃ hw₃ => ?_
    refine Cursor.expect_takes.andThen ?_
    rintro _ c₄ _ _ h₄ ⟨l₄, rfl, hl₄, -⟩
    refine Cursor.give_takes ?_
    rw [FitsAs, outline]
    exact .around (.closed (h₁.trans (h₂.trans (h₃.trans h₄)))
      (.token hl₁ (.token hl₂ (.node hw₃ (.token hl₄ .nil))))) rfl
  · refine Outcome.Takes.weaken ((Call.readFrom_takes hl₁ h₁).andThen fun call c₂ _ w₂ h₂ hw₂ => ?_)
    refine Cursor.expect_takes.andThen ?_
    rintro _ c₃ _ _ h₃ ⟨l₃, rfl, hl₃, -⟩
    refine Cursor.give_takes ?_
    have hparts := AllFit.node hw₂ (.token hl₃ .nil)
    rw [List.append_assoc] at hparts
    rw [FitsAs, outline]
    exact .closed (h₁.trans (h₂.trans h₃)) hparts
  · trivial

theorem readSkip_takes : (readSkip c).Takes FitsAs := by
  refine Cursor.expect_takes.andThen ?_
  rintro _ c₁ _ _ h₁ ⟨l₁, rfl, hl₁, rfl⟩
  refine Cursor.expect_takes.andThen ?_
  rintro _ c₂ _ _ h₂ ⟨l₂, rfl, hl₂, -⟩
  refine Cursor.give_takes ?_
  rw [FitsAs, outline]
  exact .closed (h₁.trans h₂) (.token hl₁ (.token hl₂ .nil))

theorem readAll_takes_of (hr : ∀ d : Cursor, d.size ≤ c.size → (Stmt.read d).Takes FitsAs) :
    (Stmt.readAll c).Takes fun ss w => AllFit (outlines ss) w := by
  rw [Stmt.readAll]
  refine (Cursor.many_takes hr).imp fun ss w hw => ?_
  rw [outlines_eq]
  exact hw

theorem readBlock_takes (hr : ∀ d : Cursor, d.size < c.size → (Stmt.read d).Takes FitsAs) :
    (Block.read c).Takes BlockFitsAs := by
  rw [Block.read]
  refine Cursor.expect_takes.andThen ?_
  rintro _ c₁ hs _ h₁ ⟨l₁, rfl, hl₁, rfl⟩
  refine (readAll_takes_of fun d hd => hr d (by omega)).andThen fun ss c₂ _ w₂ h₂ hw₂ => ?_
  split
  · trivial
  · refine Outcome.Takes.weaken (Cursor.expect_takes.andThen ?_)
    rintro _ c₃ _ _ h₃ ⟨l₃, rfl, hl₃, -⟩
    refine Cursor.give_takes ?_
    rw [BlockFitsAs, Block.outline]
    exact .closed (h₁.trans (h₂.trans h₃)) (.token hl₁ (.append hw₂ (.token hl₃ .nil)))

/-- One statement, by induction on the number of tokens that are left. -/
theorem read_takes : (Stmt.read c).Takes FitsAs := by
  induction hs : c.size using Nat.strongRecOn generalizing c with
  | ind n ih =>
    have hblock : ∀ d : Cursor, d.size ≤ c.size → (Block.read d).Takes BlockFitsAs :=
      fun d hd => readBlock_takes fun e he => ih e.size (by omega) rfl
    rw [Stmt.read]
    split
    · rw [Stmt.readIte]
      refine Cursor.expect_takes.andThen ?_
      rintro _ c₁ _ _ h₁ ⟨l₁, rfl, hl₁, rfl⟩
      refine Cond.read_takes.andThen fun cond c₂ _ w₂ h₂ hw₂ => ?_
      refine (hblock c₂ (by omega)).andThen fun t c₃ _ w₃ h₃ hw₃ => ?_
      refine Cursor.expect_takes.andThen ?_
      rintro _ c₄ _ _ h₄ ⟨l₄, rfl, hl₄, -⟩
      refine (hblock c₄ (by omega)).map fun e w₅ hw₅ => ?_
      have hparts := AllFit.token hl₁ (.node hw₂ (.node hw₃ (.token hl₄ (.single hw₅))))
      rw [FitsAs, outline]
      simpa only [List.append_assoc] using
        Outline.Fits.upTo (u := w₂ ++ (w₃ ++ [l₄])) hw₅ e.outline_span?
          (by simpa only [List.append_assoc] using hparts)
    · rw [Stmt.readLoop]
      refine Cursor.expect_takes.andThen ?_
      rintro _ c₁ _ _ h₁ ⟨l₁, rfl, hl₁, rfl⟩
      refine Cond.read_takes.andThen fun cond c₂ _ w₂ h₂ hw₂ => ?_
      refine (hblock c₂ (by omega)).map fun b w₃ hw₃ => ?_
      rw [FitsAs, outline]
      exact .upTo hw₃ b.outline_span? (.token hl₁ (.node hw₂ (.single hw₃)))
    · exact readSkip_takes
    · refine (hblock c (Nat.le_refl _)).map fun b w hw => ?_
      rw [FitsAs, outline]
      exact .around hw b.outline_span?
    · exact readNamed_takes
    · trivial
    · trivial
    · trivial

theorem readAll_takes : (Stmt.readAll c).Takes fun ss w => AllFit (outlines ss) w :=
  readAll_takes_of fun _ _ => read_takes

end Stmt

/-! ### Functions and programs -/

theorem Param.read_takes : (Param.read c).Takes fun p w => p.outline.Fits w := by
  refine Cursor.expectName_takes.andThen ?_
  rintro ⟨name, _⟩ c₁ _ _ h₁ ⟨l₁, rfl, hl₁, rfl⟩
  refine Cursor.expect_takes.andThen ?_
  rintro _ c₂ _ _ h₂ ⟨l₂, rfl, hl₂, -⟩
  refine Ty.read_takes.andThen ?_
  rintro type c₃ _ _ h₃ ⟨l₃, rfl, hl₃⟩
  refine Cursor.give_takes ?_
  rw [Param.outline]
  exact .closed (h₁.trans (h₂.trans h₃)) (.token hl₁ (.token hl₂ (.token hl₃ .nil)))

theorem Param.readAll_takes :
    (Param.readAll c).Takes fun ps w => AllFit (Outline.commas (ps.map Param.outline)) w := by
  unfold Param.readAll
  split
  · exact Cursor.give_takes .nil
  · exact ((Cursor.commaList_takes fun _ => Param.read_takes).imp fun _ _ h => h.2).weaken

theorem Expr.readReturned_takes :
    (Expr.readReturned c).Takes fun v w => AllFit (v.toList.map Expr.outline) w := by
  unfold Expr.readReturned
  split
  · exact Cursor.give_takes .nil
  · refine (Expr.read_takes.map fun e w hw => ?_).weaken
    exact .single hw

/-- The span of the body ends before the `return`, where the cursor stands behind the statements. -/
theorem Func.read_takes : (Func.read c).Takes fun f w => f.outline.Fits w := by
  unfold Func.read
  refine Ty.read_takes.andThen ?_
  rintro type c₁ _ _ h₁ ⟨l₁, rfl, hl₁⟩
  have hstart : c.here = l₁.span := by simp [Cursor.here, h₁.1]
  refine Cursor.expectName_takes.andThen ?_
  rintro ⟨name, _⟩ c₂ _ _ h₂ ⟨l₂, rfl, hl₂, -⟩
  refine Cursor.expect_takes.andThen ?_
  rintro _ c₃ _ _ h₃ ⟨l₃, rfl, hl₃, -⟩
  refine Param.readAll_takes.andThen fun params c₄ _ w₄ h₄ hw₄ => ?_
  refine Cursor.expect_takes.andThen ?_
  rintro _ c₅ _ _ h₅ ⟨l₅, rfl, hl₅, -⟩
  refine Cursor.expect_takes.andThen ?_
  rintro _ c₆ _ _ h₆ ⟨l₆, rfl, hl₆, rfl⟩
  refine Decl.readAll_takes.andThen fun decls c₇ _ w₇ h₇ hw₇ => ?_
  refine Stmt.readAll_takes.andThen fun stmts c₈ _ w₈ h₈ hw₈ => ?_
  have hbody := Outline.Fits.closed (h₆.trans (h₇.trans h₈)) (.token hl₆ (.append hw₇ hw₈))
  refine Cursor.expect_takes.andThen ?_
  rintro _ c₉ _ _ h₉ ⟨l₉, rfl, hl₉, -⟩
  refine Cursor.expect_takes.andThen ?_
  rintro _ c₁₀ _ _ h₁₀ ⟨l₁₀, rfl, hl₁₀, -⟩
  refine Expr.readReturned_takes.andThen fun value c₁₁ _ w₁₁ h₁₁ hw₁₁ => ?_
  refine Cursor.expect_takes.andThen ?_
  rintro _ c₁₂ _ _ h₁₂ ⟨l₁₂, rfl, hl₁₂, -⟩
  refine Cursor.expect_takes.andThen ?_
  rintro _ c₁₃ _ _ h₁₃ ⟨l₁₃, rfl, hl₁₃, -⟩
  refine Cursor.expect_takes.andThen ?_
  rintro _ c₁₄ _ _ h₁₄ ⟨l₁₄, rfl, hl₁₄, -⟩
  refine Cursor.give_takes ?_
  rw [Func.outline, Func.bodyOutline, hstart]
  have hmoves := h₁.trans (h₂.trans (h₃.trans (h₄.trans (h₅.trans ((h₆.trans (h₇.trans h₈)).trans
    (h₉.trans (h₁₀.trans (h₁₁.trans (h₁₂.trans (h₁₃.trans h₁₄))))))))))
  have hparts := AllFit.token hl₁ (.token hl₂ (.token hl₃ (.append hw₄ (.token hl₅ (.node hbody (.token hl₉
    (.token hl₁₀ (.append hw₁₁ (.token hl₁₂ (.token hl₁₃ (.token hl₁₄ .nil)))))))))))
  simpa only [List.append_assoc, List.append_nil] using Outline.Fits.closed hmoves hparts

theorem Main.read_takes : (Main.read c).Takes fun m w => m.outline.Fits w := by
  unfold Main.read
  split
  · trivial
  · refine Cursor.expect_takes.andThen ?_
    rintro _ c₁ _ _ h₁ ⟨l₁, rfl, hl₁, rfl⟩
    refine Cursor.expect_takes.andThen ?_
    rintro _ c₂ _ _ h₂ ⟨l₂, rfl, hl₂, rfl⟩
    refine Decl.readAll_takes.andThen fun decls c₃ _ w₃ h₃ hw₃ => ?_
    refine Stmt.readAll_takes.andThen fun stmts c₄ _ w₄ h₄ hw₄ => ?_
    split
    · trivial
    · refine Outcome.Takes.weaken (Cursor.expect_takes.andThen ?_)
      rintro _ c₅ _ _ h₅ ⟨l₅, rfl, hl₅, -⟩
      refine Cursor.give_takes ?_
      have hmoves := h₂.trans (h₃.trans (h₄.trans h₅))
      have hbody := Outline.Fits.closed hmoves (.token hl₂ (.append hw₃ (.append hw₄ (.token hl₅ .nil))))
      rw [Main.outline]
      simpa only [List.append_nil] using Outline.Fits.closed (h₁.trans hmoves) (.token hl₁ (.single hbody))

theorem Program.read_takes : (Program.read c).Takes fun p w => AllFit p.outlines w := by
  refine Decl.readAll_takes.andThen fun decls c₁ _ w₁ h₁ hw₁ => ?_
  refine (Cursor.many_takes fun _ _ => Func.read_takes).andThen fun funcs c₂ _ w₂ h₂ hw₂ => ?_
  refine Main.read_takes.weaken.andThen fun main c₃ _ w₃ h₃ hw₃ => ?_
  split
  · trivial
  · refine Cursor.give_takes ?_
    rw [List.append_nil]
    exact .append hw₁ (.append hw₂ (.single hw₃))

/-! ### Programs from their sources -/

/-- The nodes of a program over its tokens: the span of every node is exactly that of the tokens it was read from,
children lie within their parents, and siblings stand side by side. -/
structure Program.Outlined (p : Program) (ls : List Lexeme) : Prop where
  exact : Outline.AllOver p.outlines ls
  apart : (Outline.spans p.outlines).Pairwise Span.Before
  nested : Outline.AllNested p.outlines

/-- The tokens of a source stand one behind the other. -/
theorem tokenize_inOrder {source : String} (h : tokenize source = .ok ls) : InOrder ls := by
  rcases scan_cases 0 source.toList with ⟨ls', hs, hl⟩ | ⟨_, _, _, _, -, -, -, hs⟩
  · rw [tokenize, hs] at h
    cases h
    exact ⟨hl.standIn.nonempty, hl.ordered⟩
  · rw [tokenize, hs] at h
    cases h

/-- What is read from a token list has taken all of it. -/
theorem Program.allFit_of_ofLexemes {p : Program} (h : ofLexemes ls = .ok p) : AllFit p.outlines ls := by
  have htakes := Program.read_takes (c := .ofLexemes ls)
  unfold ofLexemes at h
  cases hread : Program.read (.ofLexemes ls) with
  | failed f d hd =>
    rw [hread] at h
    cases h
  | done q d hd =>
    rw [hread] at h htakes
    cases h
    obtain ⟨w, hw, hfit⟩ := htakes
    have hend : d.rest = [] := List.map_eq_nil_iff.1 (Program.read_stop hread)
    have hls : ls = w := by simpa [Cursor.ofLexemes, hend] using hw.1
    rw [hls]
    exact hfit

/-- **Node spans are exact.**  A program that is read from a source is made of its tokens, all of them and in order:
every node has the span from the start of the first to the end of the last token it was read from.  So children lie
within their parents, and of siblings each ends before the next one starts. -/
theorem Program.ofSource_outlined {source : String} {p : Program} (h : ofSource source = .ok p) :
    ∃ ls, tokenize source = .ok ls ∧ p.Outlined ls := by
  cases hls : tokenize source with
  | error fault =>
    rw [ofSource, hls] at h
    cases h
  | ok ls =>
    rw [ofSource, hls] at h
    have horder := tokenize_inOrder hls
    have hover := allFit_of_ofLexemes h horder
    exact ⟨ls, rfl, hover, hover.before horder, hover.nested horder⟩

/-- A function whose body waits, and a main part that calls it. -/
def waitingSource : String := "void f(a: integer) \x7b skip; return(); \x7d main \x7b f(1); \x7d"

/-- The body of the function ends before its `return`. -/
theorem Program.ofSource_outlined_waitingSource : ∃ p, ofSource waitingSource = .ok p ∧
    Outline.spans p.outlines = [⟨0, 38⟩, ⟨39, 53⟩] ∧ p.funcs.map (·.body.span) = [⟨19, 26⟩] ∧
    ∃ ls, tokenize waitingSource = .ok ls ∧ p.Outlined ls := by
  have hspans : (ofSource waitingSource).toOption.map
      (fun p => (Outline.spans p.outlines, p.funcs.map (·.body.span))) =
        some ([⟨0, 38⟩, ⟨39, 53⟩], [⟨19, 26⟩]) := by decide +kernel
  obtain ⟨p, hp, he⟩ := Option.map_eq_some_iff.1 hspans
  have hread : ofSource waitingSource = .ok p := by
    cases hsource : ofSource waitingSource with
    | error => simp [hsource, Except.toOption] at hp
    | ok q => simpa [hsource, Except.toOption] using hp
  obtain ⟨hnodes, hbodies⟩ := Prod.mk.inj he
  exact ⟨p, hread, hnodes, hbodies, ofSource_outlined hread⟩

end ThreeAddress
