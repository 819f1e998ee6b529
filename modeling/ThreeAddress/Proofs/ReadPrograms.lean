import ThreeAddress.Proofs.ReadPhrases

/-!
# Reading programs

Statements, declarations, functions and programs: what is read is a parse tree, and what is derivable is read.

* `Stmt.read_parses`, `Func.read_parses`, `Program.parses_of_ofLexemes` — trees and their yields;
* `Stmt.read_reads`, `Func.read_leaves`, `Program.read_leaves` — derivable phrases;
* `Program.ofLexemes_iff_derives` — the programs that are read are the derivable ones.
-/

namespace ThreeAddress

variable {c d : Cursor} {ts w : List Token}

/-! ### Trees of declarations and statements -/

theorem Ty.word_of_ofToken? {t : Token} {type : Ty} (h : ofToken? t = some type) :
    t = .word type.word := by
  unfold ofToken? at h
  split at h <;> cases h <;> rfl

theorem Ty.read_consumes : (Ty.read c).Consumes fun type w => w = [.word type.word] := by
  refine Cursor.takeIf_consumes.map ?_
  rintro p w ⟨t, ht, rfl⟩
  rw [Ty.word_of_ofToken? ht]

namespace Decl

/-- A parse tree together with its yield. -/
def ParsesAs (d : Decl) (w : List Token) : Prop := d.Parses ∧ w = d.tokens

theorem readVar_parses : (readVar c).Consumes ParsesAs := by
  refine Cursor.expect_consumes.andThen fun _ c₁ _ w₁ h₁ => ?_
  refine Cursor.expectName_consumes.andThen fun p c₂ _ w₂ h₂ => ?_
  refine Cursor.expect_consumes.andThen fun _ c₃ _ w₃ h₃ => ?_
  refine Ty.read_consumes.andThen fun type c₄ _ w₄ h₄ => ?_
  refine Cursor.expect_consumes.andThen fun _ c₅ _ w₅ h₅ => ?_
  exact Cursor.give_consumes ⟨trivial, by simp [h₁, h₂, h₃, h₄, h₅, tokens, typedTokens]⟩

theorem readConst_parses : (readConst c).Consumes ParsesAs := by
  refine Cursor.expect_consumes.andThen fun _ c₁ _ w₁ h₁ => ?_
  refine Cursor.expectName_consumes.andThen fun p c₂ _ w₂ h₂ => ?_
  refine Cursor.expect_consumes.andThen fun _ c₃ _ w₃ h₃ => ?_
  refine Ty.read_consumes.andThen fun type c₄ _ w₄ h₄ => ?_
  refine Cursor.expect_consumes.andThen fun _ c₅ _ w₅ h₅ => ?_
  refine Expr.read_parses.andThen fun value c₆ _ w₆ h₆ => ?_
  refine Cursor.expect_consumes.andThen fun _ c₇ _ w₇ h₇ => ?_
  exact Cursor.give_consumes
    ⟨h₆.1, by simp [h₁, h₂, h₃, h₄, h₅, h₆.2, h₇, tokens, typedTokens]⟩

theorem readAll_parses :
    (readAll c).Consumes fun ds w => (∀ d ∈ ds, d.Parses) ∧ w = tokensOfList ds := by
  refine Cursor.many_consumes fun d _ => ?_
  unfold read
  split
  · exact readConst_parses
  · exact readVar_parses

end Decl

namespace Stmt

/-- A parse tree together with its yield. -/
def ParsesAs (s : Stmt) (w : List Token) : Prop := s.Parses ∧ w = s.tokens

/-- The same of the statements of a block. -/
def BlockParsesAs (b : Block) (w : List Token) : Prop := (∀ s ∈ b.nodes, s.Parses) ∧ w = Block.tokens b

theorem readNamed_parses : (readNamed c).Consumes ParsesAs := by
  refine Cursor.expectName_consumes.andThen fun p c₁ _ w₁ h₁ => ?_
  dsimp only
  split
  · refine Outcome.Consumes.weaken (Cursor.expect_consumes.andThen fun _ c₂ _ w₂ h₂ => ?_)
    refine Expr.read_parses.andThen fun value c₃ _ w₃ h₃ => ?_
    refine Cursor.expect_consumes.andThen fun _ c₄ _ w₄ h₄ => ?_
    exact Cursor.give_consumes ⟨.assign h₃.1, by simp [h₁, h₂, h₃.2, h₄, tokens]⟩
  · refine Outcome.Consumes.weaken (Call.readFrom_consumes.andThen fun call c₂ _ w₂ h₂ => ?_)
    refine Cursor.expect_consumes.andThen fun _ c₃ _ w₃ h₃ => ?_
    exact Cursor.give_consumes ⟨.call, by simp [h₁, h₂, h₃, tokens]⟩
  · trivial

theorem readSkip_parses : (readSkip c).Consumes ParsesAs := by
  refine Cursor.expect_consumes.andThen fun _ c₁ _ w₁ h₁ => ?_
  refine Cursor.expect_consumes.andThen fun _ c₂ _ w₂ h₂ => ?_
  exact Cursor.give_consumes ⟨.skip, by simp [h₁, h₂, tokens]⟩

theorem readAll_consumes
    (hr : ∀ d : Cursor, d.size ≤ c.size → (Stmt.read d).Consumes ParsesAs) :
    (Stmt.readAll c).Consumes fun ss w => (∀ s ∈ ss, s.Parses) ∧ w = tokensOfList ss := by
  rw [Stmt.readAll]
  refine (Cursor.many_consumes hr).imp ?_
  rintro ss w ⟨hss, rfl⟩
  exact ⟨hss, (tokensOfList_eq ss).symm⟩

theorem readBlock_consumes
    (hr : ∀ d : Cursor, d.size < c.size → (Stmt.read d).Consumes ParsesAs) :
    (Block.read c).Consumes BlockParsesAs := by
  rw [Block.read]
  refine Cursor.expect_consumes.andThen fun _ c₁ hs w₁ h₁ => ?_
  refine (readAll_consumes fun d hd => hr d (by omega)).andThen fun ss c₂ _ w₂ h₂ => ?_
  split
  · trivial
  · refine Outcome.Consumes.weaken (Cursor.expect_consumes.andThen fun _ c₃ _ w₃ h₃ => ?_)
    exact Cursor.give_consumes ⟨h₂.1, by simp [h₁, h₂.2, h₃, Block.tokens]⟩

/-- One statement, by induction on the number of tokens that are left. -/
theorem read_parses : (Stmt.read c).Consumes ParsesAs := by
  induction hs : c.size using Nat.strongRecOn generalizing c with
  | ind n ih =>
    have hblock : ∀ d : Cursor, d.size ≤ c.size → (Block.read d).Consumes BlockParsesAs :=
      fun d hd => readBlock_consumes fun e he => ih e.size (by omega) rfl
    rw [Stmt.read]
    split
    · rw [Stmt.readIte]
      refine Cursor.expect_consumes.andThen fun _ c₁ _ w₁ h₁ => ?_
      refine Cond.read_parses.andThen fun cond c₂ _ w₂ h₂ => ?_
      refine (hblock c₂ (by omega)).andThen fun t c₃ _ w₃ h₃ => ?_
      refine Cursor.expect_consumes.andThen fun _ c₄ _ w₄ h₄ => ?_
      refine (hblock c₄ (by omega)).map fun e w₅ h₅ => ?_
      exact ⟨.ite h₂.1 h₃.1 h₅.1, by simp [h₁, h₂.2, h₃.2, h₄, h₅.2, tokens]⟩
    · rw [Stmt.readLoop]
      refine Cursor.expect_consumes.andThen fun _ c₁ _ w₁ h₁ => ?_
      refine Cond.read_parses.andThen fun cond c₂ _ w₂ h₂ => ?_
      refine (hblock c₂ (by omega)).map fun b w₃ h₃ => ?_
      exact ⟨.loop h₂.1 h₃.1, by simp [h₁, h₂.2, h₃.2, tokens]⟩
    · exact readSkip_parses
    · refine (hblock c (Nat.le_refl _)).map fun b w h => ?_
      exact ⟨.block h.1, by simp [h.2, tokens]⟩
    · exact readNamed_parses
    · trivial
    · trivial
    · trivial

theorem readAll_parses :
    (Stmt.readAll c).Consumes fun ss w => (∀ s ∈ ss, s.Parses) ∧ w = tokensOfList ss :=
  readAll_consumes fun _ _ => read_parses

end Stmt

/-! ### Trees of functions and programs -/

theorem Param.read_consumes :
    (Param.read c).Consumes fun p w => w = typedTokens p.name p.type := by
  refine Cursor.expectName_consumes.andThen fun p c₁ _ w₁ h₁ => ?_
  refine Cursor.expect_consumes.andThen fun _ c₂ _ w₂ h₂ => ?_
  refine Ty.read_consumes.andThen fun type c₃ _ w₃ h₃ => ?_
  exact Cursor.give_consumes (by simp [h₁, h₂, h₃, typedTokens])

theorem Param.readAll_consumes :
    (Param.readAll c).Consumes fun ps w =>
      w = commaTokens (ps.map fun p => typedTokens p.name p.type) := by
  unfold Param.readAll
  split
  · exact Cursor.give_consumes rfl
  · exact ((Cursor.commaList_consumes fun _ => Param.read_consumes).imp fun _ _ h => h.2).weaken

theorem Expr.readReturned_consumes :
    (Expr.readReturned c).Consumes fun v w =>
      (∀ e, v = some e → e.Parses .expr) ∧ w = v.elim [] Expr.tokens := by
  unfold Expr.readReturned
  split
  · exact Cursor.give_consumes ⟨by simp, rfl⟩
  · refine (Expr.read_parses.map fun e w h => ?_).weaken
    refine ⟨?_, h.2⟩
    rintro _ ⟨⟩
    exact h.1

theorem Func.read_parses : (Func.read c).Consumes fun f w => f.Parses ∧ w = f.tokens := by
  refine Ty.read_consumes.andThen fun type c₁ _ w₁ h₁ => ?_
  refine Cursor.expectName_consumes.andThen fun p c₂ _ w₂ h₂ => ?_
  refine Cursor.expect_consumes.andThen fun _ c₃ _ w₃ h₃ => ?_
  refine Param.readAll_consumes.andThen fun params c₄ _ w₄ h₄ => ?_
  refine Cursor.expect_consumes.andThen fun _ c₅ _ w₅ h₅ => ?_
  refine Cursor.expect_consumes.andThen fun _ c₆ _ w₆ h₆ => ?_
  refine Decl.readAll_parses.andThen fun decls c₇ _ w₇ h₇ => ?_
  refine Stmt.readAll_parses.andThen fun stmts c₈ _ w₈ h₈ => ?_
  refine Cursor.expect_consumes.andThen fun _ c₉ _ w₉ h₉ => ?_
  refine Cursor.expect_consumes.andThen fun _ c₁₀ _ w₁₀ h₁₀ => ?_
  refine Expr.readReturned_consumes.andThen fun value c₁₁ _ w₁₁ h₁₁ => ?_
  refine Cursor.expect_consumes.andThen fun _ c₁₂ _ w₁₂ h₁₂ => ?_
  refine Cursor.expect_consumes.andThen fun _ c₁₃ _ w₁₃ h₁₃ => ?_
  refine Cursor.expect_consumes.andThen fun _ c₁₄ _ w₁₄ h₁₄ => ?_
  refine Cursor.give_consumes ⟨⟨h₇.1, h₈.1, h₁₁.1⟩, ?_⟩
  simp [h₁, h₂, h₃, h₄, h₅, h₆, h₇.2, h₈.2, h₉, h₁₀, h₁₁.2, h₁₂, h₁₃, h₁₄, Func.tokens]

theorem Main.read_parses : (Main.read c).Consumes fun m w => m.Parses ∧ w = m.tokens := by
  unfold Main.read
  split
  · trivial
  · refine Cursor.expect_consumes.andThen fun _ c₁ _ w₁ h₁ => ?_
    refine Cursor.expect_consumes.andThen fun _ c₂ _ w₂ h₂ => ?_
    refine Decl.readAll_parses.andThen fun decls c₃ _ w₃ h₃ => ?_
    refine Stmt.readAll_parses.andThen fun stmts c₄ _ w₄ h₄ => ?_
    split
    · trivial
    · refine Outcome.Consumes.weaken (Cursor.expect_consumes.andThen fun _ c₅ _ w₅ h₅ => ?_)
      exact Cursor.give_consumes
        ⟨⟨h₃.1, h₄.1⟩, by simp [h₁, h₂, h₃.2, h₄.2, h₅, Main.tokens]⟩

theorem Program.read_parses : (Program.read c).Consumes fun p w => p.Parses ∧ w = p.tokens := by
  refine Decl.readAll_parses.andThen fun decls c₁ _ w₁ h₁ => ?_
  refine (Cursor.many_consumes fun _ _ => Func.read_parses).andThen fun funcs c₂ _ w₂ h₂ => ?_
  refine Main.read_parses.weaken.andThen fun main c₃ _ w₃ h₃ => ?_
  split
  · trivial
  · exact Cursor.give_consumes
      ⟨⟨h₁.1, h₂.1, h₃.1⟩, by simp [h₁.2, h₂.2, h₃.2, Program.tokens]⟩

/-- Nothing stands behind a program. -/
theorem Program.read_stop {p : Program} {hd : d.size + 0 ≤ c.size}
    (h : Program.read c = .done p d hd) : d.tokens = [] := by
  obtain ⟨_, _, _, _, _, h⟩ := Outcome.andThen_eq_done h
  obtain ⟨_, _, _, _, _, h⟩ := Outcome.andThen_eq_done h
  obtain ⟨_, _, _, _, _, h⟩ := Outcome.andThen_eq_done h
  split at h
  · cases h
  · rename_i hnext
    cases h
    simpa [Cursor.next?, Cursor.tokens] using hnext

/-- **What is read is a parse tree.**  A program that is read from a token list is a parse tree, and its
yield is that list. -/
theorem Program.parses_of_ofLexemes {ls : List Lexeme} {p : Program}
    (h : ofLexemes ls = .ok p) : p.Parses ∧ p.tokens = ls.map (·.token) := by
  have hparse := Program.read_parses (c := .ofLexemes ls)
  unfold ofLexemes at h
  cases hread : Program.read (.ofLexemes ls) with
  | failed f d hd =>
    rw [hread] at h
    cases h
  | done q d hd =>
    rw [hread] at h hparse
    cases h
    obtain ⟨w, hw, hq, rfl⟩ := hparse
    rw [Program.read_stop hread, List.append_nil] at hw
    exact ⟨hq, hw.symm⟩

/-! ### Declarations and statements are read -/

theorem Ty.read_leaves (hw : (Phrase.sort .type).Derives w) (hc : c.tokens = w ++ ts) :
    (Ty.read c).Leaves ts := by
  obtain ⟨k, hk, rfl⟩ := Phrase.derives_type.1 hw
  have htype : ∃ type, Ty.ofToken? (.word k) = some type := by
    cases k <;> first | exact ⟨_, rfl⟩ | cases hk
  obtain ⟨type, htype⟩ := htype
  exact (Cursor.takeIf_leaves hc htype).map

namespace Decl

theorem readVar_leaves {u : List Token} (hu : Phrase.typedName.Derives u)
    (hc : c.tokens = .word .var :: (u ++ .mark .semicolon :: ts)) : (readVar c).Leaves ts := by
  obtain ⟨x, v, hv, rfl⟩ := Phrase.derives_typedName.1 hu
  refine (Cursor.expect_leaves hc).andThen fun _ c₁ _ h₁ => ?_
  refine (Cursor.expectName_leaves h₁).andThen fun p c₂ _ h₂ => ?_
  refine (Cursor.expect_leaves h₂).andThen fun _ c₃ _ h₃ => ?_
  refine (Ty.read_leaves hv h₃).andThen fun _ c₄ _ h₄ => ?_
  exact (Cursor.expect_leaves h₄).andThen fun _ c₅ _ h₅ => .give h₅

theorem readConst_leaves {u v : List Token} (hu : Phrase.typedName.Derives u)
    (hv : (Phrase.sort .expr).Derives v)
    (hc : c.tokens = .word .const :: (u ++ .mark .assign :: (v ++ .mark .semicolon :: ts))) :
    (readConst c).Leaves ts := by
  obtain ⟨x, z, hz, rfl⟩ := Phrase.derives_typedName.1 hu
  refine (Cursor.expect_leaves hc).andThen fun _ c₁ _ h₁ => ?_
  refine (Cursor.expectName_leaves h₁).andThen fun p c₂ _ h₂ => ?_
  refine (Cursor.expect_leaves h₂).andThen fun _ c₃ _ h₃ => ?_
  refine (Ty.read_leaves hz h₃).andThen fun _ c₄ _ h₄ => ?_
  refine (Cursor.expect_leaves h₄).andThen fun _ c₅ _ h₅ => ?_
  refine (Expr.read_leaves hv (halts_cons.2 rfl) h₅).andThen fun _ c₆ _ h₆ => ?_
  exact (Cursor.expect_leaves h₆).andThen fun _ c₇ _ h₇ => .give h₇

theorem read_leaves (hw : (Phrase.sort .decl).Derives w) (hc : c.tokens = w ++ ts) :
    (Decl.read c).Leaves ts := by
  unfold Decl.read
  obtain ⟨u, hu, rfl⟩ | ⟨u, v, hu, hv, rfl⟩ := Phrase.derives_decl.1 hw
  · rw [if_neg (by simp [Cursor.next?_eq_head?, hc])]
    exact readVar_leaves hu (by simpa using hc)
  · rw [if_pos (by simp [Cursor.next?_eq_head?, hc])]
    exact readConst_leaves hu hv (by simpa using hc)

theorem readAll_leaves (hw : (Phrase.many (.sort .decl)).Derives w) (hts : Halts starts ts)
    (hc : c.tokens = w ++ ts) : (readAll c).Leaves ts := by
  obtain ⟨us, hus, rfl⟩ := Phrase.derives_many.1 hw
  refine Cursor.many_leaves hts ?_ hc
  intro u hu
  obtain ⟨v, hv, rfl⟩ | ⟨v, z, hv, hz, rfl⟩ := Phrase.derives_decl.1 (hus u hu)
  · exact ⟨_, _, rfl, rfl, fun d _ zs hd => read_leaves (hus _ hu) hd⟩
  · exact ⟨_, _, rfl, rfl, fun d _ zs hd => read_leaves (hus _ hu) hd⟩

end Decl

namespace Stmt

/-- What a statement starts with. -/
theorem starts_of_derives (hw : (Phrase.sort .stmt).Derives w) :
    ∃ t us, w = t :: us ∧ goesOn t = true ∧ Decl.starts t = false := by
  obtain ⟨x, u, hu, rfl⟩ | ⟨u, hu, rfl⟩ | h | ⟨u, v, z, hu, hv, hz, rfl⟩ | ⟨u, v, hu, hv, rfl⟩ | rfl :=
    Phrase.derives_stmt.1 hw
  · exact ⟨_, _, rfl, rfl, rfl⟩
  · obtain ⟨x, v, hv, rfl⟩ := Phrase.derives_call.1 hu
    exact ⟨_, _, rfl, rfl, rfl⟩
  · obtain ⟨u, hu, rfl⟩ := Phrase.derives_block.1 h
    exact ⟨_, _, rfl, rfl, rfl⟩
  · exact ⟨_, _, rfl, rfl, rfl⟩
  · exact ⟨_, _, rfl, rfl, rfl⟩
  · exact ⟨_, _, rfl, rfl, rfl⟩

theorem readNamed_leaves_assign {x : String} {u : List Token} (hu : (Phrase.sort .expr).Derives u)
    (hc : c.tokens = .identifier x :: .mark .assign :: (u ++ .mark .semicolon :: ts)) :
    (readNamed c).Leaves ts := by
  refine (Cursor.expectName_leaves hc).andThen fun p c₁ _ h₁ => ?_
  have hnext : c₁.next? = some (.mark .assign) := by simp [Cursor.next?_eq_head?, h₁]
  simp only [hnext]
  refine Outcome.Leaves.weaken ((Cursor.expect_leaves h₁).andThen fun _ c₂ _ h₂ => ?_)
  refine (Expr.read_leaves hu (halts_cons.2 rfl) h₂).andThen fun _ c₃ _ h₃ => ?_
  exact (Cursor.expect_leaves h₃).andThen fun _ c₄ _ h₄ => .give h₄

theorem readNamed_leaves_call {u : List Token} (hu : Phrase.call.Derives u)
    (hc : c.tokens = u ++ .mark .semicolon :: ts) : (readNamed c).Leaves ts := by
  obtain ⟨x, v, hv, rfl⟩ := Phrase.derives_call.1 hu
  have hc' : c.tokens =
    .identifier x :: .mark .leftParen :: (v ++ .mark .rightParen :: .mark .semicolon :: ts) := by
    simpa using hc
  refine (Cursor.expectName_leaves hc').andThen fun p c₁ _ h₁ => ?_
  have hnext : c₁.next? = some (.mark .leftParen) := by simp [Cursor.next?_eq_head?, h₁]
  simp only [hnext]
  refine Outcome.Leaves.weaken ((Call.readFrom_leaves hv h₁).andThen fun _ c₂ _ h₂ => ?_)
  exact (Cursor.expect_leaves h₂).andThen fun _ c₃ _ h₃ => .give h₃

theorem readSkip_leaves (hc : c.tokens = .word .skip :: .mark .semicolon :: ts) :
    (readSkip c).Leaves ts := by
  refine (Cursor.expect_leaves hc).andThen fun _ c₁ _ h₁ => ?_
  exact (Cursor.expect_leaves h₁).andThen fun _ c₂ _ h₂ => .give h₂

/-- A sequence, given the statements up to its length. -/
theorem readAll_leaves_of {n : Nat} (hr : Nonterminal.stmt.Reads n Stmt.read) (hn : w.length ≤ n)
    (hw : (Phrase.many (.sort .stmt)).Derives w) (hts : Halts goesOn ts) (hc : c.tokens = w ++ ts) :
    (Stmt.readAll c).Leaves ts := by
  obtain ⟨us, hus, rfl⟩ := Phrase.derives_many.1 hw
  rw [Stmt.readAll]
  refine Cursor.many_leaves hts ?_ hc
  intro u hu
  obtain ⟨t, us', rfl, ht, -⟩ := starts_of_derives (hus u hu)
  have hlen : (t :: us').length ≤ us.flatten.length := (List.sublist_flatten_of_mem hu).length_le
  exact ⟨t, us', rfl, ht, fun d _ zs hd =>
    hr _ zs d (hus _ hu) (Nat.le_trans hlen hn) (fun _ _ => rfl) hd⟩

/-- A block, given the shorter statements. -/
theorem readBlock_leaves_of {n : Nat} (hr : ∀ m < n, Nonterminal.stmt.Reads m Stmt.read)
    (hn : w.length ≤ n) (hw : Phrase.block.Derives w) (hc : c.tokens = w ++ ts) :
    (Block.read c).Leaves ts := by
  obtain ⟨u, hu, rfl⟩ := Phrase.derives_block.1 hw
  have hlen : u.length < n := by
    simp only [List.length_cons, List.length_append] at hn
    omega
  have hc' : c.tokens = .mark .leftBrace :: (u ++ .mark .rightBrace :: ts) := by simpa using hc
  rw [Block.read]
  refine (Cursor.expect_leaves hc').andThen fun _ c₁ _ h₁ => ?_
  refine (readAll_leaves_of (hr _ hlen) (Nat.le_refl _) hu (halts_cons.2 rfl) h₁).andThen
    fun ss c₂ _ h₂ => ?_
  rw [if_neg (by simp [Cursor.next?_eq_head?, h₂])]
  exact Outcome.Leaves.weaken ((Cursor.expect_leaves h₂).andThen fun _ c₃ _ h₃ => .give h₃)

/-- A condition ends before a block. -/
theorem halts_block (hw : Phrase.block.Derives w) : Halts Nonterminal.cond.extendedBy (w ++ ts) := by
  obtain ⟨u, hu, rfl⟩ := Phrase.derives_block.1 hw
  exact halts_cons.2 rfl

/-- One statement, by induction on the length of the phrase. -/
theorem read_reads (n : Nat) : Nonterminal.stmt.Reads n Stmt.read := by
  induction n using Nat.strongRecOn with
  | ind n ih =>
    intro w ts c hw hn hts hc
    have hnext : c.next? = w.head? := by
      obtain ⟨t, us, rfl, -⟩ := starts_of_derives hw
      simp [Cursor.next?_eq_head?, hc]
    rw [Stmt.read, hnext]
    obtain ⟨x, u, hu, rfl⟩ | ⟨u, hu, rfl⟩ | h | ⟨u, v, z, hu, hv, hz, rfl⟩ | ⟨u, v, hu, hv, rfl⟩ | rfl :=
      Phrase.derives_stmt.1 hw
    · exact readNamed_leaves_assign hu (by simpa using hc)
    · have hread : (readNamed c).Leaves ts := readNamed_leaves_call hu (by simpa using hc)
      obtain ⟨x, v, hv, rfl⟩ := Phrase.derives_call.1 hu
      exact hread
    · have hread : (Block.read c).Leaves ts := readBlock_leaves_of ih hn h hc
      obtain ⟨u, hu, rfl⟩ := Phrase.derives_block.1 h
      exact hread.map
    · have hc' : c.tokens = .word .ite :: (u ++ (v ++ .word .otherwise :: (z ++ ts))) := by
        simpa using hc
      simp only [List.length_cons, List.length_append] at hn
      show (Stmt.readIte c).Leaves ts
      rw [Stmt.readIte]
      refine (Cursor.expect_leaves hc').andThen fun _ c₁ _ h₁ => ?_
      refine (Cond.read_leaves hu (halts_block hv) h₁).andThen fun cond c₂ _ h₂ => ?_
      refine (readBlock_leaves_of ih (by omega) hv h₂).andThen fun t c₃ _ h₃ => ?_
      refine (Cursor.expect_leaves h₃).andThen fun _ c₄ _ h₄ => ?_
      exact (readBlock_leaves_of ih (by omega) hz h₄).map
    · have hc' : c.tokens = .word .loop :: (u ++ (v ++ ts)) := by simpa using hc
      simp only [List.length_cons, List.length_append] at hn
      show (Stmt.readLoop c).Leaves ts
      rw [Stmt.readLoop]
      refine (Cursor.expect_leaves hc').andThen fun _ c₁ _ h₁ => ?_
      refine (Cond.read_leaves hu (halts_block hv) h₁).andThen fun cond c₂ _ h₂ => ?_
      exact (readBlock_leaves_of ih (by omega) hv h₂).map
    · exact readSkip_leaves hc

theorem readAll_leaves (hw : (Phrase.many (.sort .stmt)).Derives w) (hts : Halts goesOn ts)
    (hc : c.tokens = w ++ ts) : (Stmt.readAll c).Leaves ts :=
  readAll_leaves_of (read_reads w.length) (Nat.le_refl _) hw hts hc

end Stmt

/-! ### Functions and programs are read -/

theorem Param.read_leaves (hw : Phrase.typedName.Derives w) (hc : c.tokens = w ++ ts) :
    (Param.read c).Leaves ts := by
  obtain ⟨x, u, hu, rfl⟩ := Phrase.derives_typedName.1 hw
  refine (Cursor.expectName_leaves hc).andThen fun p c₁ _ h₁ => ?_
  refine (Cursor.expect_leaves h₁).andThen fun _ c₂ _ h₂ => ?_
  exact (Ty.read_leaves hu h₂).andThen fun _ c₃ _ h₃ => .give h₃

theorem Param.readAll_leaves
    (hw : (Phrase.opt (.separated .typedName (.mark .comma))).Derives w)
    (hc : c.tokens = w ++ .mark .rightParen :: ts) :
    (Param.readAll c).Leaves (.mark .rightParen :: ts) := by
  unfold Param.readAll
  obtain rfl | h := Phrase.derives_opt.1 hw
  · rw [if_pos (by simp [Cursor.next?_eq_head?, hc])]
    exact .give hc
  · have hfirst : c.next? ≠ some (.mark .rightParen) := by
      obtain ⟨u, links, hu, -, rfl⟩ := Phrase.derives_separated.1 h
      obtain ⟨x, v, hv, rfl⟩ := Phrase.derives_typedName.1 hu
      simp [Cursor.next?_eq_head?, hc]
    rw [if_neg hfirst]
    exact (h.commaList_leaves (fun u d zs => Param.read_leaves) hc).weaken

theorem Expr.readReturned_leaves (hw : (Phrase.opt (.sort .expr)).Derives w)
    (hc : c.tokens = w ++ .mark .rightParen :: ts) :
    (Expr.readReturned c).Leaves (.mark .rightParen :: ts) := by
  unfold Expr.readReturned
  by_cases hnext : c.next? = some (.mark .rightParen)
  · -- an expression is closed, so it does not start with the parenthesis
    have hempty : w = [] := by
      have hclosed : Closed w := by
        obtain rfl | h := Phrase.derives_opt.1 hw
        · exact .nil
        · exact Phrase.Derives.closed_exprs.2 h
      rw [Cursor.next?_eq_head?, hc] at hnext
      cases hclosed with
      | nil => rfl
      | plain _ hr _ => exact absurd (by simpa using hnext) hr
      | group _ _ => simp at hnext
    subst hempty
    rw [if_pos hnext]
    exact .give hc
  · rw [if_neg hnext]
    obtain rfl | h := Phrase.derives_opt.1 hw
    · exact absurd (by simp [Cursor.next?_eq_head?, hc]) hnext
    · exact (Expr.read_leaves h (halts_cons.2 rfl) hc).map.weaken

/-- What follows the declarations of a body. -/
theorem Stmt.halts_decls {u : List Token} (hu : (Phrase.many (.sort .stmt)).Derives u)
    (ht : Decl.starts t = false) : Halts Decl.starts (u ++ t :: ts) := by
  obtain ⟨us, hus, rfl⟩ := Phrase.derives_many.1 hu
  cases us with
  | nil => exact halts_cons.2 ht
  | cons v us =>
    obtain ⟨t', v', rfl, -, ht'⟩ := starts_of_derives (hus v List.mem_cons_self)
    exact halts_cons.2 ht'

theorem Func.read_leaves (hw : (Phrase.sort .func).Derives w) (hc : c.tokens = w ++ ts) :
    (Func.read c).Leaves ts := by
  obtain ⟨t, x, ps, ds, ss, e, ht, hps, hds, hss, he, rfl⟩ := Phrase.derives_func.1 hw
  refine (Ty.read_leaves ht (by simpa using hc)).andThen fun _ c₁ _ h₁ => ?_
  refine (Cursor.expectName_leaves h₁).andThen fun p c₂ _ h₂ => ?_
  refine (Cursor.expect_leaves h₂).andThen fun _ c₃ _ h₃ => ?_
  refine (Param.readAll_leaves hps (by simpa using h₃)).andThen fun _ c₄ _ h₄ => ?_
  refine (Cursor.expect_leaves h₄).andThen fun _ c₅ _ h₅ => ?_
  refine (Cursor.expect_leaves h₅).andThen fun _ c₆ _ h₆ => ?_
  refine (Decl.readAll_leaves hds (Stmt.halts_decls hss rfl) (by simpa using h₆)).andThen
    fun _ c₇ _ h₇ => ?_
  refine (Stmt.readAll_leaves hss (halts_cons.2 rfl) h₇).andThen fun _ c₈ _ h₈ => ?_
  refine (Cursor.expect_leaves h₈).andThen fun _ c₉ _ h₉ => ?_
  refine (Cursor.expect_leaves h₉).andThen fun _ c₁₀ _ h₁₀ => ?_
  refine (Expr.readReturned_leaves he h₁₀).andThen fun _ c₁₁ _ h₁₁ => ?_
  refine (Cursor.expect_leaves h₁₁).andThen fun _ c₁₂ _ h₁₂ => ?_
  refine (Cursor.expect_leaves h₁₂).andThen fun _ c₁₃ _ h₁₃ => ?_
  exact (Cursor.expect_leaves h₁₃).andThen fun _ c₁₄ _ h₁₄ => .give h₁₄

theorem Main.read_leaves (hw : (Phrase.sort .main).Derives w) (hc : c.tokens = w ++ ts) :
    (Main.read c).Leaves ts := by
  obtain ⟨ds, ss, hds, hss, rfl⟩ := Phrase.derives_main.1 hw
  have hnext : ¬ c.next? ≠ some (.word .main) := by simp [Cursor.next?_eq_head?, hc]
  unfold Main.read
  rw [if_neg hnext]
  refine (Cursor.expect_leaves hc).andThen fun _ c₁ _ h₁ => ?_
  refine (Cursor.expect_leaves h₁).andThen fun _ c₂ _ h₂ => ?_
  refine (Decl.readAll_leaves hds (Stmt.halts_decls hss rfl) (by simpa using h₂)).andThen
    fun _ c₃ _ h₃ => ?_
  refine (Stmt.readAll_leaves hss (halts_cons.2 rfl) h₃).andThen fun _ c₄ _ h₄ => ?_
  rw [if_neg (by simp [Cursor.next?_eq_head?, h₄])]
  exact Outcome.Leaves.weaken ((Cursor.expect_leaves h₄).andThen fun _ c₅ _ h₅ => .give h₅)

/-- The first token of a function. -/
theorem Func.starts_of_derives (hw : (Phrase.sort .func).Derives w) :
    ∃ t us, w = t :: us ∧ t.isType = true ∧ Decl.starts t = false := by
  obtain ⟨t, x, ps, ds, ss, e, ht, -, -, -, -, rfl⟩ := Phrase.derives_func.1 hw
  obtain ⟨k, hk, rfl⟩ := Phrase.derives_type.1 ht
  exact ⟨_, _, rfl, hk, by cases k <;> first | rfl | cases hk⟩

theorem Program.read_leaves (hw : (Phrase.sort .program).Derives c.tokens) :
    (Program.read c).Leaves [] := by
  obtain ⟨ds, fs, m, hds, hfs, hm, hc⟩ := Phrase.derives_program.1 hw
  obtain ⟨us, hus, rfl⟩ := Phrase.derives_many.1 hfs
  have hmain : ∃ ms, m = .word .main :: ms := by
    obtain ⟨_, _, _, _, rfl⟩ := Phrase.derives_main.1 hm
    exact ⟨_, rfl⟩
  obtain ⟨ms, rfl⟩ := hmain
  have hfuncs : Halts Decl.starts (us.flatten ++ .word .main :: ms) := by
    cases us with
    | nil => exact halts_cons.2 rfl
    | cons u us =>
      obtain ⟨t, u', rfl, -, ht⟩ := Func.starts_of_derives (hus u List.mem_cons_self)
      exact halts_cons.2 ht
  refine (Decl.readAll_leaves hds hfuncs hc).andThen fun _ c₁ _ h₁ => ?_
  have hread : (c₁.many Token.isType c₁.size (fun d _ => Func.read d) c₁.size_le_size).Leaves
      (.word .main :: ms) := by
    refine Cursor.many_leaves (halts_cons.2 rfl) ?_ h₁
    intro u hu
    obtain ⟨t, u', rfl, ht, -⟩ := Func.starts_of_derives (hus u hu)
    exact ⟨t, u', rfl, ht, fun d _ zs hd => Func.read_leaves (hus _ hu) hd⟩
  refine hread.andThen fun _ c₂ _ h₂ => ?_
  have hmain : (Main.read c₂).Leaves [] := Main.read_leaves hm (by simpa using h₂)
  refine hmain.weaken.andThen fun _ c₃ _ h₃ => ?_
  have hnext : c₃.next? = none := by simp [Cursor.next?_eq_head?, h₃]
  simp only [hnext]
  exact .give h₃

/-- **The documented grammar is what is accepted.**  Reading a token list succeeds exactly if the list is
derivable from `program`; and a program that is read is a parse tree whose yield is the whole list, with all
chains grouped to the left, and with no negation before a comparison that opens with a plain name. -/
theorem Program.ofLexemes_iff_derives (ls : List Lexeme) :
    ((∃ p, ofLexemes ls = .ok p) ↔ (Phrase.sort .program).Derives (ls.map (·.token))) ∧
      ∀ p, ofLexemes ls = .ok p → p.Parses ∧ p.tokens = ls.map (·.token) := by
  refine ⟨⟨?_, ?_⟩, fun p => parses_of_ofLexemes⟩
  · rintro ⟨p, hp⟩
    obtain ⟨hparses, htokens⟩ := parses_of_ofLexemes hp
    rw [← htokens]
    exact hparses.derives
  · intro hw
    obtain ⟨d, ⟨p, hd, hread⟩, -⟩ := Program.read_leaves (c := .ofLexemes ls) hw
    exact ⟨p, by unfold ofLexemes; rw [hread]; rfl⟩

end ThreeAddress
