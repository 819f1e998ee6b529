import ThreeAddress.Proofs.Layout
import ThreeAddress.Proofs.Unambiguous

/-!
# What is written scans to its tokens

The text of a tree scans to the tokens of the tree.  Texts are put together from pieces, and a piece may
ask that what follows it does not go on with its last token: a word asks for no further letter, a `!` for
no equality sign, and most marks ask for nothing.

* `ScansTo` — a list of characters scans to given tokens, wherever it starts;
* `Writes` — a text does, before anything that scans and that it may stand before;
* `Writes.append`, `Writes.token`, `Writes.mark`, `Writes.blank` — pieces and how they are put together;
* `Expr.writes`, `Cond.writes`, `Decl.writes`, `Param.writes`, `Stmt.writes` — the texts of trees;
* `Writes.tokenize` — such a text is a source with these tokens.
-/

namespace ThreeAddress

variable {rest : List Char} {ts us : List Token}

/-! ### Pieces of text -/

/-- The characters scan to these tokens, wherever they start. -/
def ScansTo (text : List Char) (ts : List Token) : Prop :=
  ∀ offset, ∃ ls, scan offset text = .ok ls ∧ ls.map (·.token) = ts

/-- Before a text that scans, and that may follow, the piece scans to these tokens. -/
def Writes (follow : List Char → Prop) (text : String) (ts : List Token) : Prop :=
  ∀ rest us, follow rest → ScansTo rest us → ScansTo (text.toList ++ rest) (ts ++ us)

/-- Anything may follow. -/
def Anything (_ : List Char) : Prop := True

/-- What follows does not go on with a word or a number. -/
def NoWordPart (rest : List Char) : Prop := ∀ c ∈ rest.head?, isWordPart c = false

/-- What follows does not start with an equality sign. -/
def NoEqual (rest : List Char) : Prop := ∀ c ∈ rest.head?, c ≠ '='

/-- A text that starts with something else than an equality sign. -/
def StartsNoEqual (text : String) : Prop := ∀ rest, NoEqual (text.toList ++ rest)

theorem StartsNoEqual.append {a : String} (h : StartsNoEqual a) (b : String) : StartsNoEqual (a ++ b) := by
  intro rest
  rw [String.toList_append, List.append_assoc]
  exact h _

theorem StartsNoEqual.binary {a : String} (h : StartsNoEqual a) (op b : String) :
    StartsNoEqual (binaryText a op b) :=
  (((h.append _).append _).append _).append _

theorem Mark.written (m : Mark) : (Token.mark m).Written := ⟨trivial, by simp⟩

theorem ScansTo.nil : ScansTo [] [] := fun _ => ⟨[], scan_nil, rfl⟩

theorem ScansTo.token {t : Token} (ht : t.Written) (ha : t.Apart rest) (h : ScansTo rest us) :
    ScansTo (t.text.toList ++ rest) (t :: us) := by
  intro offset
  obtain ⟨ls, hs, rfl⟩ := h (offset + byteLength t.text.toList)
  exact ⟨_, by rw [scan_of_apart ht ha, hs]; rfl, rfl⟩

theorem ScansTo.blank {c : Char} (hc : isBlank c = true) (h : ScansTo rest us) :
    ScansTo (c :: rest) us := by
  intro offset
  rw [scan_blank hc]
  exact h _

namespace Writes

variable {p q : List Char → Prop} {a b : String}

theorem append (ha : Writes p a ts) (hb : Writes q b us) (hab : ∀ rest, q rest → p (b.toList ++ rest)) :
    Writes q (a ++ b) (ts ++ us) := by
  intro rest ws hrest hs
  rw [String.toList_append, List.append_assoc, List.append_assoc]
  exact ha _ _ (hab rest hrest) (hb rest ws hrest hs)

theorem weaken (ha : Writes Anything a ts) : Writes p a ts := fun rest us _ hs => ha rest us trivial hs

/-- Behind a piece that nothing can go on with, any piece may stand. -/
theorem before (ha : Writes Anything a ts) (hb : Writes q b us) : Writes q (a ++ b) (ts ++ us) :=
  ha.append hb fun _ _ => trivial

/-- Behind a word, a piece may stand that starts with no letter or digit. -/
theorem apart {c : Char} {cs : List Char} (ha : Writes NoWordPart a ts) (hb : Writes q b us)
    (hs : b.toList = c :: cs) (hc : isWordPart c = false) : Writes q (a ++ b) (ts ++ us) := by
  refine ha.append hb fun rest _ d hd => ?_
  rw [hs] at hd
  cases hd
  exact hc

/-- A word or a number. -/
theorem token {t : Token} (ht : t.Written) (hm : ∀ m, t ≠ .mark m) : Writes NoWordPart t.text [t] := by
  intro rest us hrest hs
  refine .token ht (fun c hc => ?_) hs
  have hpart := hrest c hc
  cases t with
  | word | identifier => exact hpart
  | number =>
    simp only [isWordPart, Char.isAlphanum, Bool.or_eq_false_iff] at hpart
    exact hpart.1.2
  | mark m => exact absurd rfl (hm m)
  | blockComment => rfl

theorem mark_noEqual (m : Mark) : Writes NoEqual m.text [.mark m] := by
  intro rest us hrest hs
  refine ScansTo.token m.written (fun c hc => ?_) hs
  simp [Token.goesOn, hrest c hc]

/-- Most marks go on with nothing. -/
theorem mark {m : Mark} (hm : ¬ (m = .not ∨ m = .assign ∨ m = .less ∨ m = .greater)) :
    Writes Anything m.text [.mark m] := by
  intro rest us _ hs
  refine ScansTo.token m.written (fun c hc => ?_) hs
  simp [Token.goesOn, hm]

theorem blank : Writes Anything " " [] := fun _ _ _ hs => .blank rfl hs

theorem empty : Writes p "" [] := fun _ _ _ hs => hs

/-- A mark before a blank. -/
theorem markBlank (m : Mark) : Writes Anything (m.text ++ " ") [.mark m] := by
  refine (mark_noEqual m).append blank fun rest _ c hc => ?_
  cases hc
  decide

/-- A mark between blanks. -/
theorem spaced (m : Mark) : Writes Anything (" " ++ (m.text ++ " ")) [.mark m] := blank.before (markBlank m)

/-- Two texts around an operator. -/
theorem binary {m : Mark} (ha : Writes NoWordPart a ts) (hb : Writes NoWordPart b us) :
    Writes NoWordPart (binaryText a m.text b) (ts ++ .mark m :: us) := by
  have h := (ha.apart (c := ' ') (spaced m) (by rw [String.toList_append]; rfl) (by decide)).before hb
  simpa [binaryText, String.append_assoc] using h

/-- A text between parentheses. -/
theorem parens (ha : Writes NoWordPart a ts) :
    Writes Anything ("(" ++ a ++ ")") (.mark .leftParen :: (ts ++ [.mark .rightParen])) := by
  have hl : Writes Anything "(" [.mark .leftParen] := mark (m := .leftParen) (by decide)
  have hr : Writes Anything ")" [.mark .rightParen] := mark (m := .rightParen) (by decide)
  exact (hl.before ha).apart hr rfl (by decide)

/-- A text that scans to tokens is a source with these tokens. -/
theorem tokenize (ha : Writes NoWordPart a ts) :
    ∃ ls, tokenize a = .ok ls ∧ ls.map (·.token) = ts := by
  have hs := ha [] [] (by simp [NoWordPart]) .nil 0
  rwa [List.append_nil, List.append_nil] at hs

end Writes

/-! ### Fragments and calls -/

theorem Atom.token_text (a : Atom) : a.token.text = a.text := by
  cases a <;> rfl

theorem boolText_eq (b : Bool) : (Token.word (truthWord b)).text = boolText b := by
  cases b <;> rfl

theorem Atom.writes {a : Atom} (h : a.token.Written) : Writes NoWordPart a.text [a.token] := by
  rw [← a.token_text]
  exact .token h (by cases a <;> simp [token])

/-- A token does not start with an equality sign unless it is a mark. -/
theorem Token.Written.startsNoEqual {t : Token} (h : t.Written) (hm : ∀ m, t ≠ .mark m) :
    StartsNoEqual t.text := by
  obtain ⟨c, cs, hcut⟩ := h.cut
  intro rest
  rw [hcut.text]
  rintro d hd rfl
  cases hd
  cases hcut with
  | word hc => exact absurd hc (by decide)
  | number hc => exact absurd hc (by decide)
  | mark => exact hm _ rfl

theorem Atom.startsNoEqual {a : Atom} (h : a.token.Written) : StartsNoEqual a.text := by
  rw [← a.token_text]
  exact h.startsNoEqual (by cases a <;> simp [token])

theorem Writes.identifier {x : String} (h : (Token.identifier x).Written) :
    Writes NoWordPart x [.identifier x] := Atom.writes (a := .name x) h

theorem Writes.word (k : Keyword) : Writes NoWordPart k.text [.word k] :=
  .token (t := .word k) ⟨trivial, by simp⟩ (by simp)

theorem Fragment.writes {f : Fragment} (h : ∀ t ∈ f.tokens, t.Written) :
    Writes NoWordPart f.text f.tokens := by
  cases f with
  | atom negated operand =>
    cases negated with
    | true => exact (Writes.mark (m := .minus) (by decide)).before (Atom.writes (h _ (by simp [tokens])))
    | false => exact Atom.writes (h _ (by simp [tokens]))
  | not id =>
    have hid : (Token.identifier id).Written := h _ (by simp [tokens])
    exact (Writes.mark_noEqual .not).append (Writes.identifier hid) fun rest _ =>
      hid.startsNoEqual (by simp) rest
  | zero => exact .token (t := .number "0") (h _ (by simp [tokens])) (by simp)
  | bool value =>
    rw [text, ← boolText_eq]
    exact .word (truthWord value)

theorem startsNoEqual_mark {m : Mark} (hm : m.text.toList.head? ≠ some '=') : StartsNoEqual m.text := by
  obtain ⟨c, cs, hs, -⟩ := m.text_head
  rintro rest d hd rfl
  rw [hs] at hm hd
  exact hm hd

theorem Fragment.startsNoEqual {f : Fragment} (h : ∀ t ∈ f.tokens, t.Written) : StartsNoEqual f.text := by
  cases f with
  | atom negated operand =>
    cases negated with
    | true => exact (startsNoEqual_mark (m := .minus) (by decide)).append _
    | false => exact Atom.startsNoEqual (h _ (by simp [tokens]))
  | not id => exact (startsNoEqual_mark (m := .not) (by decide)).append _
  | zero => exact (h _ (by simp [tokens])).startsNoEqual (t := .number "0") (by simp)
  | bool value =>
    rw [text, ← boolText_eq]
    exact (h _ (by simp [tokens])).startsNoEqual (by simp)

theorem Writes.comma : Writes Anything ", " [.mark .comma] := markBlank .comma

/-- Arguments with commas between them. -/
theorem writes_args {as : List Argument} (h : ∀ a ∈ as, a.atom.token.Written) :
    Writes NoWordPart (", ".intercalate (as.map (·.atom.text)))
      (commaTokens (as.map fun a => [a.atom.token])) := by
  induction as with
  | nil => exact .empty
  | cons a as ih =>
    obtain ⟨ha, has⟩ := List.forall_mem_cons.1 h
    cases as with
    | nil => exact Atom.writes ha
    | cons b bs =>
      have hcomma := ((Atom.writes ha).apart (c := ',') .comma rfl (by decide)).before (ih has)
      simpa [commaTokens, String.intercalate_cons_cons] using hcomma

theorem mem_commaTokens {t : Token} {u : List Token} {us : List (List Token)} (hu : u ∈ us) (ht : t ∈ u) :
    t ∈ commaTokens us := by
  cases us with
  | nil => cases hu
  | cons v vs =>
    rcases List.mem_cons.1 hu with rfl | hu
    · exact List.mem_append_left _ ht
    · refine List.mem_append_right _ (List.mem_flatten.2 ⟨_, List.mem_map_of_mem hu, ?_⟩)
      exact List.mem_cons_of_mem _ ht

theorem Call.writes {c : Call} (h : ∀ t ∈ c.tokens, t.Written) : Writes Anything c.text c.tokens := by
  have hname : (Token.identifier c.name).Written := h _ (by simp [tokens])
  have hargs : ∀ a ∈ c.args, a.atom.token.Written := by
    intro a ha
    have hmem := mem_commaTokens (List.mem_map_of_mem (f := fun a => [a.atom.token]) ha) (List.mem_singleton_self _)
    exact h _ (by simp [tokens, hmem])
  have hparens := (writes_args hargs).parens
  have hcall := (Writes.identifier hname).apart (c := '(') hparens (by simp [String.toList_append]; rfl) (by decide)
  simpa [text, tokens, String.append_assoc] using hcall

/-! ### Expressions and conditions -/

theorem ArithOp.mark_text (op : ArithOp) : op.mark.text = op.text := by
  cases op <;> rfl

theorem Connective.mark_text (op : Connective) : op.mark.text = op.text := by
  cases op <;> rfl

theorem Comparison.mark_text (op : Comparison) : op.mark.text = op.text := by
  cases op <;> rfl

theorem Equality.mark_text (op : Equality) : op.mark.text = op.text := by
  cases op <;> rfl

namespace Expr

theorem writes {e : Expr} (h : ∀ t ∈ e.tokens, t.Written) : Writes NoWordPart e.text e.tokens := by
  induction e with
  | arith op left right s ihl ihr =>
    rw [tokens, List.forall_mem_append, List.forall_mem_cons] at h
    rw [text, ← op.mark_text]
    exact (ihl h.1).binary (ihr h.2.2)
  | logic op left right s ihl ihr =>
    rw [tokens, List.forall_mem_append, List.forall_mem_cons] at h
    rw [text, ← op.mark_text]
    exact (ihl h.1).binary (ihr h.2.2)
  | paren inner s ih =>
    rw [tokens, List.forall_mem_cons, List.forall_mem_append] at h
    exact (ih h.2.1).parens.weaken
  | call c s => exact (Call.writes h).weaken
  | fragment f s => exact Fragment.writes h

/-- An expression does not start with an equality sign. -/
theorem startsNoEqual {e : Expr} (h : ∀ t ∈ e.tokens, t.Written) : StartsNoEqual e.text := by
  induction e with
  | arith op left right s ihl _ =>
    rw [tokens, List.forall_mem_append] at h
    exact (ihl h.1).binary _ _
  | logic op left right s ihl _ =>
    rw [tokens, List.forall_mem_append] at h
    exact (ihl h.1).binary _ _
  | paren inner s _ => exact ((startsNoEqual_mark (m := .leftParen) (by decide)).append _).append _
  | call c s =>
    have hname : (Token.identifier c.name).Written := h _ (by simp [tokens, Call.tokens])
    exact (((Atom.startsNoEqual (a := .name c.name) hname).append _).append _).append _
  | fragment f s => exact Fragment.startsNoEqual h

end Expr

namespace Cond

/-- A condition does not start with an equality sign. -/
theorem startsNoEqual {e : Cond} (h : ∀ t ∈ e.tokens, t.Written) : StartsNoEqual e.text := by
  induction e with
  | comparison op left right s =>
    rw [tokens, List.forall_mem_append] at h
    exact (Expr.startsNoEqual h.1).binary _ _
  | equality op left right s =>
    rw [tokens, List.forall_mem_append] at h
    exact (Expr.startsNoEqual h.1).binary _ _
  | neg inner s => exact (startsNoEqual_mark (m := .not) (by decide)).append _
  | paren inner s _ => exact ((startsNoEqual_mark (m := .leftParen) (by decide)).append _).append _
  | binary op left right s ihl _ =>
    rw [tokens, List.forall_mem_append] at h
    exact (ihl h.1).binary _ _
  | bool value s =>
    rw [text, ← boolText_eq]
    exact (h _ (by simp [tokens])).startsNoEqual (by simp)

theorem writes {e : Cond} (h : ∀ t ∈ e.tokens, t.Written) : Writes NoWordPart e.text e.tokens := by
  induction e with
  | comparison op left right s =>
    rw [tokens, List.forall_mem_append, List.forall_mem_cons] at h
    rw [text, ← op.mark_text]
    exact (Expr.writes h.1).binary (Expr.writes h.2.2)
  | equality op left right s =>
    rw [tokens, List.forall_mem_append, List.forall_mem_cons] at h
    rw [text, ← op.mark_text]
    exact (Expr.writes h.1).binary (Expr.writes h.2.2)
  | neg inner s ih =>
    rw [tokens, List.forall_mem_cons] at h
    exact (Writes.mark_noEqual .not).append (ih h.2) fun rest _ => startsNoEqual h.2 rest
  | paren inner s ih =>
    rw [tokens, List.forall_mem_cons, List.forall_mem_append] at h
    exact (ih h.2.1).parens.weaken
  | binary op left right s ihl ihr =>
    rw [tokens, List.forall_mem_append, List.forall_mem_cons] at h
    rw [text, ← op.mark_text]
    exact (ihl h.1).binary (ihr h.2.2)
  | bool value s =>
    rw [text, ← boolText_eq]
    exact .word (truthWord value)

end Cond

/-! ### Declarations, parameters and statements -/

theorem Ty.word_text (t : Ty) : t.word.text = t.text := by
  cases t <;> rfl

/-- A name with its type. -/
theorem writes_typed {x : String} (hx : (Token.identifier x).Written) (t : Ty) :
    Writes NoWordPart (x ++ ": " ++ t.text) (typedTokens x t) := by
  have hcolon : Writes Anything ": " [.mark .colon] := .markBlank .colon
  rw [← t.word_text]
  exact ((Writes.identifier hx).apart (c := ':') hcolon rfl (by decide)).before (.word t.word)

theorem Param.writes {p : Param} (h : ∀ t ∈ typedTokens p.name p.type, t.Written) :
    Writes NoWordPart p.text (typedTokens p.name p.type) :=
  writes_typed (h _ (by simp [typedTokens])) p.type

/-- A text closed by a semicolon. -/
theorem Writes.semicolon {a : String} (ha : Writes NoWordPart a ts) :
    Writes Anything (a ++ ";") (ts ++ [.mark .semicolon]) := by
  have hs : Writes Anything ";" [.mark .semicolon] := mark (m := .semicolon) (by decide)
  exact ha.apart (c := ';') hs rfl (by decide)

/-- A name or a typed name, an equality sign, and a value. -/
theorem Writes.equals {a b : String} (ha : Writes NoWordPart a ts) (hb : Writes NoWordPart b us) :
    Writes NoWordPart (a ++ " = " ++ b) (ts ++ .mark .assign :: us) := by
  have hassign : Writes Anything " = " [.mark .assign] := spaced .assign
  have h := (ha.apart (c := ' ') hassign rfl (by decide)).before hb
  rwa [List.append_assoc] at h

theorem Writes.wordBlank (k : Keyword) : Writes Anything (k.text ++ " ") [.word k] :=
  (Writes.word k).apart (c := ' ') .blank rfl (by decide)

theorem Decl.writes {d : Decl} (h : ∀ t ∈ d.tokens, t.Written) : Writes Anything d.text d.tokens := by
  cases d with
  | var name type s =>
    have hvar : Writes Anything "var " [.word .var] := .wordBlank .var
    have htyped := writes_typed (h (.identifier name) (by simp [tokens, typedTokens])) type
    have hd := (hvar.before htyped).semicolon
    simpa [text, tokens, String.append_assoc] using hd
  | const name type value s =>
    have hconst : Writes Anything "const " [.word .const] := .wordBlank .const
    have htyped := writes_typed (h (.identifier name) (by simp [tokens, typedTokens])) type
    have hvalue : ∀ t ∈ value.tokens, t.Written := fun t ht => h t (by simp [tokens, ht])
    have hd := (hconst.before (htyped.equals (Expr.writes hvalue))).semicolon
    simpa [text, tokens, String.append_assoc] using hd

/-- A statement without blocks is written in full. -/
theorem Stmt.writes {s : Stmt} (hs : s.IsSimple) (h : ∀ t ∈ s.tokens, t.Written) :
    Writes Anything s.text s.tokens := by
  cases s with
  | assign target value a s =>
    have htarget : (Token.identifier target).Written := h _ (by simp [tokens])
    have hvalue : ∀ t ∈ value.tokens, t.Written := fun t ht => h t (by simp [tokens, ht])
    exact ((Writes.identifier htarget).equals (Expr.writes hvalue)).semicolon
  | call c s =>
    have hc : ∀ t ∈ c.tokens, t.Written := fun t ht => h t (by simp [tokens, ht])
    exact (Call.writes hc).weaken.semicolon
  | skip => exact (Writes.word .skip).semicolon
  | ite | loop | block => exact hs.elim

end ThreeAddress
