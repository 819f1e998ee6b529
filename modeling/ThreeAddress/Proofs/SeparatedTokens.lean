import ThreeAddress.Proofs.Layout

/-!
# Tokens written apart

Tokens can be written one behind the other with anything between them that scanning skips: blanks, comments
up to the end of their lines, and closed comments, whatever these hold.  Something has to stand between two
tokens; before the first and behind the last one nothing has to.  Such a text scans to the tokens again, so
scanning undoes writing, however the tokens are set apart.

* `Separator` — what may stand between tokens;
* `Spaced`, `spread` — tokens with separators in front of them, and the text that they make up;
* `Spaced.Proper` — the separators are separators, and none of those between two tokens is empty;
* `placed`, `scan_spread` — the tokens of such a text and where they stand;
* `tokenize_spread` — such a text as a source.
-/

namespace ThreeAddress

/-! ### Separators -/

/-- Blanks, comments each with the line feed that ends it, and comments each with its closing, in any number
and order.  A comment to the end of the line holds no line feed, a closed one no earlier closing. -/
inductive Separator : List Char → Prop
  | nil : Separator []
  | blank {c : Char} {more : List Char} (hc : isBlank c = true) (h : Separator more) : Separator (c :: more)
  | line {body more : List Char} (hbody : '\n' ∉ body) (h : Separator more) :
      Separator ('/' :: '/' :: (body ++ '\n' :: more))
  | block {body more : List Char} (hbody : ¬ ['*', '/'] <:+: body ++ ['*']) (h : Separator more) :
      Separator ('/' :: '*' :: (body ++ '*' :: '/' :: more))

/-- Neither a blank nor the opening of a comment is part of a word. -/
theorem isWordPart_separator {c : Char} (hc : isBlank c = true ∨ c = '/') : isWordPart c = false := by
  have hcases : c = ' ' ∨ c = '\t' ∨ c = '\r' ∨ c = '\n' ∨ c = '\x0c' ∨ c = '/' := by
    simpa only [isBlank_iff, or_assoc] using hc
  rcases hcases with rfl | rfl | rfl | rfl | rfl | rfl <;> decide

/-- No token goes on with a blank or with the opening of a comment. -/
theorem Token.goesOn_separator {c : Char} (t : Token) (hc : isBlank c = true ∨ c = '/') : t.goesOn c = false := by
  have hpart := isWordPart_separator hc
  cases t with
  | word | identifier => exact hpart
  | number =>
    simp only [isWordPart, Char.isAlphanum, Bool.or_eq_false_iff] at hpart
    exact hpart.1.2
  | mark m =>
    have hne : c ≠ '=' := by
      rintro rfl
      exact absurd hc (by decide)
    simp [goesOn, hne]
  | blockComment => rfl

namespace Separator

variable {gap : List Char}

/-- A separator that is not empty starts with a blank or opens a comment. -/
theorem head (h : Separator gap) : ∀ c ∈ gap.head?, isBlank c = true ∨ c = '/' := by
  intro c hc
  cases h with
  | nil => cases hc
  | blank hblank =>
    cases hc
    exact .inl hblank
  | line | block =>
    cases hc
    exact .inr rfl

/-- A separator is a gap, whatever stands behind it. -/
theorem isGap (h : Separator gap) (rest : List Char) : Gap gap rest := by
  induction h with
  | nil => exact .nil
  | blank hc _ ih => exact .cons (.blank hc) ih
  | @line body more hbody _ ih =>
    have hfeed : Gap ('\n' :: more) rest := .cons (.blank rfl) ih
    show Gap (('/' :: '/' :: body) ++ '\n' :: more) rest
    exact .cons (.line hbody (by simp)) hfeed
  | @block body more hbody _ ih =>
    have happend : '/' :: '*' :: (body ++ '*' :: '/' :: more) = '/' :: '*' :: (body ++ ['*', '/']) ++ more := by
      simp
    rw [happend]
    exact .cons (.block hbody) ih

/-- Behind a token, a separator that is not empty keeps it from going on. -/
theorem apart (h : Separator gap) (hne : gap ≠ []) (t : Token) (rest : List Char) : t.Apart (gap ++ rest) := by
  intro c hc
  have hhead : c ∈ gap.head? := by
    cases gap with
    | nil => exact absurd rfl hne
    | cons d more => exact hc
  exact t.goesOn_separator (h.head c hhead)

end Separator

/-! ### Tokens behind separators -/

/-- A token and what stands in front of it. -/
structure Spaced where
  before : List Char
  token : Token

/-- The text of tokens with separators in front of them, and of what stands behind the last one. -/
def spread : List Spaced → List Char → List Char
  | [], last => last
  | i :: items, last => i.before ++ (i.token.text.toList ++ spread items last)

/-- The tokens of such a text, which starts at an offset, and where they stand. -/
def placed (offset : Nat) : List Spaced → List Lexeme
  | [] => []
  | i :: items =>
    let start := offset + byteLength i.before
    let stop := start + byteLength i.token.text.toList
    ⟨i.token, ⟨start, stop⟩⟩ :: placed stop items

/-- Only separators stand around the tokens, which a text can hold, and two tokens are kept apart. -/
structure Spaced.Proper (items : List Spaced) (last : List Char) : Prop where
  written : ∀ i ∈ items, i.token.Written
  separators : ∀ i ∈ items, Separator i.before
  last : Separator last
  between : ∀ i ∈ items.tail, i.before ≠ []

theorem placed_tokens (items : List Spaced) (offset : Nat) :
    (placed offset items).map (·.token) = items.map (·.token) := by
  induction items generalizing offset with
  | nil => rfl
  | cons i items ih => simp only [placed, List.map_cons, ih]

/-- A token stands behind all that is written before it. -/
theorem placed_at (before behind : List Spaced) (i : Spaced) (offset : Nat) :
    (placed offset (before ++ i :: behind))[before.length]? =
      some ⟨i.token, ⟨offset + byteLength (spread before i.before),
        offset + byteLength (spread before i.before) + byteLength i.token.text.toList⟩⟩ := by
  induction before generalizing offset with
  | nil => rfl
  | cons j before ih =>
    simp only [List.cons_append, placed, List.length_cons, List.getElem?_cons_succ, ih, spread, byteLength_append,
      Nat.add_assoc]

namespace Spaced.Proper

variable {i : Spaced} {items : List Spaced} {last : List Char}

theorem tail (h : Proper (i :: items) last) : Proper items last where
  written j hj := h.written j (List.mem_cons_of_mem i hj)
  separators j hj := h.separators j (List.mem_cons_of_mem i hj)
  last := h.last
  between j hj := h.between j (List.mem_of_mem_tail hj)

/-- The text behind the first token does not go on with it. -/
theorem apart (h : Proper (i :: items) last) : i.token.Apart (spread items last) := by
  cases items with
  | nil =>
    by_cases hlast : last = []
    · simp [hlast, spread, Token.Apart]
    · simpa [spread] using h.last.apart hlast i.token []
  | cons j items =>
    have hne : j.before ≠ [] := h.between j (by simp)
    exact (h.separators j (by simp)).apart hne i.token _

end Spaced.Proper

/-! ### Scanning -/

variable {offset : Nat} {items : List Spaced} {last : List Char}

/-- Tokens that are written apart scan to these tokens, wherever the text starts. -/
theorem scan_spread (h : Spaced.Proper items last) : scan offset (spread items last) = .ok (placed offset items) := by
  induction items generalizing offset with
  | nil =>
    have hlast : scan offset (last ++ []) = scan (offset + byteLength last) [] := scan_gap (h.last.isGap [])
    rw [List.append_nil] at hlast
    rw [spread, hlast, scan_nil, placed]
  | cons i items ih =>
    have hgap := (h.separators i (by simp)).isGap (i.token.text.toList ++ spread items last)
    rw [spread, scan_gap hgap, scan_of_apart (h.written i (by simp)) h.apart, ih h.tail]
    rfl

/-- **Scanning undoes writing.**  Tokens that are written with separators around them, none of those between two
tokens empty, make up a source that scans to exactly these tokens.  Each of them stands behind all that is
written before it, and its span holds its own text. -/
theorem tokenize_spread (h : Spaced.Proper items last) :
    ∃ ls, tokenize (String.ofList (spread items last)) = .ok ls ∧ ls.map (·.token) = items.map (·.token) ∧
      (∀ before i behind, items = before ++ i :: behind → ls[before.length]? = some ⟨i.token,
        ⟨byteLength (spread before i.before),
          byteLength (spread before i.before) + byteLength i.token.text.toList⟩⟩) ∧
      StandIn (String.ofList (spread items last)) ls := by
  have hscan : tokenize (String.ofList (spread items last)) = .ok (placed 0 items) := by
    rw [tokenize, String.toList_ofList, scan_spread h]
  refine ⟨placed 0 items, hscan, placed_tokens items 0, ?_, (layout_of_tokenize hscan).standIn⟩
  intro before i behind hitems
  rw [hitems, placed_at, Nat.zero_add]

/-- Tokens behind comments that look like code, hold openings and closings of others, and characters of several
bytes. -/
def commentedTokens : List Spaced :=
  [⟨['/', '/', 'x', '=', '1', ';', '/', '*', '\u00e9', '\n'], .word .main⟩,
    ⟨['/', '*', '/', '/', '\u20ac', '*', '*', '/'], .mark .leftBrace⟩, ⟨['/', '*', '*', '/'], .identifier "mainly"⟩]

open Separator (line block) in
theorem commentedTokens_proper : Spaced.Proper commentedTokens ['\n', '/', '/', '\n'] where
  written := by
    have hidentifier : isIdentifier "mainly" = true := by decide
    simp [commentedTokens, Token.Written, Token.Spelled, hidentifier]
  separators := by
    have hline : Separator ['/', '/', 'x', '=', '1', ';', '/', '*', '\u00e9', '\n'] :=
      @line ['x', '=', '1', ';', '/', '*', '\u00e9'] [] (by decide) .nil
    have hblock : Separator ['/', '*', '/', '/', '\u20ac', '*', '*', '/'] :=
      @block ['/', '/', '\u20ac', '*'] [] (by decide) .nil
    have hempty : Separator ['/', '*', '*', '/'] := @block [] [] (by decide) .nil
    simp [commentedTokens, hline, hblock, hempty]
  last := .blank rfl (@line [] [] (by decide) .nil)
  between := by simp [commentedTokens]

theorem tokenize_spread_commentedTokens :
    Spaced.Proper commentedTokens ['\n', '/', '/', '\n'] ∧
      ∃ ls, tokenize (String.ofList (spread commentedTokens ['\n', '/', '/', '\n'])) = .ok ls ∧
        ls.map (·.token) = [.word .main, .mark .leftBrace, .identifier "mainly"] ∧
        ls[2]? = some ⟨.identifier "mainly", ⟨30, 36⟩⟩ := by
  obtain ⟨ls, hscan, htokens, hplaces, -⟩ := tokenize_spread commentedTokens_proper
  refine ⟨commentedTokens_proper, ls, hscan, htokens, ?_⟩
  exact hplaces (commentedTokens.take 2) ⟨['/', '*', '*', '/'], .identifier "mainly"⟩ [] rfl

end ThreeAddress
