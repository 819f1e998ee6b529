import Mathlib.Logic.Basic
import Mathlib.Tactic.ByContra
import ThreeAddress.Proofs.Spelling

/-!
# Longest tokens

The first character of a token tells whether it is a word, a number or a mark, and the character behind
it tells whether it could be longer.  So the scanner, which looks no further, finds the longest token.

* `Token.Written` — the tokens that a text can hold, and `Token.Longest` — none longer starts there;
* `Token.Cut` — the three forms of such a token, by its first character and the others;
* `Token.goesOn` — the characters that make a token longer, and `Token.Apart` — none of them follows;
* `exists_of_goesOn`, `Token.longest_iff_apart` — these mean what they say;
* `munch_of_apart`, `munchMark_apart` — the scanner cuts a token off where it ends, and nowhere else.
-/

namespace ThreeAddress

/-! ### Tokens in a text -/

/-- A token that a text can hold: it is spelled as its kind is, and it opens no comment. -/
def Token.Written (t : Token) : Prop := t.Spelled ∧ t ≠ .blockComment

/-- Of the tokens that start where this one does, none is longer. -/
def Token.Longest (t : Token) (rest : List Char) : Prop :=
  ∀ u : Token, u.Written → u.text.toList <+: t.text.toList ++ rest →
    u.text.toList.length ≤ t.text.toList.length

/-- The characters that make a token longer. -/
def Token.goesOn : Token → Char → Bool
  | .word _ | .identifier _ => isWordPart
  | .number _ => Char.isDigit
  | .mark m => fun c => (m = .not ∨ m = .assign ∨ m = .less ∨ m = .greater) ∧ c = '='
  | .blockComment => fun _ => false

/-- The text behind a token starts with no character that makes the token longer. -/
def Token.Apart (t : Token) (rest : List Char) : Prop := ∀ c ∈ rest.head?, t.goesOn c = false

/-- A token is a word, a number or a mark with this first character and these others. -/
inductive Token.Cut : Char → List Char → Token → Prop
  | word {c : Char} {cs : List Char} (hc : isWordStart c = true) (hcs : ∀ d ∈ cs, isWordPart d = true) :
      Cut c cs (Token.ofWord (String.ofList (c :: cs)))
  | number {c : Char} {cs : List Char} (hc : c.isDigit = true) (hcs : ∀ d ∈ cs, d.isDigit = true) :
      Cut c cs (.number (String.ofList (c :: cs)))
  | mark {c : Char} {cs : List Char} {m : Mark} (hm : m.text.toList = c :: cs) : Cut c cs (.mark m)

/-! ### Character classes -/

theorem isBlank_iff {c : Char} :
    isBlank c = true ↔ c = ' ' ∨ c = '\t' ∨ c = '\r' ∨ c = '\n' ∨ c = '\x0c' := by
  simp [isBlank, or_assoc]

theorem isBlank_of_isWordStart {c : Char} (h : isWordStart c = true) : isBlank c = false := by
  rw [Bool.eq_false_iff, Ne, isBlank_iff]
  rintro (rfl | rfl | rfl | rfl | rfl) <;> exact absurd h (by decide)

theorem isBlank_of_isDigit {c : Char} (h : c.isDigit = true) : isBlank c = false := by
  rw [Bool.eq_false_iff, Ne, isBlank_iff]
  rintro (rfl | rfl | rfl | rfl | rfl) <;> exact absurd h (by decide)

theorem isWordStart_of_isDigit {c : Char} (h : c.isDigit = true) : isWordStart c = false := by
  rw [Bool.eq_false_iff]
  exact fun hw => absurd h (by simp [isDigit_of_isWordStart hw])

/-- A mark starts with a character that starts nothing else. -/
theorem Mark.text_head (m : Mark) :
    ∃ c cs, m.text.toList = c :: cs ∧ isBlank c = false ∧ isWordStart c = false ∧ c.isDigit = false ∧
      c ≠ '/' := by
  cases m <;> exact ⟨_, _, rfl, by decide⟩

theorem Mark.head_of_text {m : Mark} {c : Char} {cs : List Char} (h : m.text.toList = c :: cs) :
    isBlank c = false ∧ isWordStart c = false ∧ c.isDigit = false ∧ c ≠ '/' := by
  obtain ⟨c', cs', hs, hhead⟩ := m.text_head
  obtain ⟨rfl, -⟩ := List.cons.inj (h.symm.trans hs)
  exact hhead

/-! ### Words, numbers and marks -/

theorem ofText?_text (k : Keyword) : Keyword.ofText? k.text = some k := by
  cases k <;> decide

theorem text_of_ofText? {s : String} {k : Keyword} (h : Keyword.ofText? s = some k) : k.text = s := by
  simpa using List.find?_some h

theorem ofWord_text (s : String) : (Token.ofWord s).text = s := by
  unfold Token.ofWord
  split
  · exact text_of_ofText? ‹_›
  · rfl

theorem goesOn_ofWord (s : String) : (Token.ofWord s).goesOn = isWordPart := by
  unfold Token.ofWord
  split <;> rfl

theorem ofWord_keyword (k : Keyword) : Token.ofWord k.text = .word k := by
  simp only [Token.ofWord, ofText?_text]

namespace Token

theorem Cut.text {t : Token} {c : Char} {cs : List Char} (h : t.Cut c cs) : t.text.toList = c :: cs := by
  cases h with
  | word => rw [ofWord_text, String.toList_ofList]
  | number => exact String.toList_ofList
  | mark hm => exact hm

theorem Cut.written {t : Token} {c : Char} {cs : List Char} (h : t.Cut c cs) : t.Written := by
  cases h with
  | word hc hcs =>
    refine ⟨ofWord_spelled hc hcs, ?_⟩
    unfold ofWord
    split <;> simp
  | number hc hcs =>
    refine ⟨?_, by simp⟩
    simp only [Spelled, isNumeral, String.toList_ofList, List.all_cons, hc, Bool.true_and, List.all_eq_true,
      List.isEmpty_cons, Bool.not_false]
    exact hcs
  | mark => exact ⟨trivial, by simp⟩

theorem keyword_letters (k : Keyword) :
    ∃ c cs, k.text.toList = c :: cs ∧ isWordStart c = true ∧ cs.all isWordPart = true := by
  cases k <;> exact ⟨_, _, rfl, by decide, by decide⟩

theorem Written.cut {t : Token} (h : t.Written) : ∃ c cs, t.Cut c cs := by
  cases t with
  | word k =>
    obtain ⟨c, cs, hs, hc, hcs⟩ := keyword_letters k
    rw [← ofWord_keyword, ← String.ofList_toList (s := k.text), hs]
    exact ⟨c, cs, .word hc (List.all_eq_true.1 hcs)⟩
  | identifier x =>
    obtain ⟨c, cs, hs, hc, hcs, hk⟩ := isIdentifier_iff.1 h.1
    have hx : ofWord (String.ofList (c :: cs)) = .identifier x := by
      rw [← hs, String.ofList_toList, ofWord, hk]
    exact ⟨c, cs, hx ▸ .word hc hcs⟩
  | number digits =>
    have hn : isNumeral digits = true := h.1
    simp only [isNumeral, Bool.and_eq_true, Bool.not_eq_true', List.isEmpty_eq_false_iff,
      List.all_eq_true] at hn
    obtain ⟨c, cs, hs⟩ := List.exists_cons_of_ne_nil hn.1
    rw [hs] at hn
    rw [← String.ofList_toList (s := digits), hs]
    exact ⟨c, cs, .number (hn.2 c (List.mem_cons_self ..)) fun d hd => hn.2 d (List.mem_cons_of_mem _ hd)⟩
  | mark m =>
    obtain ⟨c, cs, hs, -⟩ := m.text_head
    exact ⟨c, cs, .mark hs⟩
  | blockComment => exact absurd rfl h.2

theorem Written.cut_of_text {t : Token} {c : Char} {cs : List Char} (h : t.Written)
    (hs : t.text.toList = c :: cs) : t.Cut c cs := by
  obtain ⟨c', cs', hc⟩ := h.cut
  obtain ⟨rfl, rfl⟩ := List.cons.inj (hs.symm.trans hc.text)
  exact hc

/-! ### What makes a token longer -/

theorem mark_extended {k m : Mark} {d : Char} {more : List Char}
    (h : k.text.toList = m.text.toList ++ d :: more) : (Token.mark m).goesOn d = true := by
  cases k <;> cases m <;> simp [Mark.text] at h <;> simp [goesOn, h.1.symm]

/-- A character that goes on with a token makes it a longer one. -/
theorem exists_of_goesOn {t : Token} {d : Char} (ht : t.Written) (hd : t.goesOn d = true) :
    ∃ u : Token, u.Written ∧ u.text.toList = t.text.toList ++ [d] := by
  have snoc {p : Char → Bool} {cs : List Char} (hcs : ∀ e ∈ cs, p e = true) (hd : p d = true) :
      ∀ e ∈ cs ++ [d], p e = true := by
    simpa [or_imp, forall_and] using ⟨hcs, hd⟩
  obtain ⟨c, cs, hcut⟩ := ht.cut
  have htext := hcut.text
  cases hcut with
  | word hc hcs =>
    rw [goesOn_ofWord] at hd
    have hu : Cut c (cs ++ [d]) _ := .word hc (snoc hcs hd)
    exact ⟨_, hu.written, by rw [hu.text, htext, List.cons_append]⟩
  | number hc hcs =>
    have hu : Cut c (cs ++ [d]) _ := .number hc (snoc hcs hd)
    exact ⟨_, hu.written, by rw [hu.text, htext, List.cons_append]⟩
  | mark hm =>
    simp only [goesOn, decide_eq_true_eq] at hd
    obtain ⟨rfl | rfl | rfl | rfl, rfl⟩ := hd
    · exact ⟨.mark .notEqual, ⟨trivial, by simp⟩, rfl⟩
    · exact ⟨.mark .equal, ⟨trivial, by simp⟩, rfl⟩
    · exact ⟨.mark .lessEqual, ⟨trivial, by simp⟩, rfl⟩
    · exact ⟨.mark .greaterEqual, ⟨trivial, by simp⟩, rfl⟩

/-- A longer token starts with a character that goes on with the shorter one. -/
theorem goesOn_of_longer {t u : Token} {d : Char} {more : List Char} (ht : t.Written) (hu : u.Written)
    (h : u.text.toList = t.text.toList ++ d :: more) : t.goesOn d = true := by
  obtain ⟨c, cs, hcut⟩ := ht.cut
  have hmem : d ∈ cs ++ d :: more := by simp
  have hucut : u.Cut c (cs ++ d :: more) := hu.cut_of_text (by rw [h, hcut.text, List.cons_append])
  cases hcut with
  | word hc =>
    rw [goesOn_ofWord]
    cases hucut with
    | word _ hus => exact hus d hmem
    | number hd => exact absurd hc (by simp [isWordStart_of_isDigit hd])
    | mark hm => exact absurd hc (by simp [Mark.head_of_text hm])
  | number hc =>
    cases hucut with
    | word hw => exact absurd hc (by simp [isDigit_of_isWordStart hw])
    | number _ hus => exact hus d hmem
    | mark hm => exact absurd hc (by simp [Mark.head_of_text hm])
  | mark hm =>
    cases hucut with
    | word hw => exact absurd hw (by simp [Mark.head_of_text hm])
    | number hd => exact absurd hd (by simp [Mark.head_of_text hm])
    | mark hk => exact mark_extended h

/-- A token is the longest exactly if the text behind it does not go on with it. -/
theorem longest_iff_apart {t : Token} {rest : List Char} (ht : t.Written) : t.Longest rest ↔ t.Apart rest := by
  constructor
  · intro h d hd
    rw [Bool.eq_false_iff]
    intro hgo
    obtain ⟨u, hu, hut⟩ := exists_of_goesOn ht hgo
    obtain ⟨r, rfl⟩ := List.head?_eq_some_iff.1 hd
    have hlen := h u hu ⟨r, by rw [hut, List.append_assoc]; rfl⟩
    rw [hut, List.length_append, List.length_singleton] at hlen
    omega
  · intro h u hu ⟨behind, hp⟩
    by_contra hlt
    rcases List.append_eq_append_iff.1 hp with ⟨more, hmore, -⟩ | ⟨more, hmore, hrest⟩
    · exact absurd (congrArg List.length hmore) (by rw [List.length_append]; omega)
    · cases more with
      | nil => exact absurd (congrArg List.length hmore) (by rw [List.append_nil]; omega)
      | cons d more => exact absurd (goesOn_of_longer ht hu hmore) (by simp [h d (by rw [hrest]; rfl)])

end Token

/-! ### Cutting a token off -/

theorem takeWhile_append_of_head {p : Char → Bool} {cs rest : List Char} (hcs : ∀ d ∈ cs, p d = true)
    (hrest : ∀ c ∈ rest.head?, p c = false) : (cs ++ rest).takeWhile p = cs := by
  rw [List.takeWhile_append_of_pos hcs]
  cases rest with
  | nil => simp
  | cons c r => simp [hrest c rfl]

theorem dropWhile_append_of_head {p : Char → Bool} {cs rest : List Char} (hcs : ∀ d ∈ cs, p d = true)
    (hrest : ∀ c ∈ rest.head?, p c = false) : (cs ++ rest).dropWhile p = rest := by
  rw [List.dropWhile_append_of_pos hcs]
  cases rest with
  | nil => rfl
  | cons c r => simp [hrest c rfl]

theorem munchMark_of_apart {m : Mark} {rest : List Char} (h : (Token.mark m).Apart rest) :
    ∃ c cs, m.text.toList = c :: cs ∧ munchMark c (cs ++ rest) = some ⟨some (.mark m), c :: cs, rest⟩ := by
  cases rest with
  | nil => cases m <;> exact ⟨_, _, rfl, rfl⟩
  | cons d r =>
    by_cases hm : m = .not ∨ m = .assign ∨ m = .less ∨ m = .greater
    · have hd : d ≠ '=' := by simpa [Token.goesOn, hm] using h d rfl
      rcases hm with rfl | rfl | rfl | rfl
      · exact ⟨'!', [], rfl, by simp [munchMark, hd]⟩
      · exact ⟨'=', [], rfl, by simp [munchMark, hd]⟩
      · exact ⟨'<', [], rfl, by simp [munchMark, hd]⟩
      · exact ⟨'>', [], rfl, by simp [munchMark, hd]⟩
    · cases m <;> first | exact ⟨_, _, rfl, rfl⟩ | simp at hm

/-- Where no blank, word, number or comment starts, the first piece is a mark. -/
theorem munch_eq_mark {c : Char} {cs : List Char} (hb : isBlank c = false) (hw : isWordStart c = false)
    (hd : c.isDigit = false) (hc : c ≠ '/') :
    munch c cs = (munchMark c cs).elim (.error (.invalidCharacter c)) .ok := by
  unfold munch
  simp only [hb, hw, hd, Bool.false_eq_true, if_false]
  split
  · exact absurd rfl hc
  · exact absurd rfl hc
  · cases munchMark c cs <;> rfl

/-- A token is the first piece if the text behind it is apart from it. -/
theorem munch_of_apart {t : Token} {c : Char} {cs rest : List Char} (ht : t.Cut c cs) (h : t.Apart rest) :
    munch c (cs ++ rest) = .ok ⟨some t, c :: cs, rest⟩ := by
  cases ht with
  | word hc hcs =>
    have hr : ∀ d ∈ rest.head?, isWordPart d = false := goesOn_ofWord _ ▸ h
    simp only [munch, munchRun, isBlank_of_isWordStart hc, hc, takeWhile_append_of_head hcs hr,
      dropWhile_append_of_head hcs hr, Bool.false_eq_true, if_false, if_true]
  | number hc hcs =>
    simp only [munch, munchRun, isBlank_of_isDigit hc, isWordStart_of_isDigit hc, hc,
      takeWhile_append_of_head hcs h, dropWhile_append_of_head hcs h, Bool.false_eq_true, if_false, if_true]
  | mark hm =>
    obtain ⟨hb, hw, hd, hc⟩ := Mark.head_of_text hm
    obtain ⟨c', cs', hm', hmunch⟩ := munchMark_of_apart h
    obtain ⟨rfl, rfl⟩ := List.cons.inj (hm'.symm.trans hm)
    rw [munch_eq_mark hb hw hd hc, hmunch]
    rfl

/-- A mark is cut off only where the text behind it is apart from it. -/
theorem munchMark_apart {c : Char} {cs : List Char} {m : Munch} (h : munchMark c cs = some m) :
    ∃ k : Mark, m.token = some (.mark k) ∧ k.text.toList = m.taken ∧ (Token.mark k).Apart m.rest := by
  unfold munchMark at h
  split at h <;> cases h <;> refine ⟨_, rfl, rfl, fun d hd => ?_⟩ <;> simp [Token.goesOn]
  all_goals
    rename_i hne
    rintro rfl
    obtain ⟨r, rfl⟩ := List.head?_eq_some_iff.1 hd
    exact hne r rfl

end ThreeAddress
