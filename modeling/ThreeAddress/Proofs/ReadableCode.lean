import Mathlib.Data.List.Basic
import ThreeAddress.Proofs.GeneratedNames
import ThreeAddress.Proofs.LongestTokens

/-!
# Code can be read off its text

The text of code has no quoting, and a name may be spelled like a word of the code, as in `goto = 1` or in
`x.1 = call`.  Still the text tells the code.  A line is words with blanks between them, and no word of a line
holds a blank or a line feed; the second word tells what is stored from all else, and then the first one tells
the instruction.

* `CodeName` — how names, atoms and operands are spelled in code;
* `Rvalue.words`, `Instruction.words` — the words of a line;
* `Rvalue.ofWords?`, `Instruction.ofWords?` — reading them, `Instruction.ofWords?_words` — reads back;
* `splitOn_codeText`, `codeOfText?` — the lines of code, and reading all of them;
* `Program.WellFormed.codeNamed` — the names in the code of a program in order are spelled like that;
* `codeText_determines` — the text of code.
-/

namespace ThreeAddress

/-! ### Names in a text -/

/-- A letter or an underscore, and then letters, digits and underscores.  It may be a reserved word: the label
of the main part is one, and so are the truth values. -/
def isWord (s : String) : Bool :=
  match s.toList with
  | [] => false
  | c :: cs => isWordStart c && cs.all isWordPart

/-- How names, atoms and operands are spelled in code: words, words with a number, and numerals. -/
inductive CodeName : String → Prop
  | word {s : String} (h : isWord s = true) : CodeName s
  | numbered {x digits : String} (hx : isWord x = true) (hd : isNumeral digits = true) :
      CodeName (x ++ "." ++ digits)
  | numeral {s : String} (h : isNumeral s = true) : CodeName s

/-- All names in code are spelled like that. -/
def CodeNamed (code : List Instruction) : Prop := ∀ x ∈ namesIn code, CodeName x

theorem isWordPart_of_isWord {s : String} (h : isWord s = true) : ∀ c ∈ s.toList, isWordPart c = true := by
  unfold isWord at h
  split at h
  · simp at h
  · rename_i d ds hs
    simp only [Bool.and_eq_true, List.all_eq_true] at h
    have hd : isWordPart d = true := by
      have hstart := h.1
      simp only [isWordStart, isWordPart, Char.isAlphanum, Bool.or_eq_true] at hstart ⊢
      rcases hstart with halpha | hline
      · exact .inl (.inl halpha)
      · exact .inr hline
    simpa [hs, hd] using h.2

theorem isWordPart_of_isNumeral {s : String} (h : isNumeral s = true) : ∀ c ∈ s.toList, isWordPart c = true := by
  intro c hc
  simp only [isNumeral, Bool.and_eq_true, List.all_eq_true] at h
  simp [isWordPart, Char.isAlphanum, h.2 c hc]

namespace CodeName

variable {s : String}

/-- A name in code holds letters, digits, underscores and dots only. -/
theorem chars (h : CodeName s) : ∀ c ∈ s.toList, isWordPart c = true ∨ c = '.' := by
  intro c hc
  cases h with
  | word h => exact .inl (isWordPart_of_isWord h c hc)
  | numeral h => exact .inl (isWordPart_of_isNumeral h c hc)
  | @numbered x digits hx hd =>
    simp only [String.toList_append, List.mem_append] at hc
    rcases hc with (hc | hc) | hc
    · exact .inl (isWordPart_of_isWord hx c hc)
    · exact .inr (by simpa using hc)
    · exact .inl (isWordPart_of_isNumeral hd c hc)

theorem not_mem {c : Char} (h : CodeName s) (hpart : isWordPart c = false) (hdot : c ≠ '.') : c ∉ s.toList := by
  intro hc
  rcases h.chars c hc with hword | rfl
  · simp [hpart] at hword
  · exact hdot rfl

/-- A name in code is no text that holds another character. -/
theorem ne_of_mem {c : Char} {text : String} (h : CodeName s) (hc : c ∈ text.toList)
    (hpart : isWordPart c = false) (hdot : c ≠ '.') : s ≠ text := by
  rintro rfl
  exact h.not_mem hpart hdot hc

theorem no_blank (h : CodeName s) : ∀ c ∈ s.toList, isBlank c = false := by
  intro c hc
  rw [Bool.eq_false_iff, Ne, isBlank_iff]
  rintro (rfl | rfl | rfl | rfl | rfl) <;> exact absurd hc (h.not_mem (by decide) (by decide))

theorem of_isIdentifier (h : isIdentifier s = true) : CodeName s := by
  obtain ⟨c, cs, hs, hc, hcs, -⟩ := isIdentifier_iff.1 h
  exact .word (by simp [isWord, hs, hc, List.all_eq_true.2 hcs])

theorem isNumeral_toString (n : Nat) : isNumeral (toString n) = true := by
  simp only [isNumeral, Bool.and_eq_true, Bool.not_eq_true', List.isEmpty_eq_false_iff, List.all_eq_true]
  exact ⟨toString_ne_nil n, fun c hc => isDigit_of_mem_toString hc⟩

theorem localText {x : String} (h : isIdentifier x = true) (k : Nat) : CodeName (localText x k) := by
  obtain ⟨c, cs, hs, hc, hcs, -⟩ := isIdentifier_iff.1 h
  exact .numbered (by simp [isWord, hs, hc, List.all_eq_true.2 hcs]) (isNumeral_toString k)

/-- A letter with a number is a word. -/
theorem of_letter {c : Char} {n : Nat} (hs : s.toList = c :: (toString n).toList) (hc : isWordStart c = true) :
    CodeName s := by
  have hdigits := isWordPart_of_isNumeral (isNumeral_toString n)
  refine .word ?_
  simp only [isWord, hs, hc, Bool.true_and, List.all_eq_true]
  exact hdigits

end CodeName

/-! ### The words of a line -/

/-- The words of a right-hand side. -/
def Rvalue.words : Rvalue → List String
  | .atom text => [text]
  | .binary left op right => [left, op.text, right]
  | .call name count => ["call", name ++ ",", toString count]
  | .not operand => ["!" ++ operand]

/-- The words of an instruction. -/
def Instruction.words : Instruction → List String
  | .label name => [name ++ ":"]
  | .assign dest value => dest :: "=" :: value.words
  | .ifz cond target => "ifz" :: (cond.words ++ ["goto", target])
  | .goto target => ["goto", target]
  | .param value => ["param", value]
  | .call name count => ["call", name ++ ",", toString count]
  | .getparam dest index => [dest, "=", "getparam", toString index]
  | .ret none => ["return"]
  | .ret (some value) => "return" :: value.words

/-- The names in a right-hand side. -/
def Rvalue.names (v : Rvalue) : List String := v.operands ++ v.callee?.toList

/-- The words of a line stand with single blanks between them. -/
theorem Instruction.toList_text (i : Instruction) :
    i.text.toList = [' '].intercalate (i.words.map String.toList) := by
  cases i with
  | assign dest value => cases value <;> simp [text, words, Rvalue.text, Rvalue.words, binaryText]
  | ifz cond target => cases cond <;> simp [text, words, Rvalue.text, Rvalue.words, binaryText]
  | ret value =>
    cases value with
    | none => rfl
    | some value => cases value <;> simp [text, words, Rvalue.text, Rvalue.words, binaryText]
  | _ => simp [text, words]

/-! ### No word holds a blank -/

theorem no_blank_of_all {s : String} (h : (s.toList.all fun c => !isBlank c) = true) :
    ∀ c ∈ s.toList, isBlank c = false := by
  simpa using h

theorem Operator.no_blank (op : Operator) : ∀ c ∈ op.text.toList, isBlank c = false := by
  apply no_blank_of_all
  rcases op with op | op | op | op <;> cases op <;> decide

theorem no_blank_toString (n : Nat) : ∀ c ∈ (toString n).toList, isBlank c = false :=
  fun _ hc => isBlank_of_isDigit (isDigit_of_mem_toString hc)

theorem Rvalue.no_blank {v : Rvalue} (h : ∀ x ∈ v.names, CodeName x) :
    ∀ w ∈ v.words, ∀ c ∈ w.toList, isBlank c = false := by
  cases v with
  | atom text => simpa [words] using (h text (by simp [names, operands])).no_blank
  | binary left op right =>
    have hleft := (h left (by simp [names, operands])).no_blank
    have hright := (h right (by simp [names, operands])).no_blank
    simpa [words] using ⟨hleft, op.no_blank, hright⟩
  | call name count =>
    have hname := (h name (by simp [names, callee?])).no_blank
    have hcount := no_blank_toString count
    simp only [words, List.forall_mem_cons, String.toList_append, List.forall_mem_append]
    exact ⟨no_blank_of_all (by decide), ⟨hname, no_blank_of_all (by decide)⟩, hcount, by simp⟩
  | not operand =>
    have hoperand := (h operand (by simp [names, operands])).no_blank
    simp only [words, List.forall_mem_cons, String.toList_append, List.forall_mem_append]
    exact ⟨⟨no_blank_of_all (by decide), hoperand⟩, by simp⟩

theorem Instruction.names_value {i : Instruction} {v : Rvalue} (h : ∀ x ∈ i.names, CodeName x)
    (hv : (∃ d, i = .assign d v) ∨ (∃ t, i = .ifz v t) ∨ i = .ret (some v)) : ∀ x ∈ v.names, CodeName x := by
  intro x hx
  apply h
  rcases hv with ⟨d, rfl⟩ | ⟨t, rfl⟩ | rfl <;>
    simp only [names, Rvalue.names, mentions, callee?, List.mem_append, List.mem_cons] at hx ⊢ <;>
    rcases hx with hx | hx <;> simp [hx]

theorem Instruction.no_blank {i : Instruction} (h : ∀ x ∈ i.names, CodeName x) :
    ∀ w ∈ i.words, ∀ c ∈ w.toList, isBlank c = false := by
  cases i with
  | label name =>
    have hname := (h name (by simp [names, definedLabels])).no_blank
    simp only [words, List.forall_mem_cons, String.toList_append, List.forall_mem_append]
    exact ⟨⟨hname, no_blank_of_all (by decide)⟩, by simp⟩
  | assign dest value =>
    have hdest := (h dest (by simp [names, mentions])).no_blank
    have hvalue := Rvalue.no_blank (names_value h (.inl ⟨dest, rfl⟩))
    simp only [words, List.forall_mem_cons]
    exact ⟨hdest, no_blank_of_all (by decide), hvalue⟩
  | ifz cond target =>
    have htarget := (h target (by simp [names, target?])).no_blank
    have hcond := Rvalue.no_blank (names_value h (.inr (.inl ⟨target, rfl⟩)))
    simp only [words, List.forall_mem_cons, List.forall_mem_append]
    exact ⟨no_blank_of_all (by decide), hcond, no_blank_of_all (by decide), htarget, by simp⟩
  | goto target =>
    have htarget := (h target (by simp [names, target?])).no_blank
    simp only [words, List.forall_mem_cons]
    exact ⟨no_blank_of_all (by decide), htarget, by simp⟩
  | param value =>
    have hvalue := (h value (by simp [names, mentions])).no_blank
    simp only [words, List.forall_mem_cons]
    exact ⟨no_blank_of_all (by decide), hvalue, by simp⟩
  | call name count =>
    have hname : ∀ x ∈ (Rvalue.call name count).names, CodeName x := by
      simpa [Rvalue.names, Rvalue.operands, Rvalue.callee?] using h name (by simp [names, callee?])
    exact Rvalue.no_blank hname
  | getparam dest index =>
    have hdest := (h dest (by simp [names, mentions])).no_blank
    have hindex := no_blank_toString index
    simp only [words, List.forall_mem_cons]
    exact ⟨hdest, no_blank_of_all (by decide), no_blank_of_all (by decide), hindex, by simp⟩
  | ret value =>
    cases value with
    | none =>
      simp only [words, List.forall_mem_cons]
      exact ⟨no_blank_of_all (by decide), by simp⟩
    | some value =>
      have hvalue := Rvalue.no_blank (names_value h (.inr (.inr rfl)))
      simp only [words, List.forall_mem_cons]
      exact ⟨no_blank_of_all (by decide), hvalue⟩

/-! ### Reading a line -/

/-- All operators. -/
def Operator.all : List Operator :=
  [.arith .plus, .arith .minus, .logic .and, .logic .or, .order .less, .order .greater, .order .lessEqual,
    .order .greaterEqual, .same .equal, .same .notEqual]

/-- The operator of this spelling, if there is one. -/
def Operator.ofText? (s : String) : Option Operator := all.find? (·.text == s)

/-- A word without its last character. -/
def withoutLast (w : String) : String := String.ofList w.toList.dropLast

/-- The number that some digits spell. -/
def countOf (w : String) : Nat := Nat.ofDigitChars 10 w.toList 0

/-- The right-hand side that some words spell. -/
def Rvalue.ofWords? : List String → Option Rvalue
  | [a] => some (if a.toList.head? = some '!' then .not (String.ofList a.toList.tail) else .atom a)
  | [a, b, c] =>
    match Operator.ofText? b with
    | some op => some (.binary a op c)
    | none => some (.call (withoutLast b) (countOf c))
  | _ => none

/-- The instruction that stores what some words spell. -/
def Instruction.ofStored? (dest : String) : List String → Option Instruction
  | [_, index] => some (.getparam dest (countOf index))
  | value => (Rvalue.ofWords? value).map (.assign dest)

/-- The call that a name with a comma and a count spell. -/
def Instruction.ofCall? : List String → Option Instruction
  | [name, count] => some (.call (withoutLast name) (countOf count))
  | _ => none

/-- The instruction that some words spell. -/
def Instruction.ofWords? : List String → Option Instruction
  | [] => none
  | first :: more =>
    if more.head? = some "=" then ofStored? first more.tail
    else if first = "ifz" then
      (Rvalue.ofWords? more.dropLast.dropLast).bind fun cond => more.getLast?.map (.ifz cond)
    else if first = "goto" then more.head?.map .goto
    else if first = "param" then more.head?.map .param
    else if first = "call" then ofCall? more
    else if first = "return" then
      if more.isEmpty then some (.ret none) else (Rvalue.ofWords? more).map fun v => .ret (some v)
    else some (.label (withoutLast first))

theorem Operator.ofText?_text (op : Operator) : ofText? op.text = some op := by
  rcases op with op | op | op | op <;> cases op <;> decide

/-- A text with a comma is no operator. -/
theorem Operator.ofText?_eq_none {s : String} (h : ',' ∈ s.toList) : ofText? s = none := by
  cases hs : ofText? s with
  | none => rfl
  | some op =>
    have htext : op.text = s := by simpa using List.find?_some hs
    have hcomma : ',' ∉ op.text.toList := by
      rcases op with op | op | op | op <;> cases op <;> decide
    rw [htext] at hcomma
    exact absurd h hcomma

@[simp] theorem withoutLast_append_comma (x : String) : withoutLast (x ++ ",") = x := by
  simp [withoutLast]

@[simp] theorem withoutLast_append_colon (x : String) : withoutLast (x ++ ":") = x := by
  simp [withoutLast]

@[simp] theorem countOf_toString (n : Nat) : countOf (toString n) = n := by
  rw [countOf, toList_toString, Nat.ofDigitChars_ten_toDigits]

/-- The words of a right-hand side are read back. -/
theorem Rvalue.ofWords?_words {v : Rvalue} (h : ∀ x ∈ v.names, CodeName x) : ofWords? v.words = some v := by
  cases v with
  | atom text =>
    have hnot := (h text (by simp [names, operands])).not_mem (c := '!') (by decide) (by decide)
    have hhead : text.toList.head? ≠ some '!' := fun he => hnot (List.mem_of_head? he)
    simp only [words, ofWords?, if_neg hhead]
  | binary left op right => simp only [words, ofWords?, Operator.ofText?_text]
  | call name count =>
    have hop : Operator.ofText? (name ++ ",") = none := Operator.ofText?_eq_none (by simp)
    simp only [words, ofWords?, hop, countOf_toString, withoutLast_append_comma]
  | not operand => simp [words, ofWords?]

/-- No right-hand side starts like a store. -/
theorem Rvalue.head_words {v : Rvalue} (h : ∀ x ∈ v.names, CodeName x) (more : List String) :
    (v.words ++ more).head? ≠ some "=" := by
  have hne {x : String} (hx : CodeName x) : x ≠ "=" := hx.ne_of_mem (c := '=') (by decide) (by decide) (by decide)
  cases v with
  | atom text => simpa [words] using hne (h text (by simp [names, operands]))
  | binary left op right => simpa [words] using hne (h left (by simp [names, operands]))
  | call name count => simp [words]
  | not operand =>
    have hmark : "!" ++ operand ≠ "=" := fun he => absurd (congrArg String.toList he) (by simp)
    simpa [words] using hmark

/-- A right-hand side has one word or three. -/
theorem Instruction.ofStored?_words {v : Rvalue} (h : ∀ x ∈ v.names, CodeName x) (dest : String) :
    ofStored? dest v.words = some (.assign dest v) := by
  have hread := Rvalue.ofWords?_words h
  cases v <;> simp_all [Rvalue.words, ofStored?]

/-- **Lines are read back.**  The words of an instruction tell the instruction. -/
theorem Instruction.ofWords?_words {i : Instruction} (h : ∀ x ∈ i.names, CodeName x) :
    ofWords? i.words = some i := by
  have hne {x : String} (hx : CodeName x) : x ≠ "=" := hx.ne_of_mem (c := '=') (by decide) (by decide) (by decide)
  cases i with
  | label name =>
    -- The colon keeps a label apart from the words that open other lines.
    have hcolon {s : String} (hs : ':' ∉ s.toList) : name ++ ":" ≠ s := by
      rintro rfl
      exact hs (by simp)
    have hifz := hcolon (s := "ifz") (by decide)
    have hgoto := hcolon (s := "goto") (by decide)
    have hparam := hcolon (s := "param") (by decide)
    have hcall := hcolon (s := "call") (by decide)
    have hreturn := hcolon (s := "return") (by decide)
    simp [words, ofWords?, hifz, hgoto, hparam, hcall, hreturn]
  | assign dest value =>
    have hvalue := ofStored?_words (names_value h (.inl ⟨dest, rfl⟩)) dest
    simp [words, ofWords?, hvalue]
  | ifz cond target =>
    have hnames := names_value h (.inr (.inl ⟨target, rfl⟩))
    have hhead := Rvalue.head_words hnames ["goto", target]
    have hcond := Rvalue.ofWords?_words hnames
    rw [words, ofWords?, if_neg hhead, if_pos rfl]
    simp [hcond]
  | goto target =>
    have htarget := hne (h target (by simp [names, target?]))
    simp [words, ofWords?, htarget]
  | param value =>
    have hvalue := hne (h value (by simp [names, mentions]))
    simp [words, ofWords?, hvalue]
  | call name count =>
    have hcomma : name ++ "," ≠ "=" := fun he => absurd (congrArg (',' ∈ String.toList ·) he) (by simp)
    have hread : ofCall? [name ++ ",", toString count] = some (.call name count) := by
      simp only [ofCall?, withoutLast_append_comma, countOf_toString]
    rw [words, ofWords?, if_neg (by simpa using hcomma)]
    exact hread
  | getparam dest index =>
    simp only [words, ofWords?, List.head?_cons, if_true, List.tail_cons, ofStored?, countOf_toString]
  | ret value =>
    cases value with
    | none => rfl
    | some value =>
      have hnames := names_value h (.inr (.inr rfl))
      have hhead := Rvalue.head_words hnames []
      have hvalue := Rvalue.ofWords?_words hnames
      have hwords : value.words ≠ [] := by cases value <;> simp [Rvalue.words]
      rw [List.append_nil] at hhead
      simp [words, ofWords?, hhead, hvalue, hwords]

/-! ### The lines of a text -/

theorem blank_or_mem_of_mem_intercalate {words : List (List Char)} {c : Char} (h : c ∈ [' '].intercalate words) :
    c = ' ' ∨ ∃ w ∈ words, c ∈ w := by
  induction words with
  | nil => simp at h
  | cons w words ih =>
    cases words with
    | nil => exact .inr ⟨w, by simp, by simpa using h⟩
    | cons w' words =>
      rw [List.intercalate_cons_cons] at h
      simp only [List.mem_append, List.mem_singleton] at h
      rcases h with (h | h) | h
      · exact .inr ⟨w, by simp, h⟩
      · exact .inl h
      · have hrest := ih h
        simp only [List.exists_mem_cons_iff] at hrest ⊢
        tauto

theorem Instruction.words_ne_nil (i : Instruction) : i.words ≠ [] := by
  cases i with
  | ret value => cases value <;> simp [words]
  | _ => simp [words]

section
variable {i : Instruction} {code : List Instruction}

/-- The blanks of a line part its words. -/
theorem Instruction.splitOn_text (h : ∀ x ∈ i.names, CodeName x) :
    i.text.toList.splitOn ' ' = i.words.map String.toList := by
  have hno : ∀ w ∈ i.words.map String.toList, ' ' ∉ w := by
    simp only [List.forall_mem_map]
    intro w hw hc
    have hblank := no_blank h w hw ' ' hc
    simp [isBlank] at hblank
  rw [toList_text, List.splitOn_intercalate ' ' hno (by simpa using i.words_ne_nil)]

theorem Instruction.no_feed (h : ∀ x ∈ i.names, CodeName x) : '\n' ∉ i.text.toList := by
  intro hc
  rw [toList_text] at hc
  rcases blank_or_mem_of_mem_intercalate hc with hc | ⟨w, hw, hc⟩
  · simp at hc
  · obtain ⟨word, hword, rfl⟩ := List.mem_map.1 hw
    have hblank := no_blank h word hword '\n' hc
    simp [isBlank] at hblank

/-- The instruction that a line spells. -/
def Instruction.ofLine? (line : List Char) : Option Instruction :=
  ofWords? ((line.splitOn ' ').map String.ofList)

theorem Instruction.ofLine?_text (h : ∀ x ∈ i.names, CodeName x) : ofLine? i.text.toList = some i := by
  have hwords : (i.words.map String.toList).map String.ofList = i.words := by simp
  rw [ofLine?, splitOn_text h, hwords, ofWords?_words h]

theorem toList_codeText_cons (i : Instruction) (code : List Instruction) :
    (codeText (i :: code)).toList = i.text.toList ++ '\n' :: (codeText code).toList := by
  simp [codeText, String.toList_join]

theorem codeNamed_cons : CodeNamed (i :: code) ↔ (∀ x ∈ i.names, CodeName x) ∧ CodeNamed code := by
  simp only [CodeNamed, namesIn, List.flatMap_cons, List.forall_mem_append]

/-- The line feeds of a text part its lines, and nothing follows the last one. -/
theorem splitOn_codeText (h : CodeNamed code) :
    (codeText code).toList.splitOn '\n' = code.map (·.text.toList) ++ [[]] := by
  induction code with
  | nil => rfl
  | cons i code ih =>
    obtain ⟨hi, hcode⟩ := codeNamed_cons.1 h
    have hline : ∀ c ∈ i.text.toList, (c == '\n') = false := by
      intro c hc
      exact beq_false_of_ne (ne_of_mem_of_not_mem hc (Instruction.no_feed hi))
    rw [toList_codeText_cons, List.splitOn, List.splitOnP_append_cons_of_forall_mem hline '\n' (by simp)]
    rw [← List.splitOn, ih hcode, List.map_cons, List.cons_append]

theorem count_codeText (h : CodeNamed code) : (codeText code).toList.count '\n' = code.length := by
  induction code with
  | nil => rfl
  | cons i code ih =>
    obtain ⟨hi, hcode⟩ := codeNamed_cons.1 h
    have hline := List.count_eq_zero.2 (Instruction.no_feed hi)
    rw [toList_codeText_cons, List.count_append, List.count_cons_self, hline, ih hcode, List.length_cons, Nat.zero_add]

/-- The code that a text spells. -/
def codeOfText? (text : String) : Option (List Instruction) :=
  (text.toList.splitOn '\n').dropLast.mapM Instruction.ofLine?

/-- **Texts are read back.** -/
theorem codeOfText?_codeText (h : CodeNamed code) : codeOfText? (codeText code) = some code := by
  rw [codeOfText?, splitOn_codeText h, List.dropLast_concat]
  induction code with
  | nil => rfl
  | cons i code ih =>
    obtain ⟨hi, hcode⟩ := codeNamed_cons.1 h
    simp [Instruction.ofLine?_text hi, ih hcode]

end

/-! ### The names in the code of a program -/

theorem Generated.codeName {x : String} (h : Generated x) : CodeName x := by
  cases h with
  | temp k => exact .of_letter (NameSupply.tempName_toList k) (by decide)
  | flag k => exact .of_letter (NameSupply.flagName_toList k) (by decide)
  | label k => exact .of_letter (NameSupply.labelName_toList k) (by decide)
  | main => exact .word (by decide)
  | exit => exact .word (by decide)

theorem codeName_of_literal {x : String} {v : Value} (h : literal? x = some v) : CodeName x := by
  by_cases hn : isNumeral x = true
  · exact .numeral hn
  · have htruth : ∃ b, x = boolText b := by
      by_contra hb
      rw [literal?_eq_none (Bool.eq_false_iff.2 hn) (not_exists.1 hb)] at h
      cases h
    obtain ⟨b, rfl⟩ := htruth
    cases b <;> exact .word (by decide)

namespace Program

variable {p : Program} {x : String}

theorem Spelled.codeName (hs : p.Spelled) (h : p.Writes x) : CodeName x := by
  cases h with
  | global hd => exact .of_isIdentifier (hs.decls _ hd).name
  | func hf => exact .of_isIdentifier (hs.funcs _ hf).name
  | inner hb hx => exact .localText (hs.scope (List.mem_of_getElem? hb) hx) _
  | literal h => exact codeName_of_literal h

/-- The names in the code of a program in order are names of its source, literals and generated ones, and all of
them are spelled like names in code. -/
theorem WellFormed.codeNamed (hw : p.WellFormed) (hs : p.Spelled) : CodeNamed p.code := by
  intro x hx
  rcases hw.namesIn_origin hs hx with hx | hx
  · exact hs.codeName hx
  · exact hx.codeName

end Program

/-- The same for the code of an accepted source. -/
theorem codeNamed_of_compile {source : String} {compiled : Compiled} (h : compile source = .ok compiled) :
    CodeNamed compiled.code := by
  obtain ⟨p, hp, hclean, hcode⟩ := compile_eq_ok h
  rw [hcode]
  exact (Program.WellFormed.of_clean hclean).codeNamed (ofSource_spelled hp)

/-! ### Code and its text -/

/-- **Code and its text.**  Where all names are spelled like names in code, the text of code tells the code, its
lines are the texts of the instructions, each ended by a line feed, and there is no other line feed.  The names in
the code of every accepted source are spelled so. -/
theorem codeText_determines :
    (∀ code code', CodeNamed code → CodeNamed code' → codeText code = codeText code' → code = code') ∧
    (∀ code, CodeNamed code → (codeText code).toList.splitOn '\n' = code.map (·.text.toList) ++ [[]] ∧
      (codeText code).toList.count '\n' = code.length) ∧
    ∀ source compiled, compile source = .ok compiled → CodeNamed compiled.code := by
  refine ⟨?_, fun code h => ⟨splitOn_codeText h, count_codeText h⟩, fun source compiled => codeNamed_of_compile⟩
  intro code code' h h' htext
  have hread := codeOfText?_codeText h
  rw [htext, codeOfText?_codeText h'] at hread
  exact (Option.some.inj hread).symm

/-- A source whose names are words of the code. -/
def borrowedSource : String :=
  "var call: integer; var goto: integer; integer getparam(param: integer) \x7b return (param); \x7d
   main \x7b var ifz: integer; call = 1; goto = call; ifz = getparam(goto); \x7d"

/-- Its code. -/
def borrowedCode : List Instruction :=
  [.label "getparam", .getparam "param.1" 1, .ret (some (.atom "param.1")), .label "main",
    .assign "call" (.atom "1"), .assign "goto" (.atom "call"), .param "goto",
    .assign "ifz.2" (.call "getparam" 1), .call exitRoutine 0]

theorem compile_borrowedSource : compile borrowedSource = .ok ⟨borrowedCode, []⟩ := by
  decide +kernel

/-- No other code has the text of that one, which has nine lines; `goto = call` is one of them. -/
theorem codeText_determines_borrowedSource : compile borrowedSource = .ok ⟨borrowedCode, []⟩ ∧
    (∀ code, CodeNamed code → codeText code = codeText borrowedCode → code = borrowedCode) ∧
    "goto = call".toList ∈ (codeText borrowedCode).toList.splitOn '\n' ∧
    (codeText borrowedCode).toList.count '\n' = 9 := by
  have hnamed : CodeNamed borrowedCode := codeText_determines.2.2 borrowedSource _ compile_borrowedSource
  obtain ⟨hlines, hcount⟩ := codeText_determines.2.1 borrowedCode hnamed
  refine ⟨compile_borrowedSource, ?_, ?_, hcount⟩
  · intro code hcode htext
    exact codeText_determines.1 code borrowedCode hcode hnamed htext
  · rw [hlines]
    decide

end ThreeAddress
