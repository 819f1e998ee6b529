import ThreeAddress.Code.Name
import ThreeAddress.Program.Text
import ThreeAddress.Token.Scan

/-!
# Spelling of names

Every string of generated code is a numeral, a truth value, a name of the source, a local with its
ordinal, or a name of the supply.  Their forms exclude each other, and a number can be read off each
form that carries one.

* `isNumeral`, `isIdentifier` — the two forms in which a source spells an operand;
* `labelName_inj`, `tempName_inj`, `flagName_inj`, `localText_inj` — names with numbers tell their numbers;
* `isReservedName_…` — which forms are reserved;
* `tokenize_spelled` — the tokens of a source have the forms above.
-/

namespace ThreeAddress

/-! ### Forms -/

/-- One decimal digit or more. -/
def isNumeral (s : String) : Bool := !s.toList.isEmpty && s.toList.all Char.isDigit

/-- A word that is not a reserved one. -/
def isIdentifier (s : String) : Bool :=
  match s.toList with
  | [] => false
  | c :: cs => isWordStart c && cs.all isWordPart && (Keyword.ofText? s).isNone

/-- A token carries a text of its own form. -/
def Token.Spelled : Token → Prop
  | .identifier name => isIdentifier name = true
  | .number digits => isNumeral digits = true
  | _ => True

/-- An atom carries a text of its own form. -/
def Atom.Spelled : Atom → Prop
  | .name id => isIdentifier id = true
  | .number digits => isNumeral digits = true

/-! ### Numbers in names -/

theorem toList_toString (n : Nat) : (toString n).toList = Nat.toDigits 10 n := Nat.toList_repr

theorem isDigit_of_mem_toString {n : Nat} {c : Char} (h : c ∈ (toString n).toList) :
    c.isDigit = true := by
  rw [toList_toString] at h
  exact Nat.isDigit_of_mem_toDigits (by decide) (by decide) h

theorem toString_ne_nil (n : Nat) : (toString n).toList ≠ [] := by
  rw [toList_toString]
  exact Nat.toDigits_ne_nil

theorem toString_inj {m n : Nat} (h : toString m = toString n) : m = n := by
  have hd : Nat.toDigits 10 m = Nat.toDigits 10 n := by
    rw [← toList_toString, ← toList_toString, h]
  rw [← Nat.ofDigitChars_ten_toDigits (n := m), hd, Nat.ofDigitChars_ten_toDigits]

namespace NameSupply

theorem labelName_toList (n : Nat) : (labelName n).toList = 'L' :: (toString n).toList := by
  simp [labelName]

theorem tempName_toList (n : Nat) : (tempName n).toList = 't' :: (toString n).toList := by
  simp [tempName]

theorem flagName_toList (n : Nat) : (flagName n).toList = 'c' :: (toString n).toList := by
  simp [flagName]

theorem labelName_inj {m n : Nat} (h : labelName m = labelName n) : m = n := by
  have hl := congrArg String.toList h
  rw [labelName_toList, labelName_toList, List.cons.injEq] at hl
  exact toString_inj (String.toList_inj.1 hl.2)

theorem tempName_inj {m n : Nat} (h : tempName m = tempName n) : m = n := by
  have hl := congrArg String.toList h
  rw [tempName_toList, tempName_toList, List.cons.injEq] at hl
  exact toString_inj (String.toList_inj.1 hl.2)

theorem flagName_inj {m n : Nat} (h : flagName m = flagName n) : m = n := by
  have hl := congrArg String.toList h
  rw [flagName_toList, flagName_toList, List.cons.injEq] at hl
  exact toString_inj (String.toList_inj.1 hl.2)

theorem tempName_ne_flagName (m n : Nat) : tempName m ≠ flagName n := by
  intro h
  have hl := congrArg String.toList h
  rw [tempName_toList, flagName_toList, List.cons.injEq] at hl
  exact absurd hl.1 (by decide)

end NameSupply

/-! ### Reserved names -/

/-- A reserved name is one of three letters and then digits. -/
theorem isReservedName_iff {s : String} :
    isReservedName s = true ↔
      ∃ c ds, s.toList = c :: ds ∧ (c = 't' ∨ c = 'c' ∨ c = 'L') ∧ ds ≠ [] ∧
        ∀ d ∈ ds, d.isDigit = true := by
  unfold isReservedName
  constructor
  · intro h
    split at h
    · rename_i c d more hs
      simp only [Bool.and_eq_true, Bool.or_eq_true, beq_iff_eq, List.all_eq_true, or_assoc] at h
      exact ⟨c, d :: more, hs, h.1, by simp, h.2⟩
    · exact absurd h (by simp)
  · rintro ⟨c, ds, hs, hc, hne, hd⟩
    obtain ⟨d, more, rfl⟩ := List.exists_cons_of_ne_nil hne
    simp only [hs, Bool.and_eq_true, Bool.or_eq_true, beq_iff_eq, List.all_eq_true, or_assoc]
    exact ⟨hc, hd⟩

theorem isReservedName_labelName (n : Nat) : isReservedName (NameSupply.labelName n) = true :=
  isReservedName_iff.2 ⟨'L', _, NameSupply.labelName_toList n, by simp, toString_ne_nil n,
    fun _ => isDigit_of_mem_toString⟩

theorem isReservedName_tempName (n : Nat) : isReservedName (NameSupply.tempName n) = true :=
  isReservedName_iff.2 ⟨'t', _, NameSupply.tempName_toList n, by simp, toString_ne_nil n,
    fun _ => isDigit_of_mem_toString⟩

theorem isReservedName_flagName (n : Nat) : isReservedName (NameSupply.flagName n) = true :=
  isReservedName_iff.2 ⟨'c', _, NameSupply.flagName_toList n, by simp, toString_ne_nil n,
    fun _ => isDigit_of_mem_toString⟩

/-- A numeral starts with a digit, so it is not reserved. -/
theorem isReservedName_of_isNumeral {s : String} (h : isNumeral s = true) :
    isReservedName s = false := by
  rw [Bool.eq_false_iff]
  intro hr
  obtain ⟨c, ds, hs, hc, -, -⟩ := isReservedName_iff.1 hr
  simp only [isNumeral, hs, List.all_cons, Bool.and_eq_true] at h
  rcases hc with rfl | rfl | rfl <;> exact absurd h.2.1 (by decide)

/-! ### Locals -/

theorem localText_toList (name : String) (k : Nat) :
    (localText name k).toList = name.toList ++ '.' :: (toString k).toList := by
  simp [localText]

theorem dot_mem_localText (name : String) (k : Nat) : '.' ∈ (localText name k).toList := by
  simp [localText_toList]

/-- A local holds a dot, which no reserved name does. -/
theorem isReservedName_localText (name : String) (k : Nat) :
    isReservedName (localText name k) = false := by
  rw [Bool.eq_false_iff]
  intro h
  obtain ⟨c, ds, hs, hc, -, hd⟩ := isReservedName_iff.1 h
  have hdot := dot_mem_localText name k
  rw [hs, List.mem_cons] at hdot
  rcases hdot with rfl | hdot
  · rcases hc with hc | hc | hc <;> exact absurd hc (by decide)
  · exact absurd (hd _ hdot) (by decide)

theorem RenameTable.resolve_unreserved (t : RenameTable) {x : String} (hx : isReservedName x = false) :
    isReservedName (t.resolve x) = false := by
  unfold RenameTable.resolve
  split
  · exact isReservedName_localText x _
  · exact hx

/-- What stands behind the last dot of a local is its ordinal. -/
theorem reverse_takeWhile_localText (name : String) (k : Nat) :
    (localText name k).toList.reverse.takeWhile Char.isDigit = (toString k).toList.reverse := by
  have hdig : ∀ c ∈ (toString k).toList.reverse, c.isDigit = true := by
    intro c hc
    exact isDigit_of_mem_toString (List.mem_reverse.1 hc)
  rw [localText_toList, List.reverse_append, List.reverse_cons, List.append_assoc,
    List.takeWhile_append_of_pos hdig]
  simp

/-- A local tells its name and its ordinal. -/
theorem localText_inj {x y : String} {j k : Nat} (h : localText x j = localText y k) :
    x = y ∧ j = k := by
  have hjk : j = k := by
    apply toString_inj
    rw [← String.toList_inj, ← List.reverse_inj, ← reverse_takeWhile_localText x j, h,
      reverse_takeWhile_localText]
  subst hjk
  have hl := congrArg String.toList h
  rw [localText_toList, localText_toList] at hl
  exact ⟨String.toList_inj.1 (List.append_cancel_right hl), rfl⟩

/-! ### Identifiers -/

theorem isIdentifier_iff {s : String} :
    isIdentifier s = true ↔
      ∃ c cs, s.toList = c :: cs ∧ isWordStart c = true ∧ (∀ d ∈ cs, isWordPart d = true) ∧
        Keyword.ofText? s = none := by
  unfold isIdentifier
  constructor
  · intro h
    split at h
    · exact absurd h (by simp)
    · rename_i c cs hs
      simp only [Bool.and_eq_true, List.all_eq_true, Option.isNone_iff_eq_none] at h
      exact ⟨c, cs, hs, h.1.1, h.1.2, h.2⟩
  · rintro ⟨c, cs, hs, hc, hcs, hk⟩
    simp only [hs, Bool.and_eq_true, List.all_eq_true, Option.isNone_iff_eq_none]
    exact ⟨⟨hc, hcs⟩, hk⟩

/-- An identifier holds no dot. -/
theorem dot_not_mem_of_isIdentifier {s : String} (h : isIdentifier s = true) : '.' ∉ s.toList := by
  obtain ⟨c, cs, hs, hc, hcs, -⟩ := isIdentifier_iff.1 h
  intro hdot
  rw [hs, List.mem_cons] at hdot
  rcases hdot with rfl | hdot
  · exact absurd hc (by decide)
  · exact absurd (hcs _ hdot) (by decide)

theorem isIdentifier_localText (name : String) (k : Nat) : isIdentifier (localText name k) = false := by
  rw [Bool.eq_false_iff]
  exact fun h => dot_not_mem_of_isIdentifier h (dot_mem_localText name k)

/-- What starts a word is no digit. -/
theorem isDigit_of_isWordStart {c : Char} (h : isWordStart c = true) : c.isDigit = false := by
  rw [Bool.eq_false_iff]
  intro hd
  simp only [Char.isDigit, Bool.and_eq_true, decide_eq_true_eq] at hd
  have halpha : c.isAlpha = (decide (c.val ≥ 'A'.val ∧ c.val ≤ 'Z'.val) ||
      (decide (c.val ≥ 'a'.val) && decide (c.val ≤ 'z'.val))) := rfl
  simp only [isWordStart, halpha, Bool.or_eq_true, Bool.and_eq_true, decide_eq_true_eq, beq_iff_eq] at h
  rcases h with (⟨hA, -⟩ | ⟨ha, -⟩) | rfl
  · exact absurd (Nat.le_trans hA hd.2) (by decide)
  · exact absurd (Nat.le_trans ha hd.2) (by decide)
  · exact absurd hd.2 (by decide)

/-- An identifier starts with no digit. -/
theorem isNumeral_of_isIdentifier {s : String} (h : isIdentifier s = true) : isNumeral s = false := by
  obtain ⟨c, cs, hs, hc, -, -⟩ := isIdentifier_iff.1 h
  rw [isNumeral, hs, List.all_cons, isDigit_of_isWordStart hc, Bool.false_and, Bool.and_false]

/-- An identifier is no reserved word, the truth values among them. -/
theorem ne_boolText_of_isIdentifier {s : String} (h : isIdentifier s = true) (b : Bool) :
    s ≠ boolText b := by
  obtain ⟨-, -, -, -, -, hk⟩ := isIdentifier_iff.1 h
  rintro rfl
  cases b <;> exact absurd hk (by decide)

/-! ### Scanned tokens -/

theorem mem_takeWhile {p : Char → Bool} {cs : List Char} {c : Char} (h : c ∈ cs.takeWhile p) :
    p c = true := by
  induction cs with
  | nil => simp at h
  | cons d ds ih =>
    rw [List.takeWhile_cons] at h
    split at h
    · rename_i hd
      rcases List.mem_cons.1 h with rfl | h
      · exact hd
      · exact ih h
    · simp at h

theorem ofWord_spelled {c : Char} {cs : List Char} (hc : isWordStart c = true)
    (hcs : ∀ d ∈ cs, isWordPart d = true) : (Token.ofWord (String.ofList (c :: cs))).Spelled := by
  unfold Token.ofWord
  split
  · trivial
  · rename_i hk
    exact isIdentifier_iff.2 ⟨c, cs, String.toList_ofList, hc, hcs, hk⟩

theorem munchMark_spelled {c : Char} {cs : List Char} {m : Munch} (h : munchMark c cs = some m)
    {t : Token} (ht : m.token = some t) : t.Spelled := by
  unfold munchMark at h
  split at h <;> simp only [Option.some.injEq, reduceCtorEq] at h <;> subst h <;>
    simp only [Option.some.injEq] at ht <;> subst ht <;> trivial

/-- A piece that is a token has the form of that token. -/
theorem munch_spelled {c : Char} {cs : List Char} {m : Munch} (h : munch c cs = .ok m)
    {t : Token} (ht : m.token = some t) : t.Spelled := by
  unfold munch at h
  split at h
  · cases h; simp [munchRun] at ht
  split at h
  · rename_i hc
    cases h
    simp only [munchRun, Option.some.injEq] at ht
    subst ht
    exact ofWord_spelled hc fun d hd => mem_takeWhile hd
  split at h
  · rename_i hc
    cases h
    simp only [munchRun, Option.some.injEq] at ht
    subst ht
    show isNumeral _ = true
    simp only [isNumeral, String.toList_ofList, List.isEmpty_cons, Bool.not_false, Bool.true_and,
      List.all_eq_true, List.mem_cons]
    rintro d (rfl | hd)
    · exact hc
    · exact mem_takeWhile hd
  split at h
  · cases h; simp at ht
  · split at h
    · cases h; simp at ht
    · cases h
  · split at h
    · rename_i hm
      cases h
      exact munchMark_spelled hm ht
    · cases h

theorem scan_spelled {offset : Nat} {text : List Char} {ls : List Lexeme}
    (h : scan offset text = .ok ls) : ∀ l ∈ ls, l.token.Spelled := by
  fun_induction scan offset text generalizing ls with
  | case1 => cases h; simp
  | case2 => cases h
  | case3 => cases h
  | case4 offset c cs m hm next more hmore ht =>
    rename_i ih
    cases h
    exact ih hmore
  | case5 offset c cs m hm next more hmore t ht =>
    rename_i ih
    cases h
    intro l hl
    rcases List.mem_cons.1 hl with rfl | hl
    · exact munch_spelled hm ht
    · exact ih hmore l hl

/-- **Tokens are spelled.**  Every token of a source has the form of its kind. -/
theorem tokenize_spelled {source : String} {ls : List Lexeme} (h : tokenize source = .ok ls) :
    ∀ l ∈ ls, l.token.Spelled := scan_spelled h

end ThreeAddress
