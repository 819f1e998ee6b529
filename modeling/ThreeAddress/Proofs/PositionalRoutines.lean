import ThreeAddress.Proofs.PositionalSteps

/-!
# The routines by positions and by cursors

From a position of the list, and with a budget of a few times the number of lexemes to come, each routine over
positions comes to what the one over cursors does.

* `Positional.expressions_match`, `Positional.conditions_match`, `Positional.statements_match` — the three groups of
  routines that call each other, by induction on the budget;
* `Positional.otherAtom_eq_failed` — where no other atom starts, the fault of a comparison is passed on;
* `Positional.function_matches`, `Positional.main_matches`, `Positional.program_matches` — whole programs.

Each lemma of the form `x_matches_of` is about one routine of a group and takes the routines that it calls as
hypotheses.
-/

namespace ThreeAddress

variable {α : Type} {n p : Nat} {ls : List Lexeme} {c : Cursor}

namespace Positional

open Landing (Matches)

/-! ### Expressions -/

theorem argument_matches (hc : c.StandsAt ls p) : Matches ls (argument ls p) (Argument.read c) := by
  have hwanted : c.next?.isNone = c.rest.isEmpty := by
    rw [Cursor.next?]
    cases c.rest <;> rfl
  rw [argument, peek_bind hc, hwanted]
  exact (takeIf_matches hc _ _ _).map

/-- The arguments of a call are lexemes to come. -/
theorem call_matches (name : String) (start : Span) (hc : c.StandsAt ls p) (hn : c.size ≤ n) :
    Matches ls (call n name start ls p) (Call.readFrom name start c) := by
  rw [call, Call.readFrom]
  apply Matches.andThen (expect_matches hc _ _)
  intro _ c₁ p₁ _ hc₁
  apply Matches.andThen (listed_matches (fun _ _ => argument_matches) hc₁ (by omega))
  intro args c₂ p₂ _ hc₂
  apply Matches.andThen (expect_matches hc₂ _ _)
  intro _ c₃ p₃ _ hc₃
  exact spanned_matches hc₃ start _

/-- The span up to a lexeme is the span up to where the cursor stands once it has been taken. -/
theorem takeIf_map_eq {β γ δ : Type} (pick : Token → Option β) (sort : Wanted) (wanted : String) (start : Span)
    (g : β → γ) (f : γ → Span → δ) :
    (c.takeIf pick sort wanted).map (fun x => f (g x.1) (start.merge x.2)) =
      ((c.takeIf pick sort wanted).map fun x => g x.1).andThen fun b d _ => d.give (f b (d.spanFrom start)) := by
  rw [Cursor.takeIf]
  split
  · rfl
  · split <;> rfl

theorem negated_eq_fail (hc : c.StandsAt ls p) (h : c.next?.bind Atom.ofToken? = none) :
    negated ls p = fail .signWithoutOperand ls p := by
  rw [negated, peek_bind hc, h]

theorem negated_eq_done {l : Lexeme} {rest : List Lexeme} {a : Atom} (hc : c.StandsAt ls p) (hrest : c.rest = l :: rest)
    (h : Atom.ofToken? l.token = some a) : negated ls p = .done (.atom true a) (p + 1) := by
  rw [negated, peek_bind hc, Cursor.next?_of_rest hrest, Option.bind_some, h]
  exact advance_bind (hc.of_rest hrest).1 _

/-- A lexeme that starts no fragment is given back, and the fault is at it. -/
theorem fragment_matches (hc : c.StandsAt ls p) : Matches ls (fragment ls p) (Expr.readFragment c) := by
  rw [Expr.readFragment]
  split
  · rename_i hrest
    have hend : advance ls p = .done none p := by rw [advance, hc.of_rest_nil hrest]
    rw [fragment, bind_done hend]
    exact lacks_matches hc _ _
  · rename_i l rest hrest
    obtain ⟨hl, hd⟩ := hc.of_rest hrest
    rw [fragment, advance_bind hl]
    dsimp only
    split
    · rename_i hminus
      rw [fragmentFrom, hminus]
      dsimp only
      split
      · exact (bind_fail_matches hd (negated_eq_fail hd rfl)).since _
      · rename_i m more
        split
        · rename_i hatom
          exact (bind_fail_matches hd (negated_eq_fail hd hatom)).since _
        · rename_i operand hatom
          rw [bind_done (negated_eq_done hd rfl hatom)]
          exact (spanned_matches (hd.of_rest rfl).2 l.span _).since _
    · rename_i hnot
      rw [fragmentFrom, hnot]
      apply Matches.since
      rw [Cursor.expectName, takeIf_map_eq _ _ _ l.span Fragment.not Expr.fragment]
      apply Matches.andThen (expectName_matches hd _).map
      intro f d q _ hq
      exact spanned_matches hq l.span _
    · rename_i hminus hnot
      have hfrom : fragmentFrom l = tokenFragment l.token := by
        rw [fragmentFrom]
        split
        · exact absurd ‹_› hminus
        · exact absurd ‹_› hnot
        · rfl
      rw [hfrom, tokenFragment]
      cases Fragment.ofToken? l.token with
      | some f => exact (spanned_matches hd l.span _).since _
      | none => exact bind_fail_matches hc ((stepBack_bind _).trans (lacks_eq hc _ _))

/-- A term that opens neither with a parenthesis nor with the name of a call is a fragment. -/
theorem term_eq_fragment (hc : c.StandsAt ls p) (hparen : c.next? ≠ some (.mark .leftParen))
    (hcall : ∀ x, c.next? = some (.identifier x) → c.second? ≠ some (.mark .leftParen)) :
    term (n + 1) ls p = fragment ls p := by
  rw [term, peek_bind hc]
  cases hnext : c.next? with
  | none => rfl
  | some t =>
    cases t with
    | mark m =>
      cases m with
      | leftParen => exact absurd hnext hparen
      | _ => rfl
    | identifier x =>
      dsimp only
      rw [second_bind hc fun t => if t = some (.mark .leftParen) then _ else _, if_neg (hcall x hnext)]
    | _ => rfl

theorem term_matches_of (hc : c.StandsAt ls p) (hn : c.size ≤ n)
    (hr : ∀ d q, d.StandsAt ls q → d.size < c.size → Matches ls (expression n ls q) (Expr.read d)) :
    Matches ls (term (n + 1) ls p) (Expr.readTerm c) := by
  rw [Expr.readTerm]
  split
  · rename_i hrest
    rw [term, peek_bind hc, Cursor.next?_of_rest hrest]
    apply Matches.andThen (expect_matches hc _ _)
    intro start c₁ p₁ _ hc₁
    apply Matches.andThen (hr c₁ p₁ hc₁ (by omega))
    intro inner c₂ p₂ _ hc₂
    apply Matches.andThen (expect_matches hc₂ _ _)
    intro _ c₃ p₃ _ hc₃
    exact spanned_matches hc₃ start _
  · rename_i hrest
    have hparen : c.second? = some (.mark .leftParen) := by simp [Cursor.second?, hrest]
    rw [term, peek_bind hc, Cursor.next?_of_rest hrest]
    dsimp only
    rw [second_bind hc fun t => if t = some (.mark .leftParen) then _ else _, if_pos hparen]
    apply Matches.andThen (expectName_matches hc _)
    rintro ⟨name, start⟩ c₁ p₁ _ hc₁
    exact (call_matches name start hc₁ (by omega)).map
  · rename_i hparen hcall
    rw [term_eq_fragment hc]
    · exact fragment_matches hc
    · intro hnext
      obtain ⟨s, rest, hrest⟩ := Cursor.rest_of_next? hnext
      exact hparen s rest hrest
    · intro x hnext hsecond
      obtain ⟨s, s', rest, hrest⟩ := Cursor.rest_of_second? hnext hsecond
      exact hcall x s s' rest hrest

theorem sum_matches_of (hc : c.StandsAt ls p) (hn : c.size < n)
    (hr : ∀ d q, d.StandsAt ls q → d.size ≤ c.size → Matches ls (term n ls q) (Expr.readTerm d)) :
    Matches ls (sum (n + 1) ls p) (Expr.readSum c) := by
  rw [sum, Expr.readSum]
  apply Matches.andThen (hr c p hc (Nat.le_refl _))
  intro left c₁ p₁ _ hc₁
  exact chain_matches (fun d q hd hq => hr d q hq (by omega)) left hc₁ _ (by omega)

theorem expression_matches_of (hc : c.StandsAt ls p) (hn : c.size < n)
    (hr : ∀ d q, d.StandsAt ls q → d.size ≤ c.size → Matches ls (sum n ls q) (Expr.readSum d)) :
    Matches ls (expression (n + 1) ls p) (Expr.read c) := by
  rw [expression, Expr.read]
  apply Matches.andThen (hr c p hc (Nat.le_refl _))
  intro left c₁ p₁ _ hc₁
  exact chain_matches (fun d q hd hq => hr d q hq (by omega)) left hc₁ _ (by omega)

/-- Expressions, sums and terms, by induction on the budget.  A group takes a parenthesis, which pays for the three
calls down to what is inside it. -/
theorem expressions_match (n : Nat) :
    (∀ c p, c.StandsAt ls p → 3 * c.size + 3 ≤ n → Matches ls (expression n ls p) (Expr.read c)) ∧
    (∀ c p, c.StandsAt ls p → 3 * c.size + 2 ≤ n → Matches ls (sum n ls p) (Expr.readSum c)) ∧
    (∀ c p, c.StandsAt ls p → 3 * c.size + 1 ≤ n → Matches ls (term n ls p) (Expr.readTerm c)) := by
  induction n with
  | zero => exact ⟨fun c p hc hn => by omega, fun c p hc hn => by omega, fun c p hc hn => by omega⟩
  | succ n ih =>
    obtain ⟨hexpression, hsum, hterm⟩ := ih
    refine ⟨fun c p hc hn => ?_, fun c p hc hn => ?_, fun c p hc hn => ?_⟩
    · exact expression_matches_of hc (by omega) fun d q hq hd => hsum d q hq (by omega)
    · exact sum_matches_of hc (by omega) fun d q hq hd => hterm d q hq (by omega)
    · exact term_matches_of hc (by omega) fun d q hq hd => hexpression d q hq (by omega)

theorem expression_matches (hc : c.StandsAt ls p) (hn : 3 * c.size + 3 ≤ n) :
    Matches ls (expression n ls p) (Expr.read c) := (expressions_match n).1 c p hc hn

theorem sum_matches (hc : c.StandsAt ls p) (hn : 3 * c.size + 2 ≤ n) :
    Matches ls (sum n ls p) (Expr.readSum c) := (expressions_match n).2.1 c p hc hn

theorem term_matches (hc : c.StandsAt ls p) (hn : 3 * c.size + 1 ≤ n) :
    Matches ls (term n ls p) (Expr.readTerm c) := (expressions_match n).2.2 c p hc hn

/-! ### Conditions -/

theorem comparison_matches (hc : c.StandsAt ls p) (hn : 3 * c.size + 2 ≤ n) :
    Matches ls (comparison n ls p) (Cond.readComparison c) := by
  rw [comparison, Cond.readComparison]
  apply Matches.andThen (sum_matches hc hn)
  intro left c₁ p₁ _ hc₁
  apply Matches.andThen (takeIf_matches hc₁ _ _ _)
  rintro ⟨op, _⟩ c₂ p₂ _ hc₂
  have hright := sum_matches hc₂ (n := n) (by omega)
  cases op with
  | inl order => exact hright.map
  | inr same => exact hright.map

/-- The tokens that an atom other than a comparison starts with. -/
def opensOther : Token → Bool
  | .mark .not | .mark .leftParen | .word .true | .word .false => true
  | _ => false

section
variable {atom cond : Positional Cond}

/-- The fault of the comparison is passed on, and the position is the one from before the comparison. -/
theorem otherAtom_eq_failed (fault : Fault) (q : Nat) (hc : c.StandsAt ls p) (h : c.next?.any opensOther = false) :
    otherAtom atom cond p fault ls q = .failed fault p := by
  have hgo : goTo p ls q = .done () p := rfl
  rw [otherAtom, bind_done hgo, next_bind hc]
  cases hrest : c.rest with
  | nil => rfl
  | cons l rest =>
    obtain ⟨t, s⟩ := l
    rw [Cursor.next?_of_rest hrest, Option.any_some] at h
    cases t with
    | mark m => cases m <;> first | rfl | cases h
    | word w => cases w <;> first | rfl | cases h
    | _ => rfl

theorem otherAtom_eq {l : Lexeme} {rest : List Lexeme} (fault : Fault) (q : Nat) (hc : c.StandsAt ls p)
    (hrest : c.rest = l :: rest) :
    otherAtom atom cond p fault ls q = otherAtomFrom atom cond fault l ls p := by
  have hgo : goTo p ls q = .done () p := rfl
  rw [otherAtom, bind_done hgo, next_bind hc, hrest]
  rfl

theorem otherAtom_matches (fault : Fault) (q : Nat) (hc : c.StandsAt ls p)
    (hatom : ∀ d q, d.StandsAt ls q → d.size < c.size → Matches ls (atom ls q) (Cond.readAtom d))
    (hcond : ∀ d q, d.StandsAt ls q → d.size < c.size → Matches ls (cond ls q) (Cond.read d))
    {d : Cursor} {h : d.size ≤ c.size} (hfault : Cond.readComparison c = .failed fault d h) :
    Matches ls (otherAtom atom cond p fault ls q) (Cond.readAtom c) := by
  rw [Cond.readAtom, hfault]
  dsimp only
  split
  · rename_i hrest
    rw [otherAtom_eq_failed fault q hc (by rw [Cursor.next?, hrest]; rfl)]
    exact .failed hc _
  · rename_i l rest hrest
    obtain ⟨hl, hd⟩ := hc.of_rest hrest
    have hsize := Cursor.behind_size hrest
    rw [otherAtom_eq fault q hc hrest]
    split
    · rename_i htoken
      rw [otherAtomFrom, htoken]
      dsimp only
      rw [advance_bind hl]
      apply Matches.since
      apply Matches.andThen (hatom _ _ hd (by omega))
      intro inner c₂ p₂ _ hc₂
      exact spanned_matches hc₂ l.span _
    · rename_i htoken
      rw [otherAtomFrom, htoken]
      dsimp only
      rw [advance_bind hl]
      apply Matches.since
      apply Matches.andThen (hcond _ _ hd (by omega))
      intro inner c₂ p₂ _ hc₂
      apply Matches.andThen (expect_matches hc₂ _ _)
      intro _ c₃ p₃ _ hc₃
      exact spanned_matches hc₃ l.span _
    · rename_i htoken
      rw [otherAtomFrom, htoken]
      dsimp only
      rw [advance_bind hl]
      exact (give_matches hd _).since _
    · rename_i htoken
      rw [otherAtomFrom, htoken]
      dsimp only
      rw [advance_bind hl]
      exact (give_matches hd _).since _
    · rename_i hnot hparen htrue hfalse
      have hclosed : c.next?.any opensOther = false := by
        rw [Cursor.next?_of_rest hrest, Option.any_some, opensOther] <;> assumption
      rw [← otherAtom_eq fault q hc hrest, otherAtom_eq_failed fault q hc hclosed]
      exact .failed hc _

/-- Where another atom starts, the fault of the comparison is forgotten. -/
theorem otherAtom_forgets (fault fault' : Fault) (q : Nat) (hc : c.StandsAt ls p)
    (h : c.next?.any opensOther = true) :
    otherAtom atom cond p fault ls q = otherAtom atom cond p fault' ls q := by
  cases hrest : c.rest with
  | nil =>
    rw [Cursor.next?, hrest] at h
    cases h
  | cons l rest =>
    rw [Cursor.next?_of_rest hrest, Option.any_some] at h
    rw [otherAtom_eq fault q hc hrest, otherAtom_eq fault' q hc hrest]
    obtain ⟨t, s⟩ := l
    cases t with
    | mark m => cases m <;> first | rfl | cases h
    | word w => cases w <;> first | rfl | cases h
    | _ => cases h

end

theorem conditionAtom_of_done {a : Cond} {q : Nat} (h : comparison n ls p = .done a q) :
    conditionAtom (n + 1) ls p = .done a q := by
  have hposition : position ls p = .done p p := rfl
  have htry : attempt (comparison n) ls p = .done (.ok a) q := by rw [attempt, h]
  rw [conditionAtom, bind_done hposition, bind_done htry]
  rfl

theorem conditionAtom_of_failed {fault : Fault} {q : Nat} (h : comparison n ls p = .failed fault q) :
    conditionAtom (n + 1) ls p = otherAtom (conditionAtom n) (condition n) p fault ls q := by
  have hposition : position ls p = .done p p := rfl
  have htry : attempt (comparison n) ls p = .done (.error fault) q := by rw [attempt, h]
  rw [conditionAtom, bind_done hposition, bind_done htry]

theorem conditionAtom_matches_of (hc : c.StandsAt ls p) (hn : 3 * c.size + 2 ≤ n)
    (hatom : ∀ d q, d.StandsAt ls q → d.size < c.size → Matches ls (conditionAtom n ls q) (Cond.readAtom d))
    (hcond : ∀ d q, d.StandsAt ls q → d.size < c.size → Matches ls (condition n ls q) (Cond.read d)) :
    Matches ls (conditionAtom (n + 1) ls p) (Cond.readAtom c) := by
  have hcomparison := comparison_matches hc hn
  generalize hread : Cond.readComparison c = o at hcomparison
  generalize hrun : comparison n ls p = x at hcomparison
  cases hcomparison with
  | done hd h =>
    rw [conditionAtom_of_done hrun, Cond.readAtom, hread]
    exact .done hd h
  | failed hd h =>
    rw [conditionAtom_of_failed hrun]
    exact otherAtom_matches _ _ hc hatom hcond hread

theorem condition_matches_of (hc : c.StandsAt ls p) (hn : c.size < n)
    (hr : ∀ d q, d.StandsAt ls q → d.size ≤ c.size → Matches ls (conditionAtom n ls q) (Cond.readAtom d)) :
    Matches ls (condition (n + 1) ls p) (Cond.read c) := by
  rw [condition, Cond.read]
  apply Matches.andThen (hr c p hc (Nat.le_refl _))
  intro left c₁ p₁ _ hc₁
  exact chain_matches (fun d q hd hq => hr d q hq (by omega)) left hc₁ _ (by omega)

/-- Conditions and their atoms, by induction on the budget.  That a group is read as an expression first does not add
up: the comparison runs beside the group, not inside it. -/
theorem conditions_match (n : Nat) :
    (∀ c p, c.StandsAt ls p → 3 * c.size + 4 ≤ n → Matches ls (condition n ls p) (Cond.read c)) ∧
    (∀ c p, c.StandsAt ls p → 3 * c.size + 3 ≤ n → Matches ls (conditionAtom n ls p) (Cond.readAtom c)) := by
  induction n with
  | zero => exact ⟨fun c p hc hn => by omega, fun c p hc hn => by omega⟩
  | succ n ih =>
    obtain ⟨hcondition, hatom⟩ := ih
    refine ⟨fun c p hc hn => ?_, fun c p hc hn => ?_⟩
    · exact condition_matches_of hc (by omega) fun d q hq hd => hatom d q hq (by omega)
    · exact conditionAtom_matches_of hc (by omega) (fun d q hq hd => hatom d q hq (by omega))
        fun d q hq hd => hcondition d q hq (by omega)

theorem condition_matches (hc : c.StandsAt ls p) (hn : 3 * c.size + 4 ≤ n) :
    Matches ls (condition n ls p) (Cond.read c) := (conditions_match n).1 c p hc hn

theorem conditionAtom_matches (hc : c.StandsAt ls p) (hn : 3 * c.size + 3 ≤ n) :
    Matches ls (conditionAtom n ls p) (Cond.readAtom c) := (conditions_match n).2 c p hc hn

/-! ### Declarations -/

theorem type_matches (hc : c.StandsAt ls p) : Matches ls (type ls p) (Ty.read c) := (takeIf_matches hc _ _ _).map

theorem varDecl_matches (hc : c.StandsAt ls p) : Matches ls (varDecl ls p) (Decl.readVar c) := by
  rw [varDecl, Decl.readVar]
  apply Matches.andThen (expect_matches hc _ _)
  intro start c₁ p₁ _ hc₁
  apply Matches.andThen (expectName_matches hc₁ _)
  rintro ⟨name, _⟩ c₂ p₂ _ hc₂
  apply Matches.andThen (expect_matches hc₂ _ _)
  intro _ c₃ p₃ _ hc₃
  apply Matches.andThen (type_matches hc₃)
  intro ty c₄ p₄ _ hc₄
  apply Matches.andThen (expect_matches hc₄ _ _)
  intro _ c₅ p₅ _ hc₅
  exact spanned_matches hc₅ start _

theorem constDecl_matches (hc : c.StandsAt ls p) (hn : 3 * c.size + 3 ≤ n) :
    Matches ls (constDecl n ls p) (Decl.readConst c) := by
  rw [constDecl, Decl.readConst]
  apply Matches.andThen (expect_matches hc _ _)
  intro start c₁ p₁ _ hc₁
  apply Matches.andThen (expectName_matches hc₁ _)
  rintro ⟨name, _⟩ c₂ p₂ _ hc₂
  apply Matches.andThen (expect_matches hc₂ _ _)
  intro _ c₃ p₃ _ hc₃
  apply Matches.andThen (type_matches hc₃)
  intro ty c₄ p₄ _ hc₄
  apply Matches.andThen (expect_matches hc₄ _ _)
  intro _ c₅ p₅ _ hc₅
  apply Matches.andThen (expression_matches hc₅ (by omega))
  intro value c₆ p₆ _ hc₆
  apply Matches.andThen (expect_matches hc₆ _ _)
  intro _ c₇ p₇ _ hc₇
  exact spanned_matches hc₇ start _

theorem declaration_matches (hc : c.StandsAt ls p) (hn : 3 * c.size + 3 ≤ n) :
    Matches ls (declaration n ls p) (Decl.read c) := by
  rw [declaration, Decl.read]
  apply check_matches hc
  · exact fun _ => constDecl_matches hc hn
  · exact fun _ => varDecl_matches hc

theorem declarations_matches (hc : c.StandsAt ls p) (hn : 3 * c.size + 3 ≤ n) :
    Matches ls (declarations n ls p) (Decl.readAll c) :=
  many_matches (fun d q hd hq => declaration_matches hq (by omega)) hc _ (by omega)

/-! ### Statements -/

theorem skipStatement_matches (hc : c.StandsAt ls p) : Matches ls (skipStatement ls p) (Stmt.readSkip c) := by
  rw [skipStatement, Stmt.readSkip]
  apply Matches.andThen (expect_matches hc _ _)
  intro start c₁ p₁ _ hc₁
  apply Matches.andThen (expect_matches hc₁ _ _)
  intro _ c₂ p₂ _ hc₂
  exact spanned_matches hc₂ start _

/-- To take the next lexeme is to take its token. -/
theorem advance_eq_expect {t : Token} (wanted : String) (hc : c.StandsAt ls p) (h : c.next? = some t)
    (m : Positional α) : (advance >>= fun _ => m) ls p = (expect t wanted >>= fun _ => m) ls p := by
  obtain ⟨s, rest, hrest⟩ := Cursor.rest_of_next? h
  have hl := (hc.of_rest hrest).1
  have htake : takeIf (fun u => if u = t then some () else none) .token wanted ls p = .done ((), s) (p + 1) := by
    rw [takeIf, peek_bind hc, h, Option.bind_some, if_pos rfl]
    exact advance_bind hl _
  have hexpect : expect t wanted ls p = .done s (p + 1) := bind_done htake
  rw [advance_bind hl, bind_done hexpect]

theorem namedStatement_matches (hc : c.StandsAt ls p) (hn : 3 * c.size ≤ n) :
    Matches ls (namedStatement n ls p) (Stmt.readNamed c) := by
  rw [namedStatement, Stmt.readNamed]
  apply Matches.andThen (expectName_matches hc _)
  rintro ⟨name, start⟩ c₁ p₁ _ hc₁
  dsimp only
  rw [peek_bind hc₁]
  split
  · rename_i hnext
    rw [hnext]
    dsimp only
    rw [advance_eq_expect "'='" hc₁ hnext]
    apply Matches.weaken
    apply Matches.andThen (expect_matches hc₁ _ _)
    intro _ c₂ p₂ _ hc₂
    apply Matches.andThen (expression_matches hc₂ (by omega))
    intro value c₃ p₃ _ hc₃
    apply Matches.andThen (expect_matches hc₃ _ _)
    intro _ c₄ p₄ _ hc₄
    exact spanned_matches hc₄ start fun span => Stmt.assign name value span span
  · rename_i hnext
    rw [hnext]
    apply Matches.weaken
    apply Matches.andThen (call_matches name start hc₁ (by omega))
    intro call c₂ p₂ _ hc₂
    apply Matches.andThen (expect_matches hc₂ _ _)
    intro _ c₃ p₃ _ hc₃
    exact spanned_matches hc₃ start _
  · rename_i hassign hparen
    cases hnext : c₁.next? with
    | none => exact fail_matches hc₁ _
    | some t =>
      cases t with
      | mark m =>
        cases m with
        | assign => exact absurd hnext hassign
        | leftParen => exact absurd hnext hparen
        | _ => exact fail_matches hc₁ _
      | _ => exact fail_matches hc₁ _

theorem block_matches_of (hc : c.StandsAt ls p)
    (hr : ∀ d q, d.StandsAt ls q → d.size < c.size → Matches ls (statements n ls q) (Stmt.readAll d)) :
    Matches ls (block (n + 1) ls p) (Block.read c) := by
  rw [block, Block.read]
  apply Matches.andThen (expect_matches hc _ _)
  intro start c₁ p₁ _ hc₁
  apply Matches.andThen (hr c₁ p₁ hc₁ (by omega))
  intro stmts c₂ p₂ _ hc₂
  apply check_matches hc₂
  · exact fun _ => fail_matches hc₂ _
  · intro _
    apply Matches.weaken
    apply Matches.andThen (expect_matches hc₂ _ _)
    intro _ c₃ p₃ _ hc₃
    exact spanned_matches hc₃ start _

theorem ifStatement_matches_of (hc : c.StandsAt ls p) (hn : 3 * c.size + 1 ≤ n)
    (hr : ∀ d q, d.StandsAt ls q → d.size < c.size → Matches ls (block n ls q) (Block.read d)) :
    Matches ls (ifStatement (n + 1) ls p) (Stmt.readIte c) := by
  rw [ifStatement, Stmt.readIte]
  apply Matches.andThen (expect_matches hc _ _)
  intro start c₁ p₁ _ hc₁
  apply Matches.andThen (condition_matches hc₁ (by omega))
  intro cond c₂ p₂ _ hc₂
  apply Matches.andThen (hr c₂ p₂ hc₂ (by omega))
  intro thenBlock c₃ p₃ _ hc₃
  apply Matches.andThen (expect_matches hc₃ _ _)
  intro _ c₄ p₄ _ hc₄
  exact (hr c₄ p₄ hc₄ (by omega)).map

theorem whileStatement_matches_of (hc : c.StandsAt ls p) (hn : 3 * c.size + 1 ≤ n)
    (hr : ∀ d q, d.StandsAt ls q → d.size < c.size → Matches ls (block n ls q) (Block.read d)) :
    Matches ls (whileStatement (n + 1) ls p) (Stmt.readLoop c) := by
  rw [whileStatement, Stmt.readLoop]
  apply Matches.andThen (expect_matches hc _ _)
  intro start c₁ p₁ _ hc₁
  apply Matches.andThen (condition_matches hc₁ (by omega))
  intro cond c₂ p₂ _ hc₂
  exact (hr c₂ p₂ hc₂ (by omega)).map

/-- The next token picks the statement. -/
theorem statement_matches_of (hc : c.StandsAt ls p) (hn : 3 * c.size ≤ n)
    (hite : Matches ls (ifStatement n ls p) (Stmt.readIte c))
    (hloop : Matches ls (whileStatement n ls p) (Stmt.readLoop c))
    (hblock : Matches ls (block n ls p) (Block.read c)) :
    Matches ls (statement (n + 1) ls p) (Stmt.read c) := by
  rw [statement, peek_bind hc, Stmt.read]
  cases hnext : c.next? with
  | none => exact lacks_matches hc _ _
  | some t =>
    cases t with
    | word w =>
      cases w with
      | ite => exact hite
      | loop => exact hloop
      | skip => exact skipStatement_matches hc
      | var | const => exact fail_matches hc _
      | _ => exact lacks_matches hc _ _
    | mark m =>
      cases m with
      | leftBrace => exact hblock.map
      | _ => exact lacks_matches hc _ _
    | identifier x => exact namedStatement_matches hc hn
    | _ => exact lacks_matches hc _ _

/-- Statements and blocks, by induction on the budget.  A block takes a brace, which pays for the four calls down to
a block inside it. -/
theorem statements_match (n : Nat) :
    (∀ c p, c.StandsAt ls p → 4 * c.size + 4 ≤ n → Matches ls (statements n ls p) (Stmt.readAll c)) ∧
    (∀ c p, c.StandsAt ls p → 4 * c.size + 3 ≤ n → Matches ls (statement n ls p) (Stmt.read c)) ∧
    (∀ c p, c.StandsAt ls p → 4 * c.size + 2 ≤ n → Matches ls (ifStatement n ls p) (Stmt.readIte c)) ∧
    (∀ c p, c.StandsAt ls p → 4 * c.size + 2 ≤ n → Matches ls (whileStatement n ls p) (Stmt.readLoop c)) ∧
    ∀ c p, c.StandsAt ls p → 4 * c.size + 1 ≤ n → Matches ls (block n ls p) (Block.read c) := by
  induction n with
  | zero =>
    exact ⟨fun c p hc hn => by omega, fun c p hc hn => by omega, fun c p hc hn => by omega, fun c p hc hn => by omega,
      fun c p hc hn => by omega⟩
  | succ n ih =>
    obtain ⟨hstatements, hstatement, hite, hloop, hblock⟩ := ih
    refine ⟨fun c p hc hn => ?_, fun c p hc hn => ?_, fun c p hc hn => ?_, fun c p hc hn => ?_, fun c p hc hn => ?_⟩
    · rw [statements, Stmt.readAll]
      exact many_matches (fun d q hd hq => hstatement d q hq (by omega)) hc _ (by omega)
    · exact statement_matches_of hc (by omega) (hite c p hc (by omega)) (hloop c p hc (by omega))
        (hblock c p hc (by omega))
    · exact ifStatement_matches_of hc (by omega) fun d q hq hd => hblock d q hq (by omega)
    · exact whileStatement_matches_of hc (by omega) fun d q hq hd => hblock d q hq (by omega)
    · exact block_matches_of hc fun d q hq hd => hstatements d q hq (by omega)

theorem statements_matches (hc : c.StandsAt ls p) (hn : 4 * c.size + 4 ≤ n) :
    Matches ls (statements n ls p) (Stmt.readAll c) := (statements_match n).1 c p hc hn

theorem statement_matches (hc : c.StandsAt ls p) (hn : 4 * c.size + 3 ≤ n) :
    Matches ls (statement n ls p) (Stmt.read c) := (statements_match n).2.1 c p hc hn

theorem ifStatement_matches (hc : c.StandsAt ls p) (hn : 4 * c.size + 2 ≤ n) :
    Matches ls (ifStatement n ls p) (Stmt.readIte c) := (statements_match n).2.2.1 c p hc hn

theorem whileStatement_matches (hc : c.StandsAt ls p) (hn : 4 * c.size + 2 ≤ n) :
    Matches ls (whileStatement n ls p) (Stmt.readLoop c) := (statements_match n).2.2.2.1 c p hc hn

theorem block_matches (hc : c.StandsAt ls p) (hn : 4 * c.size + 1 ≤ n) :
    Matches ls (block n ls p) (Block.read c) := (statements_match n).2.2.2.2 c p hc hn

/-! ### Functions and programs -/

theorem parameter_matches (hc : c.StandsAt ls p) : Matches ls (parameter ls p) (Param.read c) := by
  rw [parameter, Param.read]
  apply Matches.andThen (expectName_matches hc _)
  rintro ⟨name, start⟩ c₁ p₁ _ hc₁
  apply Matches.andThen (expect_matches hc₁ _ _)
  intro _ c₂ p₂ _ hc₂
  apply Matches.andThen (type_matches hc₂)
  intro ty c₃ p₃ _ hc₃
  exact spanned_matches hc₃ start _

theorem parameterList_matches (hc : c.StandsAt ls p) (hn : c.size < n) :
    Matches ls (parameterList n ls p) (Param.readAll c) :=
  listed_matches (fun _ _ => parameter_matches) hc hn

theorem returned_matches (hc : c.StandsAt ls p) (hn : 3 * c.size + 3 ≤ n) :
    Matches ls (returned n ls p) (Expr.readReturned c) := by
  rw [returned, Expr.readReturned]
  apply check_matches hc
  · exact fun _ => give_matches hc none
  · exact fun _ => (expression_matches hc hn).map.weaken

theorem function_matches (hc : c.StandsAt ls p) (hn : 4 * c.size + 4 ≤ n) :
    Matches ls (function n ls p) (Func.read c) := by
  rw [function, bind_done (here_eq hc), Func.read]
  apply Matches.andThen (type_matches hc)
  intro returnType c₁ p₁ _ hc₁
  apply Matches.andThen (expectName_matches hc₁ _)
  rintro ⟨name, _⟩ c₂ p₂ _ hc₂
  apply Matches.andThen (expect_matches hc₂ _ _)
  intro _ c₃ p₃ _ hc₃
  apply Matches.andThen (parameterList_matches hc₃ (by omega))
  intro params c₄ p₄ _ hc₄
  apply Matches.andThen (expect_matches hc₄ _ _)
  intro _ c₅ p₅ _ hc₅
  apply Matches.andThen (expect_matches hc₅ _ _)
  intro bodyStart c₆ p₆ _ hc₆
  apply Matches.andThen (declarations_matches hc₆ (by omega))
  intro decls c₇ p₇ _ hc₇
  apply Matches.andThen (statements_matches hc₇ (by omega))
  intro stmts c₈ p₈ _ hc₈
  dsimp only
  rw [spanFrom_bind hc₈]
  apply Matches.andThen (expect_matches hc₈ _ _)
  intro _ c₉ p₉ _ hc₉
  apply Matches.andThen (expect_matches hc₉ _ _)
  intro _ c₁₀ p₁₀ _ hc₁₀
  apply Matches.andThen (returned_matches hc₁₀ (by omega))
  intro returnValue c₁₁ p₁₁ _ hc₁₁
  apply Matches.andThen (expect_matches hc₁₁ _ _)
  intro _ c₁₂ p₁₂ _ hc₁₂
  apply Matches.andThen (expect_matches hc₁₂ _ _)
  intro _ c₁₃ p₁₃ _ hc₁₃
  apply Matches.andThen (expect_matches hc₁₃ _ _)
  intro _ c₁₄ p₁₄ _ hc₁₄
  exact spanned_matches hc₁₄ _ _

theorem main_matches (hc : c.StandsAt ls p) (hn : 4 * c.size + 4 ≤ n) :
    Matches ls (main n ls p) (Main.read c) := by
  rw [main, Main.read, ite_not]
  apply check_matches hc
  · intro _
    apply Matches.andThen (expect_matches hc _ _)
    intro start c₁ p₁ _ hc₁
    apply Matches.andThen (expect_matches hc₁ _ _)
    intro bodyStart c₂ p₂ _ hc₂
    apply Matches.andThen (declarations_matches hc₂ (by omega))
    intro decls c₃ p₃ _ hc₃
    apply Matches.andThen (statements_matches hc₃ (by omega))
    intro stmts c₄ p₄ _ hc₄
    apply check_matches hc₄
    · exact fun _ => fail_matches hc₄ _
    · intro _
      apply Matches.weaken
      apply Matches.andThen (expect_matches hc₄ _ _)
      intro _ c₅ p₅ _ hc₅
      rw [spanFrom_bind hc₅]
      exact spanned_matches hc₅ start _
  · intro _
    rw [peek_bind hc]
    exact fail_matches hc _

theorem program_matches (hc : c.StandsAt ls p) (hn : 4 * c.size + 4 ≤ n) :
    Matches ls (program n ls p) (Program.read c) := by
  rw [program, Program.read]
  apply Matches.andThen (declarations_matches hc (by omega))
  intro decls c₁ p₁ _ hc₁
  apply Matches.andThen (many_matches (fun d q hd hq => function_matches hq (by omega)) hc₁ _ (by omega))
  intro funcs c₂ p₂ _ hc₂
  apply Matches.andThen (main_matches hc₂ (by omega)).weaken
  intro mainPart c₃ p₃ _ hc₃
  rw [peek_bind hc₃]
  cases hnext : c₃.next? with
  | none => exact give_matches hc₃ _
  | some found => exact fail_matches hc₃ _

end Positional

end ThreeAddress
