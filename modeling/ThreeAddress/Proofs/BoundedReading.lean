import ThreeAddress.Proofs.PositionalRoutines
import ThreeAddress.Proofs.ReadTrees

/-!
# Reading ends and stays within the list

Started at any position of any list of lexemes, every routine of the reader ends, and no lookup and no step back on
the way misses the list.  The position afterwards lies between the one before and the end of the list, in success and
in failure, and a success has taken a lexeme unless the routine reads a list that may be empty.

* `Routine` — the routines; `Routine.run` by positions, `Routine.read` by cursors, `Routine.least` what they take;
* `Landing.Bounded` — what is said of one run;
* `reading_bounded` — all of this, and the atoms of conditions that fail as comparisons.
-/

namespace ThreeAddress

variable {α : Type} {k n p : Nat} {ls : List Lexeme} {c : Cursor}

/-! ### The routines -/

/-- The routines, by what they deliver. -/
inductive Routine : Type → Type
  | program : Routine Program
  | function : Routine Func
  | parameterList : Routine (List Param)
  | parameter : Routine Param
  | main : Routine Main
  | block : Routine Block
  | statements : Routine (List Stmt)
  | statement : Routine Stmt
  | namedStatement : Routine Stmt
  | ifStatement : Routine Stmt
  | whileStatement : Routine Stmt
  | declarations : Routine (List Decl)
  | varDecl : Routine Decl
  | constDecl : Routine Decl
  | condition : Routine Cond
  | conditionAtom : Routine Cond
  | comparison : Routine Cond
  | expression : Routine Expr
  | sum : Routine Expr
  | term : Routine Expr
  | fragment : Routine Expr
  | call (name : String) (start : Span) : Routine Call
  | argument : Routine Argument
  | type : Routine Ty
  | expect (t : Token) (wanted : String) : Routine Span
  | expectName (wanted : String) : Routine (String × Span)

/-- The result of an outcome and where it leaves the cursor. -/
def Outcome.ending (o : Outcome k c α) : Except Fault α × Cursor := (o.result, o.stop)

namespace Routine

/-- A routine over positions, with a budget. -/
def run : Routine α → Nat → Positional α
  | .program => Positional.program
  | .function => Positional.function
  | .parameterList => Positional.parameterList
  | .parameter => fun _ => Positional.parameter
  | .main => Positional.main
  | .block => Positional.block
  | .statements => Positional.statements
  | .statement => Positional.statement
  | .namedStatement => Positional.namedStatement
  | .ifStatement => Positional.ifStatement
  | .whileStatement => Positional.whileStatement
  | .declarations => Positional.declarations
  | .varDecl => fun _ => Positional.varDecl
  | .constDecl => Positional.constDecl
  | .condition => Positional.condition
  | .conditionAtom => Positional.conditionAtom
  | .comparison => Positional.comparison
  | .expression => Positional.expression
  | .sum => Positional.sum
  | .term => Positional.term
  | .fragment => fun _ => Positional.fragment
  | .call name start => fun n => Positional.call n name start
  | .argument => fun _ => Positional.argument
  | .type => fun _ => Positional.type
  | .expect t wanted => fun _ => Positional.expect t wanted
  | .expectName wanted => fun _ => Positional.expectName wanted

/-- The same routine as the reader runs it. -/
def read : Routine α → Cursor → Except Fault α × Cursor
  | .program, c => (Program.read c).ending
  | .function, c => (Func.read c).ending
  | .parameterList, c => (Param.readAll c).ending
  | .parameter, c => (Param.read c).ending
  | .main, c => (Main.read c).ending
  | .block, c => (Block.read c).ending
  | .statements, c => (Stmt.readAll c).ending
  | .statement, c => (Stmt.read c).ending
  | .namedStatement, c => (Stmt.readNamed c).ending
  | .ifStatement, c => (Stmt.readIte c).ending
  | .whileStatement, c => (Stmt.readLoop c).ending
  | .declarations, c => (Decl.readAll c).ending
  | .varDecl, c => (Decl.readVar c).ending
  | .constDecl, c => (Decl.readConst c).ending
  | .condition, c => (Cond.read c).ending
  | .conditionAtom, c => (Cond.readAtom c).ending
  | .comparison, c => (Cond.readComparison c).ending
  | .expression, c => (Expr.read c).ending
  | .sum, c => (Expr.readSum c).ending
  | .term, c => (Expr.readTerm c).ending
  | .fragment, c => (Expr.readFragment c).ending
  | .call name start, c => (Call.readFrom name start c).ending
  | .argument, c => (Argument.read c).ending
  | .type, c => (Ty.read c).ending
  | .expect t wanted, c => (c.expect t wanted).ending
  | .expectName wanted, c => (c.expectName wanted).ending

/-- The number of lexemes that a success takes at least: one, but for lists that may be empty. -/
def least : Routine α → Nat
  | .statements | .declarations | .parameterList => 0
  | _ => 1

/-- A budget that suffices where some lexemes are to come. -/
def budget (size : Nat) : Nat := 4 * size + 4

end Routine

/-! ### One run -/

/-- A run that started at some position has an end: a value, with so many lexemes taken at least, or a fault.  It
stands between its start and the end of the list, and the reader comes to the same. -/
def Landing.Bounded (ls : List Lexeme) (p least : Nat) (x : Landing α) (e : Except Fault α × Cursor) : Prop :=
  (∃ a q, x = .done a q ∧ p + least ≤ q ∧ q ≤ ls.length ∧ e = (.ok a, .ofPosition ls q)) ∨
  (∃ fault q, x = .failed fault q ∧ p ≤ q ∧ q ≤ ls.length ∧ e = (.error fault, .ofPosition ls q))

theorem Landing.Matches.bounded_of {least : Nat} {x : Landing α} {o : Outcome k c α} (h : Matches ls x o)
    (hc : c.StandsAt ls p) (hleast : ∀ a d hd, o = .done a d hd → d.size + least ≤ c.size) :
    x.Bounded ls p least o.ending := by
  have hle := hc.le
  have hsize := hc.size
  cases h with
  | @done a q d hd h =>
    have htakes := hleast a d h rfl
    have hqle := hd.le
    have hqsize := hd.size
    refine .inl ⟨a, q, rfl, by omega, hqle, ?_⟩
    show (Except.ok a, d) = _
    rw [hd.eq]
  | @failed fault q d hd h =>
    have hqle := hd.le
    have hqsize := hd.size
    refine .inr ⟨fault, q, rfl, by omega, hqle, ?_⟩
    show (Except.error fault, d) = _
    rw [hd.eq]

theorem Landing.Matches.bounded {x : Landing α} {o : Outcome k c α} (h : Matches ls x o) (hc : c.StandsAt ls p) :
    x.Bounded ls p k o.ending :=
  h.bounded_of hc fun _ _ hd _ => hd

/-- A program has a main part, which takes a lexeme. -/
theorem Program.read_takes_one {program : Program} {d : Cursor} {h : d.size + 0 ≤ c.size}
    (hread : Program.read c = .done program d h) : d.size + 1 ≤ c.size := by
  rw [Program.read] at hread
  obtain ⟨decls, c₁, hc₁, _, -, hread⟩ := Outcome.andThen_eq_done hread
  obtain ⟨funcs, c₂, hc₂, _, -, hread⟩ := Outcome.andThen_eq_done hread
  obtain ⟨main, c₃, hc₃, hd, hmain, -⟩ := Outcome.andThen_eq_done hread
  have htakes : c₃.size + 1 ≤ c₂.size := by
    cases hm : Main.read c₂ with
    | failed fault e he =>
      rw [hm] at hmain
      cases hmain
    | done main' e he =>
      rw [hm] at hmain
      cases hmain
      exact he
  omega

/-- Every routine, from a position of the list. -/
theorem Routine.run_bounded (r : Routine α) (hc : c.StandsAt ls p) (hn : Routine.budget c.size ≤ n) :
    (r.run n ls p).Bounded ls p r.least (r.read c) := by
  rw [budget] at hn
  cases r with
  | program => exact (Positional.program_matches hc hn).bounded_of hc fun _ _ _ => Program.read_takes_one
  | function => exact (Positional.function_matches hc hn).bounded hc
  | parameterList => exact (Positional.parameterList_matches hc (by omega)).bounded hc
  | parameter => exact (Positional.parameter_matches hc).bounded hc
  | main => exact (Positional.main_matches hc hn).bounded hc
  | block => exact (Positional.block_matches hc (by omega)).bounded hc
  | statements => exact (Positional.statements_matches hc hn).bounded hc
  | statement => exact (Positional.statement_matches hc (by omega)).bounded hc
  | namedStatement => exact (Positional.namedStatement_matches hc (by omega)).bounded hc
  | ifStatement => exact (Positional.ifStatement_matches hc (by omega)).bounded hc
  | whileStatement => exact (Positional.whileStatement_matches hc (by omega)).bounded hc
  | declarations => exact (Positional.declarations_matches hc (by omega)).bounded hc
  | varDecl => exact (Positional.varDecl_matches hc).bounded hc
  | constDecl => exact (Positional.constDecl_matches hc (by omega)).bounded hc
  | condition => exact (Positional.condition_matches hc (by omega)).bounded hc
  | conditionAtom => exact (Positional.conditionAtom_matches hc (by omega)).bounded hc
  | comparison => exact (Positional.comparison_matches hc (by omega)).bounded hc
  | expression => exact (Positional.expression_matches hc (by omega)).bounded hc
  | sum => exact (Positional.sum_matches hc (by omega)).bounded hc
  | term => exact (Positional.term_matches hc (by omega)).bounded hc
  | fragment => exact (Positional.fragment_matches hc).bounded hc
  | call name start => exact (Positional.call_matches name start hc (by omega)).bounded hc
  | argument => exact (Positional.argument_matches hc).bounded hc
  | type => exact (Positional.type_matches hc).bounded hc
  | expect t wanted => exact (Positional.expect_matches hc t wanted).bounded hc
  | expectName wanted => exact (Positional.expectName_matches hc wanted).bounded hc

/-! ### All runs -/

/-- **Reading ends within the list.**  From every position of every list of lexemes, with a budget that grows with the
lexemes to come, every routine has an end within bounds and comes to what the reader does.  Of an atom of a condition
that fails as a comparison: unless a token is next that starts another atom, the atom fails with the fault of the
comparison and the position is the one it started at; and if one is, any other fault in the place of that one leads to
the same. -/
theorem reading_bounded (hp : p ≤ ls.length) (hn : Routine.budget (ls.length - p) ≤ n) :
    (∀ {α : Type} (r : Routine α), (r.run n ls p).Bounded ls p r.least (r.read (.ofPosition ls p))) ∧
    ∀ fault q, Positional.comparison n ls p = .failed fault q →
      ((ls[p]?.map (·.token)).any Positional.opensOther = false →
        Positional.conditionAtom (n + 1) ls p = .failed fault p) ∧
      ((ls[p]?.map (·.token)).any Positional.opensOther = true → ∀ fault',
        Positional.conditionAtom (n + 1) ls p =
          Positional.otherAtom (Positional.conditionAtom n) (Positional.condition n) p fault' ls q) := by
  have hc : (Cursor.ofPosition ls p).StandsAt ls p := ⟨hp, rfl⟩
  have hnext : (Cursor.ofPosition ls p).next? = ls[p]?.map (·.token) := by rw [Cursor.next?, hc.head?]
  rw [← hc.size] at hn
  refine ⟨fun r => r.run_bounded hc hn, ?_⟩
  intro fault q hfailed
  rw [Positional.conditionAtom_of_failed hfailed, ← hnext]
  refine ⟨fun hopens => Positional.otherAtom_eq_failed fault q hc hopens, ?_⟩
  intro hopens fault'
  exact Positional.otherAtom_forgets fault fault' q hc hopens

/-- A name in parentheses. -/
def groupedName : List Lexeme :=
  [⟨.mark .leftParen, ⟨0, 1⟩⟩, ⟨.identifier "a", ⟨1, 2⟩⟩, ⟨.mark .rightParen, ⟨2, 3⟩⟩]

/-- The fault of a comparison that would start with that name. -/
def groupedNameFault : Fault := ⟨.expectedCondition, "Expected comparison operator, found ')'", ⟨2, 3⟩, none⟩

/-- The comparison takes the name and fails behind it; the atom fails with the same fault, before the name. -/
theorem reading_bounded_groupedName : 1 ≤ groupedName.length ∧ Routine.budget (groupedName.length - 1) ≤ 12 ∧
    (Routine.conditionAtom.run 12 groupedName 1).Bounded groupedName 1 1
      (Routine.conditionAtom.read (.ofPosition groupedName 1)) ∧
    Positional.comparison 12 groupedName 1 = .failed groupedNameFault 2 ∧
    Positional.conditionAtom 13 groupedName 1 = .failed groupedNameFault 1 := by
  have hp : 1 ≤ groupedName.length := by decide
  have hn : Routine.budget (groupedName.length - 1) ≤ 12 := by decide
  have hfailed : Positional.comparison 12 groupedName 1 = .failed groupedNameFault 2 := by decide +kernel
  obtain ⟨hrun, hatom⟩ := reading_bounded hp hn
  refine ⟨hp, hn, hrun .conditionAtom, hfailed, ?_⟩
  exact (hatom groupedNameFault 2 hfailed).1 (by decide)

/-- The faults of an atom and of an atom inside it can be equal.  The group `( ;` fails behind its parenthesis, where
the atom inside it started; that the comparison which was tried first failed there too plays no part. -/
example : Positional.conditionAtom 13 [⟨.mark .leftParen, ⟨0, 1⟩⟩, ⟨.mark .semicolon, ⟨1, 2⟩⟩] 0 =
    .failed ⟨.expectedExpression, "Expected expression, found ';'", ⟨1, 2⟩, none⟩ 1 := by
  decide +kernel

end ThreeAddress
