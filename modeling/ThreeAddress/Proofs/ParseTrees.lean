import ThreeAddress.Program
import ThreeAddress.Proofs.Grammar

/-!
# Parse trees

The tokens that a tree is written with, and the trees that follow the grammar.

* `Expr.tokens`, `Cond.tokens`, `Stmt.tokens`, `Program.tokens` — the yield of a tree, left to right;
* `Expr.Parses`, `Cond.Parses`, `Stmt.Parses`, `Program.Parses` — the tree is a parse tree of its
  nonterminal.  Chains group to the left: the left side of an operator is a chain again and the right side
  is a single link.  A negation never stands before a comparison that opens with a plain name;
* `Program.Parses.derives` — what a parse tree yields is derivable.
-/

namespace ThreeAddress

/-! ### Yields -/

/-- The mark of an arithmetic operator. -/
def ArithOp.mark : ArithOp → Mark
  | .plus => .plus
  | .minus => .minus

/-- The mark of a connective. -/
def Connective.mark : Connective → Mark
  | .and => .and
  | .or => .or

/-- The mark of a comparison. -/
def Comparison.mark : Comparison → Mark
  | .less => .less
  | .greater => .greater
  | .lessEqual => .lessEqual
  | .greaterEqual => .greaterEqual

/-- The mark of an equality. -/
def Equality.mark : Equality → Mark
  | .equal => .equal
  | .notEqual => .notEqual

/-- The word for a type. -/
def Ty.word : Ty → Keyword
  | .integer => .integer
  | .boolean => .boolean
  | .void => .void

/-- The word for a truth value. -/
def truthWord (b : Bool) : Keyword := if b then .true else .false

/-- The token of a name or a numeral. -/
def Atom.token : Atom → Token
  | .name id => .identifier id
  | .number digits => .number digits

/-- The tokens of a fragment. -/
def Fragment.tokens : Fragment → List Token
  | .atom negated operand => if negated then [.mark .minus, operand.token] else [operand.token]
  | .not id => [.mark .not, .identifier id]
  | .zero => [.number "0"]
  | .bool value => [.word (truthWord value)]

/-- Token lists with commas between them. -/
def commaTokens : List (List Token) → List Token
  | [] => []
  | u :: us => u ++ (us.map (.mark .comma :: ·)).flatten

/-- The tokens of a call. -/
def Call.tokens (c : Call) : List Token :=
  .identifier c.name :: .mark .leftParen ::
    (commaTokens (c.args.map fun a => [a.atom.token]) ++ [.mark .rightParen])

/-- The tokens of an expression. -/
def Expr.tokens : Expr → List Token
  | .arith op left right _ => left.tokens ++ .mark op.mark :: right.tokens
  | .logic op left right _ => left.tokens ++ .mark op.mark :: right.tokens
  | .paren inner _ => .mark .leftParen :: (inner.tokens ++ [.mark .rightParen])
  | .call c _ => c.tokens
  | .fragment f _ => f.tokens

/-- The tokens of a condition. -/
def Cond.tokens : Cond → List Token
  | .comparison op left right _ => left.tokens ++ .mark op.mark :: right.tokens
  | .equality op left right _ => left.tokens ++ .mark op.mark :: right.tokens
  | .neg inner _ => .mark .not :: inner.tokens
  | .paren inner _ => .mark .leftParen :: (inner.tokens ++ [.mark .rightParen])
  | .binary op left right _ => left.tokens ++ .mark op.mark :: right.tokens
  | .bool value _ => [.word (truthWord value)]

mutual

/-- The tokens of a statement. -/
def Stmt.tokens : Stmt → List Token
  | .assign target value _ _ =>
    .identifier target :: .mark .assign :: (value.tokens ++ [.mark .semicolon])
  | .ite cond thenBlock elseBlock _ =>
    .word .ite :: (cond.tokens ++
      (Block.tokens thenBlock ++ .word .otherwise :: Block.tokens elseBlock))
  | .loop cond body _ => .word .loop :: (cond.tokens ++ Block.tokens body)
  | .call c _ => c.tokens ++ [.mark .semicolon]
  | .block inner _ => Block.tokens inner
  | .skip _ => [.word .skip, .mark .semicolon]

/-- The tokens of a block. -/
def Block.tokens : Block → List Token
  | ⟨stmts, _⟩ => .mark .leftBrace :: (Stmt.tokensOfList stmts ++ [.mark .rightBrace])

/-- The tokens of statements in order. -/
def Stmt.tokensOfList : List Stmt → List Token
  | [] => []
  | s :: more => s.tokens ++ Stmt.tokensOfList more

end

/-- The tokens of a name with its type. -/
def typedTokens (name : String) (type : Ty) : List Token :=
  [.identifier name, .mark .colon, .word type.word]

/-- The tokens of a declaration. -/
def Decl.tokens : Decl → List Token
  | .var name type _ => .word .var :: (typedTokens name type ++ [.mark .semicolon])
  | .const name type value _ =>
    .word .const :: (typedTokens name type ++ .mark .assign :: (value.tokens ++ [.mark .semicolon]))

/-- The tokens of declarations in order. -/
def Decl.tokensOfList (ds : List Decl) : List Token := (ds.map Decl.tokens).flatten

/-- The tokens of a function. -/
def Func.tokens (f : Func) : List Token :=
  .word f.returnType.word :: .identifier f.name :: .mark .leftParen ::
    (commaTokens (f.params.map fun p => typedTokens p.name p.type) ++
      .mark .rightParen :: .mark .leftBrace :: (Decl.tokensOfList f.decls ++
        (Stmt.tokensOfList f.body.nodes ++ .word .ret :: .mark .leftParen ::
          ((f.returnValue.elim [] Expr.tokens) ++
            [.mark .rightParen, .mark .semicolon, .mark .rightBrace]))))

/-- The tokens of the main part. -/
def Main.tokens (m : Main) : List Token :=
  .word .main :: .mark .leftBrace ::
    (Decl.tokensOfList m.decls ++ (Stmt.tokensOfList m.body.nodes ++ [.mark .rightBrace]))

/-- The tokens of a program. -/
def Program.tokens (p : Program) : List Token :=
  Decl.tokensOfList p.decls ++ ((p.funcs.map Func.tokens).flatten ++ p.main.tokens)

/-! ### Trees that follow the grammar -/

/-- The leftmost term of an expression. -/
def Expr.opening : Expr → Expr
  | .arith _ left _ _ | .logic _ left _ _ => left.opening
  | e => e

/-- A comparison whose left operand opens with a plain name. -/
def Cond.OpensWithName : Cond → Prop
  | .comparison _ left _ _ | .equality _ left _ _ =>
    ∃ x s, left.opening = .fragment (.atom false (.name x)) s
  | _ => False

/-- The parse trees of expressions, sums and terms.  The numeral `0` is a fragment of its own. -/
inductive Expr.Parses : Nonterminal → Expr → Prop
  | fragment {f : Fragment} {s : Span} (h : f ≠ .atom false (.number "0")) : Parses .term (.fragment f s)
  | call {c : Call} {s : Span} : Parses .term (.call c s)
  | paren {e : Expr} {s : Span} : Parses .expr e → Parses .term (.paren e s)
  | term {e : Expr} : Parses .term e → Parses .arith e
  | arith {op : ArithOp} {left right : Expr} {s : Span} :
      Parses .arith left → Parses .term right → Parses .arith (.arith op left right s)
  | sum {e : Expr} : Parses .arith e → Parses .expr e
  | logic {op : Connective} {left right : Expr} {s : Span} :
      Parses .expr left → Parses .arith right → Parses .expr (.logic op left right s)

/-- The parse trees of conditions and their atoms. -/
inductive Cond.Parses : Nonterminal → Cond → Prop
  | comparison {op : Comparison} {left right : Expr} {s : Span} :
      left.Parses .arith → right.Parses .arith → Parses .catom (.comparison op left right s)
  | equality {op : Equality} {left right : Expr} {s : Span} :
      left.Parses .arith → right.Parses .arith → Parses .catom (.equality op left right s)
  | neg {inner : Cond} {s : Span} :
      Parses .catom inner → ¬ inner.OpensWithName → Parses .catom (.neg inner s)
  | paren {inner : Cond} {s : Span} : Parses .cond inner → Parses .catom (.paren inner s)
  | bool {value : Bool} {s : Span} : Parses .catom (.bool value s)
  | atom {c : Cond} : Parses .catom c → Parses .cond c
  | binary {op : Connective} {left right : Cond} {s : Span} :
      Parses .cond left → Parses .catom right → Parses .cond (.binary op left right s)

/-- The parse trees of statements. -/
inductive Stmt.Parses : Stmt → Prop
  | assign {target : String} {value : Expr} {a s : Span} :
      value.Parses .expr → Parses (.assign target value a s)
  | ite {cond : Cond} {thenBlock elseBlock : Braced Stmt} {s : Span} :
      cond.Parses .cond → (∀ u ∈ thenBlock.nodes, Parses u) → (∀ u ∈ elseBlock.nodes, Parses u) →
        Parses (.ite cond thenBlock elseBlock s)
  | loop {cond : Cond} {body : Braced Stmt} {s : Span} :
      cond.Parses .cond → (∀ u ∈ body.nodes, Parses u) → Parses (.loop cond body s)
  | call {c : Call} {s : Span} : Parses (.call c s)
  | block {inner : Braced Stmt} {s : Span} : (∀ u ∈ inner.nodes, Parses u) → Parses (.block inner s)
  | skip {s : Span} : Parses (.skip s)

/-- The parse trees of declarations. -/
def Decl.Parses : Decl → Prop
  | .var _ _ _ => True
  | .const _ _ value _ => value.Parses .expr

/-- The parse trees of functions. -/
structure Func.Parses (f : Func) : Prop where
  decls : ∀ d ∈ f.decls, d.Parses
  body : ∀ s ∈ f.body.nodes, s.Parses
  returned : ∀ e, f.returnValue = some e → e.Parses .expr

/-- The parse trees of main parts. -/
structure Main.Parses (m : Main) : Prop where
  decls : ∀ d ∈ m.decls, d.Parses
  body : ∀ s ∈ m.body.nodes, s.Parses

/-- The parse trees of programs. -/
structure Program.Parses (p : Program) : Prop where
  decls : ∀ d ∈ p.decls, d.Parses
  funcs : ∀ f ∈ p.funcs, f.Parses
  main : p.main.Parses

/-! ### What a parse tree yields is derivable -/

theorem Atom.derives_token (a : Atom) : Phrase.operand.Derives [a.token] := by
  cases a with
  | name id => exact Phrase.derives_operand.2 (.inl ⟨id, rfl⟩)
  | number digits => exact Phrase.derives_operand.2 (.inr ⟨digits, rfl⟩)

theorem ArithOp.derives_mark (op : ArithOp) : Phrase.sign.Derives [.mark op.mark] := by
  rw [Phrase.derives_sign]
  cases op <;> simp [mark]

theorem Connective.derives_mark (op : Connective) : Phrase.connective.Derives [.mark op.mark] := by
  rw [Phrase.derives_connective]
  cases op <;> simp [mark]

theorem Fragment.derives_tokens (f : Fragment) : (Phrase.sort .fragment).Derives f.tokens := by
  rw [Phrase.derives_fragment]
  cases f with
  | atom negated operand =>
    cases negated with
    | false => exact .inl operand.derives_token
    | true => exact .inr (.inl ⟨_, operand.derives_token, rfl⟩)
  | not id => exact .inr (.inr (.inl ⟨id, rfl⟩))
  | zero => exact .inl (Phrase.derives_operand.2 (.inr ⟨"0", rfl⟩))
  | bool value =>
    cases value with
    | true => exact .inr (.inr (.inr (.inl rfl)))
    | false => exact .inr (.inr (.inr (.inr rfl)))

theorem derives_commaTokens {r : Phrase} {us : List (List Token)} (hne : us ≠ [])
    (hus : ∀ u ∈ us, r.Derives u) : (Phrase.separated r (.mark .comma)).Derives (commaTokens us) := by
  cases us with
  | nil => exact absurd rfl hne
  | cons u us =>
    obtain ⟨hu, hus⟩ := List.forall_mem_cons.1 hus
    refine Phrase.derives_separated.2 ⟨u, _, hu, ?_, rfl⟩
    intro v hv
    obtain ⟨y, hy, rfl⟩ := List.mem_map.1 hv
    exact ⟨_, y, .token _, hus y hy, rfl⟩

theorem Call.derives_tokens (c : Call) : Phrase.call.Derives c.tokens := by
  refine Phrase.derives_call.2 ⟨c.name, _, ?_, rfl⟩
  rw [Phrase.derives_args]
  by_cases h : c.args = []
  · exact .inl (by rw [h]; rfl)
  · refine .inr (derives_commaTokens (by simpa using h) ?_)
    intro u hu
    obtain ⟨a, -, rfl⟩ := List.mem_map.1 hu
    exact a.atom.derives_token

theorem Expr.Parses.derives {n : Nonterminal} {e : Expr} (h : e.Parses n) :
    (Phrase.sort n).Derives e.tokens := by
  induction h with
  | fragment => exact Phrase.derives_term.2 (.inr (.inr (Fragment.derives_tokens _)))
  | call => exact Phrase.derives_term.2 (.inr (.inl (Call.derives_tokens _)))
  | paren _ ih => exact Phrase.derives_term.2 (.inl ⟨_, ih, rfl⟩)
  | term _ ih => exact .sort (.single ih)
  | arith _ _ hl hr => exact .sort ((Phrase.derives_sort.1 hl).link (ArithOp.derives_mark _) hr)
  | sum _ ih => exact .sort (.single ih)
  | logic _ _ hl hr => exact .sort ((Phrase.derives_sort.1 hl).link (Connective.derives_mark _) hr)

theorem Comparison.mark_isComparison (op : Comparison) : op.mark.isComparison = true := by
  cases op <;> rfl

theorem Equality.mark_isComparison (op : Equality) : op.mark.isComparison = true := by
  cases op <;> rfl

theorem Cond.Parses.derives {n : Nonterminal} {c : Cond} (h : c.Parses n) :
    (Phrase.sort n).Derives c.tokens := by
  induction h with
  | comparison hl hr =>
    exact Phrase.derives_catom.2
      (.inl ⟨_, _, _, hl.derives, Comparison.mark_isComparison _, hr.derives, rfl⟩)
  | equality hl hr =>
    exact Phrase.derives_catom.2
      (.inl ⟨_, _, _, hl.derives, Equality.mark_isComparison _, hr.derives, rfl⟩)
  | neg _ _ ih => exact Phrase.derives_catom.2 (.inr (.inl ⟨_, ih, rfl⟩))
  | paren _ ih => exact Phrase.derives_catom.2 (.inr (.inr (.inl ⟨_, ih, rfl⟩)))
  | @bool value s =>
    refine Phrase.derives_catom.2 (.inr (.inr (.inr ?_)))
    cases value with
    | true => exact .inl rfl
    | false => exact .inr rfl
  | atom _ ih => exact .sort (.single ih)
  | binary _ _ hl hr => exact .sort ((Phrase.derives_sort.1 hl).link (Connective.derives_mark _) hr)

/-- The yields of trees of one kind, one behind the other. -/
theorem derives_flatten {α : Type} {r : Phrase} {as : List α} {tokens : α → List Token}
    (h : ∀ a ∈ as, r.Derives (tokens a)) : (Phrase.many r).Derives (as.map tokens).flatten := by
  refine Phrase.derives_many.2 ⟨as.map tokens, ?_, rfl⟩
  intro u hu
  obtain ⟨a, ha, rfl⟩ := List.mem_map.1 hu
  exact h a ha

namespace Stmt

theorem tokensOfList_eq (ss : List Stmt) : tokensOfList ss = (ss.map tokens).flatten := by
  induction ss with
  | nil => rfl
  | cons s more ih => simp [tokensOfList, ih]

/-- Statements in order. -/
theorem derives_tokensOfList {ss : List Stmt}
    (h : ∀ s ∈ ss, (Phrase.sort .stmt).Derives s.tokens) :
    (Phrase.many (.sort .stmt)).Derives (tokensOfList ss) := by
  rw [tokensOfList_eq]
  exact derives_flatten h

theorem derives_block {b : Block} (h : ∀ s ∈ b.nodes, (Phrase.sort .stmt).Derives s.tokens) :
    Phrase.block.Derives (Block.tokens b) := by
  obtain ⟨ss, span⟩ := b
  exact Phrase.derives_block.2 ⟨_, derives_tokensOfList h, rfl⟩

theorem Parses.derives {s : Stmt} (h : s.Parses) : (Phrase.sort .stmt).Derives s.tokens := by
  induction h with
  | assign hv => exact Phrase.derives_stmt.2 (.inl ⟨_, _, hv.derives, rfl⟩)
  | ite hc _ _ iht ihe =>
    exact Phrase.derives_stmt.2 (.inr (.inr (.inr (.inl
      ⟨_, _, _, hc.derives, derives_block iht, derives_block ihe, rfl⟩))))
  | loop hc _ ih =>
    exact Phrase.derives_stmt.2 (.inr (.inr (.inr (.inr (.inl
      ⟨_, _, hc.derives, derives_block ih, rfl⟩)))))
  | call => exact Phrase.derives_stmt.2 (.inr (.inl ⟨_, Call.derives_tokens _, rfl⟩))
  | block _ ih => exact Phrase.derives_stmt.2 (.inr (.inr (.inl (derives_block ih))))
  | skip => exact Phrase.derives_stmt.2 (.inr (.inr (.inr (.inr (.inr rfl)))))

end Stmt

theorem Ty.derives_word (t : Ty) : (Phrase.sort .type).Derives [.word t.word] := by
  refine Phrase.derives_type.2 ⟨t.word, ?_, rfl⟩
  cases t <;> rfl

theorem derives_typedTokens (name : String) (type : Ty) :
    Phrase.typedName.Derives (typedTokens name type) :=
  Phrase.derives_typedName.2 ⟨name, _, type.derives_word, rfl⟩

theorem Decl.Parses.derives {d : Decl} (h : d.Parses) : (Phrase.sort .decl).Derives d.tokens := by
  cases d with
  | var name type s => exact Phrase.derives_decl.2 (.inl ⟨_, derives_typedTokens name type, rfl⟩)
  | const name type value s =>
    exact Phrase.derives_decl.2 (.inr ⟨_, _, derives_typedTokens name type, Expr.Parses.derives h, rfl⟩)

theorem Func.Parses.derives {f : Func} (h : f.Parses) : (Phrase.sort .func).Derives f.tokens := by
  refine Phrase.derives_func.2 ⟨_, f.name, _, _, _, _, f.returnType.derives_word, ?_,
    derives_flatten fun d hd => (h.decls d hd).derives,
    Stmt.derives_tokensOfList fun s hs => (h.body s hs).derives, ?_, rfl⟩
  · rw [Phrase.derives_opt]
    by_cases hp : f.params = []
    · exact .inl (by rw [hp]; rfl)
    · refine .inr (derives_commaTokens (by simpa using hp) ?_)
      intro u hu
      obtain ⟨p, -, rfl⟩ := List.mem_map.1 hu
      exact derives_typedTokens p.name p.type
  · rw [Phrase.derives_opt]
    cases hv : f.returnValue with
    | none => exact .inl rfl
    | some e => exact .inr (h.returned e hv).derives

theorem Main.Parses.derives {m : Main} (h : m.Parses) : (Phrase.sort .main).Derives m.tokens :=
  Phrase.derives_main.2 ⟨_, _, derives_flatten fun d hd => (h.decls d hd).derives,
    Stmt.derives_tokensOfList fun s hs => (h.body s hs).derives, rfl⟩

/-- **Yields are derivable.**  The tokens of a parse tree of a program are derivable from `program`. -/
theorem Program.Parses.derives {p : Program} (h : p.Parses) :
    (Phrase.sort .program).Derives p.tokens :=
  Phrase.derives_program.2 ⟨_, _, _, derives_flatten fun d hd => (h.decls d hd).derives,
    derives_flatten fun f hf => (h.funcs f hf).derives, h.main.derives, rfl⟩

end ThreeAddress
