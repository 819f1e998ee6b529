import ThreeAddress.Proofs.ParseTrees

/-!
# Outlines of trees

What the spans of a tree say, taken apart from everything else in it: every node, with its span, over the tokens and
nodes it is made of.

* `Span.Exact` — from the start of the first to the end of the last of some tokens;
* `Outline.Over` — an outline over the tokens it was read from: they are its leaves, from left to right, and the span
  of every node is exactly that of the tokens below it;
* `InOrder`, `Outline.Nested` — tokens one behind the other, and nodes that lie within each other and side by side;
* `Outline.Over.nested`, `Outline.AllOver.before` — over tokens in order, nodes are nested;
* `Expr.outline`, `Cond.outline`, `Stmt.outline`, `Func.outline`, `Program.outlines` — the outlines of trees.
-/

namespace ThreeAddress

/-! ### Spans of tokens -/

/-- From the start of the first to the end of the last of some tokens, of which there is at least one. -/
def Span.Exact (s : Span) (ls : List Lexeme) : Prop :=
  ∃ first last, ls.head? = some first ∧ ls.getLast? = some last ∧ s = ⟨first.span.start, last.span.stop⟩

/-- A span within another one. -/
def Span.Within (s t : Span) : Prop := t.start ≤ s.start ∧ s.stop ≤ t.stop

/-- A span that ends before another one starts, or where it starts. -/
def Span.Before (s t : Span) : Prop := s.stop ≤ t.start

/-- Tokens one behind the other, none of them empty. -/
structure InOrder (ls : List Lexeme) : Prop where
  nonempty : ∀ l ∈ ls, l.span.start < l.span.stop
  ordered : ls.Pairwise fun l k => l.span.stop ≤ k.span.start

namespace InOrder

variable {u v ls : List Lexeme} {l k : Lexeme}

theorem left (h : InOrder (u ++ v)) : InOrder u :=
  ⟨fun l hl => h.nonempty l (List.mem_append_left v hl), (List.pairwise_append.1 h.ordered).1⟩

theorem right (h : InOrder (u ++ v)) : InOrder v :=
  ⟨fun l hl => h.nonempty l (List.mem_append_right u hl), (List.pairwise_append.1 h.ordered).2.1⟩

theorem across (h : InOrder (u ++ v)) (hl : l ∈ u) (hk : k ∈ v) : l.span.stop ≤ k.span.start :=
  (List.pairwise_append.1 h.ordered).2.2 l hl k hk

/-- No token starts before the first one. -/
theorem first_le (h : InOrder ls) (hf : ls.head? = some k) (hl : l ∈ ls) : k.span.start ≤ l.span.start := by
  obtain ⟨more, rfl⟩ := List.head?_eq_some_iff.1 hf
  rcases List.mem_cons.1 hl with rfl | hl
  · exact Nat.le_refl _
  · have hk := h.nonempty k List.mem_cons_self
    have hkl := (List.pairwise_cons.1 h.ordered).1 l hl
    omega

/-- No token ends behind the last one. -/
theorem le_last (h : InOrder ls) (he : ls.getLast? = some k) (hl : l ∈ ls) : l.span.stop ≤ k.span.stop := by
  obtain ⟨front, rfl⟩ := List.getLast?_eq_some_iff.1 he
  rcases List.mem_append.1 hl with hl | hl
  · have hk := h.nonempty k (by simp)
    have hlk := h.across hl (List.mem_singleton.2 rfl)
    omega
  · exact Nat.le_of_eq (by rw [List.mem_singleton.1 hl])

end InOrder

namespace Span.Exact

variable {s t : Span} {u v m ls : List Lexeme}

theorem ne_nil (h : s.Exact ls) : ls ≠ [] := by
  obtain ⟨first, _, hf, -⟩ := h
  rintro rfl
  cases hf

theorem single (l : Lexeme) : l.span.Exact [l] := ⟨l, l, rfl, rfl, rfl⟩

/-- The span starts and ends where tokens do. -/
theorem ends (h : s.Exact ls) : ∃ l ∈ ls, ∃ k ∈ ls, s.start = l.span.start ∧ s.stop = k.span.stop := by
  obtain ⟨first, last, hf, he, rfl⟩ := h
  exact ⟨first, List.mem_of_head? hf, last, List.mem_of_getLast? he, rfl, rfl⟩

theorem nonempty (h : s.Exact ls) (hls : InOrder ls) : s.start < s.stop := by
  obtain ⟨first, last, hf, he, rfl⟩ := h
  have hlast := hls.nonempty last (List.mem_of_getLast? he)
  have hle := hls.first_le hf (List.mem_of_getLast? he)
  dsimp only
  omega

/-- The span of tokens among others lies within that of them all. -/
theorem within (hs : s.Exact u) (ht : t.Exact ls) (hls : InOrder ls) (hu : ∀ l ∈ u, l ∈ ls) : s.Within t := by
  obtain ⟨l, hl, k, hk, hstart, hstop⟩ := hs.ends
  obtain ⟨first, last, hf, he, rfl⟩ := ht
  refine ⟨?_, ?_⟩
  · rw [hstart]
    exact hls.first_le hf (hu l hl)
  · rw [hstop]
    exact hls.le_last he (hu k hk)

/-- The span of tokens ends before that of tokens behind them starts. -/
theorem before (hs : s.Exact u) (ht : t.Exact v) (h : InOrder (u ++ ls)) (hv : ∀ l ∈ v, l ∈ ls) :
    s.Before t := by
  obtain ⟨_, _, k, hk, -, hstop⟩ := hs.ends
  obtain ⟨l, hl, _, _, hstart, -⟩ := ht.ends
  rw [Span.Before, hstop, hstart]
  exact h.across hk (hv l hl)

/-- What covers the first and the last of three runs of tokens covers them all. -/
theorem merge (hs : s.Exact u) (ht : t.Exact v) (h : InOrder (u ++ (m ++ v))) :
    (s.merge t).Exact (u ++ (m ++ v)) := by
  have hst : s.stop ≤ t.start := hs.before ht h fun l hl => List.mem_append_right m hl
  have hs' := hs.nonempty h.left
  have ht' := ht.nonempty h.right.right
  obtain ⟨first, _, hf, -, hsfirst⟩ := hs
  obtain ⟨_, last, -, he, htlast⟩ := ht
  refine ⟨first, last, by simp [hf], by simp [he], ?_⟩
  have hmin : min s.start t.start = s.start := by omega
  have hmax : max s.stop t.stop = t.stop := by omega
  rw [Span.merge, hmin, hmax, hsfirst, htlast]

/-- What covers the first and the last token covers all of them. -/
theorem merge_last {l k : Lexeme} (h : InOrder (l :: u)) (hk : (l :: u).getLast? = some k) :
    (l.span.merge k.span).Exact (l :: u) := by
  have hk' := List.mem_of_getLast? hk
  have hstart := h.first_le rfl hk'
  have hstop := h.le_last hk List.mem_cons_self
  refine ⟨l, k, rfl, hk, ?_⟩
  rw [Span.merge, Nat.min_eq_left hstart, Nat.max_eq_right hstop]

end Span.Exact

/-! ### Outlines -/

/-- A token, or a node with its span and what it is made of. -/
inductive Outline
  | token (t : Token)
  | node (span : Span) (parts : List Outline)

namespace Outline

/-- The span of a node. -/
def span? : Outline → Option Span
  | .token _ => none
  | .node s _ => some s

/-- The spans of the nodes among some outlines. -/
def spans (os : List Outline) : List Span := os.filterMap span?

mutual

/-- An outline over the tokens it was read from. -/
def Over : Outline → List Lexeme → Prop
  | .token t, ls => ∃ l, ls = [l] ∧ l.token = t
  | .node s parts, ls => s.Exact ls ∧ AllOver parts ls

/-- Outlines over the tokens they were read from, each behind the one before it. -/
def AllOver : List Outline → List Lexeme → Prop
  | [], ls => ls = []
  | o :: os, ls => ∃ u v, ls = u ++ v ∧ o.Over u ∧ AllOver os v

end

mutual

/-- Every node is not empty, its child nodes lie within it, and each of them ends before the next one starts. -/
def Nested : Outline → Prop
  | .token _ => True
  | .node s parts =>
    s.start < s.stop ∧ (∀ t ∈ spans parts, t.Within s) ∧ (spans parts).Pairwise Span.Before ∧ AllNested parts

/-- The same of every outline of a list. -/
def AllNested : List Outline → Prop
  | [] => True
  | o :: os => o.Nested ∧ AllNested os

end

variable {o : Outline} {os ps : List Outline} {ls u v : List Lexeme}

@[simp] theorem allOver_nil : AllOver [] ls ↔ ls = [] := by rw [AllOver]

theorem allOver_append :
    AllOver (os ++ ps) ls ↔ ∃ u v, ls = u ++ v ∧ AllOver os u ∧ AllOver ps v := by
  induction os generalizing ls with
  | nil => simp
  | cons o os ih =>
    simp only [List.cons_append, AllOver, ih]
    constructor
    · rintro ⟨u, _, rfl, ho, v, w, rfl, hos, hps⟩
      exact ⟨u ++ v, w, by simp, ⟨u, v, rfl, ho, hos⟩, hps⟩
    · rintro ⟨_, w, rfl, ⟨u, v, rfl, ho, hos⟩, hps⟩
      exact ⟨u, v ++ w, by simp, ho, v, w, rfl, hos, hps⟩

/-- The span of a node is that of the tokens below it. -/
theorem Over.exact {s : Span} (h : o.Over ls) (hs : o.span? = some s) : s.Exact ls := by
  cases o with
  | token t => cases hs
  | node t parts =>
    cases hs
    rw [Over] at h
    exact h.1

/-- The span of each of the nodes is that of some of the tokens. -/
theorem AllOver.exact {s : Span} (h : AllOver os ls) (hs : s ∈ spans os) :
    ∃ u, s.Exact u ∧ ∀ l ∈ u, l ∈ ls := by
  induction os generalizing ls with
  | nil => cases hs
  | cons o os ih =>
    rw [AllOver] at h
    obtain ⟨u, v, rfl, ho, hos⟩ := h
    obtain ⟨p, hp, hps⟩ := List.mem_filterMap.1 hs
    rcases List.mem_cons.1 hp with rfl | hp
    · exact ⟨u, ho.exact hps, fun l hl => List.mem_append_left v hl⟩
    · obtain ⟨w, hw, hsub⟩ := ih hos (List.mem_filterMap.2 ⟨p, hp, hps⟩)
      exact ⟨w, hw, fun l hl => List.mem_append_right u (hsub l hl)⟩

/-- Each of the nodes ends before the next one starts. -/
theorem AllOver.before (h : AllOver os ls) (hls : InOrder ls) : (spans os).Pairwise Span.Before := by
  induction os generalizing ls with
  | nil => exact .nil
  | cons o os ih =>
    rw [AllOver] at h
    obtain ⟨u, v, rfl, ho, hos⟩ := h
    have hmore := ih hos hls.right
    cases hspan : o.span? with
    | none => simpa [spans, hspan] using hmore
    | some s =>
      have hcons : spans (o :: os) = s :: spans os := by simp [spans, hspan]
      rw [hcons]
      refine .cons (fun t ht => ?_) hmore
      obtain ⟨w, hw, hsub⟩ := hos.exact ht
      exact (ho.exact hspan).before hw hls hsub

mutual

/-- **Nodes are nested.**  In an outline over tokens in order, children lie within their parent, side by side. -/
theorem Over.nested : ∀ {o : Outline} {ls : List Lexeme}, o.Over ls → InOrder ls → o.Nested
  | .token _, _, _, _ => trivial
  | .node s parts, ls, h, hls => by
    rw [Over] at h
    obtain ⟨hs, hparts⟩ := h
    refine ⟨hs.nonempty hls, fun t ht => ?_, hparts.before hls, hparts.nested hls⟩
    obtain ⟨u, hu, hsub⟩ := hparts.exact ht
    exact hu.within hs hls hsub

theorem AllOver.nested : ∀ {os : List Outline} {ls : List Lexeme}, AllOver os ls → InOrder ls → AllNested os
  | [], _, _, _ => trivial
  | o :: os, ls, h, hls => by
    rw [AllOver] at h
    obtain ⟨u, v, rfl, ho, hos⟩ := h
    exact ⟨ho.nested hls.left, hos.nested hls.right⟩

end

end Outline

/-! ### The outlines of trees -/

/-- Tokens as outlines. -/
def Token.outlines (ts : List Token) : List Outline := ts.map .token

/-- Outlines with commas between them. -/
def Outline.commas (os : List Outline) : List Outline := os.intersperse (.token (.mark .comma))

/-- An argument is its one token. -/
def Argument.outline (a : Argument) : Outline := .node a.span [.token a.atom.token]

/-- A call reaches from its name to its closing parenthesis. -/
def Call.outline (c : Call) : Outline :=
  .node c.span (.token (.identifier c.name) :: .token (.mark .leftParen) ::
    (Outline.commas (c.args.map Argument.outline) ++ [.token (.mark .rightParen)]))

/-- Parentheses belong to the node they make. -/
def Expr.outline : Expr → Outline
  | .arith op left right s => .node s [left.outline, .token (.mark op.mark), right.outline]
  | .logic op left right s => .node s [left.outline, .token (.mark op.mark), right.outline]
  | .paren inner s => .node s [.token (.mark .leftParen), inner.outline, .token (.mark .rightParen)]
  | .call c s => .node s [c.outline]
  | .fragment f s => .node s (Token.outlines f.tokens)

/-- A negation starts at its mark, a group at its parenthesis. -/
def Cond.outline : Cond → Outline
  | .comparison op left right s => .node s [left.outline, .token (.mark op.mark), right.outline]
  | .equality op left right s => .node s [left.outline, .token (.mark op.mark), right.outline]
  | .neg inner s => .node s [.token (.mark .not), inner.outline]
  | .paren inner s => .node s [.token (.mark .leftParen), inner.outline, .token (.mark .rightParen)]
  | .binary op left right s => .node s [left.outline, .token (.mark op.mark), right.outline]
  | .bool value s => .node s [.token (.word (truthWord value))]

mutual

/-- Assignments, calls and `skip` include their semicolon, a choice includes its second block. -/
def Stmt.outline : Stmt → Outline
  | .assign target value assignSpan s =>
    .node s [.node assignSpan
      [.token (.identifier target), .token (.mark .assign), value.outline, .token (.mark .semicolon)]]
  | .ite cond thenBlock elseBlock s =>
    .node s [.token (.word .ite), cond.outline, Block.outline thenBlock, .token (.word .otherwise),
      Block.outline elseBlock]
  | .loop cond body s => .node s [.token (.word .loop), cond.outline, Block.outline body]
  | .call c s => .node s [c.outline, .token (.mark .semicolon)]
  | .block inner s => .node s [Block.outline inner]
  | .skip s => .node s [.token (.word .skip), .token (.mark .semicolon)]

/-- A block includes its braces. -/
def Block.outline : Block → Outline
  | ⟨stmts, s⟩ =>
    .node s (.token (.mark .leftBrace) :: (Stmt.outlines stmts ++ [.token (.mark .rightBrace)]))

/-- The outlines of statements in order. -/
def Stmt.outlines : List Stmt → List Outline
  | [] => []
  | stmt :: more => stmt.outline :: Stmt.outlines more

end

/-- A declaration includes its semicolon. -/
def Decl.outline : Decl → Outline
  | .var name type s =>
    .node s (.token (.word .var) :: (Token.outlines (typedTokens name type) ++ [.token (.mark .semicolon)]))
  | .const name type value s =>
    .node s (.token (.word .const) :: (Token.outlines (typedTokens name type) ++
      [.token (.mark .assign), value.outline, .token (.mark .semicolon)]))

/-- A parameter reaches from its name to its type. -/
def Param.outline (p : Param) : Outline := .node p.span (Token.outlines (typedTokens p.name p.type))

/-- The body of a function reaches from its opening brace to the last token before the `return`. -/
def Func.bodyOutline (f : Func) : Outline :=
  .node f.body.span (.token (.mark .leftBrace) :: (f.decls.map Decl.outline ++ Stmt.outlines f.body.nodes))

/-- A function reaches from its type to the brace behind its `return`. -/
def Func.outline (f : Func) : Outline :=
  .node f.span (.token (.word f.returnType.word) :: .token (.identifier f.name) :: .token (.mark .leftParen) ::
    (Outline.commas (f.params.map Param.outline) ++ .token (.mark .rightParen) :: f.bodyOutline ::
      .token (.word .ret) :: .token (.mark .leftParen) :: (f.returnValue.toList.map Expr.outline ++
        [.token (.mark .rightParen), .token (.mark .semicolon), .token (.mark .rightBrace)])))

/-- The block of the main part includes its braces. -/
def Main.outline (m : Main) : Outline :=
  .node m.span [.token (.word .main), .node m.body.span (.token (.mark .leftBrace) ::
    (m.decls.map Decl.outline ++ (Stmt.outlines m.body.nodes ++ [.token (.mark .rightBrace)])))]

/-- The outlines of a program: its declarations, its functions, and the main part. -/
def Program.outlines (p : Program) : List Outline :=
  p.decls.map Decl.outline ++ (p.funcs.map Func.outline ++ [p.main.outline])

@[simp] theorem Expr.outline_span? (e : Expr) : e.outline.span? = some e.span := by cases e <;> rfl

@[simp] theorem Cond.outline_span? (c : Cond) : c.outline.span? = some c.span := by cases c <;> rfl

@[simp] theorem Block.outline_span? (b : Block) : (Block.outline b).span? = some b.span := by
  cases b
  rw [Block.outline]
  rfl

end ThreeAddress
