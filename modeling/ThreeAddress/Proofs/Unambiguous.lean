import ThreeAddress.Proofs.ReadPrograms

/-!
# One tree for each token list

Two parse trees with the same tokens differ in their spans only.  Where a phrase ends is settled by the
routine that reads it, since a routine is a function; a chain then falls apart into its items in one way
only.  A comparison cannot be mistaken for another condition because trying to read one tells them apart.

* `Expr.withoutSpans` and the like — a tree with its spans wiped out;
* `Outcome.Leaves.unique`, `Nonterminal.Chains` — where a phrase ends, and how a chain falls apart;
* `Expr.Parses.unique`, `Cond.Parses.unique`, `Decl.Parses.unique`, `Stmt.Parses.unique` — the trees.
-/

namespace ThreeAddress

variable {α : Type} {k : Nat} {c d : Cursor} {ts us w : List Token}

/-! ### Trees without spans -/

/-- An argument with its span wiped out. -/
def Argument.withoutSpans (a : Argument) : Argument := ⟨a.atom, .origin⟩

/-- A call with its spans wiped out. -/
def Call.withoutSpans (c : Call) : Call := ⟨c.name, c.args.map Argument.withoutSpans, .origin⟩

/-- An expression with its spans wiped out. -/
def Expr.withoutSpans : Expr → Expr
  | .arith op left right _ => .arith op left.withoutSpans right.withoutSpans .origin
  | .logic op left right _ => .logic op left.withoutSpans right.withoutSpans .origin
  | .paren inner _ => .paren inner.withoutSpans .origin
  | .call c _ => .call c.withoutSpans .origin
  | .fragment f _ => .fragment f .origin

/-- A condition with its spans wiped out. -/
def Cond.withoutSpans : Cond → Cond
  | .comparison op left right _ => .comparison op left.withoutSpans right.withoutSpans .origin
  | .equality op left right _ => .equality op left.withoutSpans right.withoutSpans .origin
  | .neg inner _ => .neg inner.withoutSpans .origin
  | .paren inner _ => .paren inner.withoutSpans .origin
  | .binary op left right _ => .binary op left.withoutSpans right.withoutSpans .origin
  | .bool value _ => .bool value .origin

/-- A declaration with its spans wiped out. -/
def Decl.withoutSpans : Decl → Decl
  | .var name type _ => .var name type .origin
  | .const name type value _ => .const name type value.withoutSpans .origin

/-- A parameter with its span wiped out. -/
def Param.withoutSpans (p : Param) : Param := ⟨p.name, p.type, .origin⟩

mutual

/-- A statement with its spans wiped out. -/
def Stmt.withoutSpans : Stmt → Stmt
  | .assign target value _ _ => .assign target value.withoutSpans .origin .origin
  | .ite cond thenBlock elseBlock _ =>
    .ite cond.withoutSpans (Block.withoutSpans thenBlock) (Block.withoutSpans elseBlock) .origin
  | .loop cond body _ => .loop cond.withoutSpans (Block.withoutSpans body) .origin
  | .call c _ => .call c.withoutSpans .origin
  | .block inner _ => .block (Block.withoutSpans inner) .origin
  | .skip _ => .skip .origin

/-- A block with its spans wiped out. -/
def Block.withoutSpans : Block → Block
  | ⟨stmts, _⟩ => ⟨Stmt.withoutSpansOfList stmts, .origin⟩

/-- Statements with their spans wiped out. -/
def Stmt.withoutSpansOfList : List Stmt → List Stmt
  | [] => []
  | s :: more => s.withoutSpans :: Stmt.withoutSpansOfList more

end

/-- A statement that holds no block. -/
def Stmt.IsSimple : Stmt → Prop
  | .assign _ _ _ _ | .call _ _ | .skip _ => True
  | _ => False

/-! ### Where a phrase ends -/

/-- A cursor before given tokens. -/
def Cursor.ofTokens (ts : List Token) : Cursor := .ofLexemes (ts.map (⟨·, .origin⟩))

@[simp] theorem Cursor.tokens_ofTokens (ts : List Token) : (Cursor.ofTokens ts).tokens = ts := by
  simp [ofTokens, ofLexemes, tokens, Function.comp_def]

/-- A routine stops at one place only. -/
theorem Outcome.Leaves.unique {o : Outcome k c α} (h : o.Leaves ts) (h' : o.Leaves us) : ts = us := by
  obtain ⟨d, ⟨a, hd, rfl⟩, rfl⟩ := h
  obtain ⟨d', ⟨a', hd', h⟩, rfl⟩ := h'
  cases h
  rfl

theorem Halts.nil {test : Token → Bool} : Halts test [] := by simp [Halts]

/-- A link of a chain: a separator and an item. -/
def Phrase.IsLink (n : Nonterminal) (link : Phrase) (v : List Token) : Prop :=
  ∃ x y, link.Derives x ∧ (Phrase.sort n).Derives y ∧ v = x ++ y

/-- A sort of phrases that ends before every link of a chain of them. -/
structure Nonterminal.Chains (n : Nonterminal) (link : Phrase) : Prop where
  /-- Of two phrases at the front of one token list that end there, none is longer. -/
  cancel : ∀ {w w' ts ts' : List Token}, (Phrase.sort n).Derives w → (Phrase.sort n).Derives w' →
    Halts n.extendedBy ts → Halts n.extendedBy ts' → w ++ ts = w' ++ ts' → w = w' ∧ ts = ts'
  /-- A link starts with one token, and no phrase goes on with it. -/
  link : ∀ x, link.Derives x → ∃ t, x = [t] ∧ n.extendedBy t = false

/-- The phrases that a routine reads end where it stops. -/
theorem Nonterminal.Reads.cancel {n : Nonterminal} {routine : (c : Cursor) → Outcome k c α}
    (hr : ∀ size, n.Reads size routine) {w w' ts ts' : List Token} (hw : (Phrase.sort n).Derives w)
    (hw' : (Phrase.sort n).Derives w') (hts : Halts n.extendedBy ts) (hts' : Halts n.extendedBy ts')
    (h : w ++ ts = w' ++ ts') : w = w' ∧ ts = ts' := by
  have hstop : (routine (.ofTokens (w ++ ts))).Leaves ts :=
    hr w.length w ts _ hw (Nat.le_refl _) hts (Cursor.tokens_ofTokens _)
  have hstop' : (routine (.ofTokens (w ++ ts))).Leaves ts' :=
    hr w'.length w' ts' _ hw' (Nat.le_refl _) hts' (by rw [Cursor.tokens_ofTokens, h])
  obtain rfl := hstop.unique hstop'
  exact ⟨List.append_cancel_right h, rfl⟩

namespace Nonterminal.Chains

variable {n : Nonterminal} {link : Phrase} (hc : n.Chains link)

include hc

theorem halts_links {links : List (List Token)}
    (h : ∀ v ∈ links, Phrase.IsLink n link v) :
    Halts n.extendedBy links.flatten := by
  cases links with
  | nil => exact .nil
  | cons v links =>
    obtain ⟨x, y, hx, -, rfl⟩ := h v List.mem_cons_self
    obtain ⟨t, rfl, ht⟩ := hc.link x hx
    exact halts_cons.2 ht

/-- A chain falls apart into its items in one way. -/
theorem items_unique {u u' : List Token} {links links' : List (List Token)}
    (hu : (Phrase.sort n).Derives u) (hu' : (Phrase.sort n).Derives u')
    (hl : ∀ v ∈ links, Phrase.IsLink n link v)
    (hl' : ∀ v ∈ links', Phrase.IsLink n link v)
    (h : u ++ links.flatten = u' ++ links'.flatten) : u = u' ∧ links = links' := by
  induction links generalizing u u' links' with
  | nil =>
    obtain ⟨rfl, hrest⟩ := hc.cancel hu hu' (hc.halts_links hl) (hc.halts_links hl') h
    cases links' with
    | nil => exact ⟨rfl, rfl⟩
    | cons v links' =>
      obtain ⟨x, y, hx, -, rfl⟩ := hl' v List.mem_cons_self
      obtain ⟨t, rfl, -⟩ := hc.link x hx
      cases hrest
  | cons v links ih =>
    obtain ⟨rfl, hrest⟩ := hc.cancel hu hu' (hc.halts_links hl) (hc.halts_links hl') h
    obtain ⟨⟨x, y, hx, hy, rfl⟩, hmore⟩ := List.forall_mem_cons.1 hl
    obtain ⟨t, rfl, -⟩ := hc.link x hx
    cases links' with
    | nil => cases hrest
    | cons v' links' =>
      obtain ⟨⟨x', y', hx', hy', rfl⟩, hmore'⟩ := List.forall_mem_cons.1 hl'
      obtain ⟨t', rfl, -⟩ := hc.link x' hx'
      obtain ⟨rfl, hitems⟩ := List.cons.inj hrest
      obtain ⟨rfl, rfl⟩ := ih hy hy' hmore hmore' hitems
      exact ⟨rfl, rfl⟩

omit hc in
theorem isLink_snoc {links : List (List Token)} {x r : List Token} (hx : link.Derives x)
    (hr : (Phrase.sort n).Derives r) (hl : ∀ v ∈ links, Phrase.IsLink n link v) :
    ∀ v ∈ links ++ [x ++ r], Phrase.IsLink n link v := by
  intro v hv
  rcases List.mem_append.1 hv with hv | hv
  · exact hl v hv
  · exact ⟨x, r, hx, hr, List.mem_singleton.1 hv⟩

/-- The last link of a chain is settled. -/
theorem last_unique {l l' x x' r r' : List Token} (hl : (Phrase.separated (.sort n) link).Derives l)
    (hl' : (Phrase.separated (.sort n) link).Derives l') (hx : link.Derives x) (hx' : link.Derives x')
    (hr : (Phrase.sort n).Derives r) (hr' : (Phrase.sort n).Derives r')
    (h : l ++ (x ++ r) = l' ++ (x' ++ r')) : l = l' ∧ x = x' ∧ r = r' := by
  obtain ⟨u, links, hu, hlinks, rfl⟩ := Phrase.derives_separated.1 hl
  obtain ⟨u', links', hu', hlinks', rfl⟩ := Phrase.derives_separated.1 hl'
  obtain ⟨rfl, hall⟩ := hc.items_unique hu hu' (isLink_snoc hx hr hlinks) (isLink_snoc hx' hr' hlinks')
    (by simpa using h)
  obtain ⟨rfl, hlast⟩ := List.append_inj' hall rfl
  obtain ⟨t, rfl, -⟩ := hc.link x hx
  obtain ⟨t', rfl, -⟩ := hc.link x' hx'
  obtain ⟨rfl, rfl⟩ : t = t' ∧ r = r' := by simpa using hlast
  exact ⟨rfl, rfl, rfl⟩

/-- A chain with a link is no single item. -/
theorem item_ne_chain {l x r : List Token} (hw : (Phrase.sort n).Derives w)
    (hl : (Phrase.separated (.sort n) link).Derives l) (hx : link.Derives x)
    (hr : (Phrase.sort n).Derives r) : w ≠ l ++ (x ++ r) := by
  intro h
  obtain ⟨u, links, hu, hlinks, rfl⟩ := Phrase.derives_separated.1 hl
  have hnone : ∀ v ∈ ([] : List (List Token)), Phrase.IsLink n link v := by simp
  obtain ⟨-, hall⟩ := hc.items_unique hw hu hnone (isLink_snoc hx hr hlinks) (by simpa using h)
  simp at hall

end Nonterminal.Chains

theorem Expr.terms_chain : Nonterminal.term.Chains .sign where
  cancel := Nonterminal.Reads.cancel fun _ => readTerm_reads fun m _ => (reads_all m).2
  link x hx := by
    obtain rfl | rfl := Phrase.derives_sign.1 hx
    · exact ⟨_, rfl, rfl⟩
    · exact ⟨_, rfl, rfl⟩

theorem Expr.sums_chain : Nonterminal.arith.Chains .connective where
  cancel := Nonterminal.Reads.cancel fun n => (reads_all n).1
  link x hx := by
    obtain rfl | rfl := Phrase.derives_connective.1 hx
    · exact ⟨_, rfl, rfl⟩
    · exact ⟨_, rfl, rfl⟩

theorem Cond.atoms_chain : Nonterminal.catom.Chains .connective where
  cancel := Nonterminal.Reads.cancel fun n => (reads_all n).1
  link x hx := by
    obtain rfl | rfl := Phrase.derives_connective.1 hx
    · exact ⟨_, rfl, rfl⟩
    · exact ⟨_, rfl, rfl⟩

/-! ### Names, numerals and operators -/

theorem Atom.token_inj {a b : Atom} (h : a.token = b.token) : a = b := by
  cases a <;> cases b <;> cases h <;> rfl

theorem ArithOp.mark_inj {op op' : ArithOp} (h : op.mark = op'.mark) : op = op' := by
  cases op <;> cases op' <;> first | rfl | cases h

theorem Connective.mark_inj {op op' : Connective} (h : op.mark = op'.mark) : op = op' := by
  cases op <;> cases op' <;> first | rfl | cases h

theorem Comparison.mark_inj {op op' : Comparison} (h : op.mark = op'.mark) : op = op' := by
  cases op <;> cases op' <;> first | rfl | cases h

theorem Equality.mark_inj {op op' : Equality} (h : op.mark = op'.mark) : op = op' := by
  cases op <;> cases op' <;> first | rfl | cases h

theorem Comparison.mark_ne (op : Comparison) (op' : Equality) : op.mark ≠ op'.mark := by
  cases op <;> cases op' <;> decide

theorem Ty.word_inj {a b : Ty} (h : a.word = b.word) : a = b := by
  cases a <;> cases b <;> first | rfl | cases h

theorem truthWord_inj {a b : Bool} (h : truthWord a = truthWord b) : a = b := by
  cases a <;> cases b <;> first | rfl | cases h

/-! ### Calls and fragments -/

theorem Argument.withoutSpans_of_tokens {a b : Argument} (h : a.atom.token = b.atom.token) :
    a.withoutSpans = b.withoutSpans := by
  rw [withoutSpans, withoutSpans, Atom.token_inj h]

theorem commaTokens_args_inj {as bs : List Argument}
    (h : commaTokens (as.map fun a => [a.atom.token]) = commaTokens (bs.map fun a => [a.atom.token])) :
    as.map Argument.withoutSpans = bs.map Argument.withoutSpans := by
  have more (as bs : List Argument)
      (h : (as.map fun a => [Token.mark .comma, a.atom.token]).flatten =
        (bs.map fun a => [Token.mark .comma, a.atom.token]).flatten) :
      as.map Argument.withoutSpans = bs.map Argument.withoutSpans := by
    induction as generalizing bs with
    | nil =>
      cases bs with
      | nil => rfl
      | cons b bs => cases h
    | cons a as ih =>
      cases bs with
      | nil => cases h
      | cons b bs =>
        simp only [List.map_cons, List.flatten_cons, List.cons_append, List.nil_append, List.cons.injEq,
          true_and] at h
        rw [List.map_cons, List.map_cons, Argument.withoutSpans_of_tokens h.1, ih bs h.2]
  cases as with
  | nil =>
    cases bs with
    | nil => rfl
    | cons b bs => cases h
  | cons a as =>
    cases bs with
    | nil => cases h
    | cons b bs =>
      simp only [List.map_cons, commaTokens, List.map_map, List.cons_append, List.nil_append,
        List.cons.injEq] at h
      rw [List.map_cons, List.map_cons, Argument.withoutSpans_of_tokens h.1, more as bs h.2]

theorem Call.withoutSpans_of_tokens {a b : Call} (h : a.tokens = b.tokens) :
    a.withoutSpans = b.withoutSpans := by
  obtain ⟨name, as, _⟩ := a
  obtain ⟨name', bs, _⟩ := b
  simp only [Call.tokens, List.cons.injEq, Token.identifier.injEq, true_and] at h
  obtain ⟨rfl, hargs⟩ := h
  simp only [Call.withoutSpans, commaTokens_args_inj (List.append_cancel_right hargs)]

/-- A fragment is told by its tokens, the numeral `0` by itself being one of its own. -/
theorem Fragment.tokens_inj {f g : Fragment} (hf : f ≠ .atom false (.number "0"))
    (hg : g ≠ .atom false (.number "0")) (h : f.tokens = g.tokens) : f = g := by
  rcases f with ⟨_ | _, _ | _⟩ | _ | _ | _ <;> rcases g with ⟨_ | _, _ | _⟩ | _ | _ | _ <;>
    simp_all [tokens, Atom.token]
  exact truthWord_inj h

/-! ### Expressions -/

namespace Expr

/-- A fragment is neither a call nor in parentheses. -/
theorem fragment_tokens_ne (f : Fragment) :
    (∀ c : Call, f.tokens ≠ c.tokens) ∧ ∀ u, f.tokens ≠ .mark .leftParen :: u := by
  rcases f with ⟨_ | _, _ | _⟩ | _ | _ | _ <;> simp [Fragment.tokens, Atom.token, Call.tokens]

/-- **Expressions are unambiguous.**  Parse trees of one sort with the same tokens differ in their spans
only. -/
theorem Parses.unique {n : Nonterminal} {e e' : Expr} (h : e.Parses n) (h' : e'.Parses n)
    (ht : e.tokens = e'.tokens) : e.withoutSpans = e'.withoutSpans := by
  induction h generalizing e' with
  | @fragment f _ hf =>
    cases h' with
    | fragment hf' => rw [withoutSpans, withoutSpans, Fragment.tokens_inj hf hf' ht]
    | call => exact absurd ht ((fragment_tokens_ne f).1 _)
    | paren => exact absurd ht ((fragment_tokens_ne f).2 _)
  | call =>
    cases h' with
    | fragment => exact absurd ht.symm ((fragment_tokens_ne _).1 _)
    | call => rw [withoutSpans, withoutSpans, Call.withoutSpans_of_tokens ht]
    | paren => cases ht
  | paren _ ih =>
    cases h' with
    | fragment => exact absurd ht.symm ((fragment_tokens_ne _).2 _)
    | call => cases ht
    | paren h' =>
      rw [withoutSpans, withoutSpans, ih h' (List.append_cancel_right (List.cons.inj ht).2)]
  | term h ih =>
    cases h' with
    | term h' => exact ih h' ht
    | @arith op _ _ _ hl hr =>
      exact absurd ht (terms_chain.item_ne_chain h.derives (Phrase.derives_sort.1 hl.derives)
        (ArithOp.derives_mark op) hr.derives)
  | @arith op _ _ _ hl hr ihl ihr =>
    cases h' with
    | term h' =>
      exact absurd ht.symm (terms_chain.item_ne_chain h'.derives (Phrase.derives_sort.1 hl.derives)
        (ArithOp.derives_mark op) hr.derives)
    | @arith op' _ _ _ hl' hr' =>
      obtain ⟨htl, hop, htr⟩ := terms_chain.last_unique (Phrase.derives_sort.1 hl.derives)
        (Phrase.derives_sort.1 hl'.derives) (ArithOp.derives_mark op) (ArithOp.derives_mark op') hr.derives
        hr'.derives ht
      obtain rfl : op = op' := ArithOp.mark_inj (by simpa using hop)
      rw [withoutSpans, withoutSpans, ihl hl' htl, ihr hr' htr]
  | sum h ih =>
    cases h' with
    | sum h' => exact ih h' ht
    | @logic op _ _ _ hl hr =>
      exact absurd ht (sums_chain.item_ne_chain h.derives (Phrase.derives_sort.1 hl.derives)
        (Connective.derives_mark op) hr.derives)
  | @logic op _ _ _ hl hr ihl ihr =>
    cases h' with
    | sum h' =>
      exact absurd ht.symm (sums_chain.item_ne_chain h'.derives (Phrase.derives_sort.1 hl.derives)
        (Connective.derives_mark op) hr.derives)
    | @logic op' _ _ _ hl' hr' =>
      obtain ⟨htl, hop, htr⟩ := sums_chain.last_unique (Phrase.derives_sort.1 hl.derives)
        (Phrase.derives_sort.1 hl'.derives) (Connective.derives_mark op) (Connective.derives_mark op')
        hr.derives hr'.derives ht
      obtain rfl : op = op' := Connective.mark_inj (by simpa using hop)
      rw [withoutSpans, withoutSpans, ihl hl' htl, ihr hr' htr]

/-! ### What an expression opens with -/

theorem tokens_opening (e : Expr) : ∃ more, e.tokens = e.opening.tokens ++ more := by
  induction e with
  | arith op left right s ihl _ =>
    obtain ⟨more, h⟩ := ihl
    exact ⟨more ++ .mark op.mark :: right.tokens, by rw [tokens, opening, h, List.append_assoc]⟩
  | logic op left right s ihl _ =>
    obtain ⟨more, h⟩ := ihl
    exact ⟨more ++ .mark op.mark :: right.tokens, by rw [tokens, opening, h, List.append_assoc]⟩
  | paren => exact ⟨[], by simp [opening]⟩
  | call => exact ⟨[], by simp [opening]⟩
  | fragment => exact ⟨[], by simp [opening]⟩

theorem Parses.opening {n : Nonterminal} {e : Expr} (h : e.Parses n) : e.opening.Parses .term := by
  induction h with
  | fragment hf => exact .fragment hf
  | call => exact .call
  | paren h => exact .paren h
  | term _ ih => exact ih
  | arith _ _ ihl _ => exact ihl
  | sum _ ih => exact ih
  | logic _ _ ihl _ => exact ihl

/-- An expression that starts with a name opens with it, or with a call of it. -/
theorem Parses.opens_of_name {n : Nonterminal} {e : Expr} (h : e.Parses n) {x : String} {t : Token}
    {rest more : List Token} (ht : e.tokens ++ more = .identifier x :: t :: rest) :
    (∃ s, e.opening = .fragment (.atom false (.name x)) s) ∨ t = .mark .leftParen := by
  obtain ⟨tail, htail⟩ := tokens_opening e
  rw [htail, List.append_assoc] at ht
  have hopening := h.opening
  generalize e.opening = o at ht hopening
  cases hopening with
  | @fragment f s =>
    left
    rcases f with ⟨_ | _, _ | _⟩ | _ | _ | _ <;> simp_all [tokens, Fragment.tokens, Atom.token]
  | call =>
    right
    simp only [tokens, Call.tokens, List.cons_append, List.cons.injEq] at ht
    exact ht.2.1.symm
  | paren => cases ht

end Expr

/-! ### Conditions -/

namespace Cond

/-- A condition that is a comparison of two sums. -/
def Compares : Cond → Prop
  | .comparison _ _ _ _ | .equality _ _ _ _ => True
  | _ => False

/-- What stands behind a `!` does not start with a name, but for the name of a call. -/
theorem Parses.second_of_name {e : Cond} (h : e.Parses .catom) (hopens : ¬ e.OpensWithName) {x : String}
    {t : Token} {rest : List Token} (ht : e.tokens = .identifier x :: t :: rest) : t = .mark .leftParen := by
  cases h with
  | comparison hl =>
    refine (hl.opens_of_name ht).resolve_left ?_
    rintro ⟨s, hs⟩
    exact hopens ⟨x, s, hs⟩
  | equality hl =>
    refine (hl.opens_of_name ht).resolve_left ?_
    rintro ⟨s, hs⟩
    exact hopens ⟨x, s, hs⟩
  | neg => cases ht
  | paren => cases ht
  | bool => cases ht

/-- A comparison is read as one. -/
theorem Parses.readComparison_leaves {e : Cond} (h : e.Parses .catom) (hcmp : e.Compares)
    (hc : c.tokens = e.tokens) : (readComparison c).Leaves [] := by
  have hread {u v : List Token} {m : Mark} (hu : (Phrase.sort .arith).Derives u)
      (hm : m.isComparison = true) (hv : (Phrase.sort .arith).Derives v) (hw : e.tokens = u ++ .mark m :: v) :
      (readComparison c).Leaves [] :=
    Cond.readComparison_leaves hu hm hv .nil (by rw [hc, hw, List.append_nil])
  cases h with
  | comparison hl hr => exact hread hl.derives (Comparison.mark_isComparison _) hr.derives rfl
  | equality hl hr => exact hread hl.derives (Equality.mark_isComparison _) hr.derives rfl
  | neg => exact hcmp.elim
  | paren => exact hcmp.elim
  | bool => exact hcmp.elim

/-- A comparison can be read from the tokens of an atom exactly if the atom is one. -/
theorem Parses.compares_iff {e : Cond} (h : e.Parses .catom) (hc : c.tokens = e.tokens) :
    e.Compares ↔ ∃ d, (readComparison c).Ends d := by
  constructor
  · intro hcmp
    obtain ⟨d, hd, -⟩ := h.readComparison_leaves hcmp hc
    exact ⟨d, hd⟩
  · rintro ⟨d, hd⟩
    cases h with
    | comparison => trivial
    | equality => trivial
    | neg hi hopens => exact not_readComparison_not hc (fun x t rest => hi.second_of_name hopens) hd
    | paren hi =>
      exact not_readComparison_paren (Phrase.Derives.closed_conds.2 hi.derives) .nil hc hd
    | bool => exact not_readComparison_bool .nil hc hd

/-- The two sums of a comparison, and the sign between them, are settled. -/
theorem sums_unique {left right left' right' : Expr} {m m' : Mark} (hl : left.Parses .arith)
    (hr : right.Parses .arith) (hl' : left'.Parses .arith) (hr' : right'.Parses .arith)
    (hm : m.isComparison = true) (hm' : m'.isComparison = true)
    (ht : left.tokens ++ .mark m :: right.tokens = left'.tokens ++ .mark m' :: right'.tokens) :
    left.withoutSpans = left'.withoutSpans ∧ m = m' ∧ right.withoutSpans = right'.withoutSpans := by
  have halts {m : Mark} {ts : List Token} (hm : m.isComparison = true) :
      Halts Nonterminal.arith.extendedBy (.mark m :: ts) := by
    rw [halts_cons]
    cases m <;> first | rfl | cases hm
  obtain ⟨htl, hrest⟩ := Expr.sums_chain.cancel hl.derives hl'.derives (halts hm) (halts hm') ht
  obtain ⟨hop, htr⟩ := List.cons.inj hrest
  exact ⟨hl.unique hl' htl, by simpa using hop, hr.unique hr' htr⟩

theorem Parses.compares_congr {e e' : Cond} (h : e.Parses .catom) (h' : e'.Parses .catom)
    (ht : e.tokens = e'.tokens) : e.Compares ↔ e'.Compares :=
  (h.compares_iff (Cursor.tokens_ofTokens e.tokens)).trans
    (h'.compares_iff (by rw [Cursor.tokens_ofTokens, ht])).symm

/-- Comparisons with the same tokens differ in their spans only. -/
theorem Parses.compared_unique {e e' : Cond} (h : e.Parses .catom) (h' : e'.Parses .catom) (hcmp : e.Compares)
    (hcmp' : e'.Compares) (ht : e.tokens = e'.tokens) : e.withoutSpans = e'.withoutSpans := by
  cases h with
  | @comparison op _ _ _ hl hr =>
    cases h' with
    | @comparison op' _ _ _ hl' hr' =>
      obtain ⟨hwl, hop, hwr⟩ := sums_unique hl hr hl' hr' op.mark_isComparison op'.mark_isComparison ht
      rw [withoutSpans, withoutSpans, hwl, Comparison.mark_inj hop, hwr]
    | @equality op' _ _ _ hl' hr' =>
      obtain ⟨-, hop, -⟩ := sums_unique hl hr hl' hr' op.mark_isComparison op'.mark_isComparison ht
      exact absurd hop (Comparison.mark_ne op op')
    | neg | paren | bool => exact hcmp'.elim
  | @equality op _ _ _ hl hr =>
    cases h' with
    | @comparison op' _ _ _ hl' hr' =>
      obtain ⟨-, hop, -⟩ := sums_unique hl hr hl' hr' op.mark_isComparison op'.mark_isComparison ht
      exact absurd hop.symm (Comparison.mark_ne op' op)
    | @equality op' _ _ _ hl' hr' =>
      obtain ⟨hwl, hop, hwr⟩ := sums_unique hl hr hl' hr' op.mark_isComparison op'.mark_isComparison ht
      rw [withoutSpans, withoutSpans, hwl, Equality.mark_inj hop, hwr]
    | neg | paren | bool => exact hcmp'.elim
  | neg | paren | bool => exact hcmp.elim

/-- **Conditions are unambiguous.**  Parse trees of one sort with the same tokens differ in their spans
only. -/
theorem Parses.unique {n : Nonterminal} {e e' : Cond} (h : e.Parses n) (h' : e'.Parses n)
    (ht : e.tokens = e'.tokens) : e.withoutSpans = e'.withoutSpans := by
  induction h generalizing e' with
  | @comparison op _ _ s hl hr =>
    have h := @Parses.comparison op _ _ s hl hr
    exact h.compared_unique h' trivial ((h.compares_congr h' ht).1 trivial) ht
  | @equality op _ _ s hl hr =>
    have h := @Parses.equality op _ _ s hl hr
    exact h.compared_unique h' trivial ((h.compares_congr h' ht).1 trivial) ht
  | neg hi hopens ih =>
    have hcmp := (Parses.neg hi hopens).compares_congr h' ht
    cases h' with
    | comparison | equality => exact (hcmp.2 trivial).elim
    | neg hi' => rw [withoutSpans, withoutSpans, ih hi' (List.cons.inj ht).2]
    | paren => cases ht
    | bool => cases ht
  | paren hi ih =>
    have hcmp := (Parses.paren hi).compares_congr h' ht
    cases h' with
    | comparison | equality => exact (hcmp.2 trivial).elim
    | neg => cases ht
    | paren hi' =>
      rw [withoutSpans, withoutSpans, ih hi' (List.append_cancel_right (List.cons.inj ht).2)]
    | bool => cases ht
  | @bool value s =>
    have hcmp := (Parses.bool (s := s)).compares_congr h' ht
    cases h' with
    | comparison | equality => exact (hcmp.2 trivial).elim
    | neg => cases ht
    | paren => cases ht
    | @bool value' =>
      obtain rfl : value = value' := truthWord_inj (by simpa [tokens] using ht)
      rfl
  | atom h ih =>
    cases h' with
    | atom h' => exact ih h' ht
    | @binary op _ _ _ hl hr =>
      exact absurd ht (atoms_chain.item_ne_chain h.derives (Phrase.derives_sort.1 hl.derives)
        (Connective.derives_mark op) hr.derives)
  | @binary op _ _ _ hl hr ihl ihr =>
    cases h' with
    | atom h' =>
      exact absurd ht.symm (atoms_chain.item_ne_chain h'.derives (Phrase.derives_sort.1 hl.derives)
        (Connective.derives_mark op) hr.derives)
    | @binary op' _ _ _ hl' hr' =>
      obtain ⟨htl, hop, htr⟩ := atoms_chain.last_unique (Phrase.derives_sort.1 hl.derives)
        (Phrase.derives_sort.1 hl'.derives) (Connective.derives_mark op) (Connective.derives_mark op')
        hr.derives hr'.derives ht
      obtain rfl : op = op' := Connective.mark_inj (by simpa using hop)
      rw [withoutSpans, withoutSpans, ihl hl' htl, ihr hr' htr]

end Cond

/-! ### Declarations, parameters and statements -/

theorem typedTokens_inj {x y : String} {t u : Ty} {us ws : List Token}
    (h : typedTokens x t ++ us = typedTokens y u ++ ws) : x = y ∧ t = u ∧ us = ws := by
  simp only [typedTokens, List.cons_append, List.nil_append, List.cons.injEq, Token.identifier.injEq,
    Token.word.injEq, true_and] at h
  exact ⟨h.1, Ty.word_inj h.2.1, h.2.2⟩

theorem Decl.Parses.unique {d d' : Decl} (h : d.Parses) (h' : d'.Parses) (ht : d.tokens = d'.tokens) :
    d.withoutSpans = d'.withoutSpans := by
  cases d with
  | var name type s =>
    cases d' with
    | var name' type' s' =>
      obtain ⟨rfl, rfl, -⟩ := typedTokens_inj (List.cons.inj ht).2
      rfl
    | const => cases ht
  | const name type value s =>
    cases d' with
    | var => cases ht
    | const name' type' value' s' =>
      obtain ⟨rfl, rfl, hv⟩ := typedTokens_inj (List.cons.inj ht).2
      rw [withoutSpans, withoutSpans,
        Expr.Parses.unique h h' (List.append_cancel_right (List.cons.inj hv).2)]

theorem Param.withoutSpans_of_tokens {p q : Param}
    (h : typedTokens p.name p.type = typedTokens q.name q.type) : p.withoutSpans = q.withoutSpans := by
  have h' : typedTokens p.name p.type ++ [] = typedTokens q.name q.type ++ [] := by rw [h]
  obtain ⟨hname, htype, -⟩ := typedTokens_inj h'
  rw [withoutSpans, withoutSpans, hname, htype]

/-- A statement without blocks is told by its tokens. -/
theorem Stmt.Parses.unique {s s' : Stmt} (h : s.Parses) (h' : s'.Parses) (hs : s.IsSimple)
    (ht : s.tokens = s'.tokens) : s.withoutSpans = s'.withoutSpans := by
  cases h with
  | assign hv =>
    cases h' with
    | assign hv' =>
      simp only [tokens, List.cons.injEq, Token.identifier.injEq, true_and] at ht
      rw [withoutSpans, withoutSpans, ht.1, hv.unique hv' (List.append_cancel_right ht.2)]
    | call => simp [tokens, Call.tokens] at ht
    | ite => simp [tokens] at ht
    | loop => simp [tokens] at ht
    | @block inner => cases inner; simp [tokens, Block.tokens] at ht
    | skip => simp [tokens] at ht
  | call =>
    cases h' with
    | assign => simp [tokens, Call.tokens] at ht
    | call =>
      rw [withoutSpans, withoutSpans, Call.withoutSpans_of_tokens (List.append_cancel_right ht)]
    | ite => simp [tokens, Call.tokens] at ht
    | loop => simp [tokens, Call.tokens] at ht
    | @block inner => cases inner; simp [tokens, Call.tokens, Block.tokens] at ht
    | skip => simp [tokens, Call.tokens] at ht
  | skip =>
    cases h' with
    | assign => simp [tokens] at ht
    | call => simp [tokens, Call.tokens] at ht
    | ite => simp [tokens] at ht
    | loop => simp [tokens] at ht
    | @block inner => cases inner; simp [tokens, Block.tokens] at ht
    | skip => rfl
  | ite => exact hs.elim
  | loop => exact hs.elim
  | block => exact hs.elim

end ThreeAddress
