import ExprFrontEnd.Chain.Issues
import ExprFrontEnd.Proofs.LexedTokens
import ExprFrontEnd.Proofs.Row

/-!
# `ExprFrontEnd.Proofs.Yield`: what becomes of the tokens of an expression

The tree of an expression yields its operands and operators in the order of
the source (`Expr.yield`). On a text with faults it yields fewer than were
read, but nothing goes without a report: `Token.spared` takes away what the
issues account for, namely the tokens at which an operand or an operator was
expected, and those behind a dot that misses its name. The tree yields the
rest.

* `Row.yield_group`: joining operands neither drops nor moves any, in
  whichever way they are joined.
* `Chain.Between.accounted`: token by token, what a chain was read from is
  yielded, reported, or a delimiter (`Accounted`).
* `Accounted.filter_spared`: then what is spared is what is yielded.
* `filter_spared_eq_yield`: **nothing is lost silently**, from any place in a
  lexed list and in both modes.

An issue only names a place, so the third step needs that no two tokens are at
the same one. The ends of a scope are, since they are empty and may be read
more than once. They are no operands, and they are not told apart.
-/

set_option autoImplicit false

namespace ExprFrontEnd

/-! ### Yields -/

/-- Whether a token is an operand or an operator. -/
def TokenKind.isOperative : TokenKind → Bool
  | .number _ | .string _ | .identifier _ => true
  | .symbol s => (BinaryOp.ofSymbol? s).isSome
  | _ => false

mutual

/-- The operands and operators of an expression from left to right, with a
sign in front of its operand. A missing operand and a missing name leave
nothing behind. -/
def Expr.yield : Expr → List TokenKind
  | .number value _ => [.number value]
  | .string value _ => [.string value]
  | .identifier name => [.identifier name.name]
  | .unary op arg _ => .symbol op.symbol :: arg.yield
  | .binary left op right _ => left.yield ++ .symbol op.symbol :: right.yield
  | .call callee args _ _ => callee.yield ++ yieldAll args
  | .index object place _ _ => object.yield ++ place.yield
  | .member object prop _ _ =>
    object.yield ++ if prop.name = "" then [] else [.identifier prop.name]
  | .array elems _ => yieldAll elems
  | .ignore _ _ => []

/-- The operands and operators of the expressions of a list. -/
def Expr.yieldAll : List Expr → List TokenKind
  | [] => []
  | e :: es => e.yield ++ yieldAll es

end

/-- Operands with operators between them. -/
def weave : List (List TokenKind) → List BinaryOp → List TokenKind
  | x :: xs, op :: ops => x ++ .symbol op.symbol :: weave xs ops
  | xs, _ => xs.flatten

/-- Rows of operands can be put together with an operator between them. -/
theorem weave_append {xs ys : List (List TokenKind)} {op : BinaryOp} {ops ops' : List BinaryOp}
    (h : xs.length = ops.length + 1) :
    weave (xs ++ ys) (ops ++ op :: ops') = weave xs ops ++ .symbol op.symbol :: weave ys ops' := by
  induction ops generalizing xs with
  | nil =>
    obtain ⟨x, rfl⟩ := List.length_eq_one_iff.mp h
    simp [weave]
  | cons op' ops ih =>
    cases xs with
    | nil => cases h
    | cons x xs =>
      have htail := ih (Nat.succ.inj h)
      simp only [List.cons_append, weave, htail, List.append_assoc]

/-- A tree of operands yields them with its operators between them. -/
theorem Grouping.yield_toExpr (g : Grouping Expr) :
    g.toExpr.yield = weave (g.operands.map Expr.yield) g.operators := by
  induction g with
  | operand e => simp [toExpr, operands, operators, weave]
  | joined left op right ihl ihr =>
    have hlen : (left.operands.map Expr.yield).length = left.operators.length + 1 := by
      rw [List.length_map, left.length_operands]
    rw [operands, operators, List.map_append, weave_append hlen, ← ihl, ← ihr, toExpr,
      Expr.yield]

/-- Links woven behind an operand follow it one by one. -/
theorem weave_links (yield : List TokenKind) (links : List (BinaryOp × Expr)) :
    weave (yield :: (links.map Prod.snd).map Expr.yield) (links.map Prod.fst)
      = yield ++ links.flatMap fun l => .symbol l.1.symbol :: l.2.yield := by
  induction links generalizing yield with
  | nil => simp [weave]
  | cons l links ih => simp only [List.map_cons, weave, ih, List.flatMap_cons, List.cons_append]

/-- A row is yielded as it stands. -/
theorem Row.yield_group (mode : Reduction) (r : Row Expr) :
    (r.group mode).toExpr.yield
      = r.first.yield ++ r.links.flatMap fun l => .symbol l.1.symbol :: l.2.yield := by
  obtain ⟨hoperands, hoperators⟩ := Row.over_group mode r
  rw [Grouping.yield_toExpr, hoperands, hoperators, operands, List.map_cons, operators,
    weave_links]

/-! ### Accounts of tokens -/

/-- Whether a problem is that a token is out of place, and is skipped or taken
for a missing operand. -/
def Problem.isMisplaced : Problem → Bool
  | .operandExpected _ | .operatorExpected _ => true
  | _ => false

/-- Tokens, the issues that they give rise to, and what is yielded of them. -/
inductive Accounted : List Token → List Issue → List TokenKind → Prop where
  | nil : Accounted [] [] []
  /-- An operand or an operator is yielded. -/
  | operative {t : Token} {ts : List Token} {issues : List Issue} {yield : List TokenKind}
      (ht : t.kind.isOperative = true) (h : Accounted ts issues yield) :
      Accounted (t :: ts) issues (t.kind :: yield)
  /-- A token of any other kind is not. -/
  | delimiter {t : Token} {ts : List Token} {issues : List Issue} {yield : List TokenKind}
      (ht : t.kind.isOperative = false) (h : Accounted ts issues yield) :
      Accounted (t :: ts) issues yield
  /-- A token that is out of place is reported. -/
  | misplaced {t : Token} {p : Problem} {ts : List Token} {issues : List Issue}
      {yield : List TokenKind} (hp : p.isMisplaced = true) (h : Accounted ts issues yield) :
      Accounted (t :: ts) (⟨p, t.span⟩ :: issues) yield
  /-- A dot without a name is reported, and the token behind it is lost. -/
  | bareDot {optional : Bool} {dot found : Token} {ts : List Token} {issues : List Issue}
      {yield : List TokenKind} (hdot : dot.kind.accessor? = some (.member, optional))
      (h : Accounted ts issues yield) :
      Accounted (dot :: found :: ts) (⟨.memberExpected optional, dot.span⟩ :: issues) yield

namespace Accounted

variable {ts us : List Token} {issues issues' : List Issue} {yield yield' : List TokenKind}

/-- Tokens are accounted for part by part. -/
theorem append (h : Accounted ts issues yield) (h' : Accounted us issues' yield') :
    Accounted (ts ++ us) (issues ++ issues') (yield ++ yield') := by
  induction h with
  | nil => exact h'
  | operative ht _ ih => exact .operative ht ih
  | delimiter ht _ ih => exact .delimiter ht ih
  | misplaced hp _ ih => exact .misplaced hp ih
  | bareDot hdot _ ih => exact .bareDot hdot ih

/-- One delimiter more behind the tokens. -/
theorem concat (h : Accounted ts issues yield) {t : Token} (ht : t.kind.isOperative = false) :
    Accounted (ts ++ [t]) issues yield := by
  have := h.append (.delimiter ht .nil)
  rwa [List.append_nil, List.append_nil] at this

/-- Every issue is at a token. -/
theorem exists_span_eq (h : Accounted ts issues yield) {i : Issue} (hi : i ∈ issues) :
    ∃ t ∈ ts, i.span = t.span := by
  -- On the accounting. An issue is at the stray token, or at the dot without a name.
  induction h with
  | nil => cases hi
  | operative _ _ ih | delimiter _ _ ih =>
    obtain ⟨t, ht, hspan⟩ := ih hi
    exact ⟨t, List.mem_cons_of_mem _ ht, hspan⟩
  | misplaced _ _ ih =>
    rcases List.mem_cons.mp hi with rfl | hi
    · exact ⟨_, List.mem_cons_self, rfl⟩
    · obtain ⟨t, ht, hspan⟩ := ih hi
      exact ⟨t, List.mem_cons_of_mem _ ht, hspan⟩
  | bareDot _ _ ih =>
    rcases List.mem_cons.mp hi with rfl | hi
    · exact ⟨_, List.mem_cons_self, rfl⟩
    · obtain ⟨t, ht, hspan⟩ := ih hi
      exact ⟨t, List.mem_cons_of_mem _ (List.mem_cons_of_mem _ ht), hspan⟩

end Accounted

/-! ### Chains -/

/-- A terminator is no operand and no operator. -/
theorem TokenKind.isOperative_eq_false_of_terminator {kind : TokenKind} {t : TerminatorKind}
    (h : TerminatorKind.ofKind? kind = some t) : kind.isOperative = false := by
  revert h
  unfold TerminatorKind.ofKind?
  split <;> simp [isOperative, BinaryOp.ofSymbol?]

/-- What starts an accessor is no operand and no operator. -/
theorem TokenKind.isOperative_eq_false_of_accessor {kind : TokenKind} {a : AccessorKind × Bool}
    (h : kind.accessor? = some a) : kind.isOperative = false := by
  revert h
  unfold accessor?
  split <;> simp [isOperative, BinaryOp.ofSymbol?]

/-- What ends a chain is neither an operand nor an operator. -/
theorem Chain.Between.isOperative_terminator {s : Scope} {r : Chain} {c e : Cursor}
    (h : r.Between s c e) : r.terminator.token.kind.isOperative = false :=
  TokenKind.isOperative_eq_false_of_terminator h.ofKind?_terminator

/-- What ends a list of items is neither. -/
theorem Items.Between.isOperative_terminator {s : Scope} {r : Items} {c e : Cursor}
    (h : r.Between s c e) : r.terminator.token.kind.isOperative = false :=
  TokenKind.isOperative_eq_false_of_terminator h.ofKind?_terminator

/-- The symbol of a binary operator counts as an operator. -/
theorem BinaryOp.isOperative_symbol (op : BinaryOp) :
    (TokenKind.symbol op.symbol).isOperative = true := by
  cases op <;> rfl

/-- So does that of a sign. -/
theorem UnaryOp.isOperative_symbol (op : UnaryOp) :
    (TokenKind.symbol op.symbol).isOperative = true := by
  cases op <;> rfl

/-- A dot and the token behind it. -/
theorem Accounted.member {optional : Bool} {dot found : Token}
    (hdot : dot.kind.accessor? = some (.member, optional)) (hname : found.kind ≠ .identifier "") :
    Accounted [dot, found] (memberIssues optional dot found)
      (if (memberName dot found).name = "" then []
        else [.identifier (memberName dot found).name]) := by
  cases hk : found.kind with
  | identifier name =>
    have hne : name ≠ "" := by
      rintro rfl
      exact hname hk
    have hfound : found.kind.isOperative = true := by
      rw [hk]
      rfl
    simp only [memberIssues, memberName, hk, if_neg hne]
    rw [← hk]
    exact .delimiter (TokenKind.isOperative_eq_false_of_accessor hdot) (.operative hfound .nil)
  -- Whatever else stands behind the dot is swallowed with it.
  | _ =>
    simp only [memberIssues, memberName, hk, ↓reduceIte]
    exact .bareDot hdot .nil

section
variable {s : Scope} {mode : Reduction}

mutual

/-- The tokens of a chain are yielded by its tree, reported by its issues, or
delimiters. -/
theorem Chain.Between.accounted : {r : Chain} → {c e : Cursor} → r.Between s c e →
    (∀ t ∈ r.body, t.kind ≠ .identifier "") → Accounted r.body r.issues (r.toExpr mode).yield
  | .mk first links, _, _, ⟨_, hf, hl⟩, hname => by
    rw [Chain.body, List.forall_mem_append] at hname
    have h := (Operand.Between.accounted hf hname.1).append (Links.Between.accounted hl hname.2)
    -- Whatever the mode, the tree yields the row as it stands.
    have hyield := Row.yield_group mode ⟨first.toExpr mode, links.toPairs mode⟩
    rw [Chain.body, Chain.issues, Chain.toExpr]
    exact hyield ▸ h

/-- Strays are reported, and operands yield their own tokens with an operator in front. -/
theorem Links.Between.accounted : {r : Links} → {c e : Cursor} → r.Between s c e →
    (∀ t ∈ r.body, t.kind ≠ .identifier "") →
      Accounted r.body r.issues
        ((r.toPairs mode).flatMap fun l => .symbol l.1.symbol :: l.2.yield)
  | .done _, _, _, _, _ => .nil
  | .stray _ _, _, _, ⟨_, _, _, hr⟩, hname => by
    rw [Links.body, List.forall_mem_cons] at hname
    rw [Links.body, Links.issues, Links.toPairs]
    exact .misplaced rfl (Links.Between.accounted hr hname.2)
  | .link op token operand rest, _, _, ⟨ht, hop, _, ho, hr⟩, hname => by
    rw [Links.body, List.forall_mem_cons, List.forall_mem_append] at hname
    have h := (Operand.Between.accounted ho hname.2.1).append
      (Links.Between.accounted hr hname.2.2)
    have hk : token.kind = .symbol op.symbol := ht ▸ BinaryOp.ofKind?_eq_some_iff.mp hop
    rw [Links.body, Links.issues, Links.toPairs, List.flatMap_cons, ← hk]
    exact .operative (hk ▸ op.isOperative_symbol) h

/-- A sign is yielded in front of what its operand yields. -/
theorem Operand.Between.accounted : {r : Operand} → {c e : Cursor} → r.Between s c e →
    (∀ t ∈ r.tokens, t.kind ≠ .identifier "") →
      Accounted r.tokens r.issues (r.toExpr mode).yield
  | .signed op token operand, _, _, ⟨ht, hop, ho⟩, hname => by
    rw [Operand.tokens, List.forall_mem_cons] at hname
    have hk : token.kind = .symbol op.symbol := ht ▸ UnaryOp.ofKind?_eq_some_iff.mp hop
    rw [Operand.tokens, Operand.issues, Operand.toExpr, Expr.yield, ← hk]
    exact .operative (hk ▸ op.isOperative_symbol) (Operand.Between.accounted ho hname.2)
  | .bare _, _, _, ⟨_, hp⟩, hname => by
    rw [Operand.tokens] at hname
    rw [Operand.tokens, Operand.issues, Operand.toExpr]
    exact Primary.Between.accounted hp hname

/-- A stray operator is reported and not yielded. -/
theorem Primary.Between.accounted : {r : Primary} → {c e : Cursor} → r.Between s c e →
    (∀ t ∈ r.tokens, t.kind ≠ .identifier "") →
      Accounted r.tokens r.issues (r.toExpr mode).yield
  | .stray _ _, _, _, ⟨_, _, _, hr⟩, hname => by
    rw [Primary.tokens, List.forall_mem_cons] at hname
    rw [Primary.tokens, Primary.issues, Primary.toExpr]
    exact .misplaced rfl (Primary.Between.accounted hr hname.2)
  | .atom atom accessors, _, _, ⟨_, ha, hs⟩, hname => by
    rw [Primary.tokens, List.forall_mem_append] at hname
    obtain ⟨yield, h, happly⟩ := Accessors.Between.accounted hs hname.2
    rw [Primary.tokens, Primary.issues, Primary.toExpr, happly]
    exact (Atom.Between.accounted ha hname.1).append h

/-- An atom yields its token. A missing operand is reported and yields nothing; a chain in
parentheses yields what it holds. -/
theorem Atom.Between.accounted : {r : Atom} → {c e : Cursor} → r.Between s c e →
    (∀ t ∈ r.tokens, t.kind ≠ .identifier "") →
      Accounted r.tokens r.issues (r.toExpr mode).yield
  | .number value span, _, _, _, _ =>
    .operative (t := ⟨.number value, span⟩) rfl .nil
  | .string value span, _, _, _, _ =>
    .operative (t := ⟨.string value, span⟩) rfl .nil
  | .name name span, _, _, _, _ =>
    .operative (t := ⟨.identifier name, span⟩) rfl .nil
  | .group _ _, _, _, ⟨ht, hk, hi⟩, hname => by
    rw [Atom.tokens, List.forall_mem_cons, List.forall_mem_append] at hname
    have h := (Chain.Between.accounted hi hname.2.1).concat hi.isOperative_terminator
    rw [Atom.tokens, Atom.issues, Atom.toExpr]
    exact .delimiter (by rw [ht, hk]; rfl) h
  | .array _ _, _, _, ⟨ht, hk, hi⟩, hname => by
    rw [Atom.tokens, List.forall_mem_cons, List.forall_mem_append] at hname
    have h := (Items.Between.accounted hi hname.2.1).concat hi.isOperative_terminator
    rw [Atom.tokens, Atom.issues, Atom.toExpr, Expr.yield]
    exact .delimiter (by rw [ht, hk]; rfl) h
  | .missing _, _, _, _, _ => .misplaced rfl .nil

/-- Accessors add their own yield to that of the expression in front. -/
theorem Accessors.Between.accounted : {r : Accessors} → {c e : Cursor} → r.Between s c e →
    (∀ t ∈ r.tokens, t.kind ≠ .identifier "") →
      ∃ yield, Accounted r.tokens r.issues yield ∧
        ∀ x : Expr, (r.apply mode x).yield = x.yield ++ yield
  | .none, _, _, _, _ => ⟨[], .nil, fun _ => (List.append_nil _).symm⟩
  | .call _ opening args rest, _, _, ⟨ht, hk, _, ha, hr⟩, hname => by
    rw [Accessors.tokens, List.forall_mem_cons, List.forall_mem_append,
      List.forall_mem_cons] at hname
    obtain ⟨yield, h, happly⟩ := Accessors.Between.accounted hr hname.2.2.2
    -- The tokens around the arguments are delimiters and yield nothing.
    have hopen : opening.kind.isOperative = false :=
      ht ▸ TokenKind.isOperative_eq_false_of_accessor hk
    have hargs := Items.Between.accounted ha hname.2.1
    refine ⟨_, .delimiter hopen (hargs.append (.delimiter ha.isOperative_terminator h)), ?_⟩
    intro x
    rw [Accessors.apply, happly, Expr.yield, List.append_assoc]
  | .index _ opening inner rest, _, _, ⟨ht, hk, _, hi, hr⟩, hname => by
    rw [Accessors.tokens, List.forall_mem_cons, List.forall_mem_append,
      List.forall_mem_cons] at hname
    obtain ⟨yield, h, happly⟩ := Accessors.Between.accounted hr hname.2.2.2
    have hopen : opening.kind.isOperative = false :=
      ht ▸ TokenKind.isOperative_eq_false_of_accessor hk
    have hinner := Chain.Between.accounted hi hname.2.1
    refine ⟨_, .delimiter hopen (hinner.append (.delimiter hi.isOperative_terminator h)), ?_⟩
    intro x
    rw [Accessors.apply, happly, Expr.yield, List.append_assoc]
  | .member _ _ _ rest, _, _, ⟨ht, hk, _, hr⟩, hname => by
    rw [Accessors.tokens, List.forall_mem_cons, List.forall_mem_cons] at hname
    obtain ⟨yield, h, happly⟩ := Accessors.Between.accounted hr hname.2.2
    refine ⟨_, (Accounted.member (ht ▸ hk) hname.2.1).append h, ?_⟩
    intro x
    rw [Accessors.apply, happly, Expr.yield, List.append_assoc]

/-- The items of a list are accounted for one by one, and commas do not count. -/
theorem Items.Between.accounted : {r : Items} → {c e : Cursor} → r.Between s c e →
    (∀ t ∈ r.body, t.kind ≠ .identifier "") →
      Accounted r.body r.issues (Expr.yieldAll (r.toExprs mode))
  | .last _, _, _, ⟨hi, _⟩, hname => by
    rw [Items.body] at hname
    rw [Items.body, Items.issues, Items.toExprs, Expr.yieldAll, Expr.yieldAll, List.append_nil]
    exact Chain.Between.accounted hi hname
  | .more _ _, _, _, ⟨_, hi, _, hr⟩, hname => by
    rw [Items.body, List.forall_mem_append, List.forall_mem_cons] at hname
    have hrest := Items.Between.accounted hr hname.2.2
    rw [Items.body, Items.issues, Items.toExprs, Expr.yieldAll]
    exact (Chain.Between.accounted hi hname.1).append
      (.delimiter hi.isOperative_terminator hrest)

end

end

/-! ### What the issues account for -/

namespace Token

/-- Whether one of the issues says that the token is out of place. -/
def isReported (issues : List Issue) (t : Token) : Bool :=
  issues.any fun i => i.problem.isMisplaced && i.span == t.span

/-- Whether the token is a dot of which one of the issues says that there is no
name behind it. -/
def isBareDot (issues : List Issue) (t : Token) : Bool :=
  match t.kind.accessor? with
  | some (.member, optional) =>
    issues.any fun i => i.problem == .memberExpected optional && i.span == t.span
  | _ => false

/-- The tokens of a row less those that issues account for: the ones that are
reported, and the ones behind a bare dot. The flag says whether there is a bare
dot in front of the row. -/
def spared (issues : List Issue) (swallowed : Bool) : List Token → List Token
  | [] => []
  | t :: ts =>
    let rest := spared issues (t.isBareDot issues) ts
    if swallowed || t.isReported issues then rest else t :: rest

variable {issues : List Issue} {t : Token}

/-- A reported token shares its place with an issue. -/
theorem exists_of_isReported (h : t.isReported issues = true) :
    ∃ i ∈ issues, i.span = t.span := by
  obtain ⟨i, hi, h⟩ := List.any_eq_true.mp h
  rw [Bool.and_eq_true] at h
  exact ⟨i, hi, beq_iff_eq.mp h.2⟩

/-- A bare dot is a dot at the place of an issue. -/
theorem exists_of_isBareDot (h : t.isBareDot issues = true) :
    t.kind ≠ .eof ∧ ∃ i ∈ issues, i.problem.isMisplaced = false ∧ i.span = t.span := by
  unfold isBareDot at h
  split at h
  · -- Its issue is that a member is expected, and no other one.
    rename_i optional hk
    obtain ⟨i, hi, h⟩ := List.any_eq_true.mp h
    rw [Bool.and_eq_true, beq_iff_eq, beq_iff_eq] at h
    refine ⟨?_, i, hi, by rw [h.1]; rfl, h.2⟩
    intro heof
    rw [heof] at hk
    cases hk
  · cases h

/-- Sparing only leaves tokens out. -/
theorem mem_of_mem_spared {swallowed : Bool} {ts : List Token}
    (h : t ∈ spared issues swallowed ts) : t ∈ ts := by
  induction ts generalizing swallowed with
  | nil => exact h
  | cons u ts ih =>
    simp only [spared] at h
    split at h
    · exact List.mem_cons_of_mem _ (ih h)
    · rcases List.mem_cons.mp h with rfl | h
      · exact List.mem_cons_self
      · exact List.mem_cons_of_mem _ (ih h)

/-- What is spared of two rows is what is spared of each of them. -/
theorem exists_spared_append (issues : List Issue) (swallowed : Bool) (ts us : List Token) :
    ∃ between, spared issues swallowed (ts ++ us)
      = spared issues swallowed ts ++ spared issues between us := by
  induction ts generalizing swallowed with
  | nil => exact ⟨swallowed, rfl⟩
  | cons t ts ih =>
    obtain ⟨between, h⟩ := ih (t.isBareDot issues)
    refine ⟨between, ?_⟩
    simp only [List.cons_append, spared, h]
    split
    · rfl
    · rfl

/-- Ends of the input add no operands and no operators. -/
theorem filter_spared_append_eof {us : List Token} (hus : ∀ u ∈ us, u.kind = .eof)
    (swallowed : Bool) (ts : List Token) :
    ((spared issues swallowed (ts ++ us)).map Token.kind).filter TokenKind.isOperative
      = ((spared issues swallowed ts).map Token.kind).filter TokenKind.isOperative := by
  obtain ⟨between, h⟩ := exists_spared_append issues swallowed ts us
  have hnil : ((spared issues between us).map Token.kind).filter TokenKind.isOperative = [] := by
    refine List.filter_eq_nil_iff.mpr fun k hk => ?_
    obtain ⟨u, hu, rfl⟩ := List.mem_map.mp hk
    rw [hus u (mem_of_mem_spared hu)]
    nofun
  rw [h, List.map_append, List.filter_append, hnil, List.append_nil]

end Token

/-- A row of tokens in order, each of which takes up space unless it is an end
of the input, with those of the issues that are at its tokens. -/
structure Token.Owns (ts : List Token) (own issues : List Issue) : Prop where
  ordered : Token.Ordered ts
  pos : ∀ t ∈ ts, t.kind ≠ .eof → t.span.start < t.span.stop
  sub : ∀ i ∈ own, i ∈ issues
  all : ∀ t ∈ ts, t.kind ≠ .eof → ∀ i ∈ issues, i.span = t.span → i ∈ own

namespace Token

variable {t : Token} {ts : List Token} {own issues : List Issue}

/-- A row owns its issues without the first token, if none of them is at it. -/
theorem Owns.tail (h : Owns (t :: ts) own issues) : Owns ts own issues :=
  ⟨(ordered_cons.mp h.ordered).2.1, fun u hu => h.pos u (List.mem_cons_of_mem _ hu), h.sub,
    fun u hu => h.all u (List.mem_cons_of_mem _ hu)⟩

/-- The tokens behind the first one do not own its issue. -/
theorem Owns.tail_of_cons {p : Problem} (h : Owns (t :: ts) (⟨p, t.span⟩ :: own) issues) :
    Owns ts own issues := by
  obtain ⟨-, hts, hbefore⟩ := ordered_cons.mp h.ordered
  obtain ⟨-, hpos⟩ := List.forall_mem_cons.mp h.pos
  refine ⟨hts, hpos, fun i hi => h.sub i (List.mem_cons_of_mem _ hi), ?_⟩
  intro u hu hne i hi hspan
  rcases List.mem_cons.mp (h.all u (List.mem_cons_of_mem _ hu) hne i hi hspan) with rfl | hi
  · -- The token is behind the first one and takes up space, so they are not at one place.
    have hle := hbefore u hu
    have hupos := hpos u hu hne
    rw [show t.span = u.span from hspan] at hle
    omega
  · exact hi

end Token

namespace Accounted

variable {t : Token} {ts : List Token} {own all issues : List Issue} {yield : List TokenKind}

/-- No issue of a row is at the token in front of it. -/
theorem span_ne (h : Accounted ts own yield) (ho : Token.Owns (t :: ts) all issues)
    (hne : t.kind ≠ .eof) {i : Issue} (hi : i ∈ own) : i.span ≠ t.span := by
  obtain ⟨u, hu, hspan⟩ := h.exists_span_eq hi
  have hpos := ho.pos t List.mem_cons_self hne
  have hle := (Token.ordered_cons.mp ho.ordered).2.2 u hu
  intro he
  rw [← hspan, he] at hle
  omega

/-- A token is no bare dot unless an issue of its own says so. -/
theorem isBareDot_eq_false (h : Accounted ts own yield) (ho : Token.Owns (t :: ts) all issues)
    (hown : ∀ i ∈ all, i.problem.isMisplaced = false → i ∈ own) : t.isBareDot issues = false := by
  rw [← Bool.not_eq_true]
  intro hdot
  obtain ⟨hne, i, hi, hp, hspan⟩ := Token.exists_of_isBareDot hdot
  have hall := ho.all t List.mem_cons_self hne i hi hspan
  exact h.span_ne ho hne (hown i hall hp) hspan

/-- A token is not reported unless an issue of its own says so. -/
theorem isReported_eq_false (h : Accounted ts own yield) (ho : Token.Owns (t :: ts) own issues)
    (hne : t.kind ≠ .eof) : t.isReported issues = false := by
  rw [← Bool.not_eq_true]
  intro hreported
  obtain ⟨i, hi, hspan⟩ := Token.exists_of_isReported hreported
  exact h.span_ne ho hne (ho.all t List.mem_cons_self hne i hi hspan) hspan

/-- The issues at the tokens of a row account for exactly those of them that it
does not yield. -/
theorem filter_spared (h : Accounted ts own yield) (ho : Token.Owns ts own issues) :
    ((Token.spared issues false ts).map Token.kind).filter TokenKind.isOperative = yield := by
  induction h with
  | nil => rfl
  | @operative t ts own yield ht h ih =>
    have hne : t.kind ≠ .eof := by
      intro heof
      rw [heof] at ht
      cases ht
    have hdot : t.isBareDot issues = false := h.isBareDot_eq_false ho fun _ hi _ => hi
    -- The issues are at tokens behind this one, so it is neither reported nor swallowed.
    simp only [Token.spared, hdot, h.isReported_eq_false ho hne, Bool.or_self, Bool.false_eq_true,
      ↓reduceIte, List.map_cons, List.filter_cons, ht, ih ho.tail]
  | @delimiter t ts own yield ht h ih =>
    have hdot : t.isBareDot issues = false := h.isBareDot_eq_false ho fun _ hi _ => hi
    -- An end may be reported, as a missing operand at the same place. It is not yielded either way.
    simp only [Token.spared, hdot]
    split
    · exact ih ho.tail
    · simp only [List.map_cons, List.filter_cons, ht, ih ho.tail, Bool.false_eq_true, ↓reduceIte]
  | @misplaced t p ts own yield hp h ih =>
    have hdot : t.isBareDot issues = false := by
      refine h.isBareDot_eq_false ho (List.forall_mem_cons.mpr ⟨?_, fun _ hi _ => hi⟩)
      rw [hp]
      nofun
    have hreported : t.isReported issues = true :=
      List.any_eq_true.mpr ⟨_, ho.sub _ List.mem_cons_self, by simp [hp]⟩
    simp only [Token.spared, hdot, hreported, Bool.or_true, ↓reduceIte, ih ho.tail_of_cons]
  | @bareDot optional dot found ts own yield hk h ih =>
    have hfound : found.isBareDot issues = false :=
      h.isBareDot_eq_false ho.tail_of_cons fun _ hi _ => hi
    have hdot : dot.isBareDot issues = true := by
      simp only [Token.isBareDot, hk]
      exact List.any_eq_true.mpr ⟨_, ho.sub _ List.mem_cons_self, by simp⟩
    have hnot := TokenKind.isOperative_eq_false_of_accessor hk
    have hrest := ih ho.tail_of_cons.tail
    -- What is behind the dot is swallowed, whatever becomes of the dot.
    simp only [Token.spared, hdot, hfound, Bool.true_or, ↓reduceIte]
    split
    · exact hrest
    · simp only [List.map_cons, List.filter_cons, hnot, hrest, Bool.false_eq_true, ↓reduceIte]

end Accounted

/-! ### Source texts -/

/-- **Nothing is lost silently.** From any place in a lexed list, take the
tokens that reading an expression passes, without those that its issues account
for. The operands and operators among them are what its tree yields, one by one
and in order, in both modes. -/
theorem filter_spared_eq_yield (source : String) (s : Scope) (n : Nat) (mode : Reduction) :
    let c := (Cursor.ofTokens (lex source).tokens).skip n
    let r := Chain.read s c
    let passed := c.ahead.take (r.2.position - c.position)
    passed ++ r.2.ahead = c.ahead ∧
      ((Token.spared r.1.issues false passed).map Token.kind).filter TokenKind.isOperative
        = (r.1.toExpr mode).yield := by
  intro c r passed
  have hreaches := Cursor.reaches_skip n (Cursor.ofTokens (lex source).tokens)
  have hc : c.InOrder := (Cursor.inOrder_ofTokens (inOrder_lex source)).reaches hreaches
  obtain ⟨front, hstart, -, hfront⟩ := ofTokens_lex source
  have hlexed : ∀ t ∈ c.ahead, t.IsLexed := fun t ht =>
    hfront t (by simpa only [hstart] using hreaches.mem_ahead ht)
  have hr : r.1.Between s c r.2 := Chain.between_read s c
  obtain ⟨ends, htake, hends⟩ := hr.takes.exists_eq_take_append
  -- What is taken stands in the text, or is an end.
  have htaken : ∀ t ∈ r.1.body ++ [r.1.terminator.token], t.kind = .eof ∨ t.IsLexed := by
    rw [htake]
    refine List.forall_mem_append.mpr ⟨fun t ht => .inr ?_, fun t ht => .inl (hends t ht)⟩
    exact hlexed t (List.mem_of_mem_take ht)
  have hname : ∀ t ∈ r.1.body, t.kind ≠ .identifier "" := by
    intro t ht
    rcases htaken t (List.mem_append_left _ ht) with heof | hlex
    · rw [heof]
      nofun
    · exact hlex.named
  -- What is accounted for includes the terminator, which is passed if it is no end.
  have haccounted : Accounted (r.1.body ++ [r.1.terminator.token]) r.1.issues
      (r.1.toExpr mode).yield := (hr.accounted hname).concat hr.isOperative_terminator
  have howns : Token.Owns (r.1.body ++ [r.1.terminator.token]) r.1.issues r.1.issues :=
    ⟨hr.takes.ordered hc, fun t ht hne => ((htaken t ht).resolve_left hne).span,
      fun _ hi => hi, fun t ht hne i hi hspan => hi⟩
  refine ⟨(Chain.reaches_read s c).take_append, ?_⟩
  rw [← haccounted.filter_spared howns, htake, Token.filter_spared_append_eof hends]

/-- The plus is lost behind the dot, and the names and the closing parenthesis
are out of place. -/
example :
    let r := (Chain.read .stream (.ofTokens (lex "a.+b c*)d").tokens)).1
    r.issues.map (fun i => i.problem.code) = ["E2003", "E2002", "E2002", "E2001", "E2002"] ∧
      (r.toExpr .singleStep).yield = [.identifier "a", .symbol .asterisk] := by
  decide +kernel

end ExprFrontEnd
