import ExprFrontEnd.Proofs.LexedTokens
import ExprFrontEnd.Proofs.Row

/-!
# `ExprFrontEnd.Proofs.Spans`: where the nodes of a tree are

The span of a node covers its parts, and it says more than that: it starts
and stops at tokens that belong to the node. `Expr.Placed` spells this out for
each kind of node, with the tokens that it was read from. This also holds of
trees with faults in them, and of every place where reading may start.

The statement that carries the induction on chains is `Expr.Sits`. Its span
runs from the start of one token of the chain to the stop of another one
(`Span.RunsOver`), so the order of the tokens puts the spans of the parts of
a chain in order as well (`Span.RunsOver.le`).

* `Grouping.sits_toExpr`: joining operands in order, in whichever way, gives
  nodes that are placed. This is all that the mode of reduction has a say in.
* `Chain.Between.sits`: every node of the tree of a chain is placed, and the
  tree runs over the tokens of the chain without its terminator.
* `placed_of_mem_nodes`: this is so for every stream in order.
-/

set_option autoImplicit false

namespace ExprFrontEnd

/-! ### Nodes -/

mutual

/-- The nodes of an expression, the root first. -/
def Expr.nodes : Expr → List Expr
  | e@(.number _ _) | e@(.string _ _) | e@(.identifier _) | e@(.ignore _ _) => [e]
  | e@(.unary _ arg _) => e :: arg.nodes
  | e@(.binary left _ right _) => e :: (left.nodes ++ right.nodes)
  | e@(.call callee args _ _) => e :: (callee.nodes ++ nodesList args)
  | e@(.index object inner _ _) => e :: (object.nodes ++ inner.nodes)
  | e@(.member object _ _ _) => e :: object.nodes
  | e@(.array elems _) => e :: nodesList elems

/-- The nodes of the expressions of a list. -/
def Expr.nodesList : List Expr → List Expr
  | [] => []
  | e :: es => e.nodes ++ nodesList es

end

/-- The nodes of a list are those of its expressions. -/
theorem Expr.mem_nodesList {n : Expr} {es : List Expr} :
    n ∈ nodesList es ↔ ∃ e ∈ es, n ∈ e.nodes := by
  induction es with
  | nil => simp [nodesList]
  | cons e es ih => simp [nodesList, ih]

/-- Expressions between two tokens, one behind the other. -/
structure Expr.Enclosed (opening closing : Span) (es : List Expr) : Prop where
  behind : ∀ e ∈ es, opening.stop ≤ e.span.start
  before : ∀ e ∈ es, e.span.stop ≤ closing.start
  ordered : es.Pairwise fun a b => a.span.stop ≤ b.span.start

/-- Where a node of a tree is that was read from a cursor on. A node with
tokens of its own was read at a cursor `d` that lies ahead: its operator or
opening token is the one there, and the terminator is that of what was read
behind it. -/
def Expr.Placed (s : Scope) (mode : Reduction) (c : Cursor) : Expr → Prop
  | .number value span => ∃ d, Cursor.Leads s c d ∧ d.peek s = ⟨.number value, span⟩
  | .string value span => ∃ d, Cursor.Leads s c d ∧ d.peek s = ⟨.string value, span⟩
  | .identifier name => ∃ d, Cursor.Leads s c d ∧ d.peek s = ⟨.identifier name.name, name.span⟩
  | .ignore token span => ∃ d, Cursor.Leads s c d ∧ d.peek s = token ∧ span = token.span
  | .unary op arg span =>
    ∃ (d : Cursor) (operand : Operand) (e : Cursor), Cursor.Leads s c d ∧
      (Operand.signed op (d.peek s) operand).Between s d e ∧ arg = operand.toExpr mode ∧
      (d.peek s).span.stop ≤ arg.span.start ∧ span.contains arg.span = true ∧
      span = ⟨(d.peek s).span.start, arg.span.stop⟩
  | .binary left _ right span =>
      left.span.stop ≤ right.span.start ∧ span = left.span.merge right.span
  | .call callee args optional span =>
    ∃ (d : Cursor) (items : Items) (e : Cursor), Cursor.Leads s c d ∧
      (d.peek s).kind.accessor? = some (.call, optional) ∧
      items.Between s (d.advance s) e ∧ args = items.toExprs mode ∧
      callee.span.stop ≤ (d.peek s).span.start ∧ span.contains callee.span = true ∧
      Enclosed (d.peek s).span items.terminator.span args ∧
      (∀ a ∈ args, span.contains a.span = true) ∧
      span = ⟨callee.span.start, items.terminator.span.stop⟩
  | .index object place optional span =>
    ∃ (d : Cursor) (inner : Chain) (e : Cursor), Cursor.Leads s c d ∧
      (d.peek s).kind.accessor? = some (.index, optional) ∧
      inner.Between s (d.advance s) e ∧ place = inner.toExpr mode ∧
      object.span.stop ≤ (d.peek s).span.start ∧ span.contains object.span = true ∧
      Enclosed (d.peek s).span inner.terminator.span [place] ∧
      span.contains place.span = true ∧
      span = ⟨object.span.start, inner.terminator.span.stop⟩
  | .member object prop _ span =>
      object.span.stop ≤ prop.span.start ∧ span = object.span.merge prop.span
  | .array elems span =>
    ∃ (d : Cursor) (items : Items) (e : Cursor), Cursor.Leads s c d ∧
      (d.peek s).kind = .symbol .openBracket ∧
      items.Between s (d.advance s) e ∧ elems = items.toExprs mode ∧
      Enclosed (d.peek s).span items.terminator.span elems ∧
      (∀ a ∈ elems, span.contains a.span = true) ∧
      span = ⟨(d.peek s).span.start, items.terminator.span.stop⟩

/-! ### Spans from token to token -/

/-- A span from the start of one token of a row to the stop of another one. -/
structure Span.RunsOver (sp : Span) (ts : List Token) : Prop where
  start : ∃ t ∈ ts, sp.start = t.span.start
  stop : ∃ t ∈ ts, sp.stop = t.span.stop
  le : sp.start ≤ sp.stop

namespace Span

/-- A span that runs over some tokens runs over any row that has them. -/
theorem RunsOver.mono {sp : Span} {ts us : List Token} (h : sp.RunsOver ts)
    (hsub : ∀ t ∈ ts, t ∈ us) : sp.RunsOver us := by
  obtain ⟨⟨t, ht, hstart⟩, ⟨u, hu, hstop⟩, hle⟩ := h
  exact ⟨⟨t, hsub t ht, hstart⟩, ⟨u, hsub u hu, hstop⟩, hle⟩

/-- A span stops where a token of its row does. -/
theorem RunsOver.stop_le {sp : Span} {ts : List Token} (h : sp.RunsOver ts) {n : Nat}
    (hn : ∀ t ∈ ts, t.span.stop ≤ n) : sp.stop ≤ n := by
  obtain ⟨t, ht, hstop⟩ := h.stop
  exact hstop ▸ hn t ht

/-- A span starts where a token of its row does. -/
theorem RunsOver.le_start {sp : Span} {ts : List Token} (h : sp.RunsOver ts) {n : Nat}
    (hn : ∀ t ∈ ts, n ≤ t.span.start) : n ≤ sp.start := by
  obtain ⟨t, ht, hstart⟩ := h.start
  exact hstart ▸ hn t ht

/-- What runs over the tokens in front is in front. -/
theorem RunsOver.le_of_before {sp sp' : Span} {ts us : List Token} (h : sp.RunsOver ts)
    (h' : sp'.RunsOver us) (hbefore : ∀ t ∈ ts, ∀ u ∈ us, t.span.stop ≤ u.span.start) :
    sp.stop ≤ sp'.start :=
  h'.le_start fun u hu => h.stop_le fun t ht => hbefore t ht u hu

/-- The span of two parts in order runs from the start of the first one to the
stop of the second one. -/
theorem merge_of_le {a b : Span} (ha : a.start ≤ a.stop) (hab : a.stop ≤ b.start)
    (hb : b.start ≤ b.stop) : a.merge b = ⟨a.start, b.stop⟩ := by
  rw [merge, Nat.min_eq_left (by omega), Nat.max_eq_right (by omega)]

/-- Containing is a comparison of both ends. -/
theorem contains_of_le {a b : Span} (hstart : a.start ≤ b.start) (hstop : b.stop ≤ a.stop) :
    a.contains b = true := by
  rw [contains, decide_eq_true hstart, decide_eq_true hstop, Bool.and_self]

end Span

/-! ### Trees that sit where they were read -/

section
variable {s : Scope} {mode : Reduction} {c : Cursor}

/-- An expression runs over some tokens, and all of its nodes are placed. -/
structure Expr.Sits (s : Scope) (mode : Reduction) (c : Cursor) (ts : List Token) (e : Expr) :
    Prop where
  runs : e.span.RunsOver ts
  nodes : ∀ n ∈ e.nodes, n.span.start ≤ n.span.stop ∧ n.Placed s mode c

/-- Expressions that run over some tokens, one behind the other. -/
structure Expr.AllSit (s : Scope) (mode : Reduction) (c : Cursor) (ts : List Token)
    (es : List Expr) : Prop where
  each : ∀ e ∈ es, e.Sits s mode c ts
  ordered : es.Pairwise fun a b => a.span.stop ≤ b.span.start

namespace Expr

variable {ts us : List Token} {e : Expr} {es : List Expr}

/-- More tokens to run over do no harm. -/
theorem Sits.mono (h : e.Sits s mode c ts) (hsub : ∀ t ∈ ts, t ∈ us) : e.Sits s mode c us :=
  ⟨h.runs.mono hsub, h.nodes⟩

/-- The same for lists of expressions. -/
theorem AllSit.mono (h : AllSit s mode c ts es) (hsub : ∀ t ∈ ts, t ∈ us) :
    AllSit s mode c us es :=
  ⟨fun e he => (h.each e he).mono hsub, h.ordered⟩

/-- No expression, nothing to place. -/
theorem AllSit.nil : AllSit s mode c ts [] :=
  ⟨List.forall_mem_nil _, .nil⟩

/-- One expression is a list in order. -/
theorem Sits.singleton (h : e.Sits s mode c ts) : AllSit s mode c ts [e] :=
  ⟨List.forall_mem_singleton.mpr h, List.pairwise_singleton _ _⟩

/-- One more expression in front, over tokens in front. -/
theorem Sits.cons (he : e.Sits s mode c ts) (hes : AllSit s mode c us es)
    (hbefore : ∀ t ∈ ts, ∀ u ∈ us, t.span.stop ≤ u.span.start) :
    AllSit s mode c (ts ++ us) (e :: es) := by
  have hes' := hes.mono fun u hu => List.mem_append_right ts hu
  refine ⟨List.forall_mem_cons.mpr ⟨he.mono fun t ht => List.mem_append_left us ht, hes'.each⟩,
    List.pairwise_cons.mpr ⟨fun e' he' => ?_, hes.ordered⟩⟩
  exact he.runs.le_of_before (hes.each e' he').runs hbefore

/-- A node is placed if it is so itself and all nodes below it are. -/
theorem Sits.of_node (hruns : e.span.RunsOver ts) (hplaced : e.Placed s mode c)
    {below : List Expr} (hnodes : e.nodes = e :: below)
    (hbelow : ∀ n ∈ below, n.span.start ≤ n.span.stop ∧ n.Placed s mode c) :
    e.Sits s mode c ts := by
  refine ⟨hruns, ?_⟩
  rw [hnodes]
  exact List.forall_mem_cons.mpr ⟨⟨hruns.le, hplaced⟩, hbelow⟩

/-- Every node in the list is a node of one of its expressions. -/
theorem AllSit.nodesList (h : AllSit s mode c ts es) :
    ∀ n ∈ nodesList es, n.span.start ≤ n.span.stop ∧ n.Placed s mode c := by
  intro n hn
  obtain ⟨e, he, hn⟩ := mem_nodesList.mp hn
  exact (h.each e he).nodes n hn

end Expr

/-! ### Operands joined by operators -/

/-- The span of a tree starts where one of its operands starts and stops where
one of them stops. -/
theorem Grouping.span_toExpr (g : Grouping Expr) :
    (∃ e ∈ g.operands, g.toExpr.span.start = e.span.start) ∧
      ∃ e ∈ g.operands, g.toExpr.span.stop = e.span.stop := by
  induction g with
  | operand e => exact ⟨⟨e, List.mem_cons_self, rfl⟩, ⟨e, List.mem_cons_self, rfl⟩⟩
  | joined left op right ihl ihr =>
    obtain ⟨⟨a, ha, hastart⟩, ⟨b, hb, hbstop⟩⟩ := ihl
    obtain ⟨⟨a', ha', hastart'⟩, ⟨b', hb', hbstop'⟩⟩ := ihr
    rw [operands]
    -- A merged span takes each end from one side.
    constructor
    · rcases Nat.le_total left.toExpr.span.start right.toExpr.span.start with h | h
      · exact ⟨a, List.mem_append_left _ ha, (Nat.min_eq_left h).trans hastart⟩
      · exact ⟨a', List.mem_append_right _ ha', (Nat.min_eq_right h).trans hastart'⟩
    · rcases Nat.le_total left.toExpr.span.stop right.toExpr.span.stop with h | h
      · exact ⟨b', List.mem_append_right _ hb', (Nat.max_eq_right h).trans hbstop'⟩
      · exact ⟨b, List.mem_append_left _ hb, (Nat.max_eq_left h).trans hbstop⟩

/-- Operands in order give a tree that sits where they do, however they are
joined. -/
theorem Grouping.sits_toExpr {ts : List Token} {g : Grouping Expr}
    (h : Expr.AllSit s mode c ts g.operands) : g.toExpr.Sits s mode c ts := by
  induction g with
  | operand e => exact h.each e List.mem_cons_self
  | joined left op right ihl ihr =>
    obtain ⟨heach, hordered⟩ := h
    obtain ⟨hl, hr, hcross⟩ := List.pairwise_append.mp hordered
    have hleft := ihl ⟨fun e he => heach e (List.mem_append_left _ he), hl⟩
    have hright := ihr ⟨fun e he => heach e (List.mem_append_right _ he), hr⟩
    -- The last operand on the left is in front of the first one on the right.
    have hle : left.toExpr.span.stop ≤ right.toExpr.span.start := by
      obtain ⟨-, b, hb, hbstop⟩ := left.span_toExpr
      obtain ⟨⟨a, ha, hastart⟩, -⟩ := right.span_toExpr
      rw [hbstop, hastart]
      exact hcross b hb a ha
    have hspan : (toExpr (joined left op right)).span
        = ⟨left.toExpr.span.start, right.toExpr.span.stop⟩ :=
      Span.merge_of_le hleft.runs.le hle hright.runs.le
    have hruns : (toExpr (joined left op right)).span.RunsOver ts := by
      have hto : left.toExpr.span.start ≤ right.toExpr.span.stop :=
        Nat.le_trans hleft.runs.le (Nat.le_trans hle hright.runs.le)
      rw [hspan]
      exact ⟨hleft.runs.start, hright.runs.stop, hto⟩
    refine .of_node hruns ⟨hle, rfl⟩ (by rw [toExpr, Expr.nodes]) ?_
    exact List.forall_mem_append.mpr ⟨hleft.nodes, hright.nodes⟩

/-! ### Leaves and delimiters -/

namespace Expr

/-- A leaf is the token that it was read from. -/
theorem Sits.of_leaf {e : Expr} {t : Token} (hspan : e.span = t.span) (hnodes : e.nodes = [e])
    (hplaced : e.Placed s mode c) (ht : Token.Ordered [t]) : e.Sits s mode c [t] := by
  have hmem : t ∈ [t] := List.mem_singleton_self t
  have hruns : e.span.RunsOver [t] := by
    rw [hspan]
    exact ⟨⟨t, hmem, rfl⟩, ⟨t, hmem, rfl⟩, ht.le t hmem⟩
  exact .of_node hruns hplaced hnodes (List.forall_mem_nil _)

/-- A node that starts with `first`, has an opening token behind it or is
opened by it, and stops with a closing token. The expressions in between are
enclosed by the two tokens, and the span of the node covers all of them. -/
structure Closed (first : Span) (opening closing : Token) (ts : List Token) (es : List Expr) :
    Prop where
  span : first.merge closing.span = ⟨first.start, closing.span.stop⟩
  enclosed : Enclosed opening.span closing.span es
  covers : ∀ e ∈ es, (first.merge closing.span).contains e.span = true
  runs : (first.merge closing.span).RunsOver ts

/-- The closing token is behind all expressions, and the opening one in front of them. -/
theorem AllSit.closed {first : Span} {front body : List Token} {opening closing : Token}
    {es : List Expr} (hes : AllSit s mode c body es) (hfirst : first.RunsOver front)
    (hopen : opening ∈ front) (hord : Token.Ordered (front ++ (body ++ [closing]))) :
    Closed first opening closing (front ++ (body ++ [closing])) es := by
  obtain ⟨-, hrest, hcross⟩ := Token.ordered_append.mp hord
  obtain ⟨-, hclosing, hbefore⟩ := Token.ordered_append.mp hrest
  have hmem : closing ∈ [closing] := List.mem_singleton_self closing
  have hle := hclosing.le closing hmem
  -- What is in front of the rest is in front of the closing token.
  have hstop : first.stop ≤ closing.span.start :=
    hfirst.stop_le fun t ht => hcross t ht closing (List.mem_append_right _ hmem)
  have hspan := Span.merge_of_le hfirst.le hstop hle
  have henclosed : Enclosed opening.span closing.span es :=
    ⟨fun e he => (hes.each e he).runs.le_start fun t ht =>
        hcross opening hopen t (List.mem_append_left _ ht),
      fun e he => (hes.each e he).runs.stop_le fun t ht => hbefore t ht closing hmem, hes.ordered⟩
  refine ⟨hspan, henclosed, fun e he => ?_, ?_⟩
  · have hstart : first.stop ≤ e.span.start := hfirst.le_of_before (hes.each e he).runs
      fun t ht u hu => hcross t ht u (List.mem_append_left _ hu)
    have hin := henclosed.before e he
    rw [hspan]
    exact Span.contains_of_le (Nat.le_trans hfirst.le hstart) (Nat.le_trans hin hle)
  · have hto : first.start ≤ closing.span.stop :=
      Nat.le_trans hfirst.le (Nat.le_trans hstop hle)
    obtain ⟨t, ht, hstart⟩ := hfirst.start
    rw [hspan]
    exact ⟨⟨t, List.mem_append_left _ ht, hstart⟩,
      ⟨closing, List.mem_append_right _ (List.mem_append_right _ hmem), rfl⟩, hto⟩

/-- An expression with an opening token behind it, and what is enclosed by it
and a closing token. -/
theorem Sits.closed {x : Expr} {front body : List Token} {opening closing : Token}
    {es : List Expr} (hx : x.Sits s mode c front) (hes : AllSit s mode c body es)
    (hord : Token.Ordered (front ++ [opening] ++ (body ++ [closing]))) :
    x.span.stop ≤ opening.span.start ∧
      Closed x.span opening closing (front ++ [opening] ++ (body ++ [closing])) es := by
  have hmem : opening ∈ [opening] := List.mem_singleton_self opening
  obtain ⟨-, -, hbefore⟩ := Token.ordered_append.mp (Token.ordered_append.mp hord).1
  have hruns : x.span.RunsOver (front ++ [opening]) :=
    hx.runs.mono fun t ht => List.mem_append_left _ ht
  exact ⟨hx.runs.stop_le fun t ht => hbefore t ht opening hmem,
    hes.closed hruns (List.mem_append_right _ hmem) hord⟩

end Expr

/-- The name behind a dot is not in front of it, and it stops with the dot or
with the token behind it. -/
theorem memberName_span {dot found : Token} (hord : Token.Ordered [dot, found]) :
    dot.span.stop ≤ (memberName dot found).span.start ∧
      (memberName dot found).span.start ≤ (memberName dot found).span.stop ∧
      ∃ t ∈ [dot, found], (memberName dot found).span.stop = t.span.stop := by
  obtain ⟨-, hfound, hbefore⟩ := Token.ordered_cons.mp hord
  have hmem : found ∈ [found] := List.mem_singleton_self found
  unfold memberName
  split
  · exact ⟨hbefore found hmem, hfound.le found hmem, found, List.mem_cons_of_mem _ hmem, rfl⟩
  · exact ⟨Nat.le_refl _, Nat.le_refl _, dot, List.mem_cons_self, rfl⟩

/-! ### Chains -/

mutual

/-- The tree of a chain sits on its tokens. -/
theorem Chain.Between.sits : {r : Chain} → {d e : Cursor} → r.Between s d e →
    Cursor.Leads s c d → Token.Ordered r.body → (r.toExpr mode).Sits s mode c r.body
  | .mk first links, d, e, ⟨d', hf, hl⟩, hd, hord => by
    rw [Chain.body] at hord
    obtain ⟨hfirst, hlinks, hcross⟩ := Token.ordered_append.mp hord
    have h₁ := Operand.Between.sits hf hd hfirst
    have h₂ := Links.Between.sits hl (hd.trans ⟨_, hf.takes⟩) hlinks
    -- Whatever the mode, the operands of the tree are those of the row, in order.
    have hover := Row.over_group mode ⟨first.toExpr mode, links.toPairs mode⟩
    rw [Chain.toExpr, Chain.body]
    exact Grouping.sits_toExpr (hover.operands ▸ h₁.cons h₂ hcross)

/-- The right operands are placed one behind the other, and strays between them leave gaps. -/
theorem Links.Between.sits : {r : Links} → {d e : Cursor} → r.Between s d e →
    Cursor.Leads s c d → Token.Ordered r.body →
      Expr.AllSit s mode c r.body ((r.toPairs mode).map Prod.snd)
  | .done _, _, _, _, _, _ => by
    rw [Links.toPairs]
    exact .nil
  | .stray _ rest, d, e, ⟨_, _, _, hr⟩, hd, hord => by
    rw [Links.body] at hord
    rw [Links.toPairs, Links.body]
    -- No node is read from a stray token, but it stands among those of the chain.
    have h := Links.Between.sits hr hd.advance (Token.ordered_cons.mp hord).2.1
    exact h.mono fun t ht => List.mem_cons_of_mem _ ht
  | .link _ _ operand rest, d, e, ⟨_, _, d', ho, hr⟩, hd, hord => by
    rw [Links.body] at hord
    obtain ⟨hoperand, hrest, hcross⟩ := Token.ordered_append.mp (Token.ordered_cons.mp hord).2.1
    have h₁ := Operand.Between.sits ho hd.advance hoperand
    have h₂ := Links.Between.sits hr (hd.advance.trans ⟨_, ho.takes⟩) hrest
    rw [Links.toPairs, Links.body]
    exact (h₁.cons h₂ hcross).mono fun t ht => List.mem_cons_of_mem _ ht

/-- A sign starts the span of its operand, and the operand sits behind it. -/
theorem Operand.Between.sits : {r : Operand} → {d e : Cursor} → r.Between s d e →
    Cursor.Leads s c d → Token.Ordered r.tokens → (r.toExpr mode).Sits s mode c r.tokens
  | .signed op token operand, d, e, ⟨ht, hop, ho⟩, hd, hord => by
    rw [Operand.tokens] at hord
    obtain ⟨hle, hrest, hbefore⟩ := Token.ordered_cons.mp hord
    have h := Operand.Between.sits ho hd.advance hrest
    -- The sign is in front of its operand, so merging keeps both ends.
    have hstop : token.span.stop ≤ (operand.toExpr mode).span.start := h.runs.le_start hbefore
    have hspan := Span.merge_of_le hle hstop h.runs.le
    rw [Operand.toExpr, Operand.tokens]
    refine .of_node ?_ ?_ (by rw [Expr.nodes]) h.nodes
    · obtain ⟨t, hmem, hstopt⟩ := h.runs.stop
      have hto := Nat.le_trans hle (Nat.le_trans hstop h.runs.le)
      show (token.span.merge _).RunsOver _
      rw [hspan]
      exact ⟨⟨token, List.mem_cons_self, rfl⟩, ⟨t, List.mem_cons_of_mem _ hmem, hstopt⟩, hto⟩
    · subst ht
      exact ⟨d, operand, e, hd, ⟨rfl, hop, ho⟩, rfl, hstop, Span.contains_merge_right _ _, hspan⟩
  | .bare primary, _, _, ⟨_, hp⟩, hd, hord => by
    rw [Operand.tokens] at hord
    rw [Operand.toExpr, Operand.tokens]
    exact Primary.Between.sits hp hd hord

/-- The span of an operand starts behind a stray operator, not at it. -/
theorem Primary.Between.sits : {r : Primary} → {d e : Cursor} → r.Between s d e →
    Cursor.Leads s c d → Token.Ordered r.tokens → (r.toExpr mode).Sits s mode c r.tokens
  | .stray _ rest, d, e, ⟨_, _, _, hr⟩, hd, hord => by
    rw [Primary.tokens] at hord
    rw [Primary.toExpr, Primary.tokens]
    have h := Primary.Between.sits hr hd.advance (Token.ordered_cons.mp hord).2.1
    exact h.mono fun t ht => List.mem_cons_of_mem _ ht
  | .atom atom accessors, d, e, ⟨d', ha, hs⟩, hd, hord => by
    rw [Primary.tokens] at hord
    have h := Atom.Between.sits ha hd (Token.ordered_append.mp hord).1
    rw [Primary.toExpr, Primary.tokens]
    exact Accessors.Between.sits hs (hd.trans ⟨_, ha.takes⟩) h hord

/-- Atoms are their token, or are enclosed by two of their tokens. -/
theorem Atom.Between.sits : {r : Atom} → {d e : Cursor} → r.Between s d e →
    Cursor.Leads s c d → Token.Ordered r.tokens → (r.toExpr mode).Sits s mode c r.tokens
  | .number _ _, d, _, ⟨hv, _⟩, hd, hord => by
    rw [Atom.toExpr, Atom.tokens]
    exact .of_leaf rfl (by rw [Expr.nodes]) ⟨d, hd, hv⟩ hord
  | .string _ _, d, _, ⟨hv, _⟩, hd, hord => by
    rw [Atom.toExpr, Atom.tokens]
    exact .of_leaf rfl (by rw [Expr.nodes]) ⟨d, hd, hv⟩ hord
  | .name _ _, d, _, ⟨hv, _⟩, hd, hord => by
    rw [Atom.toExpr, Atom.tokens]
    exact .of_leaf rfl (by rw [Expr.nodes]) ⟨d, hd, hv⟩ hord
  | .group _ inner, d, e, ⟨_, _, hi⟩, hd, hord => by
    rw [Atom.tokens] at hord
    have hinner := (Token.ordered_append.mp (Token.ordered_cons.mp hord).2.1).1
    have h := Chain.Between.sits hi hd.advance hinner
    rw [Atom.toExpr, Atom.tokens]
    -- The parentheses of a group are in no span.
    exact h.mono fun t ht => List.mem_cons_of_mem _ (List.mem_append_left _ ht)
  | .array opening elems, d, e, ⟨ht, hk, hi⟩, hd, hord => by
    rw [Atom.tokens] at hord
    have helems := (Token.ordered_append.mp (Token.ordered_cons.mp hord).2.1).1
    have h := Items.Between.sits hi hd.advance helems
    have hopen : opening ∈ [opening] := List.mem_singleton_self opening
    have hfirst : opening.span.RunsOver [opening] :=
      ⟨⟨opening, hopen, rfl⟩, ⟨opening, hopen, rfl⟩, (Token.ordered_cons.mp hord).1⟩
    have hc := h.closed hfirst hopen hord
    rw [Atom.toExpr, Atom.tokens]
    refine .of_node hc.runs ?_ (by rw [Expr.nodes]) h.nodesList
    subst ht
    exact ⟨d, elems, e, hd, hk, hi, rfl, hc.enclosed, hc.covers, hc.span⟩
  | .missing _, d, _, ⟨ht, _, _⟩, hd, hord => by
    rw [Atom.toExpr, Atom.tokens]
    exact .of_leaf rfl (by rw [Expr.nodes]) ⟨d, hd, ht.symm, rfl⟩ hord

/-- Accessors on an expression that sits in front of them. -/
theorem Accessors.Between.sits : {r : Accessors} → {d e : Cursor} → r.Between s d e →
    Cursor.Leads s c d → ∀ {ts : List Token} {x : Expr}, x.Sits s mode c ts →
      Token.Ordered (ts ++ r.tokens) → (r.apply mode x).Sits s mode c (ts ++ r.tokens)
  | .none, _, _, _, _, ts, x, hx, _ => by
    rw [Accessors.apply, Accessors.tokens, List.append_nil]
    exact hx
  | .call optional opening args rest, d, e, ⟨ht, hk, d', ha, hr⟩, hd, ts, x, hx, hord => by
    have hsplit : ts ++ (Accessors.call optional opening args rest).tokens
        = (ts ++ [opening] ++ (args.body ++ [args.terminator.token])) ++ rest.tokens := by
      simp [Accessors.tokens]
    rw [hsplit] at hord ⊢
    obtain ⟨hnode, -, -⟩ := Token.ordered_append.mp hord
    obtain ⟨-, hargs, -⟩ := Token.ordered_append.mp hnode
    have h := Items.Between.sits ha hd.advance (Token.ordered_append.mp hargs).1
    obtain ⟨hbehind, hc⟩ := hx.closed h hnode
    rw [Accessors.apply]
    -- The call is what the accessors behind it are applied to.
    refine Accessors.Between.sits hr (hd.advance.trans ⟨_, ha.takes⟩) ?_ hord
    refine .of_node hc.runs ?_ (by rw [Expr.nodes])
      (List.forall_mem_append.mpr ⟨hx.nodes, h.nodesList⟩)
    subst ht
    exact ⟨d, args, d', hd, hk, ha, rfl, hbehind, Span.contains_merge_left _ _, hc.enclosed,
      hc.covers, hc.span⟩
  | .index optional opening inner rest, d, e, ⟨ht, hk, d', hi, hr⟩, hd, ts, x, hx, hord => by
    have hsplit : ts ++ (Accessors.index optional opening inner rest).tokens
        = (ts ++ [opening] ++ (inner.body ++ [inner.terminator.token])) ++ rest.tokens := by
      simp [Accessors.tokens]
    rw [hsplit] at hord ⊢
    obtain ⟨hnode, -, -⟩ := Token.ordered_append.mp hord
    obtain ⟨-, hinner, -⟩ := Token.ordered_append.mp hnode
    have h := Chain.Between.sits hi hd.advance (Token.ordered_append.mp hinner).1
    obtain ⟨hbehind, hc⟩ := hx.closed h.singleton hnode
    rw [Accessors.apply]
    refine Accessors.Between.sits hr (hd.advance.trans ⟨_, hi.takes⟩) ?_ hord
    refine .of_node hc.runs ?_ (by rw [Expr.nodes])
      (List.forall_mem_append.mpr ⟨hx.nodes, h.nodes⟩)
    subst ht
    exact ⟨d, inner, d', hd, hk, hi, rfl, hbehind, Span.contains_merge_left _ _, hc.enclosed,
      hc.covers _ (List.mem_singleton_self _), hc.span⟩
  | .member optional dot found rest, d, e, ⟨_, _, _, hr⟩, hd, ts, x, hx, hord => by
    have hsplit : ts ++ (Accessors.member optional dot found rest).tokens
        = (ts ++ [dot, found]) ++ rest.tokens := by
      simp [Accessors.tokens]
    rw [hsplit] at hord ⊢
    obtain ⟨hnode, -, -⟩ := Token.ordered_append.mp hord
    obtain ⟨-, hname, hcross⟩ := Token.ordered_append.mp hnode
    -- A missing name is empty and stands right behind the dot, so it is behind the object as well.
    obtain ⟨hdot, hle, t, htmem, htstop⟩ := memberName_span hname
    have hbehind : x.span.stop ≤ (memberName dot found).span.start := by
      have hx' := hx.runs.stop_le fun t ht => hcross t ht dot List.mem_cons_self
      have hd' := hname.le dot List.mem_cons_self
      omega
    have hspan := Span.merge_of_le hx.runs.le hbehind hle
    have hruns : (x.span.merge (memberName dot found).span).RunsOver (ts ++ [dot, found]) := by
      have hto := Nat.le_trans hx.runs.le (Nat.le_trans hbehind hle)
      obtain ⟨u, hu, hstart⟩ := hx.runs.start
      rw [hspan]
      exact ⟨⟨u, List.mem_append_left _ hu, hstart⟩,
        ⟨t, List.mem_append_right _ htmem, htstop⟩, hto⟩
    rw [Accessors.apply]
    refine Accessors.Between.sits hr hd.advance.advance ?_ hord
    exact .of_node hruns ⟨hbehind, rfl⟩ (by rw [Expr.nodes]) hx.nodes

/-- Items are in order since their tokens are. -/
theorem Items.Between.sits : {r : Items} → {d e : Cursor} → r.Between s d e →
    Cursor.Leads s c d → Token.Ordered r.body → Expr.AllSit s mode c r.body (r.toExprs mode)
  | .last _, _, _, ⟨hi, _⟩, hd, hord => by
    rw [Items.body] at hord
    rw [Items.toExprs, Items.body]
    exact (Chain.Between.sits hi hd hord).singleton
  | .more item rest, d, e, ⟨d', hi, _, hr⟩, hd, hord => by
    rw [Items.body] at hord
    obtain ⟨hitem, hrest, hcross⟩ := Token.ordered_append.mp hord
    have h₁ := Chain.Between.sits hi hd hitem
    have h₂ := Items.Between.sits hr (hd.trans ⟨_, hi.takes⟩)
      (Token.ordered_cons.mp hrest).2.1
    rw [Items.toExprs, Items.body]
    exact h₁.cons (h₂.mono fun t ht => List.mem_cons_of_mem _ ht) hcross

end

end

/-! ### Every stream in order -/

/-- **Every node is where it was read**, in both modes and in trees with
faults, from every place in a stream in order. The tree lies between the first
token that is read and the terminator. -/
theorem placed_of_mem_nodes {tokens : List Token} (h : Token.InOrder tokens) (s : Scope) (n : Nat)
    (mode : Reduction) :
    let c := (Cursor.ofTokens tokens).skip n
    let r := (Chain.read s c).1
    (∀ e ∈ (r.toExpr mode).nodes, e.span.start ≤ e.span.stop ∧ e.Placed s mode c) ∧
      (c.peek s).span.start ≤ (r.toExpr mode).span.start ∧
      (r.toExpr mode).span.stop ≤ r.terminator.span.start := by
  intro c r
  have hc : c.InOrder := (Cursor.inOrder_ofTokens h).reaches (Cursor.reaches_skip n _)
  have hr := Chain.between_read s c
  have hord := hr.takes.ordered hc
  obtain ⟨hbody, -, hbefore⟩ := Token.ordered_append.mp hord
  have hsits : (r.toExpr mode).Sits s mode c r.body := hr.sits (.refl s c) hbody
  refine ⟨hsits.nodes, ?_, ?_⟩
  · -- The first token is the one at the cursor, and it is in front of the others.
    have hfirst : ∀ t ∈ r.body, (c.peek s).span.start ≤ t.span.start := by
      have htakes := hr.takes
      cases hb : r.body with
      | nil => exact List.forall_mem_nil _
      | cons t ts =>
        rw [hb] at hbody htakes
        obtain ⟨hle, -, hts⟩ := Token.ordered_cons.mp hbody
        rw [← htakes.1]
        exact List.forall_mem_cons.mpr ⟨Nat.le_refl _, fun u hu => Nat.le_trans hle (hts u hu)⟩
    exact hsits.runs.le_start hfirst
  · exact hsits.runs.stop_le fun t ht => hbefore t ht _ (List.mem_singleton_self _)

/-- An initializer that stops at the next statement. The comma is taken for
the name behind the dot, so the bracket behind it is an index, and neither it
nor the call is closed. -/
theorem placed_of_mem_nodes_initializer :
    let tokens := (lex "val x = -f(a * b., [c fn").tokens
    let c := (Cursor.ofTokens tokens).skip 3
    let r := (Chain.read .statement c).1
    Token.InOrder tokens ∧
      ((∀ e ∈ (r.toExpr .cascading).nodes,
          e.span.start ≤ e.span.stop ∧ e.Placed .statement .cascading c) ∧
        (c.peek .statement).span.start ≤ (r.toExpr .cascading).span.start ∧
        (r.toExpr .cascading).span.stop ≤ r.terminator.span.start) ∧
      (r.toExpr .cascading).nodes.map Expr.span = [⟨8, 22⟩, ⟨9, 22⟩, ⟨9, 10⟩, ⟨11, 22⟩, ⟨11, 12⟩,
        ⟨15, 22⟩, ⟨15, 17⟩, ⟨15, 16⟩, ⟨20, 21⟩] :=
  ⟨inOrder_lex _, placed_of_mem_nodes (inOrder_lex _) .statement 3 .cascading, by decide +kernel⟩

end ExprFrontEnd
