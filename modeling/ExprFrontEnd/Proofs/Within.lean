import ExprFrontEnd.Proofs.Reports
import ExprFrontEnd.Proofs.Seam
import ExprFrontEnd.Proofs.Spans
import ExprFrontEnd.Proofs.Tiling
import ExprFrontEnd.Proofs.Yield

/-!
# `ExprFrontEnd.Proofs.Within`: all spans lie in the source text

The spans of tokens are slices of the source text. The spans of trees, of
statements and of issues are made from them: two are merged, or one end of a
span is taken for an empty one. Neither cuts a character or leaves the text.

* `Span.Within`: a span of a source text, closed under both.
* `Chain.within_toExpr`: all spans in the tree of a chain are within if those of
  its tokens are, whatever the mode and whatever is wrong with the chain.
* `Clause.within_read`, `Spots.within`: the same for statements, and for the
  issues of readers that give up.
* `Scans.within_issues`: the issues of the lexer and their remarks are within as
  well. The only remark marks the first byte of a string literal, a quote.
-/

set_option autoImplicit false

namespace ExprFrontEnd

/-- A span of a source text: its ends are in order, not behind the end of the
text, and cut no character. -/
structure Span.Within (source : String) (sp : Span) : Prop where
  le : sp.start ≤ sp.stop
  stop_le : sp.stop ≤ source.utf8ByteSize
  isValid_start : String.Pos.Raw.IsValid source ⟨sp.start⟩
  isValid_stop : String.Pos.Raw.IsValid source ⟨sp.stop⟩

section
variable {source : String}

namespace Span

variable {a b : Span}

/-- A merged span has ends that two spans had before. -/
theorem Within.merge (ha : a.Within source) (hb : b.Within source) :
    (a.merge b).Within source where
  le := Nat.le_trans (Nat.min_le_left _ _) (Nat.le_trans ha.le (Nat.le_max_left _ _))
  stop_le := Nat.max_le.mpr ⟨ha.stop_le, hb.stop_le⟩
  isValid_start := by
    rw [Span.merge]
    rcases Nat.le_total a.start b.start with h | h
    · rw [Nat.min_eq_left h]
      exact ha.isValid_start
    · rw [Nat.min_eq_right h]
      exact hb.isValid_start
  isValid_stop := by
    rw [Span.merge]
    rcases Nat.le_total a.stop b.stop with h | h
    · rw [Nat.max_eq_right h]
      exact hb.isValid_stop
    · rw [Nat.max_eq_left h]
      exact ha.isValid_stop

/-- The start of a span is a boundary, and so is the empty span there. -/
theorem Within.empty_start (h : a.Within source) : (Span.empty a.start).Within source :=
  ⟨Nat.le_refl _, Nat.le_trans h.le h.stop_le, h.isValid_start, h.isValid_start⟩

/-- The stop of a span is a boundary, and so is the empty span there. -/
theorem Within.empty_stop (h : a.Within source) : (Span.empty a.stop).Within source :=
  ⟨Nat.le_refl _, h.stop_le, h.isValid_stop, h.isValid_stop⟩

/-- A span where some characters stand. -/
theorem Holds.within {before text behind : List Char} (h : a.Holds source before text behind) :
    a.Within source :=
  ⟨h.start_le_stop, h.stop_le, h.isValid_start, h.isValid_stop⟩

end Span

/-! ### Cursors -/

/-- The tokens ahead, and the end behind them, are within a source text. -/
structure Cursor.Within (source : String) (c : Cursor) : Prop where
  ahead : ∀ t ∈ c.ahead, t.span.Within source
  finish : c.finish.Within source

namespace Cursor

variable {s : Scope} {c d e : Cursor}

/-- What is ahead further on was ahead before. -/
theorem Within.reaches (hc : c.Within source) (h : c.Reaches d) : d.Within source :=
  ⟨fun t ht => hc.ahead t (h.mem_ahead ht), h.finish ▸ hc.finish⟩

/-- The next token is ahead, or it is the final end; an end that a scope makes up is empty at the
start of a token. -/
theorem Within.peek (hc : c.Within source) (s : Scope) : (c.peek s).span.Within source := by
  obtain ⟨ahead, finish, position⟩ := c
  cases ahead with
  | nil => exact hc.finish
  | cons t rest =>
    have ht := hc.ahead t List.mem_cons_self
    simp only [Cursor.peek]
    split
    · exact ht.empty_start
    · exact ht

/-- What is taken was ahead. -/
theorem Within.takes (hc : c.Within source) {ts : List Token} (h : Takes s ts c e) :
    ∀ t ∈ ts, t.span.Within source := by
  intro t ht
  obtain ⟨d, hd, rfl⟩ := h.exists_peek t ht
  exact (hc.reaches hd).peek s

/-- The start of a lexed list. -/
theorem within_ofTokens_lex (source : String) : (ofTokens (lex source).tokens).Within source := by
  have hall : ∀ t ∈ (lex source).tokens, t.span.Within source := by
    intro t ht
    obtain ⟨st, hst, rfl⟩ := List.mem_map.mp ht
    obtain ⟨_, _, _, hholds, -⟩ := (scans_lex source).tiles.exists_holds rfl st hst
    exact hholds.within
  obtain ⟨front, hstart, htokens, -⟩ := ofTokens_lex source
  rw [htokens] at hall
  rw [hstart]
  exact ⟨fun t ht => hall t (List.mem_append_left _ ht),
    hall _ (List.mem_append_right _ (List.mem_singleton_self _))⟩

end Cursor

/-- The place of an issue and those of the remarks on it. -/
structure Issue.Within (source : String) (i : Issue) : Prop where
  span : i.span.Within source
  labels : ∀ l ∈ i.labels, l.span.Within source

/-- The issue of a reader that gives up. -/
theorem Spots.within {c d : Cursor} {i : Issue} (h : Spots c d i) (hc : c.Within source) :
    i.Within source := by
  obtain ⟨t, ht, -, hspan⟩ := h.seen
  refine ⟨?_, h.labels ▸ List.forall_mem_nil _⟩
  rw [hspan]
  exact (hc.reaches ht).peek .stream

end

/-! ### Trees -/

/-- The spans that a node holds apart from the nodes below it. -/
def Expr.ownSpans : Expr → List Span
  | .member _ prop _ span => [span, prop.span]
  | .ignore token span => [span, token.span]
  | e => [e.span]

/-- All spans in an expression. -/
def Expr.spans (e : Expr) : List Span := e.nodes.flatMap ownSpans

/-- All spans in an expression are within a source text. -/
def Expr.Within (source : String) (e : Expr) : Prop :=
  ∀ n ∈ e.nodes, ∀ sp ∈ n.ownSpans, sp.Within source

section
variable {source : String}

namespace Expr

variable {e : Expr} {es : List Expr}

/-- The spans of a tree are those of its nodes. -/
theorem Within.spans (h : e.Within source) : ∀ sp ∈ e.spans, sp.Within source := by
  intro sp hsp
  obtain ⟨n, hn, hown⟩ := List.mem_flatMap.mp hsp
  exact h n hn sp hown

/-- An expression is the first of its nodes. -/
theorem mem_nodes_self (e : Expr) : e ∈ e.nodes := by
  cases e <;> exact List.mem_cons_self

/-- A node has its own span among its spans. -/
theorem span_mem_ownSpans (e : Expr) : e.span ∈ e.ownSpans := by
  cases e <;> exact List.mem_cons_self

/-- In particular the expression as a whole is within the text. -/
theorem Within.span (h : e.Within source) : e.span.Within source :=
  h e e.mem_nodes_self e.span e.span_mem_ownSpans

/-- A node and what is below it. -/
theorem Within.of_node {below : List Expr} (hnodes : e.nodes = e :: below)
    (hown : ∀ sp ∈ e.ownSpans, sp.Within source)
    (hbelow : ∀ n ∈ below, ∀ sp ∈ n.ownSpans, sp.Within source) : e.Within source := by
  rw [Within, hnodes]
  exact List.forall_mem_cons.mpr ⟨hown, hbelow⟩

/-- The nodes of a list are those of its expressions. -/
theorem within_nodesList (h : ∀ e ∈ es, e.Within source) :
    ∀ n ∈ nodesList es, ∀ sp ∈ n.ownSpans, sp.Within source := by
  intro n hn
  obtain ⟨e, he, hn⟩ := mem_nodesList.mp hn
  exact h e he n hn

end Expr

/-- Operands within a source text make a tree within it, however they are joined. -/
theorem Grouping.within_toExpr {g : Grouping Expr} (h : ∀ e ∈ g.operands, e.Within source) :
    g.toExpr.Within source := by
  induction g with
  | operand e => exact h e List.mem_cons_self
  | joined left op right ihl ihr =>
    rw [operands, List.forall_mem_append] at h
    have hleft := ihl h.1
    have hright := ihr h.2
    refine .of_node (by rw [toExpr, Expr.nodes])
      (List.forall_mem_singleton.mpr (hleft.span.merge hright.span)) ?_
    exact List.forall_mem_append.mpr ⟨hleft, hright⟩

/-- The name behind a dot, or the place where it is missing. -/
theorem within_memberName {dot found : Token} (hdot : dot.span.Within source)
    (hfound : found.span.Within source) : (memberName dot found).span.Within source := by
  unfold memberName
  split
  · exact hfound
  · exact hdot.empty_stop

/-! ### Chains -/

section
variable (mode : Reduction)

mutual

/-- All spans in the tree of a chain are within if those of its tokens are. -/
theorem Chain.within_toExpr : (r : Chain) → (∀ t ∈ r.body, t.span.Within source) →
    (r.toExpr mode).Within source
  | .mk first links, h => by
    rw [Chain.body, List.forall_mem_append] at h
    have hover := Row.over_group mode ⟨first.toExpr mode, links.toPairs mode⟩
    have hrow : ∀ e ∈ first.toExpr mode :: (links.toPairs mode).map Prod.snd, e.Within source :=
      List.forall_mem_cons.mpr ⟨Operand.within_toExpr first h.1, Links.within_toPairs links h.2⟩
    rw [Chain.toExpr]
    exact Grouping.within_toExpr (hover.operands ▸ hrow)

/-- Right operands have spans of tokens in the body. -/
theorem Links.within_toPairs : (r : Links) → (∀ t ∈ r.body, t.span.Within source) →
    ∀ e ∈ (r.toPairs mode).map Prod.snd, e.Within source
  | .done _, _ => by
    rw [Links.toPairs]
    exact List.forall_mem_nil _
  | .stray _ rest, h => by
    rw [Links.body, List.forall_mem_cons] at h
    rw [Links.toPairs]
    exact Links.within_toPairs rest h.2
  | .link _ _ operand rest, h => by
    rw [Links.body, List.forall_mem_cons, List.forall_mem_append] at h
    rw [Links.toPairs]
    exact List.forall_mem_cons.mpr
      ⟨Operand.within_toExpr operand h.2.1, Links.within_toPairs rest h.2.2⟩

/-- A sign merges its span into that of its operand. -/
theorem Operand.within_toExpr : (r : Operand) → (∀ t ∈ r.tokens, t.span.Within source) →
    (r.toExpr mode).Within source
  | .signed _ _ operand, h => by
    rw [Operand.tokens, List.forall_mem_cons] at h
    have harg := Operand.within_toExpr operand h.2
    rw [Operand.toExpr]
    exact .of_node (by rw [Expr.nodes])
      (List.forall_mem_singleton.mpr (h.1.merge harg.span)) harg
  | .bare primary, h => by
    rw [Operand.toExpr]
    exact Primary.within_toExpr primary h

/-- The operand behind a stray operator has spans of its own tokens. -/
theorem Primary.within_toExpr : (r : Primary) → (∀ t ∈ r.tokens, t.span.Within source) →
    (r.toExpr mode).Within source
  | .stray _ rest, h => by
    rw [Primary.tokens, List.forall_mem_cons] at h
    rw [Primary.toExpr]
    exact Primary.within_toExpr rest h.2
  | .atom atom accessors, h => by
    rw [Primary.tokens, List.forall_mem_append] at h
    rw [Primary.toExpr]
    exact Accessors.within_apply accessors h.2 (Atom.within_toExpr atom h.1)

/-- Atoms have the spans of their tokens, or from the opening token to the closing one. -/
theorem Atom.within_toExpr : (r : Atom) → (∀ t ∈ r.tokens, t.span.Within source) →
    (r.toExpr mode).Within source
  | .number _ _, h | .string _ _, h | .name _ _, h => by
    rw [Atom.tokens, List.forall_mem_singleton] at h
    rw [Atom.toExpr]
    exact .of_node (by rw [Expr.nodes]) (List.forall_mem_singleton.mpr h) (List.forall_mem_nil _)
  | .group _ inner, h => by
    rw [Atom.tokens, List.forall_mem_cons, List.forall_mem_append] at h
    rw [Atom.toExpr]
    exact Chain.within_toExpr inner h.2.1
  | .array _ elems, h => by
    rw [Atom.tokens, List.forall_mem_cons, List.forall_mem_append, List.forall_mem_singleton] at h
    have helems := Items.within_toExprs elems h.2.1
    rw [Atom.toExpr]
    exact .of_node (by rw [Expr.nodes]) (List.forall_mem_singleton.mpr (h.1.merge h.2.2))
      (Expr.within_nodesList helems)
  | .missing _, h => by
    rw [Atom.tokens, List.forall_mem_singleton] at h
    rw [Atom.toExpr]
    exact .of_node (by rw [Expr.nodes])
      (List.forall_mem_cons.mpr ⟨h, List.forall_mem_singleton.mpr h⟩) (List.forall_mem_nil _)

/-- Accessors on an expression whose spans are within. -/
theorem Accessors.within_apply : (r : Accessors) → (∀ t ∈ r.tokens, t.span.Within source) →
    ∀ {x : Expr}, x.Within source → (r.apply mode x).Within source
  | .none, _, _, hx => by
    rw [Accessors.apply]
    exact hx
  | .call _ _ args rest, h, _, hx => by
    rw [Accessors.tokens, List.forall_mem_cons, List.forall_mem_append, List.forall_mem_cons] at h
    have hargs := Items.within_toExprs args h.2.1
    rw [Accessors.apply]
    refine Accessors.within_apply rest h.2.2.2 (.of_node (by rw [Expr.nodes]) ?_ ?_)
    · exact List.forall_mem_singleton.mpr (hx.span.merge h.2.2.1)
    · exact List.forall_mem_append.mpr ⟨hx, Expr.within_nodesList hargs⟩
  | .index _ _ inner rest, h, _, hx => by
    rw [Accessors.tokens, List.forall_mem_cons, List.forall_mem_append, List.forall_mem_cons] at h
    have hinner := Chain.within_toExpr inner h.2.1
    rw [Accessors.apply]
    refine Accessors.within_apply rest h.2.2.2 (.of_node (by rw [Expr.nodes]) ?_ ?_)
    · exact List.forall_mem_singleton.mpr (hx.span.merge h.2.2.1)
    · exact List.forall_mem_append.mpr ⟨hx, hinner⟩
  | .member _ _ _ rest, h, _, hx => by
    rw [Accessors.tokens, List.forall_mem_cons, List.forall_mem_cons] at h
    have hname := within_memberName h.1 h.2.1
    rw [Accessors.apply]
    refine Accessors.within_apply rest h.2.2 (.of_node (by rw [Expr.nodes]) ?_ hx)
    exact List.forall_mem_cons.mpr
      ⟨hx.span.merge hname, List.forall_mem_singleton.mpr hname⟩

/-- Items are chains with tokens in the body. -/
theorem Items.within_toExprs : (r : Items) → (∀ t ∈ r.body, t.span.Within source) →
    ∀ e ∈ r.toExprs mode, e.Within source
  | .last item, h => by
    rw [Items.toExprs]
    exact List.forall_mem_singleton.mpr (Chain.within_toExpr item h)
  | .more item rest, h => by
    rw [Items.body, List.forall_mem_append, List.forall_mem_cons] at h
    rw [Items.toExprs]
    exact List.forall_mem_cons.mpr
      ⟨Chain.within_toExpr item h.1, Items.within_toExprs rest h.2.2⟩

end

/-- What is read from a source text is within it. -/
theorem Chain.within_read {s : Scope} {c : Cursor} (hc : c.Within source) :
    ((read s c).1.toExpr mode).Within source := by
  have htokens := hc.takes (between_read s c).takes
  exact within_toExpr mode _ fun t ht => htokens t (List.mem_append_left _ ht)

end

/-- There are no remarks on what is wrong with an expression. -/
theorem Issue.labels_eq_nil {i : Issue} (h : i.problem.isOfExpression = true) : i.labels = [] := by
  unfold labels
  split
  · rename_i hp
    rw [hp] at h
    cases h
  · rfl

/-- The issues of what is read are within, since each of them is at a token. -/
theorem Chain.within_issues_read {s : Scope} {c : Cursor} (hc : c.Within source)
    (htext : c.InText) : ∀ i ∈ (read s c).1.issues, i.Within source := by
  intro i hi
  have hr := between_read s c
  have htokens := hc.takes hr.takes
  have hname : ∀ t ∈ (read s c).1.body, t.kind ≠ .identifier "" := by
    obtain ⟨ends, htake, hends⟩ := hr.takes.exists_eq_take_append
    intro t ht
    have ht' := List.mem_append_left [(read s c).1.terminator.token] ht
    rw [htake] at ht'
    rcases List.mem_append.mp ht' with hpassed | hend
    · exact (htext.tokens t (List.mem_of_mem_take hpassed)).named
    · rw [hends t hend]
      nofun
  have haccounted : Accounted _ _ ((read s c).1.toExpr .cascading).yield := hr.accounted hname
  obtain ⟨t, ht, hspan⟩ := haccounted.exists_span_eq hi
  have hlabels := Issue.labels_eq_nil (isOfExpression_issues _ i hi)
  refine ⟨?_, hlabels ▸ List.forall_mem_nil _⟩
  rw [hspan]
  exact htokens t (List.mem_append_left _ ht)

end

/-! ### Statements -/

/-- All spans in a declaration. -/
def Decl.spans (d : Decl) : List Span :=
  d.span :: match d.kind with
    | .binding _ name init => name.span :: init.elim [] Expr.spans
    | .function name params => name.span :: params.map Identifier.span

/-- All spans in a statement. -/
def Stmt.spans : Stmt → List Span
  | .decl d span => span :: d.spans
  | .ret arg span => span :: arg.elim [] Expr.spans

section
variable {source : String} (mode : Reduction)

namespace Cursor

variable {c d : Cursor}

/-- The span of a name is that of its token. -/
theorem Within.readName (hc : c.Within source) {place : NamePlace} {name : Identifier}
    (h : c.readName place = (.ok name, d)) : name.span.Within source := by
  have hspan := hc.peek .stream
  rwa [(readName_eq_ok h).1] at hspan

/-- The names and the closing parenthesis are ahead. -/
theorem Within.readParams (hc : c.Within source) {params : List Identifier × Span}
    (h : c.readParams = (.ok params, d)) :
    (∀ name ∈ params.1, name.span.Within source) ∧ params.2.Within source := by
  obtain ⟨hnames, t, ht, hclose⟩ := tokens_readParams h
  refine ⟨fun name hname => ?_, hclose ▸ hc.ahead t ht⟩
  obtain ⟨u, hu, -, hspan⟩ := hnames name hname
  exact hspan ▸ hc.ahead u hu

end Cursor

namespace DeclClause

variable {c d : Cursor} {r : DeclClause}

/-- The spans and the issues of a declaration are within. -/
structure Within (source : String) (mode : Reduction) (r : DeclClause) : Prop where
  spans : ∀ sp ∈ (r.toDecl mode).spans, sp.Within source
  issues : ∀ i ∈ r.issues, i.Within source

/-- From the reserved word to the name or to the initializer, all of which are in the text. Order
is needed for the span to be one. -/
theorem within_readBinding (hc : c.Within source) (htext : c.InText) {head : DeclHead}
    {binding : Binding} (hhead : head.start.Within source)
    (h : readBinding head binding c = (.ok r, d)) : r.Within source mode := by
  cases readsBinding h with
  | declared hname =>
    have hspan := hc.readName hname
    refine ⟨?_, List.forall_mem_nil _⟩
    exact List.forall_mem_cons.mpr ⟨hhead.merge hspan, List.forall_mem_singleton.mpr hspan⟩
  | initialized hname =>
    have hspan := hc.readName hname
    have hequals := Cursor.reaches_advance_of_readName hname
    have hexpr := Chain.within_read mode (s := .statement) (hc.reaches hequals)
    refine ⟨?_, Chain.within_issues_read (hc.reaches hequals) (htext.reaches hequals)⟩
    exact List.forall_mem_cons.mpr
      ⟨hhead.merge hexpr.span, List.forall_mem_cons.mpr ⟨hspan, hexpr.spans⟩⟩

/-- From the reserved word to the closing parenthesis. -/
theorem within_readFunction (hc : c.Within source) {head : DeclHead}
    (hhead : head.start.Within source) (h : readFunction head c = (.ok r, d)) :
    r.Within source mode := by
  have hissues : ∀ i ∈ r.issues, i.Within source := by
    rw [issues_readFunction h]
    exact List.forall_mem_nil _
  refine ⟨?_, hissues⟩
  cases readsFunction h with
  | bare hname =>
    have hspan := hc.readName hname
    exact List.forall_mem_cons.mpr ⟨hhead.merge hspan, List.forall_mem_singleton.mpr hspan⟩
  | listed hname _ hparams =>
    have hopen := Cursor.reaches_advance_of_readName hname
    obtain ⟨hnames, hclose⟩ := (hc.reaches hopen).readParams hparams
    refine List.forall_mem_cons.mpr
      ⟨hhead.merge hclose, List.forall_mem_cons.mpr ⟨hc.readName hname, ?_⟩⟩
    exact List.forall_mem_map.mpr hnames

/-- The head starts at a token, and the rest is by the kind of the declaration. -/
theorem within_read (hc : c.Within source) (htext : c.InText) (h : read c = (.ok r, d)) :
    r.Within source mode := by
  have hstart := hc.peek .stream
  have hword := hc.reaches (reaches_word c)
  cases reads h with
  | binding _ _ h => exact within_readBinding mode hword (htext.reaches (reaches_word c)) hstart h
  | function _ h => exact within_readFunction mode hword hstart h

end DeclClause

/-- The spans and the issues of a statement are within. -/
structure Clause.Within (source : String) (mode : Reduction) (r : Clause) : Prop where
  spans : ∀ sp ∈ (r.toStmt mode).spans, sp.Within source
  issues : ∀ i ∈ r.issues, i.Within source

/-- A clause is a declaration. -/
theorem Clause.within_read {c d : Cursor} {r : Clause} (hc : c.Within source) (htext : c.InText)
    (h : read c = (.ok r, d)) : r.Within source mode := by
  have hword := hc.peek .stream
  cases reads h with
  | ret => exact ⟨List.forall_mem_singleton.mpr hword, List.forall_mem_nil _⟩
  | retOf =>
    have hbehind := Cursor.reaches_advance .stream c
    have hexpr := Chain.within_read mode (s := .statement) (hc.reaches hbehind)
    exact ⟨List.forall_mem_cons.mpr ⟨hword.merge hexpr.span, hexpr.spans⟩,
      Chain.within_issues_read (hc.reaches hbehind) (htext.reaches hbehind)⟩
  | decl _ _ h =>
    obtain ⟨hspans, hissues⟩ := DeclClause.within_read mode hc htext h
    exact ⟨List.forall_mem_cons.mpr ⟨hspans _ List.mem_cons_self, hspans⟩, hissues⟩

/-- The spans and the issues of an attempt are within. -/
structure Attempt.Within (source : String) (mode : Reduction) (a : Attempt) : Prop where
  spans : ∀ stmt ∈ a.toStmt? mode, ∀ sp ∈ stmt.spans, sp.Within source
  issues : ∀ i ∈ a.issues, i.Within source

namespace Attempt

variable {c : Cursor}

/-- An attempt that failed has no tree, only an issue at a token. -/
theorem within_readOne (hc : c.Within source) (htext : c.InText) :
    (readOne c).1.Within source mode := by
  rcases hone : readOne c with ⟨attempt, d⟩
  cases readsOne hone with
  | read h =>
    obtain ⟨hspans, hissues⟩ := Clause.within_read mode hc htext h
    exact ⟨fun stmt hstmt => Option.some.inj hstmt ▸ hspans, hissues⟩
  | failed h =>
    obtain ⟨t, ht, hspots, -⟩ := Clause.spots_read h
    exact ⟨nofun, List.forall_mem_singleton.mpr (hspots.within (hc.reaches ht))⟩

/-- Each attempt is made at a cursor whose tokens lie in the text as well. -/
theorem within_readUpTo (fuel : Nat) (hc : c.Within source) (htext : c.InText) :
    ∀ a ∈ (readUpTo fuel c).1, a.Within source mode := by
  intro a ha
  obtain ⟨d, hd, rfl⟩ := exists_readOne_eq fuel c a ha
  exact within_readOne mode (hc.reaches hd) (htext.reaches hd)

/-- What is read as a program is within. -/
theorem within_readAll (hc : c.Within source) (htext : c.InText) :
    ∀ a ∈ (readAll c).1, a.Within source mode :=
  within_readUpTo mode _ hc htext

end Attempt

/-! ### The lexer -/

/-- A string literal that is not closed starts with a quote. -/
theorem Lexeme.Fits.quote {before behind : List Char} {l : Lexeme} (h : l.Fits before behind)
    {kind : TokenKind} (hk : l.kind = .token kind (some .unterminatedString)) :
    ∃ rest, l.chars = '"' :: rest := by
  cases h with
  | unclosed inside right => exact ⟨_, rfl⟩
  | unclosedEscape inside right => exact ⟨_, rfl⟩
  | number numeral spelled =>
    obtain ⟨-, hflaw⟩ := LexemeKind.token.inj hk
    split at hflaw <;> cases hflaw
  | _ => cases hk

/-- A lexeme takes up space. -/
theorem Lexeme.Fits.chars_ne_nil {before behind : List Char} {l : Lexeme}
    (h : l.Fits before behind) : l.chars ≠ [] := by
  obtain ⟨c, rest, -, hfirst⟩ := h.exists_first_eq
  have hne := chars_first_ne_nil c rest
  rwa [hfirst] at hne

/-- The issue of a token is where the token stands, and so is a remark on it. -/
theorem Lexeme.Fits.within_issue {before text behind : List Char} {kind : TokenKind}
    {problem : Problem} {span : Span}
    (fits : Fits before behind ⟨text, .token kind (some problem)⟩)
    (hholds : span.Holds source before text behind) : Issue.Within source ⟨problem, span⟩ := by
  refine ⟨hholds.within, ?_⟩
  cases problem with
  -- Only this problem has a label. It is at the quote, which is one byte long.
  | unterminatedString =>
    obtain ⟨cs, htext⟩ := fits.quote rfl
    obtain rfl : text = '"' :: cs := htext
    have hquote : (Span.mk span.start (span.start + 1)).Holds source before ['"']
        (cs ++ behind) := by
      refine ⟨?_, hholds.start_eq, ?_⟩
      · rw [hholds.source_eq]
        simp only [List.append_assoc, List.cons_append, List.nil_append]
      · rw [hholds.start_eq, byteLength_append]
        rfl
    exact List.forall_mem_singleton.mpr hquote.within
  | _ => exact List.forall_mem_nil _

/-- The issues of the lexer are within the text and one behind the other. -/
theorem Scans.within_issues {before cs : List Char} {ts : List SourceToken} {is : List Issue}
    (h : Scans before cs ts is) (hsource : source.toList = before ++ cs) :
    (∀ i ∈ is, byteLength before ≤ i.span.start ∧ i.Within source) ∧
      is.Pairwise fun i j => i.span.start < j.span.start := by
  induction h with
  | done => exact ⟨List.forall_mem_nil _, .nil⟩
  | @gap before behind l ts is kind fits rest ih =>
    obtain ⟨hall, hord⟩ := ih (by rw [hsource, List.append_assoc])
    rw [byteLength_append] at hall
    exact ⟨fun i hi => ⟨Nat.le_trans (Nat.le_add_right _ _) (hall i hi).1, (hall i hi).2⟩, hord⟩
  | @token before text behind kind flaw span ts is fits place rest ih =>
    have hsource' : source.toList = before ++ text ++ behind := by
      rw [hsource, List.append_assoc]
    have hholds : span.Holds source before text behind := ⟨hsource', by rw [place], by rw [place]⟩
    obtain ⟨hall, hord⟩ := ih hsource'
    -- The token takes up some bytes, so the issues behind it are further to the right.
    have hbehind : ∀ i ∈ is, span.start < i.span.start := fun i hi => by
      have hle := (hall i hi).1
      have hpos := byteLength_pos fits.chars_ne_nil
      rw [byteLength_append] at hle
      rw [hholds.start_eq]
      exact Nat.lt_of_lt_of_le (Nat.lt_add_of_pos_right hpos) hle
    rw [← hholds.start_eq]
    have hrest : ∀ i ∈ is, span.start ≤ i.span.start ∧ i.Within source :=
      fun i hi => ⟨Nat.le_of_lt (hbehind i hi), (hall i hi).2⟩
    cases flaw with
    | none => exact ⟨hrest, hord⟩
    | some problem =>
      have hfirst := fits.within_issue hholds
      exact ⟨List.forall_mem_cons.mpr ⟨⟨Nat.le_refl _, hfirst⟩, hrest⟩,
        List.pairwise_cons.mpr ⟨hbehind, hord⟩⟩

end

end ExprFrontEnd
