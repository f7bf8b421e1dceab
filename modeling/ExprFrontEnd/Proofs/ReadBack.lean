import ExprFrontEnd.Chain.Issues
import ExprFrontEnd.Chain.Tree
import ExprFrontEnd.Proofs.Between
import ExprFrontEnd.Proofs.Printing

/-!
# `ExprFrontEnd.Proofs.ReadBack`: printed expressions are read back

A printed expression has to be read up to its own last token and no further,
whatever stands behind it. Accessors behind it would be read as its own, so
the statement that carries the induction (`Expr.ReadBack`) is about a printed
expression and whatever accessors stand behind it: together they are read as
one operand, namely the expression with the accessors applied to it.

* `Expr.readBack`: every expression that can be printed is read back.
* `Expr.ReadBack.chain`: in front of a terminator it is read as a chain of
  its own, with no issues, and its tree is the same in every mode.

Calls, indexes and members hand their own accessor over to the expression in
front of it. All others are atoms, and are complete by themselves.
-/

set_option autoImplicit false

namespace ExprFrontEnd

/-! ### Passing tokens -/

/-- The tokens from one cursor to another have these kinds. -/
def Cursor.Passes : List TokenKind → Cursor → Cursor → Prop
  | [], c, d => c = d
  | kind :: kinds, c, e =>
    c.ahead.head?.map Token.kind = some kind ∧ Passes kinds (c.advance .stream) e

/-- Passing one run of tokens and then another. -/
theorem Cursor.passes_append {kinds kinds' : List TokenKind} {c e : Cursor} :
    Passes (kinds ++ kinds') c e ↔ ∃ d, Passes kinds c d ∧ Passes kinds' d e := by
  induction kinds generalizing c with
  | nil =>
    constructor
    · intro h
      exact ⟨c, rfl, h⟩
    · rintro ⟨d, rfl, h⟩
      exact h
  | cons kind kinds ih =>
    simp only [List.cons_append, Passes, ih]
    constructor
    · rintro ⟨hk, d, hd, he⟩
      exact ⟨d, ⟨hk, hd⟩, he⟩
    · rintro ⟨d, ⟨hk, hd⟩, he⟩
      exact ⟨hk, d, hd, he⟩

/-- The first token of a run. -/
theorem Cursor.Passes.exists_cons {kind : TokenKind} {kinds : List TokenKind} {c e : Cursor}
    (h : Passes (kind :: kinds) c e) :
    ∃ (t : Token) (rest : List Token) (finish : Span) (position : Nat),
      c = ⟨t :: rest, finish, position⟩ ∧ t.kind = kind ∧
        Passes kinds ⟨rest, finish, position + 1⟩ e := by
  obtain ⟨ahead, finish, position⟩ := c
  cases ahead with
  | nil => cases h.1
  | cons t rest =>
    obtain ⟨hk, hp⟩ := h
    exact ⟨t, rest, finish, position, rfl, Option.some.inj hk, hp⟩

/-- The next token is seen and passed in every scope that does not bar it. -/
theorem Cursor.Passes.next {s : Scope} {kind : TokenKind} {kinds : List TokenKind}
    {c e : Cursor} (h : Passes (kind :: kinds) c e) (hs : s.bars kind = false) :
    (c.peek s).kind = kind ∧ Passes kinds (c.advance s) e := by
  obtain ⟨t, rest, finish, position, rfl, rfl, hp⟩ := h.exists_cons
  constructor
  · simp only [peek, hs, Bool.false_eq_true, ↓reduceIte]
  · simpa only [advance, hs, Bool.false_eq_true, ↓reduceIte] using hp

/-- A whole list of tokens is passed. -/
theorem Cursor.passes_map_kind (tokens : List Token) (finish : Span) (position : Nat) :
    Passes (tokens.map Token.kind) ⟨tokens, finish, position⟩
      ⟨[], finish, position + tokens.length⟩ := by
  induction tokens generalizing position with
  | nil => rfl
  | cons t rest ih =>
    have h := ih (position + 1)
    rw [Nat.add_right_comm] at h
    exact ⟨rfl, h⟩

/-- Only reserved words are barred from a scope. -/
theorem Scope.bars_eq_false (s : Scope) {kind : TokenKind} (h : kind.startsStatement = false) :
    s.bars kind = false := by
  cases s with
  | stream => rfl
  | statement => exact h

/-- A run of tokens between two symbols, of which the second one is a
terminator. -/
theorem Cursor.Passes.enclosed {kinds : List TokenKind} {opening closing : Symbol} {c e : Cursor}
    (h : Passes (.symbol opening :: (kinds ++ [.symbol closing])) c e) (s : Scope)
    {kind : TerminatorKind} (hk : TerminatorKind.ofKind? (.symbol closing) = some kind) :
    (c.peek s).kind = .symbol opening ∧ ∃ d, Passes kinds (c.advance s) d ∧
      TerminatorKind.ofKind? (d.peek s).kind = some kind ∧ d.advance s = e := by
  obtain ⟨hopen, h₁⟩ := h.next (s.bars_eq_false rfl)
  obtain ⟨d, h₂, h₃⟩ := passes_append.mp h₁
  obtain ⟨hclose, he⟩ := h₃.next (s.bars_eq_false rfl)
  exact ⟨hopen, d, h₂, by rw [hclose, hk], he⟩

/-! ### Reading a printed expression -/

/-- A printed expression starts an operand, and with the accessors behind it
is read as one operand, with no issues but theirs. -/
structure Expr.ReadBack (s : Scope) (e : Expr) : Prop where
  opens {c d : Cursor} (h : Cursor.Passes e.print c d) : (c.peek s).kind.opensOperand = true
  primary {c d f : Cursor} {accessors : Accessors} (h : Cursor.Passes e.print c d)
    (ha : accessors.Between s d f) :
    ∃ p : Primary, p.Between s c f ∧ p.issues = accessors.issues ∧
      ∀ mode, (p.toExpr mode).eraseSpans = (accessors.apply mode e).eraseSpans

/-- Accessors only look at the expression they are applied to up to places. -/
theorem Accessors.eraseSpans_apply (mode : Reduction) :
    (accessors : Accessors) → {e e' : Expr} → e.eraseSpans = e'.eraseSpans →
      (accessors.apply mode e).eraseSpans = (accessors.apply mode e').eraseSpans
  | .none, _, _, h => h
  | .call _ _ _ rest, _, _, h =>
    Accessors.eraseSpans_apply mode rest (by simp only [Expr.eraseSpans, h])
  | .index _ _ _ rest, _, _, h =>
    Accessors.eraseSpans_apply mode rest (by simp only [Expr.eraseSpans, h])
  | .member _ _ _ rest, _, _, h =>
    Accessors.eraseSpans_apply mode rest (by simp only [Expr.eraseSpans, h])

section
variable {s : Scope} {e : Expr} {c d : Cursor}

/-- A printed expression in front of no accessor is an operand. -/
theorem Expr.ReadBack.operand (he : e.ReadBack s) (h : Cursor.Passes e.print c d)
    (hd : (d.peek s).kind.accessor? = none) :
    ∃ o : Operand, o.Between s c d ∧ o.issues = [] ∧
      ∀ mode, (o.toExpr mode).eraseSpans = e.eraseSpans := by
  have hnone : Accessors.Between s .none d d := ⟨hd, rfl⟩
  obtain ⟨p, hp, hi, ht⟩ := he.primary h hnone
  -- A token that starts an operand is no sign.
  have hsign : UnaryOp.ofKind? (c.peek s).kind = none := by
    have hopens := he.opens h
    revert hopens
    generalize (c.peek s).kind = kind
    unfold TokenKind.opensOperand
    split <;> simp [UnaryOp.ofKind?]
  exact ⟨.bare p, ⟨hsign, hp⟩, hi, ht⟩

/-- In front of a terminator it is a chain, which ends there. -/
theorem Expr.ReadBack.chain (he : e.ReadBack s) (h : Cursor.Passes e.print c d)
    {kind : TerminatorKind} (hd : TerminatorKind.ofKind? (d.peek s).kind = some kind) :
    ∃ r : Chain, r.Between s c (d.advance s) ∧ r.terminator.kind = kind ∧ r.issues = [] ∧
      ∀ mode, (r.toExpr mode).eraseSpans = e.eraseSpans := by
  obtain ⟨o, ho, hi, ht⟩ := he.operand h (TokenKind.accessor?_eq_none_of_terminator hd)
  refine ⟨.mk o (.done ⟨kind, d.peek s⟩), ⟨d, ho, rfl, hd, rfl⟩, rfl, ?_, ?_⟩
  · rw [Chain.issues, hi, Links.issues, List.append_nil]
  · intro mode
    rw [Chain.toExpr, Links.toPairs]
    exact ht mode

/-- Two printed expressions with an operator between them are a chain. -/
theorem Expr.ReadBack.chain_link {left right : Expr} (hl : left.ReadBack s)
    (hr : right.ReadBack s) {op : BinaryOp}
    (h : Cursor.Passes (left.print ++ .symbol op.symbol :: right.print) c d)
    {kind : TerminatorKind} (hd : TerminatorKind.ofKind? (d.peek s).kind = some kind) :
    ∃ r : Chain, r.Between s c (d.advance s) ∧ r.issues = [] ∧
      ∀ (mode : Reduction) (span : Span),
        (r.toExpr mode).eraseSpans = (Expr.binary left op right span).eraseSpans := by
  obtain ⟨c₁, h₁, h₂⟩ := Cursor.passes_append.mp h
  obtain ⟨hop, h₃⟩ := h₂.next (s.bars_eq_false rfl)
  have hop' : BinaryOp.ofKind? (c₁.peek s).kind = some op := BinaryOp.ofKind?_eq_some_iff.mpr hop
  obtain ⟨o, ho, hio, hto⟩ := hl.operand h₁ (by rw [hop, TokenKind.accessor?_symbol_binaryOp])
  obtain ⟨o', ho', hio', hto'⟩ := hr.operand h₃ (TokenKind.accessor?_eq_none_of_terminator hd)
  refine ⟨.mk o (.link op (c₁.peek s) o' (.done ⟨kind, d.peek s⟩)),
    ⟨c₁, ho, rfl, hop', d, ho', rfl, hd, rfl⟩, ?_, ?_⟩
  · simp only [Chain.issues, Links.issues, hio, hio', List.append_nil]
  · intro mode span
    -- One operator groups in one way only.
    have hgroup : group mode (o.toExpr mode) [(op, o'.toExpr mode)]
        = .joined (.operand (o.toExpr mode)) op (.operand (o'.toExpr mode)) := by
      cases mode <;> rfl
    simp only [Chain.toExpr, Links.toPairs, hgroup, Grouping.toExpr, Expr.eraseSpans,
      hto, hto']

/-- A sign in front of a printed expression is a chain. -/
theorem Expr.ReadBack.chain_sign (he : e.ReadBack s) {op : UnaryOp}
    (h : Cursor.Passes (.symbol op.symbol :: e.print) c d)
    {kind : TerminatorKind} (hd : TerminatorKind.ofKind? (d.peek s).kind = some kind) :
    ∃ r : Chain, r.Between s c (d.advance s) ∧ r.issues = [] ∧
      ∀ (mode : Reduction) (span : Span),
        (r.toExpr mode).eraseSpans = (Expr.unary op e span).eraseSpans := by
  obtain ⟨hop, h₁⟩ := h.next (s.bars_eq_false rfl)
  have hop' : UnaryOp.ofKind? (c.peek s).kind = some op := UnaryOp.ofKind?_eq_some_iff.mpr hop
  obtain ⟨o, ho, hi, ht⟩ := he.operand h₁ (TokenKind.accessor?_eq_none_of_terminator hd)
  refine ⟨.mk (.signed op (c.peek s) o) (.done ⟨kind, d.peek s⟩),
    ⟨d, ⟨rfl, hop', ho⟩, rfl, hd, rfl⟩, ?_, ?_⟩
  · simp only [Chain.issues, Operand.issues, Links.issues, hi, List.append_nil]
  · intro mode span
    -- A chain of one operand has the tree of the operand.
    have htree : (Chain.mk (.signed op (c.peek s) o) (.done ⟨kind, d.peek s⟩)).toExpr mode
        = (Operand.signed op (c.peek s) o).toExpr mode := by
      rw [Chain.toExpr, Links.toPairs]
      rfl
    simp only [htree, Operand.toExpr, Expr.eraseSpans, ht]

end

/-- Printed expressions with commas between them are a list, if a terminator
other than a comma is behind them. -/
theorem Expr.ReadBack.items {s : Scope} {es : List Expr} (hne : es ≠ [])
    (hes : ∀ e ∈ es, e.ReadBack s) {c d : Cursor} (h : Cursor.Passes (commas (printAll es)) c d)
    {kind : TerminatorKind} (hd : TerminatorKind.ofKind? (d.peek s).kind = some kind)
    (hk : kind ≠ .comma) :
    ∃ items : Items, items.Between s c (d.advance s) ∧ items.issues = [] ∧
      ∀ mode, eraseAllSpans (items.toExprs mode) = eraseAllSpans es := by
  induction es generalizing c with
  | nil => exact absurd rfl hne
  | cons e es ih =>
    have he : e.ReadBack s := hes e List.mem_cons_self
    cases es with
    | nil =>
      -- The last one ends at the terminator of the list.
      rw [printAll, printAll, commas_singleton] at h
      obtain ⟨r, hr, hterm, hi, ht⟩ := he.chain h hd
      refine ⟨.last r, ⟨hr, by rwa [hterm]⟩, hi, ?_⟩
      intro mode
      simp only [Items.toExprs, eraseAllSpans, ht]
    | cons e' es =>
      -- The others end at a comma, and the list goes on behind it.
      rw [printAll, printAll, commas_cons_cons, Cursor.passes_append] at h
      obtain ⟨c₁, h₁, h₂⟩ := h
      obtain ⟨hcomma, h₂⟩ := h₂.next (s.bars_eq_false rfl)
      have hc₁ : TerminatorKind.ofKind? (c₁.peek s).kind = some .comma := by
        rw [hcomma]
        rfl
      obtain ⟨r, hr, hterm, hi, ht⟩ := he.chain h₁ hc₁
      obtain ⟨items, hb, hi', ht'⟩ := ih (List.cons_ne_nil _ _)
        (fun x hx => hes x (List.mem_cons_of_mem _ hx)) h₂
      refine ⟨.more r items, ⟨_, hr, hterm, hb⟩, ?_, ?_⟩
      · rw [Items.issues, hi, hi', List.append_nil]
      · intro mode
        simp only [Items.toExprs, eraseAllSpans, ht, ht']

/-! ### Atoms -/

/-- An expression is read back if it is printed as an atom. -/
theorem Expr.ReadBack.of_atom {s : Scope} {e : Expr}
    (h : ∀ {c d : Cursor}, Cursor.Passes e.print c d →
      (c.peek s).kind.opensOperand = true ∧ ∃ a : Atom, a.Between s c d ∧ a.issues = [] ∧
        ∀ mode, (a.toExpr mode).eraseSpans = e.eraseSpans) : e.ReadBack s where
  opens hp := (h hp).1
  primary {c d f accessors} hp ha := by
    obtain ⟨-, a, hb, hi, ht⟩ := h hp
    refine ⟨.atom a accessors, ⟨d, hb, ha⟩, ?_, ?_⟩
    · rw [Primary.issues, hi, List.nil_append]
    · intro mode
      rw [Primary.toExpr]
      exact accessors.eraseSpans_apply mode (ht mode)

/-- An expression is read back if it is printed as a chain in parentheses. -/
theorem Expr.ReadBack.of_group {s : Scope} {e : Expr} {kinds : List TokenKind}
    (hprint : e.print = .symbol .openParen :: (kinds ++ [.symbol .closeParen]))
    (h : ∀ {c d : Cursor} {kind : TerminatorKind}, Cursor.Passes kinds c d →
      TerminatorKind.ofKind? (d.peek s).kind = some kind →
        ∃ r : Chain, r.Between s c (d.advance s) ∧ r.issues = [] ∧
          ∀ mode, (r.toExpr mode).eraseSpans = e.eraseSpans) : e.ReadBack s := by
  refine .of_atom ?_
  intro c d hp
  rw [hprint] at hp
  obtain ⟨hopen, d', h₁, hd, rfl⟩ := hp.enclosed s rfl
  obtain ⟨r, hr, hi, ht⟩ := h h₁ hd
  exact ⟨by rw [hopen]; rfl, .group (c.peek s) r, ⟨rfl, hopen, hr⟩, hi, ht⟩

section
variable {s : Scope}

/-- A number is an atom. -/
theorem Expr.ReadBack.number (value : Binary64) (span : Span) :
    (Expr.number value span).ReadBack s := by
  refine .of_atom ?_
  intro c d hp
  obtain ⟨hk, rfl⟩ := hp.next (s.bars_eq_false rfl)
  exact ⟨by rw [hk]; rfl, .number value (c.peek s).span, ⟨by rw [← hk], rfl⟩, rfl, fun _ => rfl⟩

/-- A string is an atom. -/
theorem Expr.ReadBack.string (value : String) (span : Span) :
    (Expr.string value span).ReadBack s := by
  refine .of_atom ?_
  intro c d hp
  obtain ⟨hk, rfl⟩ := hp.next (s.bars_eq_false rfl)
  exact ⟨by rw [hk]; rfl, .string value (c.peek s).span, ⟨by rw [← hk], rfl⟩, rfl, fun _ => rfl⟩

/-- A name is an atom. -/
theorem Expr.ReadBack.identifier (name : Identifier) : (Expr.identifier name).ReadBack s := by
  refine .of_atom ?_
  intro c d hp
  obtain ⟨hk, rfl⟩ := hp.next (s.bars_eq_false rfl)
  exact ⟨by rw [hk]; rfl, .name name.name (c.peek s).span, ⟨by rw [← hk], rfl⟩, rfl,
    fun _ => rfl⟩

/-- Accessors behind a signed expression belong to its operand, so the sign is read first. -/
theorem Expr.ReadBack.unary {arg : Expr} (ha : arg.ReadBack s) (op : UnaryOp) (span : Span) :
    (Expr.unary op arg span).ReadBack s := by
  have hprint : (Expr.unary op arg span).print = .symbol .openParen ::
      ((.symbol op.symbol :: arg.print) ++ [.symbol .closeParen]) := by
    rw [Expr.print, List.cons_append]
  refine .of_group hprint ?_
  intro c d kind hp hd
  obtain ⟨r, hr, hi, ht⟩ := ha.chain_sign hp hd
  exact ⟨r, hr, hi, fun mode => ht mode span⟩

/-- A binary expression is printed in parentheses, and these make it an atom. -/
theorem Expr.ReadBack.binary {left right : Expr} (hl : left.ReadBack s) (hr : right.ReadBack s)
    (op : BinaryOp) (span : Span) : (Expr.binary left op right span).ReadBack s := by
  have hprint : (Expr.binary left op right span).print = .symbol .openParen ::
      ((left.print ++ .symbol op.symbol :: right.print) ++ [.symbol .closeParen]) := by
    rw [Expr.print, List.append_assoc, List.cons_append]
  refine .of_group hprint ?_
  intro c d kind hp hd
  obtain ⟨r, hr, hi, ht⟩ := hl.chain_link hr hp hd
  exact ⟨r, hr, hi, fun mode => ht mode span⟩

/-- An array is an atom: its brackets enclose its items. -/
theorem Expr.ReadBack.array {elems : List Expr} (hne : elems ≠ [])
    (helems : ∀ e ∈ elems, e.ReadBack s) (span : Span) : (Expr.array elems span).ReadBack s := by
  refine .of_atom ?_
  intro c d hp
  rw [Expr.print] at hp
  obtain ⟨hopen, d', h₁, hd, rfl⟩ := hp.enclosed s rfl
  obtain ⟨items, hb, hi, ht⟩ := items hne helems h₁ hd (by decide)
  refine ⟨by rw [hopen]; rfl, .array (c.peek s) items, ⟨rfl, hopen, hb⟩, hi, ?_⟩
  intro mode
  simp only [Atom.toExpr, Expr.eraseSpans, ht]

end

/-! ### Accessors -/

/-- An expression is read back if it is printed as one that is, with an
accessor behind it. -/
theorem Expr.ReadBack.of_accessor {s : Scope} {object e : Expr} (ho : object.ReadBack s)
    {kinds : List TokenKind} (hprint : e.print = object.print ++ kinds)
    (h : ∀ {c d f : Cursor} {rest : Accessors}, Cursor.Passes kinds c d → rest.Between s d f →
      ∃ accessors : Accessors, accessors.Between s c f ∧ accessors.issues = rest.issues ∧
        ∀ mode, (accessors.apply mode object).eraseSpans = (rest.apply mode e).eraseSpans) :
    e.ReadBack s where
  opens hp := by
    rw [hprint, Cursor.passes_append] at hp
    obtain ⟨d, hp, -⟩ := hp
    exact ho.opens hp
  primary {c d f rest} hp hr := by
    rw [hprint, Cursor.passes_append] at hp
    obtain ⟨c₁, h₁, h₂⟩ := hp
    -- The accessor and the rest stand behind the object, which is read with both of them.
    obtain ⟨accessors, ha, hi, ht⟩ := h h₂ hr
    obtain ⟨p, hb, hip, htp⟩ := ho.primary h₁ ha
    refine ⟨p, hb, hip.trans hi, ?_⟩
    intro mode
    rw [htp, ht]

section
variable {s : Scope} {object : Expr}

/-- A call is one more accessor behind its callee, in front of those that follow. -/
theorem Expr.ReadBack.call (ho : object.ReadBack s) {args : List Expr} (hne : args ≠ [])
    (hargs : ∀ e ∈ args, e.ReadBack s) (optional : Bool) (span : Span) :
    (Expr.call object args optional span).ReadBack s := by
  refine ho.of_accessor (by rw [Expr.print]) ?_
  intro c d f rest hp hr
  obtain ⟨hopen, d', h₁, hd, rfl⟩ := hp.enclosed s rfl
  obtain ⟨items, hb, hi, ht⟩ := items hne hargs h₁ hd (by decide)
  refine ⟨.call optional (c.peek s) items rest,
    ⟨rfl, by rw [hopen, AccessorKind.accessor?_symbol], _, hb, hr⟩, ?_, ?_⟩
  · rw [Accessors.issues, hi, List.nil_append]
  · intro mode
    rw [Accessors.apply]
    exact rest.eraseSpans_apply mode (by simp only [Expr.eraseSpans, ht])

/-- An index is one more accessor behind its object. -/
theorem Expr.ReadBack.index (ho : object.ReadBack s) {inner : Expr} (hi : inner.ReadBack s)
    (optional : Bool) (span : Span) : (Expr.index object inner optional span).ReadBack s := by
  refine ho.of_accessor (by rw [Expr.print]) ?_
  intro c d f rest hp hr
  obtain ⟨hopen, d', h₁, hd, rfl⟩ := hp.enclosed s rfl
  obtain ⟨r, hb, -, hi, ht⟩ := hi.chain h₁ hd
  refine ⟨.index optional (c.peek s) r rest,
    ⟨rfl, by rw [hopen, AccessorKind.accessor?_symbol], _, hb, hr⟩, ?_, ?_⟩
  · rw [Accessors.issues, hi, List.nil_append]
  · intro mode
    rw [Accessors.apply]
    exact rest.eraseSpans_apply mode (by simp only [Expr.eraseSpans, ht])

/-- A member is one more accessor behind its object, with the name as its only token. -/
theorem Expr.ReadBack.member (ho : object.ReadBack s) (prop : Identifier) (optional : Bool)
    (span : Span) : (Expr.member object prop optional span).ReadBack s := by
  refine ho.of_accessor (by rw [Expr.print]) ?_
  intro c d f rest hp hr
  obtain ⟨hdot, h₁⟩ := hp.next (s.bars_eq_false rfl)
  obtain ⟨hname, rfl⟩ := h₁.next (s.bars_eq_false rfl)
  refine ⟨.member optional (c.peek s) ((c.advance s).peek s) rest,
    ⟨rfl, by rw [hdot, AccessorKind.accessor?_symbol], rfl, hr⟩, ?_, ?_⟩
  · rw [Accessors.issues, memberIssues, hname, List.nil_append]
  · intro mode
    rw [Accessors.apply]
    refine rest.eraseSpans_apply mode ?_
    simp only [Expr.eraseSpans, Identifier.eraseSpans, memberName, hname]

end

/-! ### All expressions -/

mutual

/-- **Every expression that can be printed is read back**, in every scope. -/
theorem Expr.readBack (s : Scope) : (e : Expr) → e.Printable → e.ReadBack s
  | .number value span, _ => .number value span
  | .string value span, _ => .string value span
  | .identifier name, _ => .identifier name
  | .unary op arg span, h => (Expr.readBack s arg h).unary op span
  | .binary left op right span, ⟨hl, hr⟩ =>
    (Expr.readBack s left hl).binary (Expr.readBack s right hr) op span
  | .call callee args optional span, ⟨hc, hne, ha⟩ =>
    (Expr.readBack s callee hc).call hne (Expr.readBack_of_mem s args ha) optional span
  | .index object inner optional span, ⟨ho, hi⟩ =>
    (Expr.readBack s object ho).index (Expr.readBack s inner hi) optional span
  | .member object prop optional span, h => (Expr.readBack s object h).member prop optional span
  | .array elems span, ⟨hne, he⟩ => .array hne (Expr.readBack_of_mem s elems he) span
  | .ignore _ _, h => h.elim

/-- So is every expression of a list that can be printed. -/
theorem Expr.readBack_of_mem (s : Scope) : (es : List Expr) → AllPrintable es →
    ∀ e ∈ es, e.ReadBack s
  | [], _, _, h => by cases h
  | e :: es, ⟨he, hes⟩, x, hx => by
    cases hx with
    | head => exact Expr.readBack s e he
    | tail _ hx => exact Expr.readBack_of_mem s es hes x hx

end

end ExprFrontEnd
