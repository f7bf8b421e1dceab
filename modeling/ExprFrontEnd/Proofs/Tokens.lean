import ExprFrontEnd.Proofs.Between

/-!
# `ExprFrontEnd.Proofs.Tokens`: the tokens of a chain

A chain keeps every token that was taken for it. `Chain.body` lists them in
the order of the source, all but the terminator, and the same goes for
`Links.body` and `Items.body`; the parts without a terminator have `tokens`.

* `Cursor.Takes`: what taking one token after another gives. At an end the
  same empty token is taken again and again.
* `Cursor.Reaches`: one cursor is further on in the stream of another.
* `Chain.Between.takes`: the tokens of the chain between two cursors are
  those that are taken from one to the other.

Facts about all tokens of a chain, and about where reading it leads, need no
induction on chains any more, but only one on lists of tokens.
-/

set_option autoImplicit false

namespace ExprFrontEnd

/-! ### Taking tokens -/

/-- Taking one token after another gives these tokens and leads from the
first cursor to the second one. -/
def Cursor.Takes (s : Scope) : List Token → Cursor → Cursor → Prop
  | [], c, d => c = d
  | t :: ts, c, e => t = c.peek s ∧ Takes s ts (c.advance s) e

/-- Taking some tokens and then others. -/
theorem Cursor.takes_append {s : Scope} {ts us : List Token} {c e : Cursor} :
    Takes s (ts ++ us) c e ↔ ∃ d, Takes s ts c d ∧ Takes s us d e := by
  induction ts generalizing c with
  | nil =>
    constructor
    · intro h
      exact ⟨c, rfl, h⟩
    · rintro ⟨d, rfl, h⟩
      exact h
  | cons t ts ih =>
    simp only [List.cons_append, Takes, ih]
    constructor
    · rintro ⟨ht, d, hd, he⟩
      exact ⟨d, ⟨ht, hd⟩, he⟩
    · rintro ⟨d, ⟨ht, hd⟩, he⟩
      exact ⟨ht, d, hd, he⟩

/-- The second cursor is in the stream of the first one, behind tokens that
were passed. -/
structure Cursor.Reaches (c d : Cursor) : Prop where
  passed : ∃ ts : List Token, c.ahead = ts ++ d.ahead ∧ d.position = c.position + ts.length
  finish : d.finish = c.finish

namespace Cursor

/-- A cursor is on the way from itself. -/
theorem Reaches.refl (c : Cursor) : c.Reaches c :=
  ⟨⟨[], rfl, rfl⟩, rfl⟩

/-- Ways can be put together. -/
theorem Reaches.trans {c d e : Cursor} (h₁ : c.Reaches d) (h₂ : d.Reaches e) : c.Reaches e := by
  obtain ⟨⟨ts, hts, hpos₁⟩, hfin₁⟩ := h₁
  obtain ⟨⟨us, hus, hpos₂⟩, hfin₂⟩ := h₂
  refine ⟨⟨ts ++ us, ?_, ?_⟩, hfin₂.trans hfin₁⟩
  · rw [hts, hus, List.append_assoc]
  · rw [hpos₂, hpos₁, List.length_append, Nat.add_assoc]

/-- A cursor that is further on has as many tokens less ahead as it has
passed. -/
theorem Reaches.position_add_remaining {c d : Cursor} (h : c.Reaches d) :
    d.position + d.remaining = c.position + c.remaining := by
  obtain ⟨ts, hts, hpos⟩ := h.passed
  rw [hpos, remaining, remaining, hts, List.length_append, Nat.add_assoc]

/-- Places grow along the way. -/
theorem Reaches.position_le {c d : Cursor} (h : c.Reaches d) : c.position ≤ d.position := by
  obtain ⟨ts, -, hpos⟩ := h.passed
  omega

/-- A cursor that is further on has passed a token, unless it is the same. -/
theorem Reaches.eq_or_lt {c d : Cursor} (h : c.Reaches d) : d = c ∨ c.position < d.position := by
  obtain ⟨⟨ts, hts, hpos⟩, hfinish⟩ := h
  cases ts with
  | nil =>
    obtain ⟨ahead, finish, position⟩ := d
    obtain rfl : finish = c.finish := hfinish
    obtain rfl : position = c.position := hpos
    obtain rfl : c.ahead = ahead := hts
    exact .inl rfl
  | cons t ts =>
    rw [List.length_cons] at hpos
    exact .inr (by omega)

/-- The tokens that were passed are the first ones of those ahead. -/
theorem Reaches.take_append {c d : Cursor} (h : c.Reaches d) :
    c.ahead.take (d.position - c.position) ++ d.ahead = c.ahead := by
  obtain ⟨ts, hts, hpos⟩ := h.passed
  rw [hts, hpos, Nat.add_sub_cancel_left, List.take_left]

/-- What is still ahead was ahead before. -/
theorem Reaches.mem_ahead {c d : Cursor} (h : c.Reaches d) {t : Token} (ht : t ∈ d.ahead) :
    t ∈ c.ahead := by
  obtain ⟨ts, hts, -⟩ := h.passed
  rw [hts]
  exact List.mem_append_right _ ht

/-- The next token is ahead, unless it is an end that is shown. -/
theorem peek_mem_ahead {s : Scope} {c : Cursor} (h : (c.peek s).kind ≠ .eof) :
    c.peek s ∈ c.ahead := by
  obtain ⟨ahead, finish, position⟩ := c
  cases ahead with
  | nil => exact absurd rfl h
  | cons t rest =>
    simp only [peek] at h ⊢
    split at h
    · exact absurd rfl h
    · rename_i hbars
      rw [if_neg hbars]
      exact .head rest

/-- Behind the next token the cursor is further on. -/
theorem reaches_cons (t : Token) (rest : List Token) (finish : Span) (position : Nat) :
    Reaches ⟨t :: rest, finish, position⟩ ⟨rest, finish, position + 1⟩ :=
  ⟨⟨[t], rfl, rfl⟩, rfl⟩

/-- Advancing passes one token or none. -/
theorem reaches_advance (s : Scope) (c : Cursor) : c.Reaches (c.advance s) := by
  obtain ⟨ahead, finish, position⟩ := c
  cases ahead with
  | nil => exact .refl _
  | cons t rest =>
    simp only [advance]
    split
    · exact .refl _
    · exact reaches_cons t rest finish position

/-- Taking tokens is a way. -/
theorem Takes.reaches {s : Scope} {ts : List Token} {c e : Cursor} (h : Takes s ts c e) :
    c.Reaches e := by
  induction ts generalizing c with
  | nil => rw [show c = e from h]; exact .refl _
  | cons t ts ih => exact (reaches_advance s c).trans (ih h.2)

/-- Every token that is taken was the next one on the way. -/
theorem Takes.exists_peek {s : Scope} {ts : List Token} {c e : Cursor} (h : Takes s ts c e) :
    ∀ t ∈ ts, ∃ d, c.Reaches d ∧ t = d.peek s := by
  induction ts generalizing c with
  | nil => exact List.forall_mem_nil _
  | cons t ts ih =>
    refine List.forall_mem_cons.mpr ⟨⟨c, .refl c, h.1⟩, fun u hu => ?_⟩
    obtain ⟨d, hd, hpeek⟩ := ih h.2 u hu
    exact ⟨d, (reaches_advance s c).trans hd, hpeek⟩

/-- A token that is taken without being passed is an end, and everything that
is taken behind it is. -/
theorem Takes.of_advance_eq {s : Scope} {ts : List Token} {c e : Cursor} (h : Takes s ts c e)
    (hc : c.advance s = c) : e = c ∧ ∀ t ∈ ts, t.kind = .eof := by
  induction ts with
  | nil => exact ⟨h.symm, List.forall_mem_nil _⟩
  | cons t ts ih =>
    obtain ⟨rfl, hts⟩ := h
    rw [hc] at hts
    obtain ⟨he, hall⟩ := ih hts
    refine ⟨he, List.forall_mem_cons.mpr ⟨?_, hall⟩⟩
    refine Decidable.byContradiction fun hne => ?_
    have hlt := remaining_advance_lt hne
    rw [hc] at hlt
    exact Nat.lt_irrefl _ hlt

/-- A token that is taken is passed, unless it is an end. -/
theorem advance_eq_self_or (s : Scope) (c : Cursor) :
    c.advance s = c ∨ ∃ rest, c.ahead = c.peek s :: rest ∧
      c.advance s = ⟨rest, c.finish, c.position + 1⟩ := by
  obtain ⟨ahead, finish, position⟩ := c
  cases ahead with
  | nil => exact .inl rfl
  | cons t rest =>
    by_cases hbars : s.bars t.kind = true
    · exact .inl (by simp only [advance, hbars, ↓reduceIte])
    · exact .inr ⟨rest, by simp only [peek, hbars, Bool.false_eq_true, ↓reduceIte],
        by simp only [advance, hbars, Bool.false_eq_true, ↓reduceIte]⟩

/-- The tokens that are taken are those that are passed, and ends behind
them. -/
theorem Takes.exists_eq_take_append {s : Scope} {ts : List Token} {c e : Cursor}
    (h : Takes s ts c e) :
    ∃ ends : List Token, ts = c.ahead.take (e.position - c.position) ++ ends ∧
      ∀ t ∈ ends, t.kind = .eof := by
  induction ts generalizing c with
  | nil =>
    obtain rfl : c = e := h
    exact ⟨[], by rw [Nat.sub_self, List.take_zero]; rfl, List.forall_mem_nil _⟩
  | cons t ts ih =>
    -- From the first token on that is not passed, the cursor stays where it is.
    rcases advance_eq_self_or s c with hc | ⟨rest, hahead, hc⟩
    · obtain ⟨rfl, hall⟩ := h.of_advance_eq hc
      exact ⟨t :: ts, by rw [Nat.sub_self, List.take_zero]; rfl, hall⟩
    · obtain ⟨rfl, hts⟩ := h
      rw [hc] at hts
      obtain ⟨ends, hends, hall⟩ := ih hts
      have hle : c.position + 1 ≤ e.position := hts.reaches.position_le
      have hsub : e.position - c.position = (e.position - (c.position + 1)) + 1 := by omega
      exact ⟨ends, by rw [hsub, hahead, List.take_succ_cons, List.cons_append, ← hends], hall⟩

/-- Taking tokens in a scope leads from the first cursor to the second one. -/
def Leads (s : Scope) (c d : Cursor) : Prop := ∃ ts, Takes s ts c d

/-- No token has to be taken. -/
theorem Leads.refl (s : Scope) (c : Cursor) : Leads s c c := ⟨[], rfl⟩

/-- Taking further tokens. -/
theorem Leads.trans {s : Scope} {c d e : Cursor} (hd : Leads s c d) (he : Leads s d e) :
    Leads s c e := by
  obtain ⟨ts, hts⟩ := hd
  obtain ⟨us, hus⟩ := he
  exact ⟨ts ++ us, takes_append.mpr ⟨d, hts, hus⟩⟩

/-- One more token may be taken. -/
theorem Leads.advance {s : Scope} {c d : Cursor} (h : Leads s c d) : Leads s c (d.advance s) :=
  h.trans ⟨[d.peek s], rfl, rfl⟩

/-- The cursor behind the next tokens of the stream. -/
def skip : Nat → Cursor → Cursor
  | 0, c => c
  | n + 1, c => skip n (c.advance .stream)

/-- Passing a number of tokens is a way. -/
theorem reaches_skip (n : Nat) (c : Cursor) : c.Reaches (c.skip n) := by
  induction n generalizing c with
  | zero => exact .refl _
  | succ n ih => exact (reaches_advance .stream c).trans (ih _)

end Cursor

/-! ### The tokens of a chain -/

mutual

/-- The tokens of a chain without its terminator. -/
def Chain.body : Chain → List Token
  | .mk first links => first.tokens ++ links.body

/-- The tokens behind an operand, up to the terminator. -/
def Links.body : Links → List Token
  | .done _ => []
  | .stray token rest => token :: rest.body
  | .link _ token operand rest => token :: (operand.tokens ++ rest.body)

/-- The tokens of an operand. -/
def Operand.tokens : Operand → List Token
  | .signed _ token operand => token :: operand.tokens
  | .bare primary => primary.tokens

/-- The tokens of an operand without signs. -/
def Primary.tokens : Primary → List Token
  | .stray token rest => token :: rest.tokens
  | .atom atom accessors => atom.tokens ++ accessors.tokens

/-- The tokens of an atom. -/
def Atom.tokens : Atom → List Token
  | .number value span => [⟨.number value, span⟩]
  | .string value span => [⟨.string value, span⟩]
  | .name name span => [⟨.identifier name, span⟩]
  | .group opening inner => opening :: (inner.body ++ [inner.terminator.token])
  | .array opening elems => opening :: (elems.body ++ [elems.terminator.token])
  | .missing found => [found]

/-- The tokens of accessors. -/
def Accessors.tokens : Accessors → List Token
  | .none => []
  | .call _ opening args rest =>
    opening :: (args.body ++ args.terminator.token :: rest.tokens)
  | .index _ opening inner rest =>
    opening :: (inner.body ++ inner.terminator.token :: rest.tokens)
  | .member _ dot found rest => dot :: found :: rest.tokens

/-- The tokens of a list without its terminator. -/
def Items.body : Items → List Token
  | .last item => item.body
  | .more item rest => item.body ++ item.terminator.token :: rest.body

end

mutual

/-- The token that ends a chain is a terminator of the kind it is kept as. -/
theorem Chain.Between.ofKind?_terminator {s : Scope} : {r : Chain} → {c e : Cursor} →
    r.Between s c e → TerminatorKind.ofKind? r.terminator.token.kind = some r.terminator.kind
  | .mk _ _, _, _, ⟨_, _, hl⟩ => by
    rw [Chain.terminator]
    exact Links.Between.ofKind?_terminator hl

/-- What a row of links ends with is what its token says. -/
theorem Links.Between.ofKind?_terminator {s : Scope} : {r : Links} → {c e : Cursor} →
    r.Between s c e → TerminatorKind.ofKind? r.terminator.token.kind = some r.terminator.kind
  | .done _, _, _, ⟨ht, hk, _⟩ => by
    rw [Links.terminator, ht]
    exact hk
  | .stray _ _, _, _, ⟨_, _, _, hr⟩ => by
    rw [Links.terminator]
    exact Links.Between.ofKind?_terminator hr
  | .link _ _ _ _, _, _, ⟨_, _, _, _, hr⟩ => by
    rw [Links.terminator]
    exact Links.Between.ofKind?_terminator hr

end

/-- A list of items ends with what the token of its last chain says. -/
theorem Items.Between.ofKind?_terminator {s : Scope} : {r : Items} → {c e : Cursor} →
    r.Between s c e → TerminatorKind.ofKind? r.terminator.token.kind = some r.terminator.kind
  | .last _, _, _, ⟨hi, _⟩ => by
    rw [Items.terminator]
    exact hi.ofKind?_terminator
  | .more _ _, _, _, ⟨_, _, _, hr⟩ => by
    rw [Items.terminator]
    exact Items.Between.ofKind?_terminator hr

/-! ### They are what is taken -/

mutual

/-- The tokens of a chain and its terminator are taken between its cursors. -/
theorem Chain.Between.takes {s : Scope} : {r : Chain} → {c e : Cursor} → r.Between s c e →
    Cursor.Takes s (r.body ++ [r.terminator.token]) c e
  | .mk first links, _, _, ⟨d, hf, hl⟩ => by
    rw [Chain.body, Chain.terminator, List.append_assoc]
    exact Cursor.takes_append.mpr ⟨d, Operand.Between.takes hf, Links.Between.takes hl⟩

/-- Links take their operators, strays and operands in order, and the terminator last. -/
theorem Links.Between.takes {s : Scope} : {r : Links} → {c e : Cursor} → r.Between s c e →
    Cursor.Takes s (r.body ++ [r.terminator.token]) c e
  | .done _, _, _, ⟨ht, _, he⟩ => ⟨ht, he.symm⟩
  | .stray _ _, _, _, ⟨ht, _, _, hr⟩ => ⟨ht, Links.Between.takes hr⟩
  | .link _ _ operand rest, _, _, ⟨ht, _, d, ho, hr⟩ => by
    rw [Links.body, Links.terminator, List.cons_append, List.append_assoc]
    exact ⟨ht, Cursor.takes_append.mpr ⟨d, Operand.Between.takes ho, Links.Between.takes hr⟩⟩

/-- A sign is taken, and then the operand. -/
theorem Operand.Between.takes {s : Scope} : {r : Operand} → {c e : Cursor} → r.Between s c e →
    Cursor.Takes s r.tokens c e
  | .signed _ _ _, _, _, ⟨ht, _, ho⟩ => ⟨ht, Operand.Between.takes ho⟩
  | .bare _, _, _, ⟨_, hp⟩ => Primary.Between.takes hp

/-- A stray operator is taken, and then the operand behind it. -/
theorem Primary.Between.takes {s : Scope} : {r : Primary} → {c e : Cursor} → r.Between s c e →
    Cursor.Takes s r.tokens c e
  | .stray _ _, _, _, ⟨ht, _, _, hr⟩ => ⟨ht, Primary.Between.takes hr⟩
  | .atom _ _, _, _, ⟨d, ha, hs⟩ =>
    Cursor.takes_append.mpr ⟨d, Atom.Between.takes ha, Accessors.Between.takes hs⟩

/-- An atom takes its token, or all from the opening token to the closing one. A missing operand
takes what stands in its place. -/
theorem Atom.Between.takes {s : Scope} : {r : Atom} → {c e : Cursor} → r.Between s c e →
    Cursor.Takes s r.tokens c e
  | .number _ _, _, _, ⟨ht, he⟩ => ⟨ht.symm, he.symm⟩
  | .string _ _, _, _, ⟨ht, he⟩ => ⟨ht.symm, he.symm⟩
  | .name _ _, _, _, ⟨ht, he⟩ => ⟨ht.symm, he.symm⟩
  | .group _ _, _, _, ⟨ht, _, hi⟩ => ⟨ht, Chain.Between.takes hi⟩
  | .array _ _, _, _, ⟨ht, _, hi⟩ => ⟨ht, Items.Between.takes hi⟩
  | .missing _, _, _, ⟨ht, _, he⟩ => ⟨ht, he.symm⟩

/-- Accessors take a dot and the token behind it, or all from the opening token to the closing
one. -/
theorem Accessors.Between.takes {s : Scope} : {r : Accessors} → {c e : Cursor} →
    r.Between s c e → Cursor.Takes s r.tokens c e
  | .none, _, _, ⟨_, he⟩ => he.symm
  | .call _ _ args rest, _, _, ⟨ht, _, d, ha, hr⟩ => by
    -- The arguments are taken with their terminator.
    rw [Accessors.tokens, ← List.singleton_append (l := rest.tokens), ← List.append_assoc]
    exact ⟨ht, Cursor.takes_append.mpr ⟨d, Items.Between.takes ha, Accessors.Between.takes hr⟩⟩
  | .index _ _ inner rest, _, _, ⟨ht, _, d, hi, hr⟩ => by
    rw [Accessors.tokens, ← List.singleton_append (l := rest.tokens), ← List.append_assoc]
    exact ⟨ht, Cursor.takes_append.mpr ⟨d, Chain.Between.takes hi, Accessors.Between.takes hr⟩⟩
  | .member _ _ _ _, _, _, ⟨ht, _, hf, hr⟩ => ⟨ht, hf, Accessors.Between.takes hr⟩

/-- Items take the terminators between them, and the last one at the end. -/
theorem Items.Between.takes {s : Scope} : {r : Items} → {c e : Cursor} → r.Between s c e →
    Cursor.Takes s (r.body ++ [r.terminator.token]) c e
  | .last _, _, _, ⟨hi, _⟩ => Chain.Between.takes hi
  | .more item rest, _, _, ⟨d, hi, _, hr⟩ => by
    rw [Items.body, Items.terminator, ← List.singleton_append (l := rest.body),
      ← List.append_assoc, List.append_assoc]
    exact Cursor.takes_append.mpr ⟨d, Chain.Between.takes hi, Items.Between.takes hr⟩

end

/-- Reading a chain leads on in the stream. -/
theorem Chain.reaches_read (s : Scope) (c : Cursor) : c.Reaches (read s c).2 :=
  (Chain.between_read s c).takes.reaches

end ExprFrontEnd
