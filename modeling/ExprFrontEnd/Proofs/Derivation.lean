import ExprFrontEnd.Proofs.Grammar
import ExprFrontEnd.Proofs.Readers
import ExprFrontEnd.Proofs.RoundTrip

/-!
# `ExprFrontEnd.Proofs.Derivation`: what is read without issues derives

A cursor and a derivation walk over the same stream, once with tokens and once
with kinds (`Cursor.Shows`). What a reader finds at a cursor says how the kinds
go on there, and so which alternative of the grammar to take.

* `Chain.Between.derives`: a chain without issues is an expression, and its
  terminator terminates it.
* `Clause.derives_read`: a statement that is read without issues derives.
* `Attempt.derives_readUpTo`: so does a program.

The end of a statement is where the two walks differ. It is the next reserved
word, which the kinds show as it is and which reads as the end of input there
(`Cursor.Shows.exists_terminates`).
-/

set_option autoImplicit false

namespace ExprFrontEnd

/-! ### Streams as kinds -/

/-- These kinds are ahead, the last of which is the end of input, and no other
one is. -/
structure Cursor.Shows (c : Cursor) (kinds : List TokenKind) : Prop where
  kinds : c.ahead.map Token.kind ++ [.eof] = kinds
  inner : ∀ t ∈ c.ahead, t.kind ≠ .eof

namespace Cursor

variable {s : Scope} {c d : Cursor} {k : TokenKind} {kinds rest : List TokenKind}

/-- The first kind is that of the next token, or it is the end of input. -/
theorem Shows.exists_cons (h : c.Shows kinds) :
    (c.ahead = [] ∧ kinds = [.eof]) ∨
      ∃ t rest kinds', c = ⟨t :: rest, c.finish, c.position⟩ ∧ kinds = t.kind :: kinds' ∧
        t.kind ≠ .eof ∧ Shows ⟨rest, c.finish, c.position + 1⟩ kinds' := by
  obtain ⟨ahead, finish, position⟩ := c
  obtain ⟨rfl, hinner⟩ := h
  cases ahead with
  | nil => exact .inl ⟨rfl, rfl⟩
  | cons t rest =>
    obtain ⟨ht, hrest⟩ := List.forall_mem_cons.mp hinner
    exact .inr ⟨t, rest, _, rfl, rfl, ht, rfl, hrest⟩

/-- A token that is not barred is next, and is passed. -/
theorem Shows.next (h : c.Shows (k :: kinds)) (hne : k ≠ .eof) (hbars : s.bars k = false) :
    (c.peek s).kind = k ∧ (c.advance s).Shows kinds := by
  rcases h.exists_cons with ⟨-, hk⟩ | ⟨t, rest, kinds', hc, hk, -, hrest⟩
  · exact absurd (List.cons.inj hk).1 hne
  · obtain ⟨rfl, rfl⟩ := List.cons.inj hk
    rw [hc]
    constructor
    · simp only [peek, hbars, Bool.false_eq_true, ↓reduceIte]
    · simpa only [advance, hbars, Bool.false_eq_true, ↓reduceIte] using hrest

/-- What is next, and not the end, is the first kind. -/
theorem Shows.of_peek (h : c.Shows kinds) (hk : (c.peek s).kind = k) (hne : k ≠ .eof) :
    ∃ kinds', kinds = k :: kinds' ∧ (c.advance s).Shows kinds' := by
  rcases h.exists_cons with ⟨hc, -⟩ | ⟨t, rest, kinds', hc, rfl, hneof, hrest⟩
  · rw [peek, hc] at hk
    exact absurd hk.symm hne
  · cases hbars : s.bars t.kind with
    | true =>
      rw [hc] at hk
      simp only [peek, hbars, ↓reduceIte] at hk
      exact absurd hk.symm hne
    | false =>
      obtain ⟨hpeek, hadvance⟩ := h.next hneof hbars
      exact ⟨kinds', by rw [← hpeek, hk], hadvance⟩

/-- A boundary ends a statement. -/
theorem Shows.endsStatement (h : c.Shows (k :: kinds)) (hk : isBoundary k = true) :
    c.EndsStatement := by
  intro t ht
  rcases h.exists_cons with ⟨hc, -⟩ | ⟨u, rest, kinds', hc, hkinds, hne, -⟩
  · rw [hc] at ht
    cases ht
  · obtain ⟨rfl, -⟩ := List.cons.inj hkinds
    rw [hc] at ht
    obtain rfl := Option.some.inj ht
    simpa [isBoundary, hne] using hk

/-- A terminator is next if the kinds go on with one. -/
theorem Shows.terminator (h : c.Shows kinds) {kind : TerminatorKind}
    (ht : Terminates kind kinds rest) :
    TerminatorKind.ofKind? (c.peek .statement).kind = some kind ∧
      (c.advance .statement).Shows rest := by
  cases ht with
  | symbol hs =>
    obtain ⟨hpeek, hadvance⟩ := h.next (s := .statement) (by simp) rfl
    exact ⟨by rw [hpeek, hs], hadvance⟩
  | boundary hk =>
    have hends := h.endsStatement hk
    exact ⟨by rw [hends.peek_statement]; rfl, by rwa [hends.advance_statement]⟩

/-- The kinds go on with a terminator if one is next. -/
theorem Shows.exists_terminates (h : c.Shows kinds) {kind : TerminatorKind}
    (hk : TerminatorKind.ofKind? (c.peek .statement).kind = some kind) :
    ∃ rest, Terminates kind kinds rest ∧ (c.advance .statement).Shows rest := by
  -- It is a boundary, or a symbol that is passed.
  have key : ∀ {k : TokenKind} {kinds' : List TokenKind}, kinds = k :: kinds' →
      ∃ rest, Terminates kind kinds rest := by
    rintro k kinds' rfl
    cases hb : isBoundary k with
    | true =>
      rw [(h.endsStatement hb).peek_statement] at hk
      obtain rfl := Option.some.inj hk
      exact ⟨_, .boundary hb kinds'⟩
    | false =>
      rw [isBoundary, Bool.or_eq_false_iff, beq_eq_false_iff_ne] at hb
      rw [(h.next (s := .statement) hb.1 hb.2).1] at hk
      cases k with
      | symbol s => exact ⟨_, .symbol hk kinds'⟩
      | eof => exact absurd rfl hb.1
      | number _ | string _ | identifier _ | keyword _ | unknown _ => cases hk
  obtain ⟨rest, ht⟩ : ∃ rest, Terminates kind kinds rest := by
    rcases h.exists_cons with ⟨-, hkinds⟩ | ⟨_, _, _, -, hkinds, -⟩
    · exact key hkinds
    · exact key hkinds
  exact ⟨rest, ht, (h.terminator ht).2⟩

end Cursor

/-! ### What is read without issues derives -/

/-- An accessor starts with its own symbol. -/
theorem TokenKind.eq_symbol_of_accessor? {k : TokenKind} {kind : AccessorKind} {optional : Bool}
    (h : k.accessor? = some (kind, optional)) : k = .symbol (kind.symbol optional) := by
  revert h
  unfold accessor?
  split <;> rintro ⟨⟩ <;> rfl

/-- A dot has no issue if a name is behind it. -/
theorem memberIssues_eq_nil_iff {optional : Bool} {dot found : Token} :
    memberIssues optional dot found = [] ↔ ∃ name, found.kind = .identifier name := by
  unfold memberIssues
  split <;> simp_all

mutual

/-- A chain without issues is an expression and its terminator. -/
theorem Chain.Between.derives : {r : Chain} → {c d : Cursor} → r.Between .statement c d →
    r.issues = [] → {kinds : List TokenKind} → c.Shows kinds →
      ∃ kinds' rest, Derives .expression kinds kinds' ∧
        Terminates r.terminator.kind kinds' rest ∧ d.Shows rest
  | .mk _ _, _, _, ⟨_, hf, hl⟩, hi, kinds, hc => by
    rw [Chain.issues, List.append_eq_nil_iff] at hi
    obtain ⟨kinds₁, hfirst, h₁⟩ := Operand.Between.derives hf hi.1 hc
    obtain ⟨kinds₂, rest, hlinks, hends, h₂⟩ := Links.Between.derives hl hi.2 h₁
    rw [Chain.terminator]
    exact ⟨kinds₂, rest, .expression hfirst hlinks, hends, h₂⟩

/-- Links derive as operations and the terminator behind them. -/
theorem Links.Between.derives : {r : Links} → {c d : Cursor} → r.Between .statement c d →
    r.issues = [] → {kinds : List TokenKind} → c.Shows kinds →
      ∃ kinds' rest, Derives .operations kinds kinds' ∧
        Terminates r.terminator.kind kinds' rest ∧ d.Shows rest
  | .done _, _, _, ⟨_, hk, he⟩, _, kinds, hc => by
    -- The terminator is left to whoever takes the chain, so it is no part of the operations.
    obtain ⟨rest, hends, hd⟩ := hc.exists_terminates hk
    rw [Links.terminator]
    exact ⟨kinds, rest, .noOperation kinds, hends, he ▸ hd⟩
  | .stray _ _, _, _, _, hi, _, _ => by
    -- A stray token has an issue.
    rw [Links.issues] at hi
    cases hi
  | .link op _ _ _, _, _, ⟨_, hop, _, ho, hr⟩, hi, kinds, hc => by
    rw [Links.issues, List.append_eq_nil_iff] at hi
    obtain ⟨kinds₁, rfl, h₁⟩ := hc.of_peek (BinaryOp.ofKind?_eq_some_iff.mp hop) (by simp)
    obtain ⟨kinds₂, hoperand, h₂⟩ := Operand.Between.derives ho hi.1 h₁
    obtain ⟨kinds₃, rest, hrest, hends, h₃⟩ := Links.Between.derives hr hi.2 h₂
    rw [Links.terminator]
    exact ⟨kinds₃, rest, .operation op hoperand hrest, hends, h₃⟩

/-- An operand derives with its sign or without one. -/
theorem Operand.Between.derives : {r : Operand} → {c d : Cursor} → r.Between .statement c d →
    r.issues = [] → {kinds : List TokenKind} → c.Shows kinds →
      ∃ rest, Derives .operand kinds rest ∧ d.Shows rest
  | .signed op _ _, _, _, ⟨_, hop, ho⟩, hi, kinds, hc => by
    rw [Operand.issues] at hi
    obtain ⟨kinds₁, rfl, h₁⟩ := hc.of_peek (UnaryOp.ofKind?_eq_some_iff.mp hop) (by simp)
    obtain ⟨rest, hoperand, h₂⟩ := Operand.Between.derives ho hi h₁
    exact ⟨rest, .signed op hoperand, h₂⟩
  | .bare _, _, _, ⟨_, hp⟩, hi, kinds, hc => by
    rw [Operand.issues] at hi
    exact Primary.Between.derives hp hi hc

/-- Without issues nothing was skipped, so an atom and its accessors stand there. -/
theorem Primary.Between.derives : {r : Primary} → {c d : Cursor} → r.Between .statement c d →
    r.issues = [] → {kinds : List TokenKind} → c.Shows kinds →
      ∃ rest, Derives .operand kinds rest ∧ d.Shows rest
  | .stray _ _, _, _, _, hi, _, _ => by
    rw [Primary.issues] at hi
    cases hi
  | .atom _ _, _, _, ⟨_, ha, hs⟩, hi, kinds, hc => by
    rw [Primary.issues, List.append_eq_nil_iff] at hi
    obtain ⟨kinds₁, hatom, h₁⟩ := Atom.Between.derives ha hi.1 hc
    obtain ⟨rest, hpostfixes, h₂⟩ := Accessors.Between.derives hs hi.2 h₁
    exact ⟨rest, .bare hatom hpostfixes, h₂⟩

/-- An atom derives as a primary expression. The missing operand is an issue. -/
theorem Atom.Between.derives : {r : Atom} → {c d : Cursor} → r.Between .statement c d →
    r.issues = [] → {kinds : List TokenKind} → c.Shows kinds →
      ∃ rest, Derives .primary kinds rest ∧ d.Shows rest
  | .number value _, c, _, ⟨hv, he⟩, _, kinds, hc => by
    have hk : (c.peek .statement).kind = .number value := by rw [hv]
    obtain ⟨rest, rfl, h⟩ := hc.of_peek hk (by simp)
    exact ⟨rest, .number value rest, he ▸ h⟩
  | .string value _, c, _, ⟨hv, he⟩, _, kinds, hc => by
    have hk : (c.peek .statement).kind = .string value := by rw [hv]
    obtain ⟨rest, rfl, h⟩ := hc.of_peek hk (by simp)
    exact ⟨rest, .string value rest, he ▸ h⟩
  | .name name _, c, _, ⟨hv, he⟩, _, kinds, hc => by
    have hk : (c.peek .statement).kind = .identifier name := by rw [hv]
    obtain ⟨rest, rfl, h⟩ := hc.of_peek hk (by simp)
    exact ⟨rest, .name name rest, he ▸ h⟩
  | .group _ _, _, _, ⟨_, hk, hr⟩, hi, kinds, hc => by
    rw [Atom.issues] at hi
    obtain ⟨kinds₁, rfl, h₁⟩ := hc.of_peek hk (by simp)
    obtain ⟨kinds₂, rest, hinner, hends, h₂⟩ := Chain.Between.derives hr hi h₁
    exact ⟨rest, .group hinner hends, h₂⟩
  | .array _ _, _, _, ⟨_, hk, hr⟩, hi, kinds, hc => by
    rw [Atom.issues] at hi
    obtain ⟨kinds₁, rfl, h₁⟩ := hc.of_peek hk (by simp)
    obtain ⟨rest, helems, h₂⟩ := Items.Between.derives hr hi h₁
    exact ⟨rest, .array helems, h₂⟩
  | .missing _, _, _, _, hi, _, _ => by
    rw [Atom.issues] at hi
    cases hi

/-- Accessors derive as postfixes. A dot without a name is an issue. -/
theorem Accessors.Between.derives : {r : Accessors} → {c d : Cursor} →
    r.Between .statement c d → r.issues = [] → {kinds : List TokenKind} → c.Shows kinds →
      ∃ rest, Derives .postfixes kinds rest ∧ d.Shows rest
  | .none, _, _, ⟨_, he⟩, _, kinds, hc => ⟨kinds, .noPostfix kinds, he ▸ hc⟩
  | .call optional _ _ _, _, _, ⟨_, hk, _, ha, hr⟩, hi, kinds, hc => by
    rw [Accessors.issues, List.append_eq_nil_iff] at hi
    obtain ⟨kinds₁, rfl, h₁⟩ := hc.of_peek (TokenKind.eq_symbol_of_accessor? hk) (by simp)
    obtain ⟨kinds₂, hargs, h₂⟩ := Items.Between.derives ha hi.1 h₁
    obtain ⟨rest, hrest, h₃⟩ := Accessors.Between.derives hr hi.2 h₂
    exact ⟨rest, .call optional hargs hrest, h₃⟩
  | .index optional _ _ _, _, _, ⟨_, hk, _, hn, hr⟩, hi, kinds, hc => by
    rw [Accessors.issues, List.append_eq_nil_iff] at hi
    obtain ⟨kinds₁, rfl, h₁⟩ := hc.of_peek (TokenKind.eq_symbol_of_accessor? hk) (by simp)
    obtain ⟨kinds₂, kinds₃, hinner, hends, h₂⟩ := Chain.Between.derives hn hi.1 h₁
    obtain ⟨rest, hrest, h₃⟩ := Accessors.Between.derives hr hi.2 h₂
    exact ⟨rest, .index optional hinner hends hrest, h₃⟩
  | .member optional _ _ _, _, _, ⟨_, hk, hf, hr⟩, hi, kinds, hc => by
    rw [Accessors.issues, List.append_eq_nil_iff, memberIssues_eq_nil_iff, hf] at hi
    obtain ⟨⟨name, hname⟩, hi⟩ := hi
    obtain ⟨kinds₁, rfl, h₁⟩ := hc.of_peek (TokenKind.eq_symbol_of_accessor? hk) (by simp)
    obtain ⟨kinds₂, rfl, h₂⟩ := h₁.of_peek hname (by simp)
    obtain ⟨rest, hrest, h₃⟩ := Accessors.Between.derives hr hi h₂
    exact ⟨rest, .member optional name hrest, h₃⟩

/-- Items derive as a sequence. -/
theorem Items.Between.derives : {r : Items} → {c d : Cursor} → r.Between .statement c d →
    r.issues = [] → {kinds : List TokenKind} → c.Shows kinds →
      ∃ rest, Derives .sequence kinds rest ∧ d.Shows rest
  | .last _, _, _, ⟨hr, hk⟩, hi, kinds, hc => by
    rw [Items.issues] at hi
    obtain ⟨kinds₁, rest, hitem, hends, h₁⟩ := Chain.Between.derives hr hi hc
    exact ⟨rest, .last hitem hends hk, h₁⟩
  | .more _ _, _, _, ⟨_, hr, hk, hs⟩, hi, kinds, hc => by
    rw [Items.issues, List.append_eq_nil_iff] at hi
    obtain ⟨kinds₁, kinds₂, hitem, hends, h₁⟩ := Chain.Between.derives hr hi.1 hc
    obtain ⟨rest, hrest, h₂⟩ := Items.Between.derives hs hi.2 h₁
    -- A terminator of this kind is a comma.
    rw [hk] at hends
    obtain rfl : kinds₁ = .symbol .comma :: kinds₂ := by
      cases hends with
      | @symbol s _ hs => cases s <;> first | rfl | cases hs
    exact ⟨rest, .separated hitem hrest, h₂⟩

end

namespace Cursor

variable {c d : Cursor} {kinds : List TokenKind}

/-- A flag is set exactly if its word is in front. -/
theorem Shows.accept (h : c.Shows kinds) (word : Keyword) :
    ∃ kinds', kinds = flag (c.accept word).1 word ++ kinds' ∧ (c.accept word).2.Shows kinds' := by
  unfold Cursor.accept
  split
  · rename_i hk
    obtain ⟨kinds', rfl, h'⟩ := h.of_peek hk (by simp)
    exact ⟨kinds', rfl, h'⟩
  · exact ⟨kinds, rfl, h⟩

/-- A name that is read without issue is the next token. -/
theorem Shows.readName (h : c.Shows kinds) {place : NamePlace} {i : Identifier}
    (hr : c.readName place = (.ok i, d)) :
    ∃ kinds', kinds = .identifier i.name :: kinds' ∧ d.Shows kinds' := by
  obtain ⟨hpeek, rfl⟩ := Cursor.readName_eq_ok hr
  exact h.of_peek (by rw [hpeek]) (by simp)

/-- Names with commas between them are in front, and a closing parenthesis. -/
theorem Shows.readNames {finish : Span} {ahead : List Token} {position : Nat}
    (h : Shows ⟨ahead, finish, position⟩ kinds) {names : List Identifier} {close : Span}
    (hr : Cursor.readNames finish ahead position = (.ok (names, close), d)) :
    names ≠ [] ∧ ∃ rest, kinds = commas (names.map fun p => [.identifier p.name])
      ++ .symbol .closeParen :: rest ∧ d.Shows rest := by
  -- The first two tokens of each turn, in the stream.
  have first : ∀ {t : Token} {rest : List Token} {position : Nat} {k : TokenKind}
      {kinds : List TokenKind}, Shows ⟨t :: rest, finish, position⟩ kinds → t.kind = k → k ≠ .eof →
      ∃ kinds', kinds = k :: kinds' ∧ Shows ⟨rest, finish, position + 1⟩ kinds' :=
    fun h hk hne => h.of_peek (s := .stream) hk hne
  -- The names are read in the third case, with a comma behind the name, and in the fifth one, with
  -- the parenthesis behind it. In the others there is an issue.
  fun_induction Cursor.readNames finish ahead position generalizing kinds names close d with
  | case1 => cases hr
  | case2 => cases hr
  | case3 t position name hk u rest hu names' close' d' hd ih =>
    cases hr
    obtain ⟨kinds₁, rfl, h₁⟩ := first h hk (by simp)
    obtain ⟨kinds₂, rfl, h₂⟩ := first h₁ hu (by simp)
    obtain ⟨hne, rest, rfl, hrest⟩ := ih h₂ hd
    refine ⟨List.cons_ne_nil _ _, rest, ?_, hrest⟩
    obtain ⟨n, ns, rfl⟩ := List.exists_cons_of_ne_nil hne
    simp only [List.map_cons, commas_cons_cons]
    rfl
  | case4 => cases hr
  | case5 t position name hk u rest hu =>
    cases hr
    obtain ⟨kinds₁, rfl, h₁⟩ := first h hk (by simp)
    obtain ⟨kinds₂, rfl, h₂⟩ := first h₁ hu (by simp)
    refine ⟨List.cons_ne_nil _ _, kinds₂, ?_, h₂⟩
    rw [List.map_singleton, commas_singleton]
    rfl
  | case6 => cases hr
  | case7 => cases hr

/-- Parameters that are read without issue are names with commas between them, and a closing
parenthesis. -/
theorem Shows.readParams (h : c.Shows kinds) {names : List Identifier} {close : Span}
    (hr : c.readParams = (.ok (names, close), d)) :
    ∃ rest, kinds = commas (names.map fun p => [.identifier p.name])
      ++ .symbol .closeParen :: rest ∧ d.Shows rest := by
  simp only [Cursor.readParams] at hr
  split at hr
  · rename_i hk
    cases hr
    exact h.of_peek hk (by simp)
  · exact (Shows.readNames h hr).2

end Cursor

namespace DeclClause

variable {head : DeclHead} {c d : Cursor} {r : DeclClause} {kinds : List TokenKind}

/-- A variable behind its reserved word. -/
theorem derives_readBinding {b : Binding} (hr : readBinding head b c = (.ok r, d))
    (hi : r.issues = []) (hc : c.Shows kinds) :
    ∃ rest, Derives .statement
        (flag head.exported .exporting ++ (flag head.declared .declaring
          ++ .keyword b.keyword :: kinds)) rest ∧ d.Shows rest := by
  cases readsBinding hr with
  | @declared name _ hname hdecl =>
    obtain ⟨kinds₁, rfl, h₁⟩ := hc.readName hname
    rw [hdecl]
    exact ⟨kinds₁, .declared head.exported b name.name kinds₁, h₁⟩
  | @initialized name e hname hdecl hequals =>
    obtain ⟨kinds₁, rfl, h₁⟩ := hc.readName hname
    obtain ⟨kinds₂, rfl, h₂⟩ := h₁.of_peek hequals (by simp)
    have hbetween := Chain.between_read .statement (e.advance .stream)
    obtain ⟨kinds₃, rest, hinit, hends, hd⟩ := hbetween.derives hi h₂
    rw [hdecl]
    exact ⟨rest, .initialized head.exported b name.name hinit hends, hd⟩

/-- A function behind its reserved word. -/
theorem derives_readFunction (hr : readFunction head c = (.ok r, d)) (hc : c.Shows kinds) :
    ∃ rest, Derives .statement
        (flag head.exported .exporting ++ (flag head.declared .declaring
          ++ .keyword .fn :: kinds)) rest ∧ d.Shows rest := by
  cases readsFunction hr with
  | @bare name _ hname =>
    obtain ⟨kinds₁, rfl, h₁⟩ := hc.readName hname
    exact ⟨kinds₁, .function head.exported head.declared name.name kinds₁, h₁⟩
  | @listed name _ params _ _ hname hopen hparams =>
    obtain ⟨kinds₁, rfl, h₁⟩ := hc.readName hname
    obtain ⟨kinds₂, rfl, h₂⟩ := h₁.of_peek hopen (by simp)
    obtain ⟨rest, rfl, hd⟩ := h₂.readParams hparams
    refine ⟨rest, ?_, hd⟩
    have h := Derives.functionOf head.exported head.declared name.name
      (params.map Identifier.name) rest
    rwa [List.map_map] at h

/-- A declaration that is read without issues derives. -/
theorem derives_read (hr : read c = (.ok r, d)) (hi : r.issues = []) (hc : c.Shows kinds) :
    ∃ rest, Derives .statement kinds rest ∧ d.Shows rest := by
  obtain ⟨kinds₁, rfl, h₁⟩ := hc.accept .exporting
  obtain ⟨kinds₂, rfl, h₂⟩ := h₁.accept .declaring
  cases reads hr with
  | binding _ hword h =>
    obtain ⟨kinds₃, rfl, h₃⟩ := h₂.of_peek hword (by simp)
    exact derives_readBinding h hi h₃
  | function hword h =>
    obtain ⟨kinds₃, rfl, h₃⟩ := h₂.of_peek hword (by simp)
    exact derives_readFunction h h₃

end DeclClause

/-- A statement that is read without issues derives. -/
theorem Clause.derives_read {c d : Cursor} {r : Clause} (hr : read c = (.ok r, d))
    (hi : r.issues = []) {kinds : List TokenKind} (hc : c.Shows kinds) :
    ∃ rest, Derives .statement kinds rest ∧ d.Shows rest := by
  cases reads hr with
  | ret hword =>
    obtain ⟨kinds₁, rfl, h₁⟩ := hc.of_peek hword (by simp)
    exact ⟨kinds₁, .returning kinds₁, h₁⟩
  | retOf hword =>
    obtain ⟨kinds₁, rfl, h₁⟩ := hc.of_peek hword (by simp)
    have hbetween := Chain.between_read .statement (c.advance .stream)
    obtain ⟨kinds₂, rest, harg, hends, hd⟩ := hbetween.derives hi h₁
    exact ⟨rest, .returningOf harg hends, hd⟩
  | decl _ _ h => exact DeclClause.derives_read h hi hc

/-- An attempt without issues is a statement. -/
theorem Attempt.derives_readOne {c : Cursor} (hi : (readOne c).1.issues = [])
    {kinds : List TokenKind} (hc : c.Shows kinds) :
    ∃ rest, Derives .statement kinds rest ∧ (readOne c).2.Shows rest := by
  rcases hone : readOne c with ⟨attempt, d⟩
  rw [hone] at hi
  cases readsOne hone with
  | read h => exact Clause.derives_read h hi hc
  -- A failed attempt has its issue.
  | failed => cases hi

/-- Attempts without issues are statements, up to the end of the stream. -/
theorem Attempt.derives_readUpTo {fuel : Nat} {c : Cursor} (hf : c.remaining ≤ fuel)
    (hi : (readUpTo fuel c).1.flatMap issues = []) {kinds : List TokenKind} (hc : c.Shows kinds) :
    Derives .program kinds [.eof] := by
  induction fuel generalizing c kinds with
  | zero =>
    rcases hc.exists_cons with ⟨-, rfl⟩ | ⟨t, rest, kinds', hahead, -⟩
    · exact .done _
    · rw [hahead] at hf
      cases hf
  | succ fuel ih =>
    rcases hc.exists_cons with ⟨-, rfl⟩ | ⟨t, rest, kinds', hahead, rfl, hne, -⟩
    · exact .done _
    · have hpeek : (c.peek .stream).kind ≠ .eof := by
        rw [hahead]
        exact hne
      rw [readUpTo, if_neg hpeek, List.flatMap_cons, List.append_eq_nil_iff] at hi
      obtain ⟨kinds₁, hfirst, h₁⟩ := derives_readOne hi.1 hc
      have hlt := remaining_readOne_lt hpeek
      exact .more hfirst (ih (by omega) hi.2 h₁)

end ExprFrontEnd
