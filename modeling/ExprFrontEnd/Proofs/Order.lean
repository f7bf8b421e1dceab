import ExprFrontEnd.Proofs.Tokens
import Mathlib.Data.List.Chain

/-!
# `ExprFrontEnd.Proofs.Order`: tokens in the order of the source

The tokens of a source text do not overlap, and none of them stands in front
of the one before it. `Token.InOrder` says so of a stream, by what two
neighbours have to do with each other; `Token.Ordered` says so of any two
tokens of a row.

* `Cursor.Takes.ordered`: in a stream that is in order, the tokens that are
  taken one after the other are ordered, with the ends that are taken again
  and again among them. An end is empty, hence in order with itself.
-/

set_option autoImplicit false

namespace ExprFrontEnd

/-! ### Rows of tokens -/

/-- Every token of a stream starts before it stops, and stops before the next
one starts. If the last one is an end of input, it is empty. -/
structure Token.InOrder (tokens : List Token) : Prop where
  le : ∀ t ∈ tokens, t.span.start ≤ t.span.stop
  next : tokens.IsChain fun t u => t.span.stop ≤ u.span.start
  finish : ∀ t ∈ tokens.getLast?, t.kind = .eof → t.span.start = t.span.stop

/-- Every token of a row starts before it stops, and stops before any later
one starts. -/
structure Token.Ordered (ts : List Token) : Prop where
  le : ∀ t ∈ ts, t.span.start ≤ t.span.stop
  before : ts.Pairwise fun t u => t.span.stop ≤ u.span.start

namespace Token

/-- Tokens are in order in two parts and from one part to the other. -/
theorem ordered_append {ts us : List Token} :
    Ordered (ts ++ us) ↔ Ordered ts ∧ Ordered us ∧
      ∀ t ∈ ts, ∀ u ∈ us, t.span.stop ≤ u.span.start := by
  constructor
  · rintro ⟨hle, hpw⟩
    obtain ⟨hts, hus, hcross⟩ := List.pairwise_append.mp hpw
    exact ⟨⟨fun t ht => hle t (List.mem_append_left _ ht), hts⟩,
      ⟨fun t ht => hle t (List.mem_append_right _ ht), hus⟩, hcross⟩
  · rintro ⟨⟨hlet, hts⟩, ⟨hleu, hus⟩, hcross⟩
    refine ⟨fun t ht => ?_, List.pairwise_append.mpr ⟨hts, hus, hcross⟩⟩
    rcases List.mem_append.mp ht with ht | ht
    · exact hlet t ht
    · exact hleu t ht

/-- The first token is in front of all others. -/
theorem ordered_cons {t : Token} {ts : List Token} :
    Ordered (t :: ts) ↔ t.span.start ≤ t.span.stop ∧ Ordered ts ∧
      ∀ u ∈ ts, t.span.stop ≤ u.span.start := by
  constructor
  · rintro ⟨hle, hpw⟩
    obtain ⟨hbefore, hts⟩ := List.pairwise_cons.mp hpw
    exact ⟨hle t List.mem_cons_self, ⟨fun u hu => hle u (List.mem_cons_of_mem _ hu), hts⟩, hbefore⟩
  · rintro ⟨hle, ⟨hles, hts⟩, hbefore⟩
    exact ⟨List.forall_mem_cons.mpr ⟨hle, hles⟩, List.pairwise_cons.mpr ⟨hbefore, hts⟩⟩

/-- Neighbours in order put all tokens in order, since none of them stops
before it starts. -/
theorem ordered_of_isChain {ts : List Token} (hle : ∀ t ∈ ts, t.span.start ≤ t.span.stop)
    (h : ts.IsChain fun t u => t.span.stop ≤ u.span.start) : Ordered ts := by
  induction ts with
  | nil => exact ⟨hle, .nil⟩
  | cons t ts ih =>
    obtain ⟨ht, hles⟩ := List.forall_mem_cons.mp hle
    have hts := ih hles h.of_cons
    refine ordered_cons.mpr ⟨ht, hts, ?_⟩
    cases ts with
    | nil => exact List.forall_mem_nil _
    | cons u ts =>
      have htu : t.span.stop ≤ u.span.start := (List.isChain_cons_cons.mp h).1
      obtain ⟨hu, -, hbefore⟩ := ordered_cons.mp hts
      -- The second token does not stop before it starts, so what is behind it is behind the first.
      refine List.forall_mem_cons.mpr ⟨htu, fun v hv => ?_⟩
      have huv := hbefore v hv
      omega

end Token

/-! ### Streams -/

namespace Cursor

/-- The tokens ahead are ordered, and behind them is the final end of input,
which is empty. -/
structure InOrder (c : Cursor) : Prop where
  ahead : Token.Ordered c.ahead
  finish : ∀ t ∈ c.ahead, t.span.stop ≤ c.finish.start
  empty : c.finish.start = c.finish.stop

/-- The start of a stream that is in order. -/
theorem inOrder_ofTokens {tokens : List Token} (h : Token.InOrder tokens) :
    (ofTokens tokens).InOrder := by
  have hord := Token.ordered_of_isChain h.le h.next
  unfold ofTokens
  split
  · exact ⟨⟨List.forall_mem_nil _, .nil⟩, List.forall_mem_nil _, rfl⟩
  · rename_i last hlast
    obtain ⟨front, rfl⟩ := List.getLast?_eq_some_iff.mp hlast
    obtain ⟨hfront, -, hcross⟩ := Token.ordered_append.mp hord
    have hbefore : ∀ t ∈ front, t.span.stop ≤ last.span.start :=
      fun t ht => hcross t ht last (List.mem_singleton_self last)
    split
    · rename_i hk
      rw [List.dropLast_concat]
      exact ⟨hfront, hbefore, h.finish last hlast hk⟩
    · refine ⟨hord, fun t ht => ?_, rfl⟩
      -- The added end is right behind the last token.
      show t.span.stop ≤ last.span.stop
      rcases List.mem_append.mp ht with ht | ht
      · have hle := h.le last (List.mem_append_right _ (List.mem_singleton_self last))
        exact Nat.le_trans (hbefore t ht) hle
      · rw [List.mem_singleton.mp ht]

/-- What is ahead further on is a suffix of what was ahead, and in the same order. -/
theorem InOrder.reaches {c d : Cursor} (h : c.InOrder) (hd : c.Reaches d) : d.InOrder := by
  obtain ⟨ts, hts, -⟩ := hd.passed
  have hord := h.ahead
  rw [hts] at hord
  refine ⟨(Token.ordered_append.mp hord).2.1, ?_, ?_⟩
  · rw [hd.finish]
    exact fun t ht => h.finish t (hd.mem_ahead ht)
  · rw [hd.finish]
    exact h.empty

/-- What is taken is not in front of what is ahead. -/
theorem Takes.le_start {s : Scope} {ts : List Token} {c e : Cursor} (h : Takes s ts c e) {n : Nat}
    (hahead : ∀ t ∈ c.ahead, n ≤ t.span.start) (hfinish : n ≤ c.finish.start) :
    ∀ t ∈ ts, n ≤ t.span.start := by
  induction ts generalizing c with
  | nil => exact List.forall_mem_nil _
  | cons t ts ih =>
    obtain ⟨rfl, hts⟩ := h
    -- An end that a scope makes up is where the token ahead starts.
    have hpeek : n ≤ (c.peek s).span.start := by
      unfold peek
      split
      · exact hfinish
      · rename_i t rest hc
        have ht : n ≤ t.span.start := hahead t (hc ▸ List.mem_cons_self)
        split
        · exact ht
        · exact ht
    have hadv := reaches_advance s c
    refine List.forall_mem_cons.mpr ⟨hpeek, ih hts (fun u hu => hahead u (hadv.mem_ahead hu)) ?_⟩
    rw [hadv.finish]
    exact hfinish

/-- The token at a cursor is in front of all that is ahead of the next one. -/
theorem InOrder.peek {c : Cursor} (h : c.InOrder) (s : Scope) :
    (c.peek s).span.start ≤ (c.peek s).span.stop ∧
      (∀ t ∈ (c.advance s).ahead, (c.peek s).span.stop ≤ t.span.start) ∧
      (c.peek s).span.stop ≤ (c.advance s).finish.start := by
  obtain ⟨ahead, finish, position⟩ := c
  have hempty : finish.start = finish.stop := h.empty
  cases ahead with
  | nil => exact ⟨Nat.le_of_eq hempty, List.forall_mem_nil _, Nat.le_of_eq hempty.symm⟩
  | cons t rest =>
    obtain ⟨hle, -, hbefore⟩ := Token.ordered_cons.mp h.ahead
    have hfinish : t.span.stop ≤ finish.start := h.finish t List.mem_cons_self
    simp only [Cursor.peek, advance]
    split
    · -- The empty end in front of a barred token, which stays ahead.
      show t.span.start ≤ t.span.start ∧ (∀ u ∈ t :: rest, t.span.start ≤ u.span.start) ∧
        t.span.start ≤ finish.start
      refine ⟨Nat.le_refl _, List.forall_mem_cons.mpr ⟨Nat.le_refl _, fun u hu => ?_⟩, by omega⟩
      exact Nat.le_trans hle (hbefore u hu)
    · exact ⟨hle, hbefore, hfinish⟩

/-- Tokens that are taken from a stream in order are ordered. -/
theorem Takes.ordered {s : Scope} {ts : List Token} {c e : Cursor} (h : Takes s ts c e)
    (hc : c.InOrder) : Token.Ordered ts := by
  induction ts generalizing c with
  | nil => exact ⟨List.forall_mem_nil _, .nil⟩
  | cons t ts ih =>
    obtain ⟨rfl, hts⟩ := h
    -- What is taken next is ahead or an end, and neither is in front of the stop of this token.
    obtain ⟨hle, hahead, hfinish⟩ := hc.peek s
    exact Token.ordered_cons.mpr
      ⟨hle, ih hts (hc.reaches (reaches_advance s c)), hts.le_start hahead hfinish⟩

end Cursor

end ExprFrontEnd
