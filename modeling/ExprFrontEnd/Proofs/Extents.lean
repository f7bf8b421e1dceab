import ExprFrontEnd.Proofs.Printing
import ExprFrontEnd.Proofs.Within
import ExprFrontEnd.Source

/-!
# `ExprFrontEnd.Proofs.Extents`: where statements start and stop

A statement starts at its first reserved word. Where it stops depends on what
it is: at a name, at a closing parenthesis, behind the tree of an expression, or
at its only word. An expression may take tokens that are not in the span of its
tree, and a statement that fails leaves none. Still, the statements of a source
text stand one behind the other, and so do the parts of a statement.

* `Span.InRow`: spans between two places, one behind the other. The parts of a
  statement are such a row in its span, and the statements are one in the text.
* `Cursor.Takes.bounds`: what is taken between two cursors stands between their
  places. All ends of statements come down to this.
* `Chain.bounds_toExpr`: so does the tree of an expression, whatever is wrong
  with it, since it runs over the tokens that are taken for it.
* `Attempt.laid_readOne`: what one attempt leaves stands between the cursor in
  front of it and the one behind it, where the next attempt starts.
* `laid_parseProgram`: hence all statements of a source text are in a row.
-/

set_option autoImplicit false

namespace ExprFrontEnd

/-! ### Rows of spans -/

/-- Spans between two places, each of them behind the one before it. -/
structure Span.InRow (lo hi : Nat) (spans : List Span) : Prop where
  within : ∀ sp ∈ spans, lo ≤ sp.start ∧ sp.start ≤ sp.stop ∧ sp.stop ≤ hi
  ordered : spans.Pairwise fun a b => a.stop ≤ b.start

namespace Span.InRow

variable {lo mid hi : Nat} {sp : Span} {spans others : List Span}

/-- No spans at all are in a row. -/
theorem nil : InRow lo hi [] := ⟨by simp, .nil⟩

/-- Two rows, one behind the other. -/
theorem append (h : InRow lo mid spans) (h' : InRow mid hi others) (hlo : lo ≤ mid)
    (hhi : mid ≤ hi) : InRow lo hi (spans ++ others) := by
  refine ⟨fun sp hsp => ?_, List.pairwise_append.mpr ⟨h.ordered, h'.ordered, ?_⟩⟩
  · rcases List.mem_append.mp hsp with hsp | hsp
    · have := h.within sp hsp
      omega
    · have := h'.within sp hsp
      omega
  · intro a ha b hb
    have := h.within a ha
    have := h'.within b hb
    omega

/-- One span is in a row between two places if it is between them. -/
theorem singleton (hlo : lo ≤ sp.start) (hle : sp.start ≤ sp.stop) (hhi : sp.stop ≤ hi) :
    InRow lo hi [sp] :=
  ⟨by simp [hlo, hle, hhi], by simp⟩

/-- The same row between places that are further apart. -/
theorem widen {lo' hi' : Nat} (h : InRow lo hi spans) (hlo : lo' ≤ lo) (hhi : hi ≤ hi') :
    InRow lo' hi' spans := by
  refine ⟨fun sp hsp => ?_, h.ordered⟩
  have := h.within sp hsp
  omega

end Span.InRow

/-! ### Tokens between two cursors -/

namespace Cursor

/-- The token at a cursor stands between the place of the cursor and the next
one. -/
theorem InText.bounds_peek {c : Cursor} (hc : c.InText) (s : Scope) :
    c.offset ≤ (c.peek s).span.start ∧ (c.peek s).span.start ≤ (c.peek s).span.stop ∧
      (c.peek s).span.stop ≤ (c.advance s).offset := by
  obtain ⟨hle, hahead, hfinish⟩ := hc.inOrder.peek s
  refine ⟨(start_peek s c).ge, hle, ?_⟩
  -- The next offset is where the next token starts, or where the text ends.
  cases hd : (c.advance s).ahead with
  | nil =>
    have hoffset : (c.advance s).offset = (c.advance s).finish.start := by
      rw [offset, Cursor.peek, hd]
      rfl
    omega
  | cons t rest =>
    have hoffset : (c.advance s).offset = t.span.start := by
      rw [offset, Cursor.peek, hd]
      rfl
    have := hahead t (by simp [hd])
    omega

section
variable {s : Scope} {ts : List Token} {c e : Cursor}

/-- What is taken between two cursors stands between their places. -/
theorem Takes.bounds (h : Takes s ts c e) (hc : c.InText) :
    ∀ t ∈ ts, c.offset ≤ t.span.start ∧ t.span.start ≤ t.span.stop ∧ t.span.stop ≤ e.offset := by
  induction ts generalizing c with
  | nil => simp
  | cons t ts ih =>
    obtain ⟨rfl, hts⟩ := h
    have hpeek := hc.bounds_peek s
    have hfront := hc.offset_le (reaches_advance s c)
    have hbehind := (hc.advance s).offset_le hts.reaches
    intro u hu
    rcases List.mem_cons.mp hu with rfl | hu
    · omega
    · have := ih hts (hc.advance s) u hu
      omega

/-- Tokens that are taken and are no ends are passed. -/
theorem Takes.ahead_eq (h : Takes s ts c e) (hne : ∀ t ∈ ts, t.kind ≠ .eof) :
    c.ahead = ts ++ e.ahead := by
  obtain ⟨ends, htake, hends⟩ := h.exists_eq_take_append
  have hnil : ends = [] := by
    refine List.eq_nil_iff_forall_not_mem.mpr fun t ht => ?_
    exact hne t (by simp [htake, ht]) (hends t ht)
  rw [htake, hnil, List.append_nil]
  exact h.reaches.take_append.symm

end

/-- A flag that is set takes its reserved word. -/
theorem takes_accept (word : Keyword) (c : Cursor) :
    ∃ ts, Takes .stream ts c (c.accept word).2 ∧
      ts.map Token.kind = flag (c.accept word).1 word := by
  unfold accept
  split
  · rename_i hk
    exact ⟨[c.peek .stream], ⟨rfl, rfl⟩, by simp [hk, flag]⟩
  · exact ⟨[], rfl, rfl⟩

end Cursor

/-- The tree of an expression stands between the cursor where it is read and the
one behind it. -/
theorem Chain.bounds_toExpr (s : Scope) (mode : Reduction) {c : Cursor} (hc : c.InText) :
    let span := ((read s c).1.toExpr mode).span
    c.offset ≤ span.start ∧ span.start ≤ span.stop ∧ span.stop ≤ (read s c).2.offset := by
  intro span
  have hr := between_read s c
  have hbody := (Token.ordered_append.mp (hr.takes.ordered hc.inOrder)).1
  have hsits : ((read s c).1.toExpr mode).Sits s mode c (read s c).1.body :=
    hr.sits (.refl s c) hbody
  have hruns : span.RunsOver (read s c).1.body := hsits.runs
  -- The terminator is taken as well, but the tree does not run over it.
  have hbounds : ∀ t ∈ (read s c).1.body,
      c.offset ≤ t.span.start ∧ t.span.start ≤ t.span.stop ∧ t.span.stop ≤ (read s c).2.offset :=
    fun t ht => hr.takes.bounds hc t (by simp [ht])
  exact ⟨hruns.le_start fun t ht => (hbounds t ht).1, hruns.le,
    hruns.stop_le fun t ht => (hbounds t ht).2.2⟩

/-! ### Names in parentheses -/

namespace Cursor

/-- A name that is read is the next token, between the cursor and the one behind it. -/
theorem InText.bounds_readName {c d : Cursor} (hc : c.InText) {place : NamePlace}
    {name : Identifier} (h : c.readName place = (.ok name, d)) :
    (c.peek .stream).kind = .identifier name.name ∧ c.offset ≤ name.span.start ∧
      name.span.start ≤ name.span.stop ∧ name.span.stop ≤ d.offset := by
  obtain ⟨hpeek, rfl⟩ := readName_eq_ok h
  have hbounds := hc.bounds_peek .stream
  rw [hpeek] at hbounds
  exact ⟨by rw [hpeek], hbounds⟩

/-- Names stand one behind the other in front of the closing parenthesis. -/
theorem bounds_readNames (finish : Span) (ahead : List Token) (position : Nat)
    (hc : InText ⟨ahead, finish, position⟩) {names : List Identifier} {close : Span} {d : Cursor}
    (h : readNames finish ahead position = (.ok (names, close), d)) :
    Span.InRow (offset ⟨ahead, finish, position⟩) close.start (names.map Identifier.span) ∧
      offset ⟨ahead, finish, position⟩ ≤ close.start ∧ close.start ≤ close.stop ∧
      close.stop ≤ d.offset := by
  fun_induction readNames finish ahead position generalizing names close d with
  | case1 | case2 | case4 | case6 | case7 => cases h
  | case3 t position name hk u rest hu names' close' d' hd ih =>
    cases h
    -- A name and a comma are taken, and the other names are behind them.
    have htakes : Takes .stream [t, u] ⟨t :: u :: rest, finish, position⟩
        ⟨rest, finish, position + 2⟩ := ⟨rfl, rfl, rfl⟩
    obtain ⟨hrow, hle, hclose⟩ := ih (hc.reaches htakes.reaches) hd
    have ht := htakes.bounds hc t (by simp)
    exact ⟨(Span.InRow.singleton ht.1 ht.2.1 ht.2.2).append hrow (by omega) hle, by omega, hclose⟩
  | case5 t position name hk u rest hu =>
    cases h
    have htakes : Takes .stream [t, u] ⟨t :: u :: rest, finish, position⟩
        ⟨rest, finish, position + 2⟩ := ⟨rfl, rfl, rfl⟩
    have hord := htakes.ordered hc.inOrder
    have ht := htakes.bounds hc t (by simp)
    have hu := htakes.bounds hc u (by simp)
    have hbefore := (Token.ordered_cons.mp hord).2.2 u (by simp)
    exact ⟨.singleton ht.1 ht.2.1 hbefore, by omega, hu.2.1, hu.2.2⟩

/-- The names of parameters stand in a row in front of the closing parenthesis. -/
theorem bounds_readParams {c d : Cursor} (hc : c.InText) {names : List Identifier} {close : Span}
    (h : c.readParams = (.ok (names, close), d)) :
    Span.InRow c.offset close.start (names.map Identifier.span) ∧
      c.offset ≤ close.start ∧ close.start ≤ close.stop ∧ close.stop ≤ d.offset := by
  simp only [readParams] at h
  split at h
  · cases h
    exact ⟨.nil, hc.bounds_peek .stream⟩
  · exact bounds_readNames c.finish c.ahead c.position hc h

end Cursor

/-! ### Statements -/

/-- The kinds of the tokens up to the name of what is declared. -/
def DeclKind.head : DeclKind → List TokenKind
  | .binding b name _ => [.keyword b.keyword, .identifier name.name]
  | .function name _ => [.keyword .fn, .identifier name.name]

/-- The kinds of the tokens up to the name of a declaration. -/
def Decl.head (d : Decl) : List TokenKind :=
  flag d.exported .exporting ++ (flag d.declared .declaring ++ d.kind.head)

/-- The kinds of the tokens that a statement starts with: its reserved words, and
the name of a declaration. -/
def Stmt.head : Stmt → List TokenKind
  | .decl d _ => d.head
  | .ret _ _ => [.keyword .returning]

/-- Where the parts of a declaration are. -/
def DeclKind.parts : DeclKind → List Span
  | .binding _ name init => name.span :: init.toList.map Expr.span
  | .function name params => name.span :: params.map Identifier.span

/-- Where the parts of a statement are: the name and the initializer or the
parameters of a declaration, and what is returned. -/
def Stmt.parts : Stmt → List Span
  | .decl d _ => d.kind.parts
  | .ret arg _ => arg.toList.map Expr.span

/-- A declaration of a variable has an initializer unless it is only declared to
exist. -/
def Decl.InitializedUnlessDeclared (d : Decl) : Prop :=
  match d.kind with
  | .binding _ _ init => init.isSome = true ↔ d.declared = false
  | .function _ _ => True

/-- A statement in a row of tokens. -/
structure Stmt.Laid (tokens : List Token) (st : Stmt) : Prop where
  /-- It starts where the first of its reserved words starts. -/
  head : ∃ (front rest words : List Token) (word : Token),
    tokens = front ++ (word :: words ++ rest) ∧
      (word :: words).map Token.kind = st.head ∧ st.span.start = word.span.start
  /-- Its parts are in its span, one behind the other. -/
  parts : Span.InRow st.span.start st.span.stop st.parts
  /-- It is where its declaration is. -/
  decl : ∀ (d : Decl) (span : Span), st = .decl d span →
    span = d.span ∧ d.InitializedUnlessDeclared

/-- A statement that lies in a list of tokens also lies in one with more in front or behind. -/
theorem Stmt.Laid.append {tokens : List Token} {st : Stmt} (h : st.Laid tokens)
    (front rest : List Token) : st.Laid (front ++ (tokens ++ rest)) := by
  obtain ⟨⟨front', rest', words, word, rfl, hhead⟩, hparts, hdecl⟩ := h
  exact ⟨⟨front ++ front', rest' ++ rest, words, word, by simp, hhead⟩, hparts, hdecl⟩

/-- What lies further on lies ahead. -/
theorem Stmt.Laid.reaches {c d : Cursor} {st : Stmt} (h : st.Laid d.ahead) (hd : c.Reaches d) :
    st.Laid c.ahead := by
  obtain ⟨ts, hts, -⟩ := hd.passed
  have := h.append ts []
  rwa [List.append_nil, ← hts] at this

/-- No end of input is among the tokens that a declaration starts with. -/
theorem Decl.ne_eof_of_mem_head {d : Decl} {kind : TokenKind} (h : kind ∈ d.head) :
    kind ≠ .eof := by
  rintro rfl
  obtain ⟨kind, exported, declared, span⟩ := d
  cases kind <;> cases exported <;> cases declared <;> simp [head, DeclKind.head, flag] at h

/-- A declaration whose own reserved word is in front of the first cursor and
that ends in front of the second one. It runs from its head to the last of its
parts or to a closing parenthesis. -/
structure Decl.Follows (head : DeclHead) (word : Keyword) (c e : Cursor) (d : Decl) : Prop where
  exported : d.exported = head.exported
  declared : d.declared = head.declared
  words : d.kind.head = [.keyword word, (c.peek .stream).kind]
  span : ∃ last : Span, d.span = head.start.merge last ∧ c.offset ≤ last.start ∧
    last.start ≤ last.stop ∧ last.stop ≤ e.offset ∧
    Span.InRow c.offset last.stop d.kind.parts
  initialized : d.InitializedUnlessDeclared

/-- Behind its flags and its own reserved word, a declaration makes a statement
that starts at the first of these words. -/
theorem Decl.Follows.laid {head : DeclHead} {word : Keyword} {c e f : Cursor} {d : Decl}
    {flags : List Token} (h : d.Follows head word (e.advance .stream) f) (hc : c.InText)
    (hstart : head.start = (c.peek .stream).span) (hflags : Cursor.Takes .stream flags c e)
    (hkinds : flags.map Token.kind
      = flag head.exported .exporting ++ flag head.declared .declaring)
    (hword : (e.peek .stream).kind = .keyword word) :
    (Stmt.decl d d.span).Laid c.ahead ∧ Span.InRow c.offset f.offset [d.span] := by
  obtain ⟨last, hspan, hlo, hle, hhi, hparts⟩ := h.span
  have hwords : Cursor.Takes .stream (flags ++ [e.peek .stream]) c (e.advance .stream) :=
    Cursor.takes_append.mpr ⟨e, hflags, rfl, rfl⟩
  obtain ⟨first, others, hcons⟩ :=
    List.exists_cons_of_ne_nil (List.append_ne_nil_of_right_ne_nil flags (by simp :
      [e.peek .stream] ≠ []))
  rw [hcons] at hwords
  obtain rfl : first = c.peek .stream := hwords.1
  -- The first word is in front of the name, and so of the last part.
  have hfirst := hwords.bounds hc _ List.mem_cons_self
  have hmerge : d.span = ⟨c.offset, last.stop⟩ := by
    rw [hspan, hstart, Span.merge_of_le hfirst.2.1 (by omega) hle, Cursor.start_peek]
  have hhead : (c.peek .stream :: (others ++ [(e.advance .stream).peek .stream])).map Token.kind
      = d.head := by
    rw [← List.cons_append, ← hcons]
    simp [Decl.head, h.exported, h.declared, h.words, hkinds, hword]
  have hname : Cursor.Takes .stream
      (c.peek .stream :: (others ++ [(e.advance .stream).peek .stream])) c
      ((e.advance .stream).advance .stream) := by
    rw [← List.cons_append]
    exact Cursor.takes_append.mpr ⟨_, hwords, rfl, rfl⟩
  have hahead := hname.ahead_eq fun t ht => Decl.ne_eof_of_mem_head (d := d) (by
    rw [← hhead]
    exact List.mem_map_of_mem ht)
  have hbehind : c.offset ≤ (e.advance .stream).offset := by omega
  have hto : c.offset ≤ last.stop := by omega
  refine ⟨⟨⟨[], _, _, _, hahead, hhead, ?_⟩, ?_, ?_⟩, ?_⟩
  · show d.span.start = _
    rw [hmerge, Cursor.start_peek]
  · show Span.InRow d.span.start d.span.stop d.kind.parts
    rw [hmerge]
    exact hparts.widen hbehind (Nat.le_refl _)
  · rintro _ _ ⟨⟩
    exact ⟨rfl, h.initialized⟩
  · rw [hmerge]
    exact .singleton (Nat.le_refl _) hto hhi

section
variable (mode : Reduction) {c d : Cursor}

namespace DeclClause

variable {head : DeclHead} {r : DeclClause}

/-- A variable follows its reserved word and ends with its name or its initializer. -/
theorem follows_readBinding {binding : Binding} (hc : c.InText)
    (h : readBinding head binding c = (.ok r, d)) :
    (r.toDecl mode).Follows head binding.keyword c d := by
  cases readsBinding h with
  | @declared name _ hname hdeclared =>
    obtain ⟨hkind, hlo, hle, hhi⟩ := hc.bounds_readName hname
    have hrow := Span.InRow.singleton hlo hle (Nat.le_refl _)
    exact ⟨rfl, rfl, by rw [hkind]; rfl, ⟨name.span, rfl, hlo, hle, hhi, hrow⟩,
      by simp [Decl.InitializedUnlessDeclared, toDecl, hdeclared]⟩
  | @initialized name e hname hdeclared =>
    obtain ⟨hkind, hlo, hle, hhi⟩ := hc.bounds_readName hname
    have he := hc.reaches (Cursor.reaches_of_readName hname)
    -- The initializer starts behind the sign of equality, and that is behind the name.
    have hequals := he.bounds_peek .stream
    have hbehind : c.offset ≤ (e.advance .stream).offset := by omega
    obtain ⟨hstart, hinit, hstop⟩ := Chain.bounds_toExpr .statement mode (he.advance .stream)
    have hrow := (Span.InRow.singleton hlo hle hhi).append
      (.singleton (by omega) hinit (Nat.le_refl _)) (by omega) (by omega)
    exact ⟨rfl, rfl, by rw [hkind]; rfl, ⟨_, rfl, Nat.le_trans hbehind hstart, hinit, hstop, hrow⟩,
      by simp [Decl.InitializedUnlessDeclared, toDecl, hdeclared]⟩

/-- A function follows its reserved word and ends with its name or its closing parenthesis. -/
theorem follows_readFunction (hc : c.InText) (h : readFunction head c = (.ok r, d)) :
    (r.toDecl mode).Follows head .fn c d := by
  cases readsFunction h with
  | @bare name _ hname =>
    obtain ⟨hkind, hlo, hle, hhi⟩ := hc.bounds_readName hname
    have hrow := Span.InRow.singleton hlo hle (Nat.le_refl _)
    exact ⟨rfl, rfl, by rw [hkind]; rfl, ⟨name.span, rfl, hlo, hle, hhi, hrow⟩, trivial⟩
  | @listed name e params close _ hname _ hparams =>
    obtain ⟨hkind, hlo, hle, hhi⟩ := hc.bounds_readName hname
    have he := hc.reaches (Cursor.reaches_of_readName hname)
    have hopen := he.bounds_peek .stream
    obtain ⟨hrow, hstart, hclose, hstop⟩ := Cursor.bounds_readParams (he.advance .stream) hparams
    have hparts := (Span.InRow.singleton hlo hle hhi).append
      (hrow.widen (by omega) hclose) (by omega) (by omega)
    exact ⟨rfl, rfl, by rw [hkind]; rfl, ⟨close, rfl, by omega, hclose, hstop, hparts⟩, trivial⟩

/-- A declaration starts at its cursor and ends in front of the one behind it. -/
theorem laid_read (hc : c.InText) (h : read c = (.ok r, d)) :
    (Stmt.decl (r.toDecl mode) (r.toDecl mode).span).Laid c.ahead ∧
      Span.InRow c.offset d.offset [(r.toDecl mode).span] := by
  obtain ⟨ts, hts, hexported⟩ := c.takes_accept .exporting
  obtain ⟨us, hus, hdeclared⟩ := (c.accept .exporting).2.takes_accept .declaring
  have hflags : Cursor.Takes .stream (ts ++ us) c c.behindFlags :=
    Cursor.takes_append.mpr ⟨_, hts, hus⟩
  have hkinds : (ts ++ us).map Token.kind
      = flag (headAt c).exported .exporting ++ flag (headAt c).declared .declaring := by
    rw [List.map_append, hexported, hdeclared, headAt]
  have hword := hc.reaches (reaches_word c)
  cases reads h with
  | binding _ hk h => exact (follows_readBinding mode hword h).laid hc rfl hflags hkinds hk
  | function hk h => exact (follows_readFunction mode hword h).laid hc rfl hflags hkinds hk

end DeclClause

/-- A return starts at its reserved word and ends with what it returns. -/
theorem Stmt.laid_ret (hk : (c.peek .stream).kind = .keyword .returning) {arg : Option Expr}
    {span : Span} {stop : Nat} (hspan : span = ⟨c.offset, stop⟩) (hle : c.offset ≤ stop)
    (hstop : stop ≤ d.offset) (hparts : Span.InRow c.offset stop (arg.toList.map Expr.span)) :
    (Stmt.ret arg span).Laid c.ahead ∧ Span.InRow c.offset d.offset [span] := by
  have htakes : Cursor.Takes .stream [c.peek .stream] c (c.advance .stream) := ⟨rfl, rfl⟩
  have hahead := htakes.ahead_eq (by simp [hk])
  subst hspan
  exact ⟨⟨⟨[], _, [], _, hahead, by simp [hk, head], (Cursor.start_peek .stream c).symm⟩,
    hparts, nofun⟩, .singleton (Nat.le_refl _) hle hstop⟩

namespace Clause

/-- A statement starts at its cursor and ends in front of the one behind it. -/
theorem laid_read {r : Clause} (hc : c.InText) (h : read c = (.ok r, d)) :
    (r.toStmt mode).Laid c.ahead ∧ Span.InRow c.offset d.offset [(r.toStmt mode).span] := by
  obtain ⟨hlo, hle, hhi⟩ := hc.bounds_peek .stream
  cases reads h with
  | ret hk =>
    have hspan : (c.peek .stream).span = ⟨c.offset, (c.peek .stream).span.stop⟩ := by
      rw [← Cursor.start_peek .stream c]
    exact Stmt.laid_ret hk hspan (by omega) hhi .nil
  | retOf hk =>
    -- The argument is behind the reserved word, so the merged span has the word's start and the
    -- argument's stop.
    obtain ⟨harg, hinner, hstop⟩ := Chain.bounds_toExpr .statement mode (hc.advance .stream)
    have hspan := Span.merge_of_le hle (Nat.le_trans hhi harg) hinner
    rw [Cursor.start_peek] at hspan hle
    exact Stmt.laid_ret hk hspan (by omega) hstop
      (.singleton (by omega) hinner (Nat.le_refl _))
  | decl _ _ h => exact DeclClause.laid_read mode hc h

end Clause

/-! ### Programs -/

namespace Attempt

/-- An attempt leaves statements between its cursor and the one behind it. -/
theorem laid_readOne (hc : c.InText) :
    (∀ st ∈ (readOne c).1.toStmt? mode, st.Laid c.ahead) ∧
      Span.InRow c.offset (readOne c).2.offset
        (((readOne c).1.toStmt? mode).toList.map Stmt.span) := by
  rcases hone : readOne c with ⟨attempt, d⟩
  cases readsOne hone with
  | read h =>
    obtain ⟨hlaid, hrow⟩ := Clause.laid_read mode hc h
    exact ⟨fun st hst => Option.some.inj hst ▸ hlaid, hrow⟩
  | failed => exact ⟨nofun, .nil⟩

/-- Attempts one after the other leave statements one behind the other. -/
theorem laid_readUpTo (fuel : Nat) (hc : c.InText) :
    (∀ st ∈ (readUpTo fuel c).1.filterMap (toStmt? mode), st.Laid c.ahead) ∧
      Span.InRow c.offset (readUpTo fuel c).2.offset
        (((readUpTo fuel c).1.filterMap (toStmt? mode)).map Stmt.span) := by
  induction fuel generalizing c with
  | zero => exact ⟨by simp [readUpTo], .nil⟩
  | succ fuel ih =>
    unfold readUpTo
    split
    · exact ⟨by simp, .nil⟩
    · have hreaches := reaches_readOne c
      obtain ⟨hfirst, hrow⟩ := laid_readOne mode hc
      obtain ⟨hrest, hrows⟩ := ih (hc.reaches hreaches)
      have hle := hc.offset_le hreaches
      have hle' := (hc.reaches hreaches).offset_le (reaches_readUpTo fuel _)
      -- An attempt that failed adds no statement to the row.
      have hcons : (((readOne c).1 :: (readUpTo fuel (readOne c).2).1).filterMap (toStmt? mode))
          = ((readOne c).1.toStmt? mode).toList
            ++ (readUpTo fuel (readOne c).2).1.filterMap (toStmt? mode) := by
        rw [List.filterMap_cons]
        cases (readOne c).1.toStmt? mode <;> rfl
      dsimp only
      rw [hcons, List.map_append]
      refine ⟨List.forall_mem_append.mpr ⟨by simpa using hfirst, fun st hst => ?_⟩,
        hrow.append hrows hle hle'⟩
      exact (hrest st hst).reaches hreaches

/-- The statements of a program lie in its tokens, in a row up to where reading stops. -/
theorem laid_readAll (hc : c.InText) :
    (∀ st ∈ (readAll c).1.filterMap (toStmt? mode), st.Laid c.ahead) ∧
      Span.InRow c.offset (readAll c).2.offset
        (((readAll c).1.filterMap (toStmt? mode)).map Stmt.span) :=
  laid_readUpTo mode c.remaining hc

end Attempt

end

/-- **Statements stand one behind the other in their source text**, in both modes
of reduction and whatever is wrong with the text. Each of them starts at its
first reserved word and has its parts in its span, one behind the other. A
variable has an initializer unless it is only declared to exist. -/
theorem laid_parseProgram (mode : Reduction) (source : String) :
    Span.InRow 0 source.utf8ByteSize ((parseProgram mode source).statements.map Stmt.span) ∧
      ∀ st ∈ (parseProgram mode source).statements, st.Laid (lex source).tokens := by
  obtain ⟨front, hstart, htokens, -⟩ := ofTokens_lex source
  have hc := Cursor.inText_ofTokens_lex source
  have hend := Cursor.Within.peek ((Cursor.within_ofTokens_lex source).reaches
    (Attempt.reaches_readAll _)) .stream
  simp only [parseProgram]
  obtain ⟨hlaid, hrow⟩ := Attempt.laid_readAll mode hc
  refine ⟨hrow.widen (Nat.zero_le _) (Nat.le_trans hend.le hend.stop_le), fun st hst => ?_⟩
  have h := (hlaid st hst).append [] [.eofAt (.empty source.utf8ByteSize)]
  rwa [hstart, ← htokens] at h

/-- The call is not closed, so the initializer stops where the function starts,
and of that nothing is left. -/
example :
    ((parseProgram .cascading "export val x = f(1 fn ( declare fn g(a) return b.").statements.map
      Stmt.span) = [⟨0, 19⟩, ⟨24, 39⟩, ⟨40, 49⟩] := by
  decide +kernel

end ExprFrontEnd
