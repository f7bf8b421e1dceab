import ExprFrontEnd.Proofs.LexedTokens
import ExprFrontEnd.Proofs.Progress

/-!
# `ExprFrontEnd.Proofs.Reports`: readers report in the order of the source

Readers report a token when they come to it, when they have passed it, or
without ever taking it, and at an end they may stay where they are. No place is
reported twice all the same, and no reader goes back: on the tokens of a source
text, the issues of an expression and of a program start one behind the other.

* `Reports`: the issues of what stands between two cursors are strictly in
  order, at tokens behind the first cursor, and in front of the second one. Only
  the last issue may be at the second cursor, if there is an end.
* `Reports.append`: such rows can be joined where the second one does not
  report the end again.
* `Chain.Between.reports`, `Attempt.reports_readOne`: one chain and one attempt
  report so. An attempt that starts at a reserved word does not report it, since
  the attempt in front of it may have done so.
* `Attempt.reports_readAll`: from attempt to attempt, so does a whole program.
-/

set_option autoImplicit false

namespace ExprFrontEnd

/-! ### Cursors in a source text -/

namespace Cursor

/-- The tokens ahead stand in a source text, in its order. -/
structure InText (c : Cursor) : Prop where
  tokens : ∀ t ∈ c.ahead, t.IsLexed
  inOrder : c.InOrder

/-- The place of the next token, or of the end of the stream. -/
def offset (c : Cursor) : Nat := (c.peek .stream).span.start

/-- A token that is out of scope reads as an end at the same place. -/
theorem start_peek (s : Scope) (c : Cursor) : (c.peek s).span.start = c.offset := by
  obtain ⟨ahead, finish, position⟩ := c
  cases ahead with
  | nil => rfl
  | cons t rest =>
    simp only [peek, offset]
    split <;> rfl

section
variable {c d : Cursor}

/-- What is ahead further on was ahead before, in the same order. -/
theorem InText.reaches (hc : c.InText) (h : c.Reaches d) : d.InText :=
  ⟨fun t ht => hc.tokens t (h.mem_ahead ht), hc.inOrder.reaches h⟩

/-- Passing a token stays in the text. -/
theorem InText.advance (hc : c.InText) (s : Scope) : (c.advance s).InText :=
  hc.reaches (reaches_advance s c)

/-- Behind a token that was passed the next place is further to the right. -/
theorem InText.offset_lt (hc : c.InText) (h : c.Reaches d) (hlt : c.position < d.position) :
    c.offset < d.offset := by
  have hd := hc.reaches h
  obtain ⟨⟨ts, hts, hpos⟩, hfinish⟩ := h
  cases ts with
  | nil => exact absurd hpos (Nat.ne_of_gt hlt)
  | cons t ts =>
    have ht : t ∈ c.ahead := hts ▸ List.mem_cons_self
    have hoffset : c.offset = t.span.start := by
      rw [offset, peek, hts]
      rfl
    have hspan := (hc.tokens t ht).span
    -- The token that was passed takes up space in front of what is next.
    have hstop : t.span.stop ≤ d.offset := by
      obtain ⟨ahead, finish, position⟩ := d
      cases ahead with
      | nil =>
        have hend := hc.inOrder.finish t ht
        rwa [← hfinish] at hend
      | cons u rest =>
        have hord := hc.inOrder.ahead
        rw [hts] at hord
        exact (Token.ordered_cons.mp hord).2.2 u (List.mem_append_right _ List.mem_cons_self)
    omega

/-- Offsets grow along the way. -/
theorem InText.offset_le (hc : c.InText) (h : c.Reaches d) : c.offset ≤ d.offset := by
  rcases h.eq_or_lt with rfl | hlt
  · exact Nat.le_refl _
  · exact Nat.le_of_lt (hc.offset_lt h hlt)

/-- A token takes up space unless it is an end of input. -/
theorem InText.offset_lt_advance (hc : c.InText) {s : Scope} (h : (c.peek s).kind ≠ .eof) :
    c.offset < (c.advance s).offset :=
  hc.offset_lt (reaches_advance s c) (by rw [position_advance h]; exact Nat.lt_succ_self _)

/-- In a source text only an end stops a cursor. -/
theorem InText.advance_eq (hc : c.InText) {s : Scope} (h : (c.peek s).kind = .eof) :
    c.advance s = c := by
  rcases advance_eq_self_or s c with heq | ⟨rest, hahead, -⟩
  · exact heq
  · have hmem : c.peek s ∈ c.ahead := hahead ▸ List.mem_cons_self
    exact absurd h (hc.tokens _ hmem).kind

end

/-- The start of a lexed list. -/
theorem inText_ofTokens_lex (source : String) : (ofTokens (lex source).tokens).InText := by
  obtain ⟨front, hstart, -, hfront⟩ := ofTokens_lex source
  have hord := inOrder_ofTokens (inOrder_lex source)
  rw [hstart] at hord ⊢
  exact ⟨hfront, hord⟩

end Cursor

/-! ### Rows of issues -/

/-- Issues that start one behind the other, each where a cursor behind the first
one may stand, and in front of the second one. At an end, which is not passed,
the last one may be at the second cursor itself. -/
structure Reports (s : Scope) (c e : Cursor) (issues : List Issue) : Prop where
  reaches : c.Reaches e
  ordered : issues.Pairwise fun i j => i.span.start < j.span.start
  seen : ∀ i ∈ issues, ∃ d : Cursor, c.Reaches d ∧ i.span.start = d.offset
  before : ∀ i ∈ issues, i.span.start < e.offset ∨
    i.span.start = e.offset ∧ (e.peek s).kind = .eof

namespace Reports

variable {s : Scope} {c d e : Cursor} {is js : List Issue}

/-- Nothing is reported on the way. -/
theorem nil (h : c.Reaches e) : Reports s c e [] :=
  ⟨h, .nil, List.forall_mem_nil _, List.forall_mem_nil _⟩

/-- No issue is in front of the first cursor. -/
theorem behind (hc : c.InText) (h : Reports s c e is) : ∀ i ∈ is, c.offset ≤ i.span.start := by
  intro i hi
  obtain ⟨d, hd, hstart⟩ := h.seen i hi
  exact hstart ▸ hc.offset_le hd

/-- The same issues from an earlier cursor on. -/
theorem after (hd : c.Reaches d) (h : Reports s d e is) : Reports s c e is := by
  refine ⟨hd.trans h.reaches, h.ordered, fun i hi => ?_, h.before⟩
  obtain ⟨t, ht, hstart⟩ := h.seen i hi
  exact ⟨t, hd.trans ht, hstart⟩

/-- The token at the cursor is reported and taken. -/
theorem singleton (hc : c.InText) (p : Problem) :
    Reports s c (c.advance s) [⟨p, (c.peek s).span⟩] := by
  refine ⟨Cursor.reaches_advance s c, List.pairwise_singleton _ _,
    List.forall_mem_singleton.mpr ⟨c, .refl c, Cursor.start_peek s c⟩,
    List.forall_mem_singleton.mpr ?_⟩
  show (c.peek s).span.start < _ ∨ (c.peek s).span.start = _ ∧ _
  rw [Cursor.start_peek]
  by_cases hk : (c.peek s).kind = .eof
  · rw [hc.advance_eq hk]
    exact .inr ⟨rfl, hk⟩
  · exact .inl (hc.offset_lt_advance hk)

/-- Two rows one behind the other. If the first one may have reported the end
that it stops at, then the second one does not. -/
theorem append (hc : c.InText) (h : Reports s c d is) (h' : Reports s d e js)
    (hend : (d.peek s).kind = .eof → ∀ j ∈ js, d.offset < j.span.start) :
    Reports s c e (is ++ js) := by
  have hd := hc.reaches h.reaches
  refine ⟨h.reaches.trans h'.reaches, ?_, ?_, ?_⟩
  · refine List.pairwise_append.mpr ⟨h.ordered, h'.ordered, fun i hi j hj => ?_⟩
    have hj' := h'.behind hd j hj
    rcases h.before i hi with hlt | ⟨heq, hk⟩
    · omega
    · have hlt := hend hk j hj
      omega
  · exact List.forall_mem_append.mpr ⟨h.seen, (h'.after h.reaches).seen⟩
  · refine List.forall_mem_append.mpr ⟨fun i hi => ?_, h'.before⟩
    have hle := hd.offset_le h'.reaches
    rcases h.before i hi with hlt | ⟨heq, hk⟩
    · exact .inl (by omega)
    · -- The end is still there, or the second row has passed it.
      rcases h'.reaches.eq_or_lt with rfl | hpos
      · exact .inr ⟨heq, hk⟩
      · have hlt := hd.offset_lt h'.reaches hpos
        exact .inl (by omega)

/-- Two rows one behind the other, of which the second one has no issues if it
starts at an end. -/
theorem append_of_eof (hc : c.InText) (h : Reports s c d is) (h' : Reports s d e js)
    (hend : (d.peek s).kind = .eof → js = []) : Reports s c e (is ++ js) := by
  refine h.append hc h' fun hk => ?_
  rw [hend hk]
  exact List.forall_mem_nil _

/-- No further issues up to a later cursor. -/
theorem upTo (hc : c.InText) (h : Reports s c d is) (hd : d.Reaches e) : Reports s c e is := by
  have happend := h.append hc (.nil (s := s) hd) fun _ => List.forall_mem_nil _
  rwa [List.append_nil] at happend

/-- A token that is no end is reported and taken in front of a row. -/
theorem cons (hc : c.InText) (hk : (c.peek s).kind ≠ .eof) (p : Problem)
    (h : Reports s (c.advance s) e is) : Reports s c e (⟨p, (c.peek s).span⟩ :: is) := by
  have hlt := hc.offset_lt_advance hk
  have hle := (hc.advance s).offset_le h.reaches
  have hstart := Cursor.start_peek s c
  have hbehind : ∀ i ∈ is, (c.peek s).span.start < i.span.start := fun i hi => by
    have hi := h.behind (hc.advance s) i hi
    omega
  have hfirst : (c.peek s).span.start < e.offset := by omega
  have hrest := h.after (Cursor.reaches_advance s c)
  exact ⟨hrest.reaches, List.pairwise_cons.mpr ⟨hbehind, h.ordered⟩,
    List.forall_mem_cons.mpr ⟨⟨c, .refl c, hstart⟩, hrest.seen⟩,
    List.forall_mem_cons.mpr ⟨.inl hfirst, h.before⟩⟩

end Reports

/-! ### Chains -/

section
variable {s : Scope}

/-- At an end no accessor starts. -/
theorem Accessors.Between.issues_of_eof {r : Accessors} {c e : Cursor} (h : r.Between s c e)
    (hk : (c.peek s).kind = .eof) : r.issues = [] := by
  cases r with
  | none => rfl
  | call _ _ _ _ | index _ _ _ _ | member _ _ _ _ =>
    have hsome := h.2.1
    rw [hk] at hsome
    cases hsome

/-- At an end nothing follows an operand. -/
theorem Links.Between.issues_of_eof {r : Links} {c e : Cursor} (h : r.Between s c e)
    (hk : (c.peek s).kind = .eof) : r.issues = [] := by
  cases r with
  | done _ => rfl
  | stray _ _ =>
    have hnone := h.2.1
    rw [hk] at hnone
    cases hnone
  | link _ _ _ _ =>
    have hsome := h.2.1
    rw [hk] at hsome
    cases hsome

/-- A dot reports itself or nothing, and takes the token behind it. -/
theorem reports_memberIssues {c : Cursor} (hc : c.InText) {optional : Bool}
    (hk : (c.peek s).kind.accessor? = some (.member, optional)) (found : Token) :
    Reports s c ((c.advance s).advance s) (memberIssues optional (c.peek s) found) := by
  have hne : (c.peek s).kind ≠ .eof := fun heof => by
    rw [heof] at hk
    cases hk
  have hdot : (c.advance s).Reaches ((c.advance s).advance s) := Cursor.reaches_advance s _
  unfold memberIssues
  split
  · exact .nil ((Cursor.reaches_advance s c).trans hdot)
  · exact .cons hc hne _ (.nil hdot)

/-- The issues of a row that ends with a terminator are reported in front of it,
and it is taken. -/
def ReportsUpTo (s : Scope) (c e : Cursor) (issues : List Issue) (terminator : Token) : Prop :=
  ∃ d, Reports s c d issues ∧ terminator = d.peek s ∧ e = d.advance s

/-- The terminator is behind all issues, so taking it keeps their order. -/
theorem ReportsUpTo.reports {c e : Cursor} {is : List Issue} {terminator : Token} (hc : c.InText)
    (h : ReportsUpTo s c e is terminator) : Reports s c e is := by
  obtain ⟨d, hd, -, rfl⟩ := h
  exact hd.upTo hc (Cursor.reaches_advance s d)

mutual

/-- The issues of a chain are in order. -/
theorem Chain.Between.reports : {r : Chain} → {c e : Cursor} → r.Between s c e → c.InText →
    ReportsUpTo s c e r.issues r.terminator.token
  | .mk _ _, _, _, ⟨d, hf, hl⟩, hc => by
    have hfirst := Operand.Between.reports hf hc
    obtain ⟨t, hlinks, hterminator, he⟩ := Links.Between.reports hl (hc.reaches hfirst.reaches)
    rw [Chain.issues, Chain.terminator]
    exact ⟨t, hfirst.append_of_eof hc hlinks hl.issues_of_eof, hterminator, he⟩

/-- A stray is reported where it stands and then passed, so the next issue is behind it. -/
theorem Links.Between.reports : {r : Links} → {c e : Cursor} → r.Between s c e → c.InText →
    ReportsUpTo s c e r.issues r.terminator.token
  | .done _, c, _, ⟨ht, _, he⟩, _ => ⟨c, .nil (.refl c), ht, he⟩
  | .stray token rest, c, _, ⟨ht, hk, _, hr⟩, hc => by
    obtain ⟨d, hrest, hterminator, he⟩ := Links.Between.reports hr (hc.advance s)
    -- An end would be a terminator.
    have hne : (c.peek s).kind ≠ .eof := fun heof => by
      rw [heof] at hk
      cases hk
    rw [Links.issues, Links.terminator, ht]
    exact ⟨d, hrest.cons hc hne _, hterminator, he⟩
  | .link _ _ _ _, c, _, ⟨_, _, d, ho, hr⟩, hc => by
    have hoperand := Operand.Between.reports ho (hc.advance s)
    obtain ⟨t, hrest, hterminator, he⟩ :=
      Links.Between.reports hr ((hc.advance s).reaches hoperand.reaches)
    rw [Links.issues, Links.terminator]
    exact ⟨t, .after (Cursor.reaches_advance s c)
      (hoperand.append_of_eof (hc.advance s) hrest hr.issues_of_eof), hterminator, he⟩

/-- A sign is passed without a report. -/
theorem Operand.Between.reports : {r : Operand} → {c e : Cursor} → r.Between s c e → c.InText →
    Reports s c e r.issues
  | .signed _ _ _, c, _, ⟨_, _, ho⟩, hc => by
    rw [Operand.issues]
    exact .after (Cursor.reaches_advance s c) (Operand.Between.reports ho (hc.advance s))
  | .bare _, _, _, ⟨_, hp⟩, hc => by
    rw [Operand.issues]
    exact Primary.Between.reports hp hc

/-- A stray operator is reported and passed, and its operand is read behind it. -/
theorem Primary.Between.reports : {r : Primary} → {c e : Cursor} → r.Between s c e → c.InText →
    Reports s c e r.issues
  | .stray _ _, c, _, ⟨ht, _, hk, hr⟩, hc => by
    -- An end would be taken for a missing operand.
    have hne : (c.peek s).kind ≠ .eof := fun heof => by
      rw [heof] at hk
      cases hk
    rw [Primary.issues, ht]
    exact .cons hc hne _ (Primary.Between.reports hr (hc.advance s))
  | .atom _ _, _, _, ⟨d, ha, hs⟩, hc => by
    have hatom := Atom.Between.reports ha hc
    have haccessors := Accessors.Between.reports hs (hc.reaches hatom.reaches)
    rw [Primary.issues]
    exact hatom.append_of_eof hc haccessors hs.issues_of_eof

/-- A missing operand in front of an end is the only issue at the second cursor itself, and it is
the last one. -/
theorem Atom.Between.reports : {r : Atom} → {c e : Cursor} → r.Between s c e → c.InText →
    Reports s c e r.issues
  | .number _ _, c, _, ⟨_, he⟩, _ | .string _ _, c, _, ⟨_, he⟩, _ | .name _ _, c, _, ⟨_, he⟩, _ =>
    .nil (he ▸ Cursor.reaches_advance s c)
  | .group _ _, c, _, ⟨_, _, hi⟩, hc => by
    rw [Atom.issues]
    exact .after (Cursor.reaches_advance s c)
      ((Chain.Between.reports hi (hc.advance s)).reports (hc.advance s))
  | .array _ _, c, _, ⟨_, _, hi⟩, hc => by
    rw [Atom.issues]
    exact .after (Cursor.reaches_advance s c)
      ((Items.Between.reports hi (hc.advance s)).reports (hc.advance s))
  | .missing _, c, _, ⟨ht, _, he⟩, hc => by
    rw [Atom.issues, ht, he]
    exact .singleton hc _

/-- Accessors report one behind the other, each from where the one before it stopped. -/
theorem Accessors.Between.reports : {r : Accessors} → {c e : Cursor} → r.Between s c e →
    c.InText → Reports s c e r.issues
  | .none, c, _, ⟨_, he⟩, _ => .nil (he ▸ .refl c)
  | .call _ _ _ _, c, _, ⟨_, _, d, ha, hr⟩, hc => by
    -- The opening token, the items, and then the accessors behind the closing one.
    have hargs := (Items.Between.reports ha (hc.advance s)).reports (hc.advance s)
    have hrest := Accessors.Between.reports hr ((hc.advance s).reaches hargs.reaches)
    rw [Accessors.issues]
    exact .after (Cursor.reaches_advance s c)
      (hargs.append_of_eof (hc.advance s) hrest hr.issues_of_eof)
  | .index _ _ _ _, c, _, ⟨_, _, d, hi, hr⟩, hc => by
    have hinner := (Chain.Between.reports hi (hc.advance s)).reports (hc.advance s)
    have hrest := Accessors.Between.reports hr ((hc.advance s).reaches hinner.reaches)
    rw [Accessors.issues]
    exact .after (Cursor.reaches_advance s c)
      (hinner.append_of_eof (hc.advance s) hrest hr.issues_of_eof)
  | .member _ _ found _, c, _, ⟨ht, hk, _, hr⟩, hc => by
    have hdot := reports_memberIssues hc hk found
    have hrest := Accessors.Between.reports hr (hc.reaches hdot.reaches)
    rw [Accessors.issues, ht]
    exact hdot.append_of_eof hc hrest hr.issues_of_eof

/-- A comma is behind the issues of its item and in front of those of the next one. -/
theorem Items.Between.reports : {r : Items} → {c e : Cursor} → r.Between s c e → c.InText →
    ReportsUpTo s c e r.issues r.terminator.token
  | .last _, _, _, ⟨hi, _⟩, hc => Chain.Between.reports hi hc
  | .more item _, _, _, ⟨d, hi, hk, hr⟩, hc => by
    have hkind := hi.ofKind?_terminator
    obtain ⟨comma, hitem, hterminator, rfl⟩ := Chain.Between.reports hi hc
    have hcomma := hc.reaches hitem.reaches
    obtain ⟨t, hrest, hterminator', he⟩ := Items.Between.reports hr (hcomma.advance s)
    rw [Items.issues, Items.terminator]
    refine ⟨t, ?_, hterminator', he⟩
    -- The comma is no end, so what is reported in front of it is not reported behind it.
    refine hitem.append hc (.after (Cursor.reaches_advance s comma) hrest) fun heof => ?_
    rw [hterminator, heof, hk] at hkind
    cases hkind

end

/-- The issues of an expression are in order. -/
theorem Chain.reports_read {c : Cursor} (hc : c.InText) :
    Reports s c (read s c).2 (read s c).1.issues :=
  ((between_read s c).reports hc).reports hc

end

/-! ### Readers that give up -/

/-- The issue of a reader that gives up between two cursors: it is at a token
that was next on the way, and there are no remarks on it. -/
structure Spots (c d : Cursor) (i : Issue) : Prop where
  seen : ∃ t : Cursor, c.Reaches t ∧ t.Reaches d ∧ i.span = (t.peek .stream).span
  labels : i.labels = []

/-- The same issue of a reader that started earlier. -/
theorem Spots.after {c c' d : Cursor} {i : Issue} (hc : c.Reaches c') (h : Spots c' d i) :
    Spots c d i := by
  obtain ⟨⟨t, ht, hd, hspan⟩, hlabels⟩ := h
  exact ⟨⟨t, hc.trans ht, hd, hspan⟩, hlabels⟩

namespace Cursor

variable {c d : Cursor} {issue : Issue}

/-- A missing name is at the next token. -/
theorem spots_readName {place : NamePlace} (h : c.readName place = (.error issue, d)) :
    Spots c d issue := by
  obtain ⟨rfl, rfl⟩ := readName_eq_error h
  exact ⟨⟨c, .refl c, reaches_advance _ c, rfl⟩, rfl⟩

/-- What the parameters lack is missing at the token that was found. -/
theorem spots_readParams (h : c.readParams = (.error issue, d)) : Spots c d issue := by
  obtain ⟨t, ht, hd, rfl | rfl⟩ := breaksOff_readParams h
  · exact ⟨⟨t, ht, hd, rfl⟩, rfl⟩
  · exact ⟨⟨t, ht, hd, rfl⟩, rfl⟩

/-- In the scope of a statement, reserved words read as ends. -/
theorem kind_peek_statement (c : Cursor) :
    (c.peek .statement).kind = .eof ↔ isBoundary (c.peek .stream).kind = true := by
  obtain ⟨ahead, finish, position⟩ := c
  cases ahead with
  | nil => exact iff_of_true rfl rfl
  | cons t rest =>
    by_cases hstarts : t.kind.startsStatement = true
    · simp [peek, Scope.bars, isBoundary, hstarts, Token.eofAt]
    · simp [peek, Scope.bars, isBoundary, hstarts]

/-- Skipping stops at an end or a reserved word. -/
theorem peek_recover (c : Cursor) : (c.recover.2.peek .statement).kind = .eof := by
  obtain ⟨ahead, finish, position⟩ := c
  induction ahead generalizing position with
  | nil => rfl
  | cons t rest ih =>
    by_cases hk : isBoundary t.kind = true
    · have hstay : recover ⟨t :: rest, finish, position⟩ = (0, ⟨t :: rest, finish, position⟩) := by
        simp only [recover, List.takeWhile_cons, hk, Bool.not_true, Bool.false_eq_true, ↓reduceIte,
          List.length_nil, List.drop_zero, Nat.add_zero]
      rw [hstay]
      exact (kind_peek_statement _).mpr hk
    · -- A token that is skipped makes no difference to where skipping stops.
      have hnext := ih (position + 1)
      simp only [recover, List.takeWhile_cons, hk, Bool.not_false, ↓reduceIte,
        List.length_cons, List.drop_succ_cons] at hnext ⊢
      exact hnext

end Cursor

/-- A reader that gives up reports one issue, and skipping leads to an end or a
reserved word. -/
theorem Spots.reports {c d : Cursor} {i : Issue} (hc : c.InText) (h : Spots c d i) :
    Reports .statement c d.recover.2 [i] := by
  obtain ⟨t, ht, hd, hspan⟩ := h.seen
  have hend := hd.trans (Cursor.reaches_recover d)
  have hstart : i.span.start = t.offset := by
    rw [hspan]
    rfl
  have hbefore := (hc.reaches ht).offset_le hend
  refine ⟨ht.trans hend, List.pairwise_singleton _ _,
    List.forall_mem_singleton.mpr ⟨t, ht, hstart⟩, List.forall_mem_singleton.mpr ?_⟩
  rcases Nat.lt_or_eq_of_le hbefore with hlt | heq
  · exact .inl (by omega)
  · exact .inr ⟨by omega, d.peek_recover⟩

/-! ### Statements -/

namespace DeclClause

variable {c d : Cursor} {issue : Issue} {r : DeclClause}

/-- A binding gives up at its name or at its equals sign. -/
theorem spots_readBinding {head : DeclHead} {binding : Binding}
    (h : readBinding head binding c = (.error issue, d)) : Spots c d issue := by
  cases readsBinding h with
  | unnamed hname => exact Cursor.spots_readName hname
  | unset hname => exact ⟨⟨d, Cursor.reaches_of_readName hname, .refl d, rfl⟩, rfl⟩

/-- A function gives up at its name or in its parameters. -/
theorem spots_readFunction {head : DeclHead} (h : readFunction head c = (.error issue, d)) :
    Spots c d issue := by
  cases readsFunction h with
  | unnamed hname => exact Cursor.spots_readName hname
  | unlisted hname _ hparams =>
    have hopen := Cursor.reaches_advance_of_readName hname
    exact .after hopen (Cursor.spots_readParams hparams)

/-- A declaration that fails reports a token behind its first reserved word. -/
theorem spots_read {word : Keyword} (h : read c = (.error issue, d))
    (hk : (c.peek .stream).kind = .keyword word) (hword : word ≠ .returning) :
    ∃ t : Cursor, c.Reaches t ∧ c.position < t.position ∧ Spots t d issue := by
  have hpassed := position_lt_word (c := c) (by simp [hk])
  cases reads h with
  | binding _ _ h => exact ⟨_, reaches_word c, hpassed, spots_readBinding h⟩
  | function _ h => exact ⟨_, reaches_word c, hpassed, spots_readFunction h⟩
  | neither hbinding hfunction =>
    refine ⟨_, reaches_flags c, ?_, ⟨_, .refl _, Cursor.reaches_advance .stream _, rfl⟩, rfl⟩
    -- Without flags the first word would have been one of the three.
    rcases (reaches_flags c).eq_or_lt with heq | hlt
    · rw [heq, hk] at hbinding hfunction
      cases word with
      | val => exact absurd rfl (hbinding .val)
      | var => exact absurd rfl (hbinding .var)
      | fn => exact absurd rfl hfunction
      | returning => exact absurd rfl hword
      | exporting => exact position_lt_flags hk (.inl rfl)
      | declaring => exact position_lt_flags hk (.inr rfl)
    · exact hlt

/-- The issues of a binding are those of its initializer, behind the name and the equals sign. -/
theorem reports_readBinding (hc : c.InText) {head : DeclHead} {binding : Binding}
    (h : readBinding head binding c = (.ok r, d)) : Reports .statement c d r.issues := by
  cases readsBinding h with
  | declared hname => exact .nil (Cursor.reaches_of_readName hname)
  | initialized hname =>
    have hequals := Cursor.reaches_advance_of_readName hname
    exact .after hequals (Chain.reports_read (hc.reaches hequals))

/-- A declaration reports nothing in front of its name. -/
theorem reports_read (hc : c.InText) (h : read c = (.ok r, d)) :
    Reports .statement (c.behindFlags.advance .stream) d r.issues := by
  cases reads h with
  | binding _ _ h => exact reports_readBinding (hc.reaches (reaches_word c)) h
  | function _ h =>
    rw [issues_readFunction h]
    exact .nil (reaches_readFunction h)

end DeclClause

namespace Clause

variable {c d : Cursor} {issue : Issue} {r : Clause}

/-- A statement reports nothing at its first reserved word. -/
theorem reports_read (hc : c.InText) (h : read c = (.ok r, d)) :
    ∃ t : Cursor, c.Reaches t ∧ c.position < t.position ∧ Reports .statement t d r.issues := by
  have hpassed : ∀ {word : Keyword}, (c.peek .stream).kind = .keyword word →
      c.position < (c.advance .stream).position := fun hword => by
    rw [Cursor.position_advance (by rw [hword]; nofun)]
    exact Nat.lt_succ_self _
  cases reads h with
  | ret hword => exact ⟨_, Cursor.reaches_advance .stream c, hpassed hword, .nil (.refl _)⟩
  | retOf hword =>
    exact ⟨_, Cursor.reaches_advance .stream c, hpassed hword,
      Chain.reports_read (hc.advance .stream)⟩
  | decl hword _ h =>
    exact ⟨_, DeclClause.reaches_word c, DeclClause.position_lt_word (by rw [hword]; nofun),
      DeclClause.reports_read hc h⟩

/-- A statement that fails reports a token behind its first reserved word, or
the token that starts no statement. -/
theorem spots_read (h : read c = (.error issue, d)) :
    ∃ t : Cursor, c.Reaches t ∧ Spots t d issue ∧
      ((c.peek .stream).kind.startsStatement = true → c.position < t.position) := by
  cases reads h with
  | broken hword hne h =>
    obtain ⟨t, ht, hlt, hspots⟩ := DeclClause.spots_read h hword hne
    exact ⟨t, ht, hspots, fun _ => hlt⟩
  -- A token that starts no statement is reported at once, so nothing is claimed of reserved
  -- words.
  | neither hstarts =>
    refine ⟨c, .refl c, ⟨⟨c, .refl c, .refl c, rfl⟩, rfl⟩, fun hword => ?_⟩
    rw [hstarts] at hword
    cases hword

end Clause

/-! ### Programs -/

namespace Attempt

variable {c : Cursor}

/-- An attempt reports in order, and not the reserved word that it starts at:
that is the end of what is in front of it. -/
theorem reports_readOne (hc : c.InText) (hne : (c.peek .stream).kind ≠ .eof) :
    Reports .statement c (readOne c).2 (readOne c).1.issues ∧
      ((c.peek .statement).kind = .eof → ∀ i ∈ (readOne c).1.issues, c.offset < i.span.start) := by
  rcases hone : readOne c with ⟨attempt, d⟩
  cases readsOne hone with
  | read h =>
    obtain ⟨t, ht, hlt, hreports⟩ := Clause.reports_read hc h
    refine ⟨.after ht hreports, fun _ i hi => ?_⟩
    exact Nat.lt_of_lt_of_le (hc.offset_lt ht hlt) (hreports.behind (hc.reaches ht) i hi)
  | failed h =>
    obtain ⟨t, ht, hspots, hword⟩ := Clause.spots_read h
    have hreports := hspots.reports (hc.reaches ht)
    refine ⟨.after ht hreports, fun hend i hi => ?_⟩
    -- A reserved word in front is passed before anything is reported.
    have hstarts : (c.peek .stream).kind.startsStatement = true := by
      have hboundary := c.kind_peek_statement.mp hend
      rw [Cursor.isBoundary, Bool.or_eq_true, beq_iff_eq] at hboundary
      exact hboundary.resolve_left hne
    have hlt := hc.offset_lt ht (hword hstarts)
    exact Nat.lt_of_lt_of_le hlt (hreports.behind (hc.reaches ht) i hi)

/-- So do attempts one after the other. -/
theorem reports_readUpTo (fuel : Nat) (hc : c.InText) :
    Reports .statement c (readUpTo fuel c).2 ((readUpTo fuel c).1.flatMap issues) ∧
      ((c.peek .statement).kind = .eof →
        ∀ i ∈ (readUpTo fuel c).1.flatMap issues, c.offset < i.span.start) := by
  induction fuel generalizing c with
  | zero => exact ⟨.nil (.refl c), fun _ => List.forall_mem_nil _⟩
  | succ fuel ih =>
    unfold readUpTo
    split
    · exact ⟨.nil (.refl c), fun _ => List.forall_mem_nil _⟩
    · rename_i hne
      obtain ⟨hfirst, hword⟩ := reports_readOne hc hne
      obtain ⟨hrest, hnext⟩ := ih (hc.reaches hfirst.reaches)
      have hlt := hc.offset_lt hfirst.reaches (position_lt_readOne hne)
      -- The attempt moves on, so what the next ones report is behind all that it reports.
      refine ⟨hfirst.append hc hrest hnext, fun hend => ?_⟩
      have hbehind := hrest.behind (hc.reaches hfirst.reaches)
      exact List.forall_mem_append.mpr
        ⟨hword hend, fun i hi => Nat.lt_of_lt_of_le hlt (hbehind i hi)⟩

/-- The issues of a program are in order. -/
theorem reports_readAll (hc : c.InText) :
    Reports .statement c (readAll c).2 ((readAll c).1.flatMap issues) :=
  (reports_readUpTo _ hc).1

end Attempt

end ExprFrontEnd
