import ExprFrontEnd.Proofs.Lockstep
import ExprFrontEnd.Proofs.OnePass
import ExprFrontEnd.Proofs.Progress
import ExprFrontEnd.Proofs.RoundTrip

/-!
# `ExprFrontEnd.Proofs.Seam`: programs one behind the other

No separator stands between two statements. What is left open at the end of a
program, be it a call, a group, an operator or a dot, is closed by the end of
the input, and if further statements follow, then by their first reserved word
in the very same way. So statements do not depend on what follows them.

There are two exceptions. A statement whose head breaks off takes what is behind
it for the missing part (`Problem.isCutOff`), so nothing of the sort may be
reported. And where an equals sign is missing, the token that stands in its
place is reported (`Issue.atSeam`).

The proof goes from reader to reader, and compares a cursor with the one at the
same place in the stream that goes on (`Cursor.continued`).

* `Chain.read_continued`: in the scope of a statement the two are in step.
* `Attempt.readOne_continued`: an attempt is the same in both streams, or its
  head breaks off.
* `Attempt.parseAll_append`: the statements of two programs are those of the
  first one, and then those of the second one.
-/

set_option autoImplicit false

namespace ExprFrontEnd

/-! ### Where a program breaks off -/

/-- Whether a problem is that the input ends within the head of a statement,
where a name, a reserved word or the next parameter is due. -/
def Problem.isCutOff : Problem → Bool
  | .nameExpected _ found | .statementExpected found | .delimiterExpected found => found == .eof
  | _ => false

/-- An issue of a program, if a token is behind it where the program ended. One
at the end for the lack of an equals sign then is about that token. -/
def Issue.atSeam (next : Token) (i : Issue) : Issue :=
  if i.problem = .equalsExpected .eof then
    ⟨.equalsExpected next.kind, ⟨i.span.start, next.span.stop⟩⟩
  else i

/-- An attempt at the end of a program, if a token is behind it. -/
def Attempt.atSeam (next : Token) : Attempt → Attempt
  | read clause => read clause
  | failed issue skipped => failed (issue.atSeam next) skipped

/-- Another token that was found does not change the code. -/
theorem Issue.code_atSeam (next : Token) (i : Issue) :
    (i.atSeam next).problem.code = i.problem.code := by
  unfold atSeam
  split
  · rename_i h
    rw [h]
    rfl
  · rfl

/-- An issue at the seam starts where it did; it only reaches further. -/
theorem Issue.start_atSeam (next : Token) (i : Issue) :
    (i.atSeam next).span.start = i.span.start := by
  unfold atSeam
  split <;> rfl

/-- Only an equals sign that is missing at the end is affected. -/
theorem Issue.atSeam_of_ne (next : Token) (i : Issue) (h : i.problem ≠ .equalsExpected .eof) :
    i.atSeam next = i := by
  rw [atSeam, if_neg h]

/-! ### What chains report -/

/-- Whether a problem is one of an expression. -/
def Problem.isOfExpression : Problem → Bool
  | .operandExpected _ | .operatorExpected _ | .memberExpected _ => true
  | _ => false

/-- Whether a problem is one that makes a statement fail. -/
def Problem.isOfStatement : Problem → Bool
  | .nameExpected _ _ | .equalsExpected _ | .statementExpected _ | .delimiterExpected _ => true
  | _ => false

/-- Problems are of statements or of expressions, and not of both. -/
theorem Problem.isOfExpression_of_isOfStatement {p : Problem} (h : p.isOfStatement = true) :
    p.isOfExpression = false := by
  cases p <;> simp_all [isOfStatement, isOfExpression]

/-- What is missing behind a dot is missing in an expression. -/
theorem isOfExpression_memberIssues (optional : Bool) (dot found : Token) :
    ∀ i ∈ memberIssues optional dot found, i.problem.isOfExpression = true := by
  unfold memberIssues
  split
  · exact List.forall_mem_nil _
  · exact List.forall_mem_singleton.mpr rfl

mutual

/-- All issues of a chain are about its expression. -/
theorem Chain.isOfExpression_issues :
    (r : Chain) → ∀ i ∈ r.issues, i.problem.isOfExpression = true
  | .mk first links => by
    rw [Chain.issues]
    exact List.forall_mem_append.mpr
      ⟨Operand.isOfExpression_issues first, Links.isOfExpression_issues links⟩

/-- A stray is a problem of the expression. -/
theorem Links.isOfExpression_issues :
    (r : Links) → ∀ i ∈ r.issues, i.problem.isOfExpression = true
  | .done _ => by
    rw [Links.issues]
    exact List.forall_mem_nil _
  | .stray _ rest => by
    rw [Links.issues]
    exact List.forall_mem_cons.mpr ⟨rfl, Links.isOfExpression_issues rest⟩
  | .link _ _ operand rest => by
    rw [Links.issues]
    exact List.forall_mem_append.mpr
      ⟨Operand.isOfExpression_issues operand, Links.isOfExpression_issues rest⟩

/-- A sign has no problems of its own. -/
theorem Operand.isOfExpression_issues :
    (r : Operand) → ∀ i ∈ r.issues, i.problem.isOfExpression = true
  | .signed _ _ operand => by
    rw [Operand.issues]
    exact Operand.isOfExpression_issues operand
  | .bare primary => by
    rw [Operand.issues]
    exact Primary.isOfExpression_issues primary

/-- A stray operator is a problem of the expression. -/
theorem Primary.isOfExpression_issues :
    (r : Primary) → ∀ i ∈ r.issues, i.problem.isOfExpression = true
  | .stray _ rest => by
    rw [Primary.issues]
    exact List.forall_mem_cons.mpr ⟨rfl, Primary.isOfExpression_issues rest⟩
  | .atom atom accessors => by
    rw [Primary.issues]
    exact List.forall_mem_append.mpr
      ⟨Atom.isOfExpression_issues atom, Accessors.isOfExpression_issues accessors⟩

/-- A missing operand is a problem of the expression. -/
theorem Atom.isOfExpression_issues :
    (r : Atom) → ∀ i ∈ r.issues, i.problem.isOfExpression = true
  | .number _ _ | .string _ _ | .name _ _ => by
    rw [Atom.issues]
    exact List.forall_mem_nil _
  | .group _ inner => by
    rw [Atom.issues]
    exact Chain.isOfExpression_issues inner
  | .array _ elems => by
    rw [Atom.issues]
    exact Items.isOfExpression_issues elems
  | .missing _ => by
    rw [Atom.issues]
    exact List.forall_mem_singleton.mpr rfl

/-- Accessors have what is missing behind dots, and the problems of their items. -/
theorem Accessors.isOfExpression_issues :
    (r : Accessors) → ∀ i ∈ r.issues, i.problem.isOfExpression = true
  | .none => by
    rw [Accessors.issues]
    exact List.forall_mem_nil _
  | .call _ _ args rest => by
    rw [Accessors.issues]
    exact List.forall_mem_append.mpr
      ⟨Items.isOfExpression_issues args, Accessors.isOfExpression_issues rest⟩
  | .index _ _ inner rest => by
    rw [Accessors.issues]
    exact List.forall_mem_append.mpr
      ⟨Chain.isOfExpression_issues inner, Accessors.isOfExpression_issues rest⟩
  | .member optional dot found rest => by
    rw [Accessors.issues]
    exact List.forall_mem_append.mpr
      ⟨isOfExpression_memberIssues optional dot found, Accessors.isOfExpression_issues rest⟩

/-- Items are chains, and have the problems of chains. -/
theorem Items.isOfExpression_issues :
    (r : Items) → ∀ i ∈ r.issues, i.problem.isOfExpression = true
  | .last item => by
    rw [Items.issues]
    exact Chain.isOfExpression_issues item
  | .more item rest => by
    rw [Items.issues]
    exact List.forall_mem_append.mpr
      ⟨Chain.isOfExpression_issues item, Items.isOfExpression_issues rest⟩

end

/-- A statement that was read has no issues but those of its expression. -/
theorem Clause.isOfExpression_issues (r : Clause) :
    ∀ i ∈ r.issues, i.problem.isOfExpression = true := by
  cases r with
  | decl d =>
    cases d with
    | binding head b name init =>
      cases init with
      | none => exact List.forall_mem_nil _
      | some init => exact init.isOfExpression_issues
    | function head name params close => exact List.forall_mem_nil _
  | ret keyword arg =>
    cases arg with
    | none => exact List.forall_mem_nil _
    | some arg => exact arg.isOfExpression_issues

/-- Only a failed attempt has an issue that changes at a seam. -/
theorem Attempt.issues_atSeam (next : Token) (r : Attempt) :
    (r.atSeam next).issues = r.issues.map (Issue.atSeam next) := by
  cases r with
  | read clause =>
    have hkeep : ∀ i ∈ clause.issues, i.atSeam next = i := fun i hi =>
      Issue.atSeam_of_ne next i fun hp => by
        have := clause.isOfExpression_issues i hi
        rw [hp] at this
        cases this
    exact ((List.map_congr_left hkeep).trans (List.map_id' _)).symm
  | failed issue skipped => rfl

/-! ### The stream that goes on -/

namespace Cursor

/-- The cursor at the same place in a stream that goes on where this one
ends. -/
def continued (next : Token) (more : List Token) (finish : Span) (d : Cursor) : Cursor :=
  ⟨d.ahead ++ next :: more, finish, d.position⟩

/-- A stream ends where a token starts, and not before. -/
structure EndsBefore (next : Token) (d : Cursor) : Prop where
  finish : d.finish = .empty next.span.start
  ahead : ∀ t ∈ d.ahead, t.kind ≠ .eof

/-- The place where a stream ends is the same all along it. -/
theorem EndsBefore.reaches {next : Token} {d e : Cursor} (h : d.EndsBefore next)
    (he : d.Reaches e) : e.EndsBefore next :=
  ⟨he.finish.trans h.finish, fun t ht => h.ahead t (he.mem_ahead ht)⟩

end Cursor

section
variable (next : Token) (more : List Token) (finish : Span)

namespace Cursor

variable {next} in
/-- In the scope of a statement, the next reserved word is the end of the
stream. -/
theorem lockstep_continued (hnext : next.kind.startsStatement = true) :
    Lockstep .statement .statement fun c d =>
      d = c.continued next more finish ∧ c.finish = .empty next.span.start where
  peek := by
    rintro ⟨ahead, _, position⟩ _ ⟨rfl, rfl⟩
    cases ahead with
    | nil => simp only [continued, peek, List.nil_append, Scope.bars, hnext, ↓reduceIte]
    | cons t rest => rfl
  advance := by
    rintro ⟨ahead, _, position⟩ _ ⟨rfl, rfl⟩
    cases ahead with
    | nil =>
      simp only [continued, advance, List.nil_append, Scope.bars, hnext, ↓reduceIte, and_self]
    | cons t rest =>
      simp only [continued, advance, List.cons_append]
      split <;> exact ⟨rfl, rfl⟩

/-- Away from the end both streams show the same token. -/
theorem peek_continued {d : Cursor} (h : (d.peek .stream).kind ≠ .eof) :
    (d.continued next more finish).peek .stream = d.peek .stream := by
  obtain ⟨ahead, _, position⟩ := d
  cases ahead with
  | nil => exact absurd rfl h
  | cons t rest => rfl

/-- A token in front of the end is passed in the same way when the stream goes on. -/
theorem advance_continued {d : Cursor} (h : (d.peek .stream).kind ≠ .eof) :
    (d.continued next more finish).advance .stream
      = (d.advance .stream).continued next more finish := by
  obtain ⟨ahead, _, position⟩ := d
  cases ahead with
  | nil => exact absurd rfl h
  | cons t rest => rfl

variable {next} in
/-- At the end, the stream that goes on shows its next token. -/
theorem EndsBefore.of_peek {d : Cursor} (hd : d.EndsBefore next)
    (h : (d.peek .stream).kind = .eof) :
    d.ahead = [] ∧ (d.continued next more finish).peek .stream = next := by
  obtain ⟨ahead, _, position⟩ := d
  cases ahead with
  | nil => exact ⟨rfl, rfl⟩
  | cons t rest => exact absurd h (hd.ahead t List.mem_cons_self)

end Cursor

variable {next} in
/-- An expression in the scope of a statement is the same in both streams. -/
theorem Chain.read_continued (hnext : next.kind.startsStatement = true) {d : Cursor}
    (hd : d.EndsBefore next) :
    read .statement (d.continued next more finish)
      = ((read .statement d).1, (read .statement d).2.continued next more finish) := by
  obtain ⟨hr, he, -⟩ :=
    (Cursor.lockstep_continued more finish hnext).read (c := d) ⟨rfl, hd.finish⟩
  exact Prod.ext hr he

/-! ### The head of a statement -/

/-- A reader gave up because the input ends within the head of a statement. -/
def CutOff {α : Type} (x : Except Issue α × Cursor) : Prop :=
  ∃ i, x.1 = .error i ∧ i.problem.isCutOff = true

/-- What a reader gives in the stream that goes on. -/
def across {α : Type} (x : Except Issue α × Cursor) : Except Issue α × Cursor :=
  (x.1.mapError (Issue.atSeam next), x.2.continued next more finish)

variable {α β : Type} {issue : Issue} {d e : Cursor} {a : α}

/-- Whether a reader was cut off is a matter of its issue, not of what it would have given. -/
theorem cutOff_error (h : CutOff ((.error issue : Except Issue α), d)) :
    CutOff ((.error issue : Except Issue β), e) := by
  obtain ⟨_, ⟨⟩, hcut⟩ := h
  exact ⟨issue, rfl, hcut⟩

/-- A reader that gave something was not cut off. -/
theorem not_cutOff_ok : ¬CutOff ((.ok a : Except Issue α), d) := by
  rintro ⟨_, ⟨⟩, -⟩

/-- An issue is seen across the seam as it would be in front of the next token. -/
theorem across_error : across next more finish ((.error issue : Except Issue α), d)
    = (.error (issue.atSeam next), d.continued next more finish) := rfl

/-- What was read is the same across the seam. -/
theorem across_ok : across next more finish ((.ok a : Except Issue α), d)
    = (.ok a, d.continued next more finish) := rfl

namespace Cursor

/-- A name is the next token, or the input ended where it should be. -/
theorem readName_continued (place : NamePlace) (d : Cursor) :
    CutOff (d.readName place) ∨
      (d.continued next more finish).readName place
        = across next more finish (d.readName place) := by
  by_cases h : (d.peek .stream).kind = .eof
  · left
    simp only [CutOff, readName, h]
    exact ⟨_, rfl, rfl⟩
  · right
    simp only [readName, peek_continued next more finish h, advance_continued next more finish h]
    split <;> rfl

/-- By recursion on the tokens ahead. Only at their end can the two streams differ, and there the
list is cut off. -/
theorem readNames_continued (stop : Span) (ahead : List Token) (position : Nat) :
    CutOff (readNames stop ahead position) ∨
      readNames finish (ahead ++ next :: more) position
        = across next more finish (readNames stop ahead position) := by
  -- The list ends behind a name or a comma only if the whole head breaks off there.
  fun_induction readNames stop ahead position with
  | case1 position => exact .inl ⟨_, rfl, rfl⟩
  | case2 t position name hk => exact .inl ⟨_, rfl, rfl⟩
  | case3 t position name hk u rest hu names close d hd ih =>
    rcases ih with ⟨i, hi, -⟩ | ih
    · rw [hd] at hi
      cases hi
    · rw [hd] at ih
      right
      simp only [List.cons_append, readNames, hk, hu, ih]
      rfl
  | case4 t position name hk u rest hu issue d hd ih =>
    rw [hd] at ih
    refine ih.imp_right fun ih => ?_
    simp only [List.cons_append, readNames, hk, hu, ih]
    rfl
  | case5 t position name hk u rest hu =>
    right
    simp only [List.cons_append, readNames, hk, hu]
    rfl
  | case6 t position name hk u rest hcomma hclose =>
    right
    simp only [List.cons_append, readNames, hk]
    rfl
  | case7 t rest position hname =>
    right
    simp only [List.cons_append, readNames]
    rfl

variable {next} in
/-- A parenthesis is missing at the end, which cuts the head off, or in front of a token that both
streams have. -/
theorem readParams_continued {d : Cursor} (hd : d.EndsBefore next) :
    CutOff d.readParams ∨
      (d.continued next more finish).readParams = across next more finish d.readParams := by
  by_cases h : (d.peek .stream).kind = .eof
  · left
    obtain ⟨hahead, -⟩ := hd.of_peek more finish h
    simp only [CutOff, readParams, h, hahead, reduceCtorEq, ↓reduceIte]
    exact ⟨_, rfl, rfl⟩
  · simp only [readParams, peek_continued next more finish h, advance_continued next more finish h]
    split
    · exact .inr rfl
    · exact readNames_continued next more finish d.finish d.ahead d.position

variable {next} in
/-- Recovery stops at the next reserved word as it does at the end. -/
theorem recover_continued (hnext : next.kind.startsStatement = true) (d : Cursor) :
    (d.continued next more finish).recover
      = (d.recover.1, d.recover.2.continued next more finish) := by
  have hstop : isBoundary next.kind = true := by rw [isBoundary, hnext, Bool.or_true]
  have htake : (d.ahead ++ next :: more).takeWhile (fun t => !isBoundary t.kind)
      = d.ahead.takeWhile fun t => !isBoundary t.kind := by
    rw [List.takeWhile_append, List.takeWhile_cons_of_neg (by rw [hstop]; decide)]
    split
    · rename_i hall
      rw [(List.takeWhile_prefix _).eq_of_length hall, List.append_nil]
    · rfl
  have hle : (d.ahead.takeWhile fun t => !isBoundary t.kind).length ≤ d.ahead.length :=
    (List.takeWhile_sublist _).length_le
  simp only [recover, continued, htake, List.drop_append_of_le_length hle]

variable {next} in
/-- A reserved word is accepted in both streams, or in none. -/
theorem accept_continued {word : Keyword} {d : Cursor} (h : (d.peek .stream).kind ≠ .eof) :
    (d.continued next more finish).accept word
      = ((d.accept word).1, (d.accept word).2.continued next more finish) := by
  simp only [accept, peek_continued next more finish h, advance_continued next more finish h]
  split <;> rfl

end Cursor

variable {next}
variable (hnext : next.kind.startsStatement = true)
include hnext

namespace DeclClause

/-- If the equals sign is missing at the end, nothing is cut off; what differs is the issue, and
`atSeam` says how. -/
theorem readBinding_continued (head : DeclHead) (binding : Binding) {d : Cursor}
    (hd : d.EndsBefore next) :
    CutOff (readBinding head binding d) ∨
      readBinding head binding (d.continued next more finish)
        = across next more finish (readBinding head binding d) := by
  have hname := Cursor.readName_continued next more finish .binding d
  have hreaches := Cursor.reaches_readName .binding d
  simp only [readBinding]
  rcases hx : d.readName .binding with ⟨issue | name, e⟩ <;> rw [hx] at hname hreaches
  · refine hname.imp cutOff_error fun hname => ?_
    rw [hname]
    rfl
  · right
    rw [hname.resolve_left not_cutOff_ok, across_ok]
    have he : e.EndsBefore next := hd.reaches hreaches
    by_cases hdeclared : head.declared = true
    · simp only [hdeclared, ↓reduceIte, across_ok]
    · simp only [hdeclared, Bool.false_eq_true, ↓reduceIte]
      by_cases heof : (e.peek .stream).kind = .eof
      · -- The token at the seam is reported in place of the end.
        obtain ⟨hahead, hpeek⟩ := he.of_peek more finish heof
        have hstart : (e.peek .stream).span.start = next.span.start := by
          rw [Cursor.peek, hahead, he.finish]
          rfl
        have hne : next.kind ≠ .symbol .equals := fun h => by rw [h] at hnext; cases hnext
        simp only [heof, hpeek, hne, hstart, reduceCtorEq, ↓reduceIte, across_error, Issue.atSeam]
      · rw [Cursor.peek_continued next more finish heof,
          Cursor.advance_continued next more finish heof]
        split
        · rw [Chain.read_continued more finish hnext (he.reaches (Cursor.reaches_advance _ _)),
            across_ok]
        · rw [across_error, Issue.atSeam_of_ne next _ fun h => heof (Problem.equalsExpected.inj h)]

/-- A function has no initializer, so it is cut off or complete. -/
theorem readFunction_continued (head : DeclHead) {d : Cursor} (hd : d.EndsBefore next) :
    CutOff (readFunction head d) ∨
      readFunction head (d.continued next more finish)
        = across next more finish (readFunction head d) := by
  have hname := Cursor.readName_continued next more finish .function d
  have hreaches := Cursor.reaches_readName .function d
  simp only [readFunction]
  rcases hx : d.readName .function with ⟨issue | name, e⟩ <;> rw [hx] at hname hreaches
  · refine hname.imp cutOff_error fun hname => ?_
    rw [hname]
    rfl
  · rw [hname.resolve_left not_cutOff_ok, across_ok]
    have he := hd.reaches hreaches
    by_cases heof : (e.peek .stream).kind = .eof
    -- At the end behind the name neither stream has a parenthesis, since a statement starts
    -- there.
    · right
      obtain ⟨-, hpeek⟩ := he.of_peek more finish heof
      have hne : next.kind ≠ .symbol .openParen := fun h => by rw [h] at hnext; cases hnext
      simp only [heof, hpeek, hne, reduceCtorEq, ↓reduceIte, across_ok]
    · simp only [Cursor.peek_continued next more finish heof,
        Cursor.advance_continued next more finish heof]
      have hparams := Cursor.readParams_continued more finish
        (he.reaches (Cursor.reaches_advance .stream e))
      split
      · rcases hy : (e.advance .stream).readParams with ⟨issue | params, f⟩ <;> rw [hy] at hparams
        · refine hparams.imp cutOff_error fun hparams => ?_
          rw [hparams]
          rfl
        · right
          rw [hparams.resolve_left not_cutOff_ok]
          rfl
      · right
        rfl

/-- A declaration is the same in both streams, or its head breaks off. -/
theorem read_continued {d : Cursor} (hd : d.EndsBefore next) (heof : (d.peek .stream).kind ≠ .eof) :
    CutOff (read d) ∨
      read (d.continued next more finish) = across next more finish (read d) := by
  -- The end may come behind each of the two flags.
  simp only [read, Cursor.peek_continued next more finish heof,
    Cursor.accept_continued more finish heof]
  have he := hd.reaches (Cursor.reaches_accept .exporting d)
  generalize d.accept .exporting = x at he ⊢
  obtain ⟨exported, e⟩ := x
  by_cases heof : (e.peek .stream).kind = .eof
  · left
    simp only [Cursor.accept, heof, reduceCtorEq, ↓reduceIte]
    exact ⟨_, rfl, rfl⟩
  simp only [Cursor.accept_continued more finish heof]
  have hf := he.reaches (Cursor.reaches_accept .declaring e)
  generalize e.accept .declaring = x at hf ⊢
  obtain ⟨declared, f⟩ := x
  by_cases heof : (f.peek .stream).kind = .eof
  · left
    simp only [heof]
    exact ⟨_, rfl, rfl⟩
  simp only [Cursor.peek_continued next more finish heof,
    Cursor.advance_continued next more finish heof]
  have hg := hf.reaches (Cursor.reaches_advance .stream f)
  split
  · exact readBinding_continued more finish hnext _ .val hg
  · exact readBinding_continued more finish hnext _ .var hg
  · exact readFunction_continued more finish hnext _ hg
  · exact .inr rfl

end DeclClause

/-- A statement is the same in both streams, or its head breaks off. -/
theorem Clause.read_continued {d : Cursor} (hd : d.EndsBefore next)
    (heof : (d.peek .stream).kind ≠ .eof) :
    CutOff (read d) ∨
      read (d.continued next more finish) = across next more finish (read d) := by
  have he := hd.reaches (Cursor.reaches_advance .stream d)
  simp only [read, Cursor.peek_continued next more finish heof,
    Cursor.advance_continued next more finish heof]
  split
  · right
    by_cases hend : ((d.advance .stream).peek .stream).kind = .eof
    · -- A `return` has no argument at the end, and none in front of a statement.
      obtain ⟨-, hpeek⟩ := he.of_peek more finish hend
      simp only [hend, hpeek, hnext, Bool.or_true, ↓reduceIte]
      rfl
    · simp only [Cursor.peek_continued next more finish hend]
      split
      · rfl
      · simp only [Chain.read_continued more finish hnext he]
        rfl
  · have hdecl := DeclClause.read_continued more finish hnext hd heof
    rcases hx : DeclClause.read d with ⟨issue | r, e⟩ <;> rw [hx] at hdecl
    · refine hdecl.imp cutOff_error fun hdecl => ?_
      rw [hdecl]
      rfl
    · right
      rw [hdecl.resolve_left not_cutOff_ok]
      rfl
  · right
    rfl

namespace Attempt

/-- An attempt is the same in both streams, or its head breaks off. -/
theorem readOne_continued {d : Cursor} (hd : d.EndsBefore next)
    (heof : (d.peek .stream).kind ≠ .eof) :
    (∃ i ∈ (readOne d).1.issues, i.problem.isCutOff = true) ∨
      readOne (d.continued next more finish)
        = ((readOne d).1.atSeam next, (readOne d).2.continued next more finish) := by
  have hread := Clause.read_continued more finish hnext hd heof
  simp only [readOne]
  rcases hx : Clause.read d with ⟨issue | r, e⟩ <;> rw [hx] at hread
  · refine hread.imp ?_ fun hread => ?_
    · rintro ⟨_, ⟨⟩, hcut⟩
      exact ⟨issue, List.mem_singleton_self issue, hcut⟩
    · rw [hread]
      simp only [across_error, Cursor.recover_continued more finish hnext]
      rfl
  · right
    rw [hread.resolve_left not_cutOff_ok]
    rfl

/-- If no head breaks off, then behind the attempts of a program come those of
what follows it. -/
theorem readAll_continued {d : Cursor} (hd : d.EndsBefore next)
    (hcut : ∀ r ∈ (readAll d).1, ∀ i ∈ r.issues, i.problem.isCutOff = false) :
    readAll (d.continued next more finish)
      = ((readAll d).1.map (atSeam next)
          ++ (readAll ((readAll d).2.continued next more finish)).1,
        (readAll ((readAll d).2.continued next more finish)).2) := by
  -- On the tokens that are left; an attempt in front of the end takes one.
  induction h : d.remaining using Nat.strongRecOn generalizing d with
  | ind n ih =>
    by_cases heof : (d.peek .stream).kind = .eof
    · rw [readAll_of_eof heof]
      rfl
    · rw [readAll_of_ne_eof heof] at hcut ⊢
      obtain ⟨hfirst, hrest⟩ := List.forall_mem_cons.mp hcut
      have hone := (readOne_continued more finish hnext hd heof).resolve_left <| by
        rintro ⟨i, hi, hcut⟩
        rw [hfirst i hi] at hcut
        cases hcut
      have heof' : ((d.continued next more finish).peek .stream).kind ≠ .eof := by
        rwa [Cursor.peek_continued next more finish heof]
      rw [readAll_of_ne_eof heof', hone]
      dsimp only
      rw [ih _ (h ▸ remaining_readOne_lt heof) (hd.reaches (reaches_readOne d)) hrest rfl]
      rfl

/-- A program that goes on gives what it gives without, and then what the rest
gives as a program of its own. -/
theorem parseAll_continued (mode : Reduction) {d : Cursor} (hd : d.EndsBefore next)
    (hcut : ∀ i ∈ (parseAll mode d).issues, i.problem.isCutOff = false) :
    let rest := parseAll mode (.ofTokens (next :: more ++ [.eofAt finish]))
    (parseAll mode (d.continued next more finish)).value
        = (parseAll mode d).value ++ rest.value ∧
      (parseAll mode (d.continued next more finish)).issues
        = (parseAll mode d).issues.map (Issue.atSeam next) ++ rest.issues := by
  intro rest
  rw [parseAll_eq] at hcut
  -- The rest is read where the program ends, which is its start at another position.
  have hstart : (readAll d).2.continued next more finish
      = (Cursor.ofTokens (next :: more ++ [.eofAt finish])).moved (readAll d).2.position := by
    have hahead := ((hd.reaches (reaches_readAll d)).of_peek more finish (peek_readAll d)).1
    rw [Cursor.ofTokens_concat rfl, Cursor.continued, hahead]
    simp only [Cursor.moved, Nat.zero_add, List.nil_append]
    rfl
  have hread := readAll_continued more finish hnext hd fun r hr i hi =>
    hcut i (List.mem_flatMap.mpr ⟨r, hr, hi⟩)
  rw [hstart, readAll_moved] at hread
  have hkeep : toStmt? mode ∘ atSeam next = toStmt? mode := by
    funext r
    cases r <;> rfl
  simp only [rest, parseAll_eq, hread, outcome]
  constructor
  · rw [List.map_append, List.map_map, hkeep]
  · rw [List.flatMap_append, List.flatMap_map, List.map_flatMap]
    simp only [issues_atSeam]

end Attempt

end

/-! ### Two programs -/

/-- **Statements are independent of what follows them.** Behind a program
without a head that breaks off at its end may stand another one, which starts
with a reserved word. Read in one go, they give the statements of the first
one and then those of the second one, spans included. So it is with their
issues, which keep their code and their start; only an equals sign that is
missing at the seam is missing in front of another token then. -/
theorem Attempt.parseAll_append (mode : Reduction) {tokens : List Token} {next : Token}
    (more : List Token) (finish : Span) (htokens : ∀ t ∈ tokens, t.kind ≠ .eof)
    (hnext : next.kind.startsStatement = true)
    (hcut : ∀ i ∈ (parseAll mode (.ofTokens (tokens ++ [.eofAt (.empty next.span.start)]))).issues,
      i.problem.isCutOff = false) :
    let first := parseAll mode (.ofTokens (tokens ++ [.eofAt (.empty next.span.start)]))
    let second := parseAll mode (.ofTokens (next :: more ++ [.eofAt finish]))
    let both := parseAll mode (.ofTokens (tokens ++ (next :: more) ++ [.eofAt finish]))
    both.value = first.value ++ second.value ∧
      both.issues = first.issues.map (Issue.atSeam next) ++ second.issues ∧
      ∀ i ∈ first.issues, (i.atSeam next).problem.code = i.problem.code ∧
        (i.atSeam next).span.start = i.span.start ∧
        (i.problem ≠ .equalsExpected .eof → i.atSeam next = i) := by
  intro first second both
  have hends : (Cursor.ofTokens (tokens ++ [.eofAt (.empty next.span.start)])).EndsBefore next := by
    rw [Cursor.ofTokens_concat rfl]
    exact ⟨rfl, htokens⟩
  have hboth : Cursor.ofTokens (tokens ++ (next :: more) ++ [.eofAt finish])
      = (Cursor.ofTokens (tokens ++ [.eofAt (.empty next.span.start)])).continued
          next more finish := by
    rw [Cursor.ofTokens_concat rfl, Cursor.ofTokens_concat rfl]
    rfl
  -- Up to the seam it is one stream that goes on, and behind it there is the second program.
  obtain ⟨hvalue, hissues⟩ := parseAll_continued more finish hnext mode hends hcut
  rw [← hboth] at hvalue hissues
  exact ⟨hvalue, hissues,
    fun i _ => ⟨i.code_atSeam next, i.start_atSeam next, Issue.atSeam_of_ne next i⟩⟩

/-- A program that ends with a call, a dot and an array which are all left open,
and with a variable that lacks its value. -/
theorem Attempt.parseAll_append_unfinished :
    let tokens := (lex "val a = f(b. [1, val x").tokens.dropLast
    let next : Token := ⟨.keyword .exporting, ⟨23, 29⟩⟩
    let more := [⟨.keyword .fn, ⟨30, 32⟩⟩, ⟨.identifier "g", ⟨33, 34⟩⟩,
      ⟨.keyword .returning, ⟨35, 41⟩⟩]
    let first := parseAll .cascading (.ofTokens (tokens ++ [.eofAt (.empty next.span.start)]))
    let second := parseAll .cascading (.ofTokens (next :: more ++ [.eofAt (.empty 41)]))
    let both := parseAll .cascading (.ofTokens (tokens ++ (next :: more) ++ [.eofAt (.empty 41)]))
    tokens ++ (next :: more) ++ [.eofAt (.empty 41)]
        = (lex "val a = f(b. [1, val x export fn g return").tokens ∧
      (∀ t ∈ tokens, t.kind ≠ .eof) ∧ next.kind.startsStatement = true ∧
      (∀ i ∈ first.issues, i.problem.isCutOff = false) ∧
      both.value = first.value ++ second.value ∧
      both.issues = first.issues.map (Issue.atSeam next) ++ second.issues ∧
      ∀ i ∈ first.issues, (i.atSeam next).problem.code = i.problem.code ∧
        (i.atSeam next).span.start = i.span.start ∧
        (i.problem ≠ .equalsExpected .eof → i.atSeam next = i) := by
  intro tokens next more first second both
  have htokens : ∀ t ∈ tokens, t.kind ≠ .eof := by decide +kernel
  have hcut : ∀ i ∈ first.issues, i.problem.isCutOff = false := by decide +kernel
  exact ⟨by decide +kernel, htokens, rfl, hcut,
    parseAll_append .cascading more (.empty 41) htokens rfl hcut⟩

end ExprFrontEnd
