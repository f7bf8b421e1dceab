import ExprFrontEnd.Proofs.SourceOrder

/-!
# `ExprFrontEnd.Proofs.Placeholders`: what stands for missing parts

Trees have no holes. An operand that is missing is replaced by a node that holds
the token in its place, and a name that is missing behind a dot is the empty
name (`Placeholder`). Each of them is reported, and the report says all that the
placeholder holds (`Issue.placeholder?`). What is reported without a placeholder
are tokens that were skipped, statements that were given up, and what the lexer
finds.

* `Chain.Between.placeholders`: one by one, the placeholders in the tree of a
  chain are those that its issues tell of. Joining operands keeps their order,
  so this does not depend on the mode.
* `Clause.placeholders_read`: the same for statements. Their own names are never
  empty, since readers of names give up rather than put in a placeholder.
* `filterMap_placeholder?_mergeIssues`: the issues of the lexer do not come
  between.
* `reported_placeholders`: **placeholders and their reports correspond**, for
  every source text.
-/

set_option autoImplicit false

namespace ExprFrontEnd

/-! ### Placeholders -/

/-- What stands in a tree for something that is missing in the text. -/
inductive Placeholder where
  /-- A missing operand: the token that was found, and the span of the node. -/
  | operand (found : Token) (span : Span)
  /-- A missing name behind a dot, with the span of the name. -/
  | member (optional : Bool) (span : Span)
  /-- An empty name anywhere else. -/
  | name (span : Span)
  deriving DecidableEq, Repr

/-- A name that is no placeholder unless it is empty. -/
def Identifier.placeholders (name : Identifier) : List Placeholder :=
  if name.name = "" then [.name name.span] else []

mutual

/-- The placeholders in an expression, in the order of the source. -/
def Expr.placeholders : Expr → List Placeholder
  | .number _ _ | .string _ _ => []
  | .identifier name => name.placeholders
  | .unary _ arg _ => arg.placeholders
  | .binary left _ right _ => left.placeholders ++ right.placeholders
  | .call callee args _ _ => callee.placeholders ++ placeholdersAll args
  | .index object place _ _ => object.placeholders ++ place.placeholders
  | .member object prop optional _ =>
    object.placeholders ++ if prop.name = "" then [.member optional prop.span] else []
  | .array elems _ => placeholdersAll elems
  | .ignore token span => [.operand token span]

/-- The placeholders in the expressions of a list. -/
def Expr.placeholdersAll : List Expr → List Placeholder
  | [] => []
  | e :: es => e.placeholders ++ placeholdersAll es

end

/-- The placeholders in a declaration. -/
def Decl.placeholders (d : Decl) : List Placeholder :=
  match d.kind with
  | .binding _ name init => name.placeholders ++ init.elim [] Expr.placeholders
  | .function name params => name.placeholders ++ params.flatMap Identifier.placeholders

/-- The placeholders in a statement. -/
def Stmt.placeholders : Stmt → List Placeholder
  | .decl d _ => d.placeholders
  | .ret arg _ => arg.elim [] Expr.placeholders

/-- The placeholder that an issue tells of. A token that closes something takes
the place of an operand, any other one is skipped. A missing name is right
behind its dot. -/
def Issue.placeholder? (i : Issue) : Option Placeholder :=
  match i.problem with
  | .operandExpected found =>
    if found.closesOperand then some (.operand ⟨found, i.span⟩ i.span) else none
  | .memberExpected optional => some (.member optional (.empty i.span.stop))
  | _ => none

/-- Only problems of expressions leave placeholders behind. -/
theorem Issue.placeholder?_eq_none {i : Issue} (h : i.problem.isOfExpression = false) :
    i.placeholder? = none := by
  unfold placeholder?
  split
  · rename_i hp
    rw [hp] at h
    cases h
  · rename_i hp
    rw [hp] at h
    cases h
  · rfl

/-- A name that is spelled is no placeholder. -/
theorem Identifier.placeholders_of_ne {name : Identifier} (h : name.name ≠ "") :
    name.placeholders = [] := if_neg h

/-- The placeholders of operands stay in order, however they are joined. -/
theorem Grouping.placeholders_toExpr (g : Grouping Expr) :
    g.toExpr.placeholders = g.operands.flatMap Expr.placeholders := by
  induction g with
  | operand e => rw [toExpr, operands, List.flatMap_singleton]
  | joined left op right ihl ihr =>
    rw [toExpr, Expr.placeholders, ihl, ihr, operands, List.flatMap_append]

/-! ### Chains -/

/-- A dot reports a name that is missing, and no other one is. -/
theorem placeholder?_memberIssues {optional : Bool} {dot found : Token}
    (hname : found.kind ≠ .identifier "") :
    (if (memberName dot found).name = "" then
        [Placeholder.member optional (memberName dot found).span] else [])
      = (memberIssues optional dot found).filterMap Issue.placeholder? := by
  cases hk : found.kind with
  | identifier name =>
    have hne : name ≠ "" := by
      rintro rfl
      exact hname hk
    simp only [memberName, memberIssues, hk, if_neg hne, List.filterMap_nil]
  | _ => simp only [memberName, memberIssues, hk]; rfl

section
variable {s : Scope} {mode : Reduction}

mutual

/-- The placeholders in the tree of a chain are those that its issues tell of. -/
theorem Chain.Between.placeholders : {r : Chain} → {c e : Cursor} → r.Between s c e →
    (∀ t ∈ r.body, t.kind ≠ .identifier "") →
      (r.toExpr mode).placeholders = r.issues.filterMap Issue.placeholder?
  | .mk first links, _, _, ⟨_, hf, hl⟩, hname => by
    rw [Chain.body, List.forall_mem_append] at hname
    have hover := Row.over_group mode ⟨first.toExpr mode, links.toPairs mode⟩
    rw [Chain.toExpr, Chain.issues, List.filterMap_append,
      ← Operand.Between.placeholders hf hname.1, ← Links.Between.placeholders hl hname.2]
    exact (Grouping.placeholders_toExpr _).trans (congrArg _ hover.operands)

/-- Strays between the operands are reported without a placeholder, and the operands follow one by
one. -/
theorem Links.Between.placeholders : {r : Links} → {c e : Cursor} → r.Between s c e →
    (∀ t ∈ r.body, t.kind ≠ .identifier "") →
      ((r.toPairs mode).map Prod.snd).flatMap Expr.placeholders
        = r.issues.filterMap Issue.placeholder?
  | .done _, _, _, _, _ => by rw [Links.toPairs, Links.issues]; rfl
  | .stray _ _, _, _, ⟨_, _, _, hr⟩, hname => by
    rw [Links.body, List.forall_mem_cons] at hname
    rw [Links.toPairs, Links.issues, List.filterMap_cons_none rfl]
    exact Links.Between.placeholders hr hname.2
  | .link _ _ _ _, _, _, ⟨_, _, _, ho, hr⟩, hname => by
    rw [Links.body, List.forall_mem_cons, List.forall_mem_append] at hname
    rw [Links.toPairs, Links.issues, List.map_cons, List.flatMap_cons, List.filterMap_append,
      Operand.Between.placeholders ho hname.2.1, Links.Between.placeholders hr hname.2.2]

/-- An operator in front adds no placeholder. -/
theorem Operand.Between.placeholders : {r : Operand} → {c e : Cursor} → r.Between s c e →
    (∀ t ∈ r.tokens, t.kind ≠ .identifier "") →
      (r.toExpr mode).placeholders = r.issues.filterMap Issue.placeholder?
  | .signed _ _ _, _, _, ⟨_, _, ho⟩, hname => by
    rw [Operand.tokens, List.forall_mem_cons] at hname
    rw [Operand.toExpr, Operand.issues, Expr.placeholders]
    exact Operand.Between.placeholders ho hname.2
  | .bare _, _, _, ⟨_, hp⟩, hname => by
    rw [Operand.tokens] at hname
    rw [Operand.toExpr, Operand.issues]
    exact Primary.Between.placeholders hp hname

/-- A stray operator adds an issue that tells of none, and the operand that follows has its
own. -/
theorem Primary.Between.placeholders : {r : Primary} → {c e : Cursor} → r.Between s c e →
    (∀ t ∈ r.tokens, t.kind ≠ .identifier "") →
      (r.toExpr mode).placeholders = r.issues.filterMap Issue.placeholder?
  | .stray token _, _, _, ⟨ht, _, hk, hr⟩, hname => by
    rw [Primary.tokens, List.forall_mem_cons] at hname
    -- The token is reported as well, but it is skipped, since it closes nothing.
    have hskipped : Issue.placeholder? ⟨.operandExpected token.kind, token.span⟩ = none :=
      if_neg (by rw [ht, hk]; exact Bool.false_ne_true)
    rw [Primary.toExpr, Primary.issues, List.filterMap_cons_none hskipped]
    exact Primary.Between.placeholders hr hname.2
  | .atom _ _, _, _, ⟨_, ha, hs⟩, hname => by
    rw [Primary.tokens, List.forall_mem_append] at hname
    rw [Primary.toExpr, Primary.issues, List.filterMap_append,
      Accessors.Between.placeholders hs hname.2, Atom.Between.placeholders ha hname.1]

/-- A missing operand is the one atom with a placeholder. A name among the atoms is not empty. -/
theorem Atom.Between.placeholders : {r : Atom} → {c e : Cursor} → r.Between s c e →
    (∀ t ∈ r.tokens, t.kind ≠ .identifier "") →
      (r.toExpr mode).placeholders = r.issues.filterMap Issue.placeholder?
  | .number _ _, _, _, _, _ | .string _ _, _, _, _, _ => by
    rw [Atom.toExpr, Atom.issues, Expr.placeholders]; rfl
  | .name name span, _, _, _, hname => by
    rw [Atom.tokens, List.forall_mem_singleton] at hname
    have hne : name ≠ "" := by
      rintro rfl
      exact hname rfl
    rw [Atom.toExpr, Atom.issues, Expr.placeholders, Identifier.placeholders_of_ne hne,
      List.filterMap_nil]
  | .group _ _, _, _, ⟨_, _, hi⟩, hname => by
    rw [Atom.tokens, List.forall_mem_cons, List.forall_mem_append] at hname
    rw [Atom.toExpr, Atom.issues]
    exact Chain.Between.placeholders hi hname.2.1
  | .array _ _, _, _, ⟨_, _, hi⟩, hname => by
    rw [Atom.tokens, List.forall_mem_cons, List.forall_mem_append] at hname
    rw [Atom.toExpr, Atom.issues, Expr.placeholders]
    exact Items.Between.placeholders hi hname.2.1
  | .missing found, _, _, ⟨ht, hk, _⟩, _ => by
    have hplace : Issue.placeholder? ⟨.operandExpected found.kind, found.span⟩
        = some (.operand found found.span) := if_pos (by rw [ht, hk])
    rw [Atom.toExpr, Atom.issues, Expr.placeholders, List.filterMap_cons_some hplace,
      List.filterMap_nil]

/-- Accessors add their own placeholders to those of the expression in front. -/
theorem Accessors.Between.placeholders : {r : Accessors} → {c e : Cursor} → r.Between s c e →
    (∀ t ∈ r.tokens, t.kind ≠ .identifier "") → ∀ {x : Expr},
      (r.apply mode x).placeholders = x.placeholders ++ r.issues.filterMap Issue.placeholder?
  | .none, _, _, _, _, _ => by
    rw [Accessors.apply, Accessors.issues, List.filterMap_nil, List.append_nil]
  | .call _ _ _ _, _, _, ⟨_, _, _, ha, hr⟩, hname, _ => by
    rw [Accessors.tokens, List.forall_mem_cons, List.forall_mem_append,
      List.forall_mem_cons] at hname
    rw [Accessors.apply, Accessors.issues, Accessors.Between.placeholders hr hname.2.2.2,
      Expr.placeholders, Items.Between.placeholders ha hname.2.1, List.filterMap_append,
      List.append_assoc]
  | .index _ _ _ _, _, _, ⟨_, _, _, hi, hr⟩, hname, _ => by
    rw [Accessors.tokens, List.forall_mem_cons, List.forall_mem_append,
      List.forall_mem_cons] at hname
    rw [Accessors.apply, Accessors.issues, Accessors.Between.placeholders hr hname.2.2.2,
      Expr.placeholders, Chain.Between.placeholders hi hname.2.1, List.filterMap_append,
      List.append_assoc]
  | .member _ _ _ _, _, _, ⟨_, _, _, hr⟩, hname, _ => by
    rw [Accessors.tokens, List.forall_mem_cons, List.forall_mem_cons] at hname
    rw [Accessors.apply, Accessors.issues, Accessors.Between.placeholders hr hname.2.2,
      Expr.placeholders, placeholder?_memberIssues hname.2.1, List.filterMap_append,
      List.append_assoc]

/-- The items of a list follow one by one, and commas add nothing. -/
theorem Items.Between.placeholders : {r : Items} → {c e : Cursor} → r.Between s c e →
    (∀ t ∈ r.body, t.kind ≠ .identifier "") →
      Expr.placeholdersAll (r.toExprs mode) = r.issues.filterMap Issue.placeholder?
  | .last _, _, _, ⟨hi, _⟩, hname => by
    rw [Items.body] at hname
    rw [Items.toExprs, Items.issues, Expr.placeholdersAll, Expr.placeholdersAll, List.append_nil]
    exact Chain.Between.placeholders hi hname
  | .more _ _, _, _, ⟨_, hi, _, hr⟩, hname => by
    rw [Items.body, List.forall_mem_append, List.forall_mem_cons] at hname
    rw [Items.toExprs, Items.issues, Expr.placeholdersAll, List.filterMap_append,
      Chain.Between.placeholders hi hname.1, Items.Between.placeholders hr hname.2.2]

end

end

/-- Every name that is taken stands in the text, so none is empty. -/
theorem Chain.named_read {s : Scope} {c : Cursor} (hc : c.InText) :
    ∀ t ∈ (read s c).1.body, t.kind ≠ .identifier "" := by
  intro t ht
  obtain ⟨ends, htake, hends⟩ := (between_read s c).takes.exists_eq_take_append
  have htaken := List.mem_append_left [(read s c).1.terminator.token] ht
  rw [htake] at htaken
  rcases List.mem_append.mp htaken with hpassed | hend
  · exact (hc.tokens t (List.mem_of_mem_take hpassed)).named
  · rw [hends t hend]
    nofun

/-- The placeholders in an expression are those that its issues tell of. -/
theorem Chain.placeholders_read (mode : Reduction) {s : Scope} {c : Cursor} (hc : c.InText) :
    ((read s c).1.toExpr mode).placeholders
      = (read s c).1.issues.filterMap Issue.placeholder? :=
  (between_read s c).placeholders (named_read hc)

/-! ### Statements -/

namespace Cursor

variable {c d : Cursor} {issue : Issue}

/-- Names in a text are not empty, and the end of the input is no name. -/
theorem InText.named_peek (hc : c.InText) : (c.peek .stream).kind ≠ .identifier "" := by
  obtain ⟨ahead, finish, position⟩ := c
  cases ahead with
  | nil => nofun
  | cons t rest => exact (hc.tokens t List.mem_cons_self).named

/-- A name that is read is no placeholder. -/
theorem InText.placeholders_readName (hc : c.InText) {place : NamePlace} {name : Identifier}
    (h : c.readName place = (.ok name, d)) : name.placeholders = [] := by
  refine Identifier.placeholders_of_ne fun hempty => hc.named_peek ?_
  rw [(readName_eq_ok h).1, hempty]

/-- Parameters are names of tokens in the text, so none of them is empty. -/
theorem InText.placeholders_readParams (hc : c.InText) {params : List Identifier × Span}
    (h : c.readParams = (.ok params, d)) : params.1.flatMap Identifier.placeholders = [] := by
  refine List.flatMap_eq_nil_iff.mpr fun name hname => ?_
  obtain ⟨t, ht, hk, -⟩ := (tokens_readParams h).1 name hname
  refine Identifier.placeholders_of_ne fun hempty => (hc.tokens t ht).named ?_
  rw [hk, hempty]

/-! Readers that give up report a problem of a statement. -/

/-- A missing name of a statement has a code of its own, and no placeholder. -/
theorem isOfStatement_readName {place : NamePlace} (h : c.readName place = (.error issue, d)) :
    issue.problem.isOfStatement = true := by
  obtain ⟨rfl, -⟩ := readName_eq_error h
  rfl

/-- The parentheses of parameters are part of the head of a statement. -/
theorem isOfStatement_readParams (h : c.readParams = (.error issue, d)) :
    issue.problem.isOfStatement = true := by
  obtain ⟨t, -, -, rfl | rfl⟩ := breaksOff_readParams h
  · rfl
  · rfl

end Cursor

namespace DeclClause

variable {c d : Cursor} {issue : Issue} {r : DeclClause} (mode : Reduction)

/-- The name is not empty, so the placeholders are those of the initializer. -/
theorem placeholders_readBinding (hc : c.InText) {head : DeclHead} {binding : Binding}
    (h : readBinding head binding c = (.ok r, d)) :
    (r.toDecl mode).placeholders = r.issues.filterMap Issue.placeholder? := by
  cases readsBinding h with
  | @declared name _ hname =>
    show name.placeholders ++ [] = []
    rw [hc.placeholders_readName hname, List.append_nil]
  | @initialized name _ hname =>
    have hequals := Cursor.reaches_advance_of_readName hname
    show name.placeholders ++ Expr.placeholders _ = _
    rw [hc.placeholders_readName hname, List.nil_append]
    exact Chain.placeholders_read mode (hc.reaches hequals)

/-- A function has no expressions, and none of its names is empty. -/
theorem placeholders_readFunction (hc : c.InText) {head : DeclHead}
    (h : readFunction head c = (.ok r, d)) :
    (r.toDecl mode).placeholders = r.issues.filterMap Issue.placeholder? := by
  cases readsFunction h with
  | @bare name _ hname =>
    show name.placeholders ++ [] = []
    rw [hc.placeholders_readName hname, List.append_nil]
  | @listed name _ params _ _ hname _ hparams =>
    have hopen := Cursor.reaches_advance_of_readName hname
    have hnames := (hc.reaches hopen).placeholders_readParams hparams
    show name.placeholders ++ params.flatMap Identifier.placeholders = []
    rw [hc.placeholders_readName hname, hnames, List.append_nil]

/-- A declaration is a binding or a function, with the same name readers. -/
theorem placeholders_read (hc : c.InText) (h : read c = (.ok r, d)) :
    (r.toDecl mode).placeholders = r.issues.filterMap Issue.placeholder? := by
  have hword := hc.reaches (reaches_word c)
  cases reads h with
  | binding _ _ h => exact placeholders_readBinding mode hword h
  | function _ h => exact placeholders_readFunction mode hword h

/-- A binding gives up before it reads its initializer. -/
theorem isOfStatement_readBinding {head : DeclHead} {binding : Binding}
    (h : readBinding head binding c = (.error issue, d)) :
    issue.problem.isOfStatement = true := by
  cases readsBinding h with
  | unnamed hname => exact Cursor.isOfStatement_readName hname
  | unset => rfl

/-- A function gives up in its head or not at all. -/
theorem isOfStatement_readFunction {head : DeclHead}
    (h : readFunction head c = (.error issue, d)) : issue.problem.isOfStatement = true := by
  cases readsFunction h with
  | unnamed hname => exact Cursor.isOfStatement_readName hname
  | unlisted _ _ hparams => exact Cursor.isOfStatement_readParams hparams

/-- A declaration gives up at its reserved word or in its head. -/
theorem isOfStatement_read (h : read c = (.error issue, d)) :
    issue.problem.isOfStatement = true := by
  cases reads h with
  | binding _ _ h => exact isOfStatement_readBinding h
  | function _ h => exact isOfStatement_readFunction h
  | neither => rfl

end DeclClause

namespace Clause

variable {c d : Cursor} {issue : Issue} {r : Clause} (mode : Reduction)

/-- The placeholders in a statement are those that its issues tell of. -/
theorem placeholders_read (hc : c.InText) (h : read c = (.ok r, d)) :
    (r.toStmt mode).placeholders = r.issues.filterMap Issue.placeholder? := by
  cases reads h with
  | ret => rfl
  | retOf => exact Chain.placeholders_read mode (hc.advance .stream)
  | decl _ _ h => exact DeclClause.placeholders_read mode hc h

/-- A statement that fails reports a problem of a statement. -/
theorem isOfStatement_read (h : read c = (.error issue, d)) :
    issue.problem.isOfStatement = true := by
  cases reads h with
  | broken _ _ h => exact DeclClause.isOfStatement_read h
  | neither => rfl

end Clause

namespace Attempt

variable {c : Cursor} (mode : Reduction)

/-- An attempt that fails has one issue, and this one tells of no placeholder. -/
theorem placeholders_readOne (hc : c.InText) :
    ((readOne c).1.toStmt? mode).elim [] Stmt.placeholders
      = (readOne c).1.issues.filterMap Issue.placeholder? := by
  rcases hone : readOne c with ⟨attempt, d⟩
  cases readsOne hone with
  | read h => exact Clause.placeholders_read mode hc h
  | @failed issue _ h =>
    have hnone := Issue.placeholder?_eq_none
      (Problem.isOfExpression_of_isOfStatement (Clause.isOfStatement_read h))
    show [] = [issue].filterMap Issue.placeholder?
    rw [List.filterMap_cons_none hnone, List.filterMap_nil]

/-- The placeholders of a program are those of its statements, in order. -/
theorem placeholders_readUpTo (fuel : Nat) (hc : c.InText) :
    ((readUpTo fuel c).1.filterMap (toStmt? mode)).flatMap Stmt.placeholders
      = ((readUpTo fuel c).1.flatMap issues).filterMap Issue.placeholder? := by
  induction fuel generalizing c with
  | zero => rfl
  | succ fuel ih =>
    unfold readUpTo
    split
    · rfl
    · have hfirst := placeholders_readOne mode hc
      have hrest := ih (hc.reaches (reaches_readOne c))
      rw [List.flatMap_cons, List.filterMap_append, ← hfirst, ← hrest]
      cases hs : (readOne c).1.toStmt? mode with
      | none => rw [List.filterMap_cons_none hs]; rfl
      | some stmt => rw [List.filterMap_cons_some hs]; rfl

/-- The placeholders in the statements of a program are those that its issues
tell of. -/
theorem placeholders_readAll (hc : c.InText) :
    ((readAll c).1.filterMap (toStmt? mode)).flatMap Stmt.placeholders
      = ((readAll c).1.flatMap issues).filterMap Issue.placeholder? :=
  placeholders_readUpTo mode _ hc

end Attempt

/-! ### Source texts -/

/-- The lexer reports no problem of an expression. -/
theorem Scans.isOfExpression_issues {before cs : List Char} {ts : List SourceToken}
    {is : List Issue} (h : Scans before cs ts is) :
    ∀ i ∈ is, i.problem.isOfExpression = false := by
  induction h with
  | done => exact List.forall_mem_nil _
  | gap kind fits rest ih => exact ih
  | @token before text behind kind flaw span ts is fits place rest ih =>
    cases flaw with
    | none => exact ih
    | some problem =>
      refine List.forall_mem_cons.mpr ⟨?_, ih⟩
      show problem.isOfExpression = false
      generalize hk : LexemeKind.token kind (some problem) = k at fits
      cases fits with
      | number numeral spelled =>
        obtain ⟨-, hflaw⟩ := LexemeKind.token.inj hk
        split at hflaw
        · cases hflaw
        · cases hflaw
          rfl
      | unclosed inside right => cases hk; rfl
      | unclosedEscape inside right => cases hk; rfl
      | unknown blank quote name alone pair => cases hk; rfl
      | _ => cases hk

/-- Issues that leave no placeholders do not matter, wherever they are merged in. -/
theorem filterMap_placeholder?_mergeIssues {earlier later : List Issue}
    (hearlier : ∀ i ∈ earlier, i.problem.isOfExpression = false)
    (hlater : later.Pairwise fun i j => i.span.start < j.span.start) :
    (mergeIssues earlier later).filterMap Issue.placeholder?
      = later.filterMap Issue.placeholder? := by
  have hnone : earlier.filterMap Issue.placeholder? = [] :=
    List.filterMap_eq_nil_iff.mpr fun i hi => Issue.placeholder?_eq_none (hearlier i hi)
  -- Sorting keeps the order of the later issues, and adds only some without placeholders.
  have hkept := (List.sublist_mergeSort Issue.notBehind_trans Issue.notBehind_total
    (hlater.imp fun h => Issue.notBehind_iff.mpr (Nat.le_of_lt h))
    (List.sublist_append_right earlier later)).filterMap Issue.placeholder?
  have hperm := (List.mergeSort_perm (earlier ++ later) Issue.notBehind).filterMap
    Issue.placeholder?
  rw [List.filterMap_append, hnone, List.nil_append] at hperm
  exact (hkept.eq_of_length hperm.length_eq.symm).symm

/-- Placeholders in trees, and all issues of the text that they were read from. -/
structure Placeholder.Reported (placeholders : List Placeholder) (issues : List Issue) : Prop where
  /-- They correspond one by one and in order. -/
  told : placeholders = issues.filterMap Issue.placeholder?
  /-- Only operands and names behind dots are ever missing. -/
  named : ∀ span, .name span ∉ placeholders
  /-- If nothing is wrong with an expression then nothing is missing. -/
  complete : (∀ i ∈ issues, i.problem.isOfExpression = false) → placeholders = []

/-- As lists are equal, so are their members and their lengths. -/
theorem Placeholder.reported_of_eq {placeholders : List Placeholder} {issues : List Issue}
    (h : placeholders = issues.filterMap Issue.placeholder?) : Reported placeholders issues where
  told := h
  named span hmem := by
    rw [h] at hmem
    obtain ⟨i, -, hi⟩ := List.mem_filterMap.mp hmem
    unfold Issue.placeholder? at hi
    split at hi
    · split at hi <;> cases hi
    · cases hi
    · cases hi
  complete hall :=
    h.trans (List.filterMap_eq_nil_iff.mpr fun i hi => Issue.placeholder?_eq_none (hall i hi))

/-- **Placeholders and their reports correspond**, for every source text and in
both modes, whether it is read as an expression or as a program. -/
theorem reported_placeholders (mode : Reduction) (source : String) :
    Placeholder.Reported (parseExpression mode source).expr.placeholders
        (parseExpression mode source).issues ∧
      Placeholder.Reported ((parseProgram mode source).statements.flatMap Stmt.placeholders)
        (parseProgram mode source).issues := by
  have htext := Cursor.inText_ofTokens_lex source
  have hlexer := (scans_lex source).isOfExpression_issues
  refine ⟨Placeholder.reported_of_eq ?_, Placeholder.reported_of_eq ?_⟩
  · refine (Chain.placeholders_read mode htext).trans ?_
    exact (filterMap_placeholder?_mergeIssues hlexer (Chain.reports_read htext).ordered).symm
  · refine (Attempt.placeholders_readAll mode htext).trans ?_
    exact (filterMap_placeholder?_mergeIssues hlexer (Attempt.reports_readAll htext).ordered).symm

/-- The plus is taken for a name, and the last parenthesis for an operand. -/
example :
    (parseExpression .singleStep "f(a.+) * )").expr.placeholders
      = [.member false ⟨4, 4⟩, .operand ⟨.symbol .closeParen, ⟨9, 10⟩⟩ ⟨9, 10⟩] := by
  decide +kernel

end ExprFrontEnd
