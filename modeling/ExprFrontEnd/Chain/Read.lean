import ExprFrontEnd.Chain
import ExprFrontEnd.Cursor

/-!
# `ExprFrontEnd.Chain.Read`: reading an expression

`Chain.read` reads the chain at a cursor and gives the cursor behind its terminator. It never fails:
tokens out of place become part of the chain. The readers of the parts of a chain call each other,
so they share a bound on the depth of their calls. Every call but a few in a row passes a token,
hence five steps for each token ahead are enough (`Chain.isSome_readUpTo`), and `Chain.read` needs
no bound.
-/

set_option autoImplicit false

namespace ExprFrontEnd

mutual

/-- Reads a chain, with a bound on the depth of calls. -/
def Chain.readUpTo (s : Scope) : Nat → Cursor → Option (Chain × Cursor)
  | 0, _ => none
  | fuel + 1, c => do
    let (first, c) ← Operand.readUpTo s fuel c
    let (links, c) ← Links.readUpTo s fuel c
    return (.mk first links, c)

/-- Reads what follows an operand. -/
def Links.readUpTo (s : Scope) : Nat → Cursor → Option (Links × Cursor)
  | 0, _ => none
  | fuel + 1, c =>
    let t := c.peek s
    let behind := c.advance s
    match TerminatorKind.ofKind? t.kind with
    | some kind => some (.done ⟨kind, t⟩, behind)
    | none =>
      match BinaryOp.ofKind? t.kind with
      | some op => do
        let (operand, c) ← Operand.readUpTo s fuel behind
        let (rest, c) ← Links.readUpTo s fuel c
        return (.link op t operand rest, c)
      | none => do
        let (rest, c) ← Links.readUpTo s fuel behind
        return (.stray t rest, c)

/-- Reads signs and the operand behind them. -/
def Operand.readUpTo (s : Scope) : Nat → Cursor → Option (Operand × Cursor)
  | 0, _ => none
  | fuel + 1, c =>
    let t := c.peek s
    let behind := c.advance s
    match UnaryOp.ofKind? t.kind with
    | some op => do
      let (operand, c) ← Operand.readUpTo s fuel behind
      return (.signed op t operand, c)
    | none => do
      let (primary, c) ← Primary.readUpTo s fuel c
      return (.bare primary, c)

/-- Reads an operand without signs. -/
def Primary.readUpTo (s : Scope) : Nat → Cursor → Option (Primary × Cursor)
  | 0, _ => none
  | fuel + 1, c =>
    let t := c.peek s
    let behind := c.advance s
    if t.kind.opensOperand || t.kind.closesOperand then do
      let (atom, c) ← Atom.readUpTo s fuel c
      let (accessors, c) ← Accessors.readUpTo s fuel c
      return (.atom atom accessors, c)
    else do
      let (rest, c) ← Primary.readUpTo s fuel behind
      return (.stray t rest, c)

/-- Reads an atom. -/
def Atom.readUpTo (s : Scope) : Nat → Cursor → Option (Atom × Cursor)
  | 0, _ => none
  | fuel + 1, c =>
    let t := c.peek s
    let behind := c.advance s
    match t.kind with
    | .number value => some (.number value t.span, behind)
    | .string value => some (.string value t.span, behind)
    | .identifier name => some (.name name t.span, behind)
    | .symbol .openParen => do
      let (inner, c) ← Chain.readUpTo s fuel behind
      return (.group t inner, c)
    | .symbol .openBracket => do
      let (elems, c) ← Items.readUpTo s fuel behind
      return (.array t elems, c)
    | _ => some (.missing t, behind)

/-- Reads the accessors behind an atom. -/
def Accessors.readUpTo (s : Scope) : Nat → Cursor → Option (Accessors × Cursor)
  | 0, _ => none
  | fuel + 1, c =>
    let t := c.peek s
    let behind := c.advance s
    match t.kind.accessor? with
    | none => some (.none, c)
    | some (.call, optional) => do
      let (args, c) ← Items.readUpTo s fuel behind
      let (rest, c) ← Accessors.readUpTo s fuel c
      return (.call optional t args rest, c)
    | some (.index, optional) => do
      let (inner, c) ← Chain.readUpTo s fuel behind
      let (rest, c) ← Accessors.readUpTo s fuel c
      return (.index optional t inner rest, c)
    | some (.member, optional) => do
      let found := behind.peek s
      let (rest, c) ← Accessors.readUpTo s fuel (behind.advance s)
      return (.member optional t found rest, c)

/-- Reads chains up to the first that does not end in a comma. -/
def Items.readUpTo (s : Scope) : Nat → Cursor → Option (Items × Cursor)
  | 0, _ => none
  | fuel + 1, c => do
    let (item, c) ← Chain.readUpTo s fuel c
    if item.terminator.kind = .comma then
      let (rest, c) ← Items.readUpTo s fuel c
      return (.more item rest, c)
    else
      return (.last item, c)

end

/-! ### The bound suffices -/

/-- What holds of the readers with this bound: below their own share of it they have an answer, and
the answer leaves no more tokens ahead than there were. A chain leaves fewer unless it ends at an
end of input. -/
private structure Enough (s : Scope) (fuel : Nat) : Prop where
  chain : ∀ c : Cursor, 5 * c.remaining + 4 ≤ fuel → ∃ r d, Chain.readUpTo s fuel c = some (r, d) ∧
    d.remaining ≤ c.remaining ∧ (r.terminator.kind ≠ .eof → d.remaining < c.remaining)
  links : ∀ c : Cursor, 5 * c.remaining + 1 ≤ fuel → ∃ r d, Links.readUpTo s fuel c = some (r, d) ∧
    d.remaining ≤ c.remaining ∧ (r.terminator.kind ≠ .eof → d.remaining < c.remaining)
  operand : ∀ c : Cursor, 5 * c.remaining + 3 ≤ fuel →
    ∃ r d, Operand.readUpTo s fuel c = some (r, d) ∧ d.remaining ≤ c.remaining
  primary : ∀ c : Cursor, 5 * c.remaining + 2 ≤ fuel →
    ∃ r d, Primary.readUpTo s fuel c = some (r, d) ∧ d.remaining ≤ c.remaining
  atom : ∀ c : Cursor, 5 * c.remaining + 1 ≤ fuel →
    ∃ r d, Atom.readUpTo s fuel c = some (r, d) ∧ d.remaining ≤ c.remaining
  accessors : ∀ c : Cursor, 5 * c.remaining + 1 ≤ fuel →
    ∃ r d, Accessors.readUpTo s fuel c = some (r, d) ∧ d.remaining ≤ c.remaining
  items : ∀ c : Cursor, 5 * c.remaining + 5 ≤ fuel →
    ∃ r d, Items.readUpTo s fuel c = some (r, d) ∧ d.remaining ≤ c.remaining

/-- A token with a meaning that the end of input has not is passed. -/
private theorem passes {β : Type} {s : Scope} {c : Cursor} {f : TokenKind → Option β} {b : β}
    (hf : f (c.peek s).kind = some b) (he : f .eof = none) :
    (c.advance s).remaining < c.remaining :=
  Cursor.remaining_advance_lt fun h => by simp [h, he] at hf

/-- With no bound there is nothing to show: every share is more than zero. -/
private theorem enough_zero (s : Scope) : Enough s 0 where
  chain c h := by omega
  links c h := by omega
  operand c h := by omega
  primary c h := by omega
  atom c h := by omega
  accessors c h := by omega
  items c h := by omega

/-- A chain passes the rest of its bound to its operand and then to its links. -/
private theorem enough_chain {s : Scope} {fuel : Nat} (ih : Enough s fuel) (c : Cursor)
    (h : 5 * c.remaining + 4 ≤ fuel + 1) :
    ∃ r d, Chain.readUpTo s (fuel + 1) c = some (r, d) ∧ d.remaining ≤ c.remaining ∧
      (r.terminator.kind ≠ .eof → d.remaining < c.remaining) := by
  obtain ⟨o, c₁, ho, h₁⟩ := ih.operand c (by omega)
  obtain ⟨l, c₂, hl, h₂, h₃⟩ := ih.links c₁ (by omega)
  refine ⟨.mk o l, c₂, by simp [Chain.readUpTo, ho, hl], by omega, fun hk => ?_⟩
  have := h₃ (by simpa [Chain.terminator] using hk)
  omega

/-- Links go on behind a token that is passed, unless they end at the terminator. -/
private theorem enough_links {s : Scope} {fuel : Nat} (ih : Enough s fuel) (c : Cursor)
    (h : 5 * c.remaining + 1 ≤ fuel + 1) :
    ∃ r d, Links.readUpTo s (fuel + 1) c = some (r, d) ∧ d.remaining ≤ c.remaining ∧
      (r.terminator.kind ≠ .eof → d.remaining < c.remaining) := by
  have hle := Cursor.remaining_advance_le s c
  cases hk : TerminatorKind.ofKind? (c.peek s).kind with
  | some kind =>
    refine ⟨.done ⟨kind, c.peek s⟩, c.advance s, by simp [Links.readUpTo, hk], hle, ?_⟩
    -- Only an end of the input is not passed.
    intro hne
    refine Cursor.remaining_advance_lt fun he => hne ?_
    simpa [he, TerminatorKind.ofKind?, Links.terminator, eq_comm] using hk
  | none =>
    have hlt : (c.advance s).remaining < c.remaining :=
      Cursor.remaining_advance_lt fun he => by simp [he, TerminatorKind.ofKind?] at hk
    cases hb : BinaryOp.ofKind? (c.peek s).kind with
    | some op =>
      -- The operator is passed, so there is fuel for the operand and for what is behind it.
      obtain ⟨o, c₁, ho, h₁⟩ := ih.operand (c.advance s) (by omega)
      obtain ⟨l, c₂, hl, h₂, _⟩ := ih.links c₁ (by omega)
      exact ⟨.link op (c.peek s) o l, c₂, by simp [Links.readUpTo, hk, hb, ho, hl],
        by omega, fun _ => by omega⟩
    | none =>
      obtain ⟨l, c₂, hl, h₂, _⟩ := ih.links (c.advance s) (by omega)
      exact ⟨.stray (c.peek s) l, c₂, by simp [Links.readUpTo, hk, hb, hl],
        by omega, fun _ => by omega⟩

/-- A sign is passed. Without one the operand without signs has the next smaller share. -/
private theorem enough_operand {s : Scope} {fuel : Nat} (ih : Enough s fuel) (c : Cursor)
    (h : 5 * c.remaining + 3 ≤ fuel + 1) :
    ∃ r d, Operand.readUpTo s (fuel + 1) c = some (r, d) ∧ d.remaining ≤ c.remaining := by
  cases hk : UnaryOp.ofKind? (c.peek s).kind with
  | some op =>
    have hlt := passes hk rfl
    obtain ⟨o, c₁, ho, h₁⟩ := ih.operand (c.advance s) (by omega)
    exact ⟨.signed op (c.peek s) o, c₁, by simp [Operand.readUpTo, hk, ho], by omega⟩
  | none =>
    obtain ⟨p, c₁, hp, h₁⟩ := ih.primary c (by omega)
    exact ⟨.bare p, c₁, by simp [Operand.readUpTo, hk, hp], h₁⟩

/-- A token that starts no operand is passed, and otherwise an atom is read in front of its
accessors. -/
private theorem enough_primary {s : Scope} {fuel : Nat} (ih : Enough s fuel) (c : Cursor)
    (h : 5 * c.remaining + 2 ≤ fuel + 1) :
    ∃ r d, Primary.readUpTo s (fuel + 1) c = some (r, d) ∧ d.remaining ≤ c.remaining := by
  by_cases hk : ((c.peek s).kind.opensOperand || (c.peek s).kind.closesOperand) = true
  · obtain ⟨a, c₁, ha, h₁⟩ := ih.atom c (by omega)
    obtain ⟨l, c₂, hl, h₂⟩ := ih.accessors c₁ (by omega)
    exact ⟨.atom a l, c₂, by simp [Primary.readUpTo, hk, ha, hl], by omega⟩
  · have hlt : (c.advance s).remaining < c.remaining :=
      Cursor.remaining_advance_lt fun he => hk (by simp [he, TokenKind.closesOperand])
    obtain ⟨p, c₁, hp, h₁⟩ := ih.primary (c.advance s) (by omega)
    exact ⟨.stray (c.peek s) p, c₁, by simp [Primary.readUpTo, hk, hp], by omega⟩

/-- Only a group and an array read on, behind a delimiter that is passed. -/
private theorem enough_atom {s : Scope} {fuel : Nat} (ih : Enough s fuel) (c : Cursor)
    (h : 5 * c.remaining + 1 ≤ fuel + 1) :
    ∃ r d, Atom.readUpTo s (fuel + 1) c = some (r, d) ∧ d.remaining ≤ c.remaining := by
  have hle := Cursor.remaining_advance_le s c
  simp only [Atom.readUpTo]
  split
  · exact ⟨_, _, rfl, hle⟩
  · exact ⟨_, _, rfl, hle⟩
  · exact ⟨_, _, rfl, hle⟩
  -- A parenthesis or a bracket is passed before what it encloses is read.
  · rename_i hk
    have hlt : (c.advance s).remaining < c.remaining :=
      Cursor.remaining_advance_lt (by simp [hk])
    obtain ⟨r, c₁, hr, h₁, _⟩ := ih.chain (c.advance s) (by omega)
    exact ⟨.group (c.peek s) r, c₁, by simp [hr], by omega⟩
  · rename_i hk
    have hlt : (c.advance s).remaining < c.remaining :=
      Cursor.remaining_advance_lt (by simp [hk])
    obtain ⟨r, c₁, hr, h₁⟩ := ih.items (c.advance s) (by omega)
    exact ⟨.array (c.peek s) r, c₁, by simp [hr], by omega⟩
  · exact ⟨_, _, rfl, hle⟩

/-- Every accessor is passed before what is inside of it is read. -/
private theorem enough_accessors {s : Scope} {fuel : Nat} (ih : Enough s fuel) (c : Cursor)
    (h : 5 * c.remaining + 1 ≤ fuel + 1) :
    ∃ r d, Accessors.readUpTo s (fuel + 1) c = some (r, d) ∧ d.remaining ≤ c.remaining := by
  cases hk : (c.peek s).kind.accessor? with
  | none => exact ⟨.none, c, by simp [Accessors.readUpTo, hk], Nat.le_refl _⟩
  | some a =>
    have hlt := passes hk rfl
    obtain ⟨kind, optional⟩ := a
    cases kind with
    | call =>
      obtain ⟨r, c₁, hr, h₁⟩ := ih.items (c.advance s) (by omega)
      obtain ⟨l, c₂, hl, h₂⟩ := ih.accessors c₁ (by omega)
      exact ⟨.call optional (c.peek s) r l, c₂,
        by simp [Accessors.readUpTo, hk, hr, hl], by omega⟩
    | index =>
      obtain ⟨r, c₁, hr, h₁, _⟩ := ih.chain (c.advance s) (by omega)
      obtain ⟨l, c₂, hl, h₂⟩ := ih.accessors c₁ (by omega)
      exact ⟨.index optional (c.peek s) r l, c₂,
        by simp [Accessors.readUpTo, hk, hr, hl], by omega⟩
    | member =>
      -- The token behind the dot may be an end, which is not passed.
      have hle := Cursor.remaining_advance_le s (c.advance s)
      obtain ⟨l, c₂, hl, h₂⟩ := ih.accessors ((c.advance s).advance s) (by omega)
      exact ⟨.member optional (c.peek s) ((c.advance s).peek s) l, c₂,
        by simp [Accessors.readUpTo, hk, hl], by omega⟩

/-- The next item stands behind a comma, so the chain in front of it left fewer tokens ahead. -/
private theorem enough_items {s : Scope} {fuel : Nat} (ih : Enough s fuel) (c : Cursor)
    (h : 5 * c.remaining + 5 ≤ fuel + 1) :
    ∃ r d, Items.readUpTo s (fuel + 1) c = some (r, d) ∧ d.remaining ≤ c.remaining := by
  obtain ⟨r, c₁, hr, h₁, h₂⟩ := ih.chain c (by omega)
  by_cases hk : r.terminator.kind = .comma
  · have := h₂ (by simp [hk])
    obtain ⟨l, c₂, hl, h₃⟩ := ih.items c₁ (by omega)
    exact ⟨.more r l, c₂, by simp [Items.readUpTo, hr, hk, hl], by omega⟩
  · exact ⟨.last r, c₁, by simp [Items.readUpTo, hr, hk], h₁⟩

/-- All readers have enough of any bound: the induction is on the bound, for all of them at
once. -/
private theorem enough (s : Scope) (fuel : Nat) : Enough s fuel := by
  induction fuel with
  | zero => exact enough_zero s
  | succ fuel ih =>
    exact ⟨enough_chain ih, enough_links ih, enough_operand ih, enough_primary ih, enough_atom ih,
      enough_accessors ih, enough_items ih⟩

namespace Chain

/-- A depth of calls that is enough to read the chain at a cursor. -/
def depth (c : Cursor) : Nat := 5 * c.remaining + 4

/-- Any bound from `depth` on is enough to read the chain at a cursor. -/
theorem isSome_readUpTo_of_le (s : Scope) {c : Cursor} {fuel : Nat} (h : depth c ≤ fuel) :
    (readUpTo s fuel c).isSome = true := by
  obtain ⟨r, d, hr, _⟩ := (enough s fuel).chain c h
  simp [hr]

/-- The bound of `read` is enough. -/
theorem isSome_readUpTo (s : Scope) (c : Cursor) : (readUpTo s (depth c) c).isSome = true :=
  isSome_readUpTo_of_le s (Nat.le_refl _)

/-- The chain at a cursor, and the cursor behind its terminator. -/
def read (s : Scope) (c : Cursor) : Chain × Cursor :=
  (readUpTo s (depth c) c).get (isSome_readUpTo s c)

end Chain

end ExprFrontEnd
