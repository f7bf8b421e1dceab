import ExprFrontEnd.Chain.Read

/-!
# `ExprFrontEnd.Proofs.Between`: which chain stands between two cursors

`Chain.read` is a family of readers that call each other under a bound on
the depth of their calls. `Chain.Between` says what they find without a
bound: that a chain stands between two cursors, by recursion on the chain. A
chain holds every token that was read for it, so this is the grammar of
`ExprFrontEnd.Chain` with the places filled in. It covers what is out of
place as well, and there is a chain at every cursor.

* `Chain.between_read`: what is read stands there.
* `Chain.read_eq`: what stands there is read. A chain is thus determined by
  the cursor it starts at.

The second fact needs no bound on the depth of calls that suffices. The
readers give an answer (`Chain.isSome_readUpTo`), and no bound lets them give
another one than what stands there.
-/

set_option autoImplicit false

namespace ExprFrontEnd

mutual

/-- A chain stands between two cursors: an operand and what follows it. -/
def Chain.Between (s : Scope) : Chain → Cursor → Cursor → Prop
  | .mk first links, c, e => ∃ d, first.Between s c d ∧ links.Between s d e

/-- What follows an operand: a terminator, a token that is none and joins no
operands, or an operator with its right operand. -/
def Links.Between (s : Scope) : Links → Cursor → Cursor → Prop
  | .done terminator, c, e =>
    terminator.token = c.peek s ∧
      TerminatorKind.ofKind? (c.peek s).kind = some terminator.kind ∧ e = c.advance s
  | .stray token rest, c, e =>
    token = c.peek s ∧ TerminatorKind.ofKind? (c.peek s).kind = none ∧
      BinaryOp.ofKind? (c.peek s).kind = none ∧ rest.Between s (c.advance s) e
  | .link op token operand rest, c, e =>
    token = c.peek s ∧ BinaryOp.ofKind? (c.peek s).kind = some op ∧
      ∃ d, operand.Between s (c.advance s) d ∧ rest.Between s d e

/-- Signs, and behind them an operand that starts with none. -/
def Operand.Between (s : Scope) : Operand → Cursor → Cursor → Prop
  | .signed op token operand, c, e =>
    token = c.peek s ∧ UnaryOp.ofKind? (c.peek s).kind = some op ∧
      operand.Between s (c.advance s) e
  | .bare primary, c, e =>
    UnaryOp.ofKind? (c.peek s).kind = none ∧ primary.Between s c e

/-- Tokens that start no operand, and behind them an atom and its accessors. -/
def Primary.Between (s : Scope) : Primary → Cursor → Cursor → Prop
  | .stray token rest, c, e =>
    token = c.peek s ∧ (c.peek s).kind.opensOperand = false ∧
      (c.peek s).kind.closesOperand = false ∧ rest.Between s (c.advance s) e
  | .atom atom accessors, c, e => ∃ d, atom.Between s c d ∧ accessors.Between s d e

/-- A token that is an operand, a group, an array, or a token that closes
something and is taken for the missing operand. -/
def Atom.Between (s : Scope) : Atom → Cursor → Cursor → Prop
  | .number value span, c, e => c.peek s = ⟨.number value, span⟩ ∧ e = c.advance s
  | .string value span, c, e => c.peek s = ⟨.string value, span⟩ ∧ e = c.advance s
  | .name name span, c, e => c.peek s = ⟨.identifier name, span⟩ ∧ e = c.advance s
  | .group opening inner, c, e =>
    opening = c.peek s ∧ (c.peek s).kind = .symbol .openParen ∧ inner.Between s (c.advance s) e
  | .array opening elems, c, e =>
    opening = c.peek s ∧ (c.peek s).kind = .symbol .openBracket ∧ elems.Between s (c.advance s) e
  | .missing found, c, e =>
    found = c.peek s ∧ (c.peek s).kind.closesOperand = true ∧ e = c.advance s

/-- Calls, indexes and members up to a token that starts none. -/
def Accessors.Between (s : Scope) : Accessors → Cursor → Cursor → Prop
  | .none, c, e => (c.peek s).kind.accessor? = .none ∧ e = c
  | .call optional opening args rest, c, e =>
    opening = c.peek s ∧ (c.peek s).kind.accessor? = some (.call, optional) ∧
      ∃ d, args.Between s (c.advance s) d ∧ rest.Between s d e
  | .index optional opening inner rest, c, e =>
    opening = c.peek s ∧ (c.peek s).kind.accessor? = some (.index, optional) ∧
      ∃ d, inner.Between s (c.advance s) d ∧ rest.Between s d e
  | .member optional dot found rest, c, e =>
    dot = c.peek s ∧ (c.peek s).kind.accessor? = some (.member, optional) ∧
      found = (c.advance s).peek s ∧ rest.Between s ((c.advance s).advance s) e

/-- Chains up to the first one that no comma ends. -/
def Items.Between (s : Scope) : Items → Cursor → Cursor → Prop
  | .last item, c, e => item.Between s c e ∧ item.terminator.kind ≠ .comma
  | .more item rest, c, e =>
    ∃ d, item.Between s c d ∧ item.terminator.kind = .comma ∧ rest.Between s d e

end

/-! ### What ends the accessors -/

/-- A terminator starts no accessor. -/
theorem TokenKind.accessor?_eq_none_of_terminator {kind : TokenKind} {t : TerminatorKind}
    (h : TerminatorKind.ofKind? kind = some t) : kind.accessor? = none := by
  revert h
  unfold TerminatorKind.ofKind?
  split <;> simp [accessor?]

/-- A binary operator starts no accessor. -/
theorem TokenKind.accessor?_symbol_binaryOp (op : BinaryOp) :
    (TokenKind.symbol op.symbol).accessor? = none := by
  cases op <;> rfl

/-! ### What is read stands there -/

/-- The answers of the readers with this bound stand where they were read. -/
private structure Sound (s : Scope) (fuel : Nat) : Prop where
  chain : ∀ {c d : Cursor} {r : Chain}, Chain.readUpTo s fuel c = some (r, d) → r.Between s c d
  links : ∀ {c d : Cursor} {r : Links}, Links.readUpTo s fuel c = some (r, d) → r.Between s c d
  operand : ∀ {c d : Cursor} {r : Operand},
    Operand.readUpTo s fuel c = some (r, d) → r.Between s c d
  primary : ∀ {c d : Cursor} {r : Primary},
    Primary.readUpTo s fuel c = some (r, d) → r.Between s c d
  atom : ∀ {c d : Cursor} {r : Atom},
    ((c.peek s).kind.opensOperand || (c.peek s).kind.closesOperand) = true →
      Atom.readUpTo s fuel c = some (r, d) → r.Between s c d
  accessors : ∀ {c d : Cursor} {r : Accessors},
    Accessors.readUpTo s fuel c = some (r, d) → r.Between s c d
  items : ∀ {c d : Cursor} {r : Items}, Items.readUpTo s fuel c = some (r, d) → r.Between s c d

/-- A chain stands there if its operand and its links do. -/
private theorem sound_chain {s : Scope} {fuel : Nat} (ih : Sound s fuel) {c d : Cursor} {r : Chain}
    (h : Chain.readUpTo s (fuel + 1) c = some (r, d)) : r.Between s c d := by
  simp only [Chain.readUpTo, Option.pure_def, Option.bind_eq_bind, Option.bind_eq_some_iff] at h
  obtain ⟨⟨first, c₁⟩, hf, ⟨links, c₂⟩, hl, he⟩ := h
  cases he
  exact ⟨c₁, ih.operand hf, ih.links hl⟩

/-- Links stand there, with the token that each of them was read from. -/
private theorem sound_links {s : Scope} {fuel : Nat} (ih : Sound s fuel) {c d : Cursor} {r : Links}
    (h : Links.readUpTo s (fuel + 1) c = some (r, d)) : r.Between s c d := by
  simp only [Links.readUpTo, Option.pure_def, Option.bind_eq_bind] at h
  split at h
  · rename_i kind hk
    cases h
    exact ⟨rfl, hk, rfl⟩
  · rename_i hk
    split at h
    · rename_i op hop
      simp only [Option.bind_eq_some_iff] at h
      obtain ⟨⟨operand, c₁⟩, ho, ⟨rest, c₂⟩, hr, he⟩ := h
      cases he
      exact ⟨rfl, hop, c₁, ih.operand ho, ih.links hr⟩
    -- Neither a terminator nor an operator: a stray.
    · rename_i hop
      simp only [Option.bind_eq_some_iff] at h
      obtain ⟨⟨rest, c₁⟩, hr, he⟩ := h
      cases he
      exact ⟨rfl, hk, hop, ih.links hr⟩

/-- An operand stands there, with its sign or without one. -/
private theorem sound_operand {s : Scope} {fuel : Nat} (ih : Sound s fuel) {c d : Cursor}
    {r : Operand} (h : Operand.readUpTo s (fuel + 1) c = some (r, d)) : r.Between s c d := by
  simp only [Operand.readUpTo, Option.pure_def, Option.bind_eq_bind] at h
  split at h
  · rename_i op hop
    simp only [Option.bind_eq_some_iff] at h
    obtain ⟨⟨operand, c₁⟩, ho, he⟩ := h
    cases he
    exact ⟨rfl, hop, ih.operand ho⟩
  · rename_i hop
    simp only [Option.bind_eq_some_iff] at h
    obtain ⟨⟨primary, c₁⟩, hp, he⟩ := h
    cases he
    exact ⟨hop, ih.primary hp⟩

/-- Skipped tokens stand in front of an atom that opens or closes an operand. -/
private theorem sound_primary {s : Scope} {fuel : Nat} (ih : Sound s fuel) {c d : Cursor}
    {r : Primary} (h : Primary.readUpTo s (fuel + 1) c = some (r, d)) : r.Between s c d := by
  simp only [Primary.readUpTo, Option.pure_def, Option.bind_eq_bind] at h
  split at h
  · rename_i hk
    simp only [Option.bind_eq_some_iff] at h
    obtain ⟨⟨atom, c₁⟩, ha, ⟨accessors, c₂⟩, hs, he⟩ := h
    cases he
    exact ⟨c₁, ih.atom hk ha, ih.accessors hs⟩
  · rename_i hk
    -- A stray token neither starts nor closes an operand.
    rw [Bool.or_eq_true, not_or, Bool.not_eq_true, Bool.not_eq_true] at hk
    simp only [Option.bind_eq_some_iff] at h
    obtain ⟨⟨rest, c₁⟩, hr, he⟩ := h
    cases he
    exact ⟨rfl, hk.1, hk.2, ih.primary hr⟩

/-- An atom stands there. That its token opens or closes an operand is known by the caller. -/
private theorem sound_atom {s : Scope} {fuel : Nat} (ih : Sound s fuel) {c d : Cursor} {r : Atom}
    (hk : ((c.peek s).kind.opensOperand || (c.peek s).kind.closesOperand) = true)
    (h : Atom.readUpTo s (fuel + 1) c = some (r, d)) : r.Between s c d := by
  simp only [Atom.readUpTo, Option.pure_def, Option.bind_eq_bind] at h
  split at h
  · rename_i hv
    cases h
    exact ⟨by rw [← hv], rfl⟩
  · rename_i hv
    cases h
    exact ⟨by rw [← hv], rfl⟩
  · rename_i hv
    cases h
    exact ⟨by rw [← hv], rfl⟩
  · rename_i hv
    simp only [Option.bind_eq_some_iff] at h
    obtain ⟨⟨inner, c₁⟩, hi, he⟩ := h
    cases he
    exact ⟨rfl, hv, ih.chain hi⟩
  · rename_i hv
    simp only [Option.bind_eq_some_iff] at h
    obtain ⟨⟨elems, c₁⟩, hi, he⟩ := h
    cases he
    exact ⟨rfl, hv, ih.items hi⟩
  · -- No token that starts an atom, so it closes something.
    rename_i h₁ h₂ h₃ h₄ h₅
    cases h
    refine ⟨rfl, ?_, rfl⟩
    revert hk h₁ h₂ h₃ h₄ h₅
    generalize (c.peek s).kind = kind
    unfold TokenKind.opensOperand
    split <;> simp_all

/-- Accessors stand there up to a token that starts none. -/
private theorem sound_accessors {s : Scope} {fuel : Nat} (ih : Sound s fuel) {c d : Cursor}
    {r : Accessors} (h : Accessors.readUpTo s (fuel + 1) c = some (r, d)) : r.Between s c d := by
  simp only [Accessors.readUpTo, Option.pure_def, Option.bind_eq_bind] at h
  split at h
  · rename_i hk
    cases h
    exact ⟨hk, rfl⟩
  · rename_i optional hk
    simp only [Option.bind_eq_some_iff] at h
    obtain ⟨⟨args, c₁⟩, ha, ⟨rest, c₂⟩, hr, he⟩ := h
    cases he
    exact ⟨rfl, hk, c₁, ih.items ha, ih.accessors hr⟩
  · rename_i optional hk
    simp only [Option.bind_eq_some_iff] at h
    obtain ⟨⟨inner, c₁⟩, hi, ⟨rest, c₂⟩, hr, he⟩ := h
    cases he
    exact ⟨rfl, hk, c₁, ih.chain hi, ih.accessors hr⟩
  · rename_i optional hk
    simp only [Option.bind_eq_some_iff] at h
    obtain ⟨⟨rest, c₁⟩, hr, he⟩ := h
    cases he
    exact ⟨rfl, hk, rfl, ih.accessors hr⟩

/-- Items stand there up to the first chain that no comma ends. -/
private theorem sound_items {s : Scope} {fuel : Nat} (ih : Sound s fuel) {c d : Cursor} {r : Items}
    (h : Items.readUpTo s (fuel + 1) c = some (r, d)) : r.Between s c d := by
  simp only [Items.readUpTo, Option.pure_def, Option.bind_eq_bind, Option.bind_eq_some_iff] at h
  obtain ⟨⟨item, c₁⟩, hi, h⟩ := h
  split at h
  · rename_i hk
    simp only [Option.bind_eq_some_iff] at h
    obtain ⟨⟨rest, c₂⟩, hr, he⟩ := h
    cases he
    exact ⟨c₁, ih.chain hi, hk, ih.items hr⟩
  · rename_i hk
    cases h
    exact ⟨ih.chain hi, hk⟩

/-- Whatever the bound, what is read stands where it was read. The induction is on the bound. -/
private theorem sound (s : Scope) (fuel : Nat) : Sound s fuel := by
  -- Each reader calls the others with one step less, so the induction is on the bound.
  induction fuel with
  | zero => exact ⟨nofun, nofun, nofun, nofun, nofun, nofun, nofun⟩
  | succ fuel ih =>
    exact ⟨sound_chain ih, sound_links ih, sound_operand ih, sound_primary ih, sound_atom ih,
      sound_accessors ih, sound_items ih⟩

/-- What is read at a cursor stands there. -/
theorem Chain.between_read (s : Scope) (c : Cursor) :
    (read s c).1.Between s c (read s c).2 := by
  have h : readUpTo s (depth c) c = some ((read s c).1, (read s c).2) :=
    (Option.some_get (isSome_readUpTo s c)).symm
  exact (sound s (depth c)).chain h

/-! ### What stands there is read -/

/-- An operator ends no expression. -/
theorem TerminatorKind.ofKind?_eq_none_of_binaryOp {kind : TokenKind} {op : BinaryOp}
    (h : BinaryOp.ofKind? kind = some op) : ofKind? kind = none := by
  obtain rfl := BinaryOp.ofKind?_eq_some_iff.mp h
  cases op <;> rfl

/-- An atom stands at a token that starts or closes an operand. -/
theorem Atom.opens_or_closes {s : Scope} {r : Atom} {c d : Cursor} (h : r.Between s c d) :
    ((c.peek s).kind.opensOperand || (c.peek s).kind.closesOperand) = true := by
  cases r with
  | number value span => rw [h.1]; rfl
  | string value span => rw [h.1]; rfl
  | name name span => rw [h.1]; rfl
  | group opening inner => rw [h.2.1]; rfl
  | array opening elems => rw [h.2.1]; rfl
  | missing found => rw [h.2.1, Bool.or_true]

/-- A token that closes an operand is read as the missing operand itself. -/
theorem Atom.readUpTo_missing {s : Scope} {c : Cursor} {fuel : Nat}
    (h : (c.peek s).kind.closesOperand = true) :
    readUpTo s (fuel + 1) c = some (.missing (c.peek s), c.advance s) := by
  simp only [readUpTo]
  split <;> simp_all [TokenKind.closesOperand]

mutual

/-- Where a chain stands no reader finds another one: its parts are determined one after the
other. -/
private theorem Chain.readUpTo_unique {s : Scope} : (r : Chain) → {c d : Cursor} →
    r.Between s c d →
      ∀ {fuel : Nat} {y : Chain × Cursor}, Chain.readUpTo s fuel c = some y → y = (r, d)
  | .mk first links, c, e, ⟨d, hf, hl⟩, fuel, y, h => by
    cases fuel with
    | zero => cases h
    | succ fuel =>
      simp only [Chain.readUpTo, Option.pure_def, Option.bind_eq_bind,
        Option.bind_eq_some_iff] at h
      obtain ⟨y₁, h₁, y₂, h₂, he⟩ := h
      obtain rfl := Operand.readUpTo_unique first hf h₁
      obtain rfl := Links.readUpTo_unique links hl h₂
      exact (Option.some.inj he).symm

/-- At each token one case only is left for the links. -/
private theorem Links.readUpTo_unique {s : Scope} : (r : Links) → {c d : Cursor} →
    r.Between s c d →
      ∀ {fuel : Nat} {y : Links × Cursor}, Links.readUpTo s fuel c = some y → y = (r, d)
  | .done terminator, c, e, ⟨ht, hk, hc⟩, fuel, y, h => by
    cases fuel with
    | zero => cases h
    | succ fuel =>
      simp only [Links.readUpTo, hk] at h
      rw [← Option.some.inj h, hc, ← ht]
  | .stray token rest, c, e, ⟨ht, hk, hop, hr⟩, fuel, y, h => by
    cases fuel with
    | zero => cases h
    | succ fuel =>
      simp only [Links.readUpTo, hk, hop, Option.pure_def, Option.bind_eq_bind,
        Option.bind_eq_some_iff] at h
      obtain ⟨y₁, h₁, he⟩ := h
      obtain rfl := Links.readUpTo_unique rest hr h₁
      rw [← Option.some.inj he, ht]
  | .link op token operand rest, c, e, ⟨ht, hop, d, ho, hr⟩, fuel, y, h => by
    cases fuel with
    | zero => cases h
    | succ fuel =>
      -- The reader asks for a terminator first.
      have hk := TerminatorKind.ofKind?_eq_none_of_binaryOp hop
      simp only [Links.readUpTo, hk, hop, Option.pure_def, Option.bind_eq_bind,
        Option.bind_eq_some_iff] at h
      obtain ⟨y₁, h₁, y₂, h₂, he⟩ := h
      obtain rfl := Operand.readUpTo_unique operand ho h₁
      obtain rfl := Links.readUpTo_unique rest hr h₂
      rw [← Option.some.inj he, ht]

/-- The token tells a sign from anything else. -/
private theorem Operand.readUpTo_unique {s : Scope} : (r : Operand) → {c d : Cursor} →
    r.Between s c d →
      ∀ {fuel : Nat} {y : Operand × Cursor}, Operand.readUpTo s fuel c = some y → y = (r, d)
  | .signed op token operand, c, e, ⟨ht, hop, ho⟩, fuel, y, h => by
    cases fuel with
    | zero => cases h
    | succ fuel =>
      simp only [Operand.readUpTo, hop, Option.pure_def, Option.bind_eq_bind,
        Option.bind_eq_some_iff] at h
      obtain ⟨y₁, h₁, he⟩ := h
      obtain rfl := Operand.readUpTo_unique operand ho h₁
      rw [← Option.some.inj he, ht]
  | .bare primary, c, e, ⟨hop, hp⟩, fuel, y, h => by
    cases fuel with
    | zero => cases h
    | succ fuel =>
      simp only [Operand.readUpTo, hop, Option.pure_def, Option.bind_eq_bind,
        Option.bind_eq_some_iff] at h
      obtain ⟨y₁, h₁, he⟩ := h
      obtain rfl := Primary.readUpTo_unique primary hp h₁
      exact (Option.some.inj he).symm

/-- The token tells whether something is skipped. -/
private theorem Primary.readUpTo_unique {s : Scope} : (r : Primary) → {c d : Cursor} →
    r.Between s c d →
      ∀ {fuel : Nat} {y : Primary × Cursor}, Primary.readUpTo s fuel c = some y → y = (r, d)
  | .stray token rest, c, e, ⟨ht, ho, hc, hr⟩, fuel, y, h => by
    cases fuel with
    | zero => cases h
    | succ fuel =>
      simp only [Primary.readUpTo, ho, hc, Bool.or_self, Bool.false_eq_true, ↓reduceIte,
        Option.pure_def, Option.bind_eq_bind, Option.bind_eq_some_iff] at h
      obtain ⟨y₁, h₁, he⟩ := h
      obtain rfl := Primary.readUpTo_unique rest hr h₁
      rw [← Option.some.inj he, ht]
  | .atom atom accessors, c, e, ⟨d, ha, hs⟩, fuel, y, h => by
    cases fuel with
    | zero => cases h
    | succ fuel =>
      have hk := Atom.opens_or_closes ha
      simp only [Primary.readUpTo, hk, ↓reduceIte, Option.pure_def, Option.bind_eq_bind,
        Option.bind_eq_some_iff] at h
      obtain ⟨y₁, h₁, y₂, h₂, he⟩ := h
      obtain rfl := Atom.readUpTo_unique atom ha h₁
      obtain rfl := Accessors.readUpTo_unique accessors hs h₂
      exact (Option.some.inj he).symm

/-- The token tells which atom there is. -/
private theorem Atom.readUpTo_unique {s : Scope} : (r : Atom) → {c d : Cursor} →
    r.Between s c d →
      ∀ {fuel : Nat} {y : Atom × Cursor}, Atom.readUpTo s fuel c = some y → y = (r, d)
  | .number _ _, c, e, ⟨hv, hc⟩, fuel, y, h
  | .string _ _, c, e, ⟨hv, hc⟩, fuel, y, h
  | .name _ _, c, e, ⟨hv, hc⟩, fuel, y, h => by
    cases fuel with
    | zero => cases h
    | succ fuel =>
      simp only [Atom.readUpTo, hv] at h
      rw [← Option.some.inj h, hc]
  -- What is enclosed is known by recursion; the token in front has told which recursion it is.
  | .group opening inner, c, e, ⟨ht, hv, hi⟩, fuel, y, h => by
    cases fuel with
    | zero => cases h
    | succ fuel =>
      simp only [Atom.readUpTo, hv, Option.pure_def, Option.bind_eq_bind,
        Option.bind_eq_some_iff] at h
      obtain ⟨y₁, h₁, he⟩ := h
      obtain rfl := Chain.readUpTo_unique inner hi h₁
      rw [← Option.some.inj he, ht]
  | .array opening elems, c, e, ⟨ht, hv, hi⟩, fuel, y, h => by
    cases fuel with
    | zero => cases h
    | succ fuel =>
      simp only [Atom.readUpTo, hv, Option.pure_def, Option.bind_eq_bind,
        Option.bind_eq_some_iff] at h
      obtain ⟨y₁, h₁, he⟩ := h
      obtain rfl := Items.readUpTo_unique elems hi h₁
      rw [← Option.some.inj he, ht]
  | .missing found, c, e, ⟨ht, hk, hc⟩, fuel, y, h => by
    cases fuel with
    | zero => cases h
    | succ fuel =>
      rw [Atom.readUpTo_missing hk] at h
      rw [← Option.some.inj h, hc, ht]

/-- The token tells which accessor there is, or that there is none. -/
private theorem Accessors.readUpTo_unique {s : Scope} : (r : Accessors) → {c d : Cursor} →
    r.Between s c d →
      ∀ {fuel : Nat} {y : Accessors × Cursor}, Accessors.readUpTo s fuel c = some y → y = (r, d)
  | .none, c, e, ⟨hk, hc⟩, fuel, y, h => by
    cases fuel with
    | zero => cases h
    | succ fuel =>
      simp only [Accessors.readUpTo, hk] at h
      rw [← Option.some.inj h, hc]
  -- Two results are known by recursion: the items, and then the accessors behind them.
  | .call optional opening args rest, c, e, ⟨ht, hk, d, ha, hr⟩, fuel, y, h => by
    cases fuel with
    | zero => cases h
    | succ fuel =>
      simp only [Accessors.readUpTo, hk, Option.pure_def, Option.bind_eq_bind,
        Option.bind_eq_some_iff] at h
      obtain ⟨y₁, h₁, y₂, h₂, he⟩ := h
      obtain rfl := Items.readUpTo_unique args ha h₁
      obtain rfl := Accessors.readUpTo_unique rest hr h₂
      rw [← Option.some.inj he, ht]
  | .index optional opening inner rest, c, e, ⟨ht, hk, d, hi, hr⟩, fuel, y, h => by
    cases fuel with
    | zero => cases h
    | succ fuel =>
      simp only [Accessors.readUpTo, hk, Option.pure_def, Option.bind_eq_bind,
        Option.bind_eq_some_iff] at h
      obtain ⟨y₁, h₁, y₂, h₂, he⟩ := h
      obtain rfl := Chain.readUpTo_unique inner hi h₁
      obtain rfl := Accessors.readUpTo_unique rest hr h₂
      rw [← Option.some.inj he, ht]
  | .member optional dot found rest, c, e, ⟨ht, hk, hf, hr⟩, fuel, y, h => by
    cases fuel with
    | zero => cases h
    | succ fuel =>
      simp only [Accessors.readUpTo, hk, Option.pure_def, Option.bind_eq_bind,
        Option.bind_eq_some_iff] at h
      obtain ⟨y₁, h₁, he⟩ := h
      obtain rfl := Accessors.readUpTo_unique rest hr h₁
      rw [← Option.some.inj he, ht, hf]

/-- The terminator of a chain tells whether it is the last one. -/
private theorem Items.readUpTo_unique {s : Scope} : (r : Items) → {c d : Cursor} →
    r.Between s c d →
      ∀ {fuel : Nat} {y : Items × Cursor}, Items.readUpTo s fuel c = some y → y = (r, d)
  | .last item, c, e, ⟨hi, hk⟩, fuel, y, h => by
    cases fuel with
    | zero => cases h
    | succ fuel =>
      simp only [Items.readUpTo, Option.pure_def, Option.bind_eq_bind,
        Option.bind_eq_some_iff] at h
      obtain ⟨y₁, h₁, he⟩ := h
      obtain rfl := Chain.readUpTo_unique item hi h₁
      -- The chain is known, hence its terminator, and that one decides whether to go on.
      rw [if_neg hk] at he
      exact (Option.some.inj he).symm
  | .more item rest, c, e, ⟨d, hi, hk, hr⟩, fuel, y, h => by
    cases fuel with
    | zero => cases h
    | succ fuel =>
      simp only [Items.readUpTo, Option.pure_def, Option.bind_eq_bind,
        Option.bind_eq_some_iff] at h
      obtain ⟨y₁, h₁, he⟩ := h
      obtain rfl := Chain.readUpTo_unique item hi h₁
      rw [if_pos hk, Option.bind_eq_some_iff] at he
      obtain ⟨y₂, h₂, he⟩ := he
      obtain rfl := Items.readUpTo_unique rest hr h₂
      exact (Option.some.inj he).symm

end

/-- Every depth of calls that is enough gives the chain that is read. -/
theorem Chain.readUpTo_eq_read (s : Scope) {c : Cursor} {fuel : Nat} (h : depth c ≤ fuel) :
    readUpTo s fuel c = some (read s c) := by
  obtain ⟨y, hy⟩ := Option.isSome_iff_exists.mp (isSome_readUpTo_of_le s h)
  rw [hy, readUpTo_unique _ (between_read s c) hy]

/-- The chain that stands at a cursor is the one that is read there. -/
theorem Chain.read_eq {s : Scope} {r : Chain} {c d : Cursor} (h : r.Between s c d) :
    read s c = (r, d) :=
  readUpTo_unique r h (Option.some_get (isSome_readUpTo s c)).symm

end ExprFrontEnd
