import ExprFrontEnd.Proofs.Between
import ExprFrontEnd.Proofs.Readers

/-!
# `ExprFrontEnd.Proofs.Lockstep`: cursors that readers cannot tell apart

A reader of a chain knows a stream only by the token at its cursor and by what
comes when that is passed. So two cursors are as good as one another if they
show the same token and still do when both have moved on. They may be in
different streams, and be read in different scopes (`Cursor.Lockstep`).

* `Cursor.Lockstep.read`: the same chain is read at both of them, and the
  cursors behind it are related again.
* `Attempt.readAll_moved`: as an instance, the position of a cursor is only
  counted, and no reader looks at it. Readers of statements also look at what
  is ahead as a whole, so for them this goes from reader to reader.
-/

set_option autoImplicit false

namespace ExprFrontEnd

/-- A relation between the cursors of two streams, each with its scope, that
goes on when both are advanced, and shows the same token in both. -/
structure Cursor.Lockstep (s s' : Scope) (R : Cursor → Cursor → Prop) : Prop where
  peek {c d : Cursor} (h : R c d) : c.peek s = d.peek s'
  advance {c d : Cursor} (h : R c d) : R (c.advance s) (d.advance s')

section
variable {s s' : Scope} {R : Cursor → Cursor → Prop}

mutual

/-- What stands at a cursor also stands at one that it is in step with. -/
theorem Chain.Between.lockstep (hR : Cursor.Lockstep s s' R) : {r : Chain} → {c d e : Cursor} →
    r.Between s c e → R c d → ∃ e', r.Between s' d e' ∧ R e e'
  | .mk _ _, _, _, _, ⟨_, hf, hl⟩, h => by
    obtain ⟨d₁, hf', h₁⟩ := Operand.Between.lockstep hR hf h
    obtain ⟨e', hl', h'⟩ := Links.Between.lockstep hR hl h₁
    exact ⟨e', ⟨d₁, hf', hl'⟩, h'⟩

/-- Links are a token at a time: both cursors show it and move on behind it. -/
theorem Links.Between.lockstep (hR : Cursor.Lockstep s s' R) : {r : Links} → {c d e : Cursor} →
    r.Between s c e → R c d → ∃ e', r.Between s' d e' ∧ R e e'
  | .done _, _, d, _, ⟨ht, hk, he⟩, h => by
    rw [hR.peek h] at ht hk
    exact ⟨d.advance s', ⟨ht, hk, rfl⟩, he ▸ hR.advance h⟩
  | .stray _ _, _, _, _, ⟨ht, hk, hop, hr⟩, h => by
    rw [hR.peek h] at ht hk hop
    obtain ⟨e', hr', h'⟩ := Links.Between.lockstep hR hr (hR.advance h)
    exact ⟨e', ⟨ht, hk, hop, hr'⟩, h'⟩
  | .link _ _ _ _, _, _, _, ⟨ht, hop, _, ho, hr⟩, h => by
    rw [hR.peek h] at ht hop
    obtain ⟨d₁, ho', h₁⟩ := Operand.Between.lockstep hR ho (hR.advance h)
    obtain ⟨e', hr', h'⟩ := Links.Between.lockstep hR hr h₁
    exact ⟨e', ⟨ht, hop, d₁, ho', hr'⟩, h'⟩

/-- Both cursors show the same sign, or show that there is none. -/
theorem Operand.Between.lockstep (hR : Cursor.Lockstep s s' R) : {r : Operand} →
    {c d e : Cursor} → r.Between s c e → R c d → ∃ e', r.Between s' d e' ∧ R e e'
  | .signed _ _ _, _, _, _, ⟨ht, hop, ho⟩, h => by
    rw [hR.peek h] at ht hop
    obtain ⟨e', ho', h'⟩ := Operand.Between.lockstep hR ho (hR.advance h)
    exact ⟨e', ⟨ht, hop, ho'⟩, h'⟩
  | .bare _, _, _, _, ⟨hop, hp⟩, h => by
    rw [hR.peek h] at hop
    obtain ⟨e', hp', h'⟩ := Primary.Between.lockstep hR hp h
    exact ⟨e', ⟨hop, hp'⟩, h'⟩

/-- Both cursors skip the same tokens and come to the same atom. -/
theorem Primary.Between.lockstep (hR : Cursor.Lockstep s s' R) : {r : Primary} →
    {c d e : Cursor} → r.Between s c e → R c d → ∃ e', r.Between s' d e' ∧ R e e'
  | .stray _ _, _, _, _, ⟨ht, ho, hc, hr⟩, h => by
    rw [hR.peek h] at ht ho hc
    obtain ⟨e', hr', h'⟩ := Primary.Between.lockstep hR hr (hR.advance h)
    exact ⟨e', ⟨ht, ho, hc, hr'⟩, h'⟩
  | .atom _ _, _, _, _, ⟨_, ha, hs⟩, h => by
    obtain ⟨d₁, ha', h₁⟩ := Atom.Between.lockstep hR ha h
    obtain ⟨e', hs', h'⟩ := Accessors.Between.lockstep hR hs h₁
    exact ⟨e', ⟨d₁, ha', hs'⟩, h'⟩

/-- An atom is known by its first token, and what is inside of it stands behind that. -/
theorem Atom.Between.lockstep (hR : Cursor.Lockstep s s' R) : {r : Atom} →
    {c d e : Cursor} → r.Between s c e → R c d → ∃ e', r.Between s' d e' ∧ R e e'
  | .number _ _, _, d, _, ⟨ht, he⟩, h | .string _ _, _, d, _, ⟨ht, he⟩, h
  | .name _ _, _, d, _, ⟨ht, he⟩, h => by
    rw [hR.peek h] at ht
    exact ⟨d.advance s', ⟨ht, rfl⟩, he ▸ hR.advance h⟩
  | .group _ _, _, _, _, ⟨ht, hk, hi⟩, h => by
    rw [hR.peek h] at ht hk
    obtain ⟨e', hi', h'⟩ := Chain.Between.lockstep hR hi (hR.advance h)
    exact ⟨e', ⟨ht, hk, hi'⟩, h'⟩
  | .array _ _, _, _, _, ⟨ht, hk, hi⟩, h => by
    rw [hR.peek h] at ht hk
    obtain ⟨e', hi', h'⟩ := Items.Between.lockstep hR hi (hR.advance h)
    exact ⟨e', ⟨ht, hk, hi'⟩, h'⟩
  | .missing _, _, d, _, ⟨ht, hk, he⟩, h => by
    rw [hR.peek h] at ht hk
    exact ⟨d.advance s', ⟨ht, hk, rfl⟩, he ▸ hR.advance h⟩

/-- Accessors are known by the tokens that start them. -/
theorem Accessors.Between.lockstep (hR : Cursor.Lockstep s s' R) : {r : Accessors} →
    {c d e : Cursor} → r.Between s c e → R c d → ∃ e', r.Between s' d e' ∧ R e e'
  | .none, _, d, _, ⟨hk, he⟩, h => by
    rw [hR.peek h] at hk
    exact ⟨d, ⟨hk, rfl⟩, he ▸ h⟩
  | .call _ _ _ _, _, _, _, ⟨ht, hk, _, ha, hr⟩, h => by
    rw [hR.peek h] at ht hk
    obtain ⟨d₁, ha', h₁⟩ := Items.Between.lockstep hR ha (hR.advance h)
    obtain ⟨e', hr', h'⟩ := Accessors.Between.lockstep hR hr h₁
    exact ⟨e', ⟨ht, hk, d₁, ha', hr'⟩, h'⟩
  | .index _ _ _ _, _, _, _, ⟨ht, hk, _, hi, hr⟩, h => by
    rw [hR.peek h] at ht hk
    obtain ⟨d₁, hi', h₁⟩ := Chain.Between.lockstep hR hi (hR.advance h)
    obtain ⟨e', hr', h'⟩ := Accessors.Between.lockstep hR hr h₁
    exact ⟨e', ⟨ht, hk, d₁, hi', hr'⟩, h'⟩
  | .member _ _ _ _, _, _, _, ⟨ht, hk, hf, hr⟩, h => by
    have hdot := hR.advance h
    rw [hR.peek h] at ht hk
    rw [hR.peek hdot] at hf
    obtain ⟨e', hr', h'⟩ := Accessors.Between.lockstep hR hr (hR.advance hdot)
    exact ⟨e', ⟨ht, hk, hf, hr'⟩, h'⟩

/-- Items end at the same terminators. -/
theorem Items.Between.lockstep (hR : Cursor.Lockstep s s' R) : {r : Items} →
    {c d e : Cursor} → r.Between s c e → R c d → ∃ e', r.Between s' d e' ∧ R e e'
  | .last _, _, _, _, ⟨hi, hk⟩, h => by
    obtain ⟨e', hi', h'⟩ := Chain.Between.lockstep hR hi h
    exact ⟨e', ⟨hi', hk⟩, h'⟩
  | .more _ _, _, _, _, ⟨_, hi, hk, hr⟩, h => by
    obtain ⟨d₁, hi', h₁⟩ := Chain.Between.lockstep hR hi h
    obtain ⟨e', hr', h'⟩ := Items.Between.lockstep hR hr h₁
    exact ⟨e', ⟨d₁, hi', hk, hr'⟩, h'⟩

end

/-- The same chain is read at two cursors that are in step, and the cursors
behind it are. -/
theorem Cursor.Lockstep.read (hR : Lockstep s s' R) {c d : Cursor} (h : R c d) :
    (Chain.read s' d).1 = (Chain.read s c).1 ∧ R (Chain.read s c).2 (Chain.read s' d).2 := by
  obtain ⟨e', hr, h'⟩ := (Chain.between_read s c).lockstep hR h
  rw [Chain.read_eq hr]
  exact ⟨rfl, h'⟩

end

/-! ### Positions -/

namespace Cursor

/-- The same cursor with a higher position. -/
def moved (n : Nat) (c : Cursor) : Cursor := ⟨c.ahead, c.finish, c.position + n⟩

/-- What is next does not depend on the position. -/
@[simp] theorem peek_moved (n : Nat) (s : Scope) (c : Cursor) : (c.moved n).peek s = c.peek s := rfl

/-- Moving on does not look at the position. -/
@[simp] theorem advance_moved (n : Nat) (s : Scope) (c : Cursor) :
    (c.moved n).advance s = (c.advance s).moved n := by
  obtain ⟨ahead, finish, position⟩ := c
  cases ahead with
  | nil => rfl
  | cons t rest =>
    simp only [advance, moved]
    split
    · rfl
    · rw [Nat.add_right_comm]

/-- A reserved word is taken wherever it stands. -/
theorem accept_moved (n : Nat) (word : Keyword) (c : Cursor) :
    (c.moved n).accept word = ((c.accept word).1, (c.accept word).2.moved n) := by
  simp only [accept, peek_moved, advance_moved]
  split <;> rfl

/-- A name is taken wherever it stands. -/
theorem readName_moved (n : Nat) (place : NamePlace) (c : Cursor) :
    (c.moved n).readName place = ((c.readName place).1, (c.readName place).2.moved n) := by
  simp only [readName, peek_moved, advance_moved]
  split <;> rfl

/-- Names are read from what is ahead. The induction takes two tokens at a time, as the reader
does. -/
theorem readNames_moved (n : Nat) (finish : Span) (ahead : List Token) (position : Nat) :
    readNames finish ahead (position + n)
      = ((readNames finish ahead position).1, (readNames finish ahead position).2.moved n) := by
  -- Behind a name and a comma the rest of the list starts at the position after the next.
  fun_induction readNames finish ahead position with
  | case1 position => rfl
  | case2 t position name hk => simp only [readNames, hk, moved, Nat.add_right_comm]
  | case3 t position name hk u rest hu names close d hd ih =>
    rw [hd, Nat.add_right_comm] at ih
    simp only [readNames, hk, hu, ih]
  | case4 t position name hk u rest hu issue d hd ih =>
    rw [hd, Nat.add_right_comm] at ih
    simp only [readNames, hk, hu, ih]
  | case5 t position name hk u rest hu =>
    simp only [readNames, hk, hu, moved, Nat.add_right_comm]
  | case6 t position name hk u rest hcomma hclose =>
    simp only [readNames, hk, moved, Nat.add_right_comm]
  | case7 t rest position hname =>
    simp only [readNames, moved, Nat.add_right_comm]

/-- Parameters are read wherever they stand. -/
theorem readParams_moved (n : Nat) (c : Cursor) :
    (c.moved n).readParams = (c.readParams.1, c.readParams.2.moved n) := by
  simp only [readParams, peek_moved, advance_moved]
  split
  · rfl
  · exact readNames_moved n c.finish c.ahead c.position

/-- Skipping counts the same tokens wherever they stand. -/
theorem recover_moved (n : Nat) (c : Cursor) :
    (c.moved n).recover = (c.recover.1, c.recover.2.moved n) := by
  simp only [recover, moved, Nat.add_right_comm]

/-- A cursor is in step with itself at another position. -/
theorem lockstep_moved (n : Nat) (s : Scope) : Lockstep s s fun c d => d = c.moved n where
  peek h := by rw [h, peek_moved]
  advance h := by rw [h, advance_moved]

end Cursor

/-- A chain is read wherever it stands. The cursors are in step, so no reader is opened. -/
theorem Chain.read_moved (n : Nat) (s : Scope) (c : Cursor) :
    read s (c.moved n) = ((read s c).1, (read s c).2.moved n) := by
  obtain ⟨hr, hd⟩ := (Cursor.lockstep_moved n s).read (c := c) rfl
  exact Prod.ext hr hd

namespace DeclClause

/-- A variable is read wherever it stands. -/
theorem readBinding_moved (n : Nat) (head : DeclHead) (binding : Binding) (c : Cursor) :
    readBinding head binding (c.moved n)
      = ((readBinding head binding c).1, (readBinding head binding c).2.moved n) := by
  simp only [readBinding, Cursor.readName_moved]
  rcases c.readName .binding with ⟨issue | name, d⟩
  · rfl
  · simp only [Cursor.peek_moved, Cursor.advance_moved, Chain.read_moved]
    split
    · rfl
    · split <;> rfl

/-- A function is read wherever it stands. -/
theorem readFunction_moved (n : Nat) (head : DeclHead) (c : Cursor) :
    readFunction head (c.moved n)
      = ((readFunction head c).1, (readFunction head c).2.moved n) := by
  simp only [readFunction, Cursor.readName_moved]
  rcases c.readName .function with ⟨issue | name, d⟩
  · rfl
  · simp only [Cursor.peek_moved, Cursor.advance_moved, Cursor.readParams_moved]
    split
    · rcases (d.advance .stream).readParams with ⟨issue | params, e⟩ <;> rfl
    · rfl

/-- A declaration is read wherever it stands. -/
theorem read_moved (n : Nat) (c : Cursor) :
    read (c.moved n) = ((read c).1, (read c).2.moved n) := by
  simp only [read, Cursor.accept_moved, Cursor.peek_moved, Cursor.advance_moved,
    readBinding_moved, readFunction_moved]
  split <;> rfl

end DeclClause

/-- A statement is read wherever it stands. -/
theorem Clause.read_moved (n : Nat) (c : Cursor) :
    read (c.moved n) = ((read c).1, (read c).2.moved n) := by
  simp only [read, Cursor.peek_moved, Cursor.advance_moved, Chain.read_moved,
    DeclClause.read_moved]
  split
  · split <;> rfl
  · rcases DeclClause.read c with ⟨issue | r, d⟩ <;> rfl
  · rfl

namespace Attempt

/-- An attempt at a statement is the same wherever it is made. -/
theorem readOne_moved (n : Nat) (c : Cursor) :
    readOne (c.moved n) = ((readOne c).1, (readOne c).2.moved n) := by
  simp only [readOne, Clause.read_moved]
  rcases Clause.read c with ⟨issue | r, d⟩
  · simp only [Cursor.recover_moved]
  · rfl

/-- A program does not depend on the position where it starts. -/
theorem readAll_moved (n : Nat) (c : Cursor) :
    readAll (c.moved n) = ((readAll c).1, (readAll c).2.moved n) := by
  have key : ∀ (fuel : Nat) (c : Cursor),
      readUpTo fuel (c.moved n) = ((readUpTo fuel c).1, (readUpTo fuel c).2.moved n) := by
    intro fuel
    induction fuel with
    | zero => intro c; rfl
    | succ fuel ih =>
      intro c
      simp only [readUpTo, Cursor.peek_moved, readOne_moved, ih]
      split <;> rfl
  exact key c.remaining c

end Attempt

end ExprFrontEnd
