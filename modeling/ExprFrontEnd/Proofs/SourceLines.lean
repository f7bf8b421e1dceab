import ExprFrontEnd.Proofs.LineTable
import ExprFrontEnd.Proofs.Tiling
import ExprFrontEnd.Report
import Mathlib.Data.List.DropRight

/-!
# `ExprFrontEnd.Proofs.SourceLines`: the texts of lines

A line runs from its start up to the line feed in front of the next start, or to the
end of the text if there is no next one. A table that holds only the starts finds the
text of a line by that.

* `cutInLines_splitLines`: the lines of a text and the line feeds between them are the
  whole text (`CutInLines`).
* `CutInLines.texts_eq`: so their texts are what splitting at line feeds gives.
* `CutInLines.exists_stands`: a line stops where its next line says.
* `LineTable.lineText?_ofSource`: the table gives the text of the line that an offset
  lies in, without the carriage returns at its end. No check fails on the way.
-/

set_option autoImplicit false

namespace ExprFrontEnd

/-! ### Cutting a text in lines -/

/-- A text from an offset on, and its lines. -/
inductive CutInLines : Nat → List Char → List Line → Prop
  | last {offset : Nat} {cs : List Char} (free : '\n' ∉ cs) : CutInLines offset cs [⟨offset, cs⟩]
  | more {offset : Nat} {text behind : List Char} {lines : List Line} (free : '\n' ∉ text)
      (rest : CutInLines (offset + byteLength text + 1) behind lines) :
      CutInLines offset (text ++ '\n' :: behind) (⟨offset, text⟩ :: lines)

namespace CutInLines

variable {offset : Nat} {cs : List Char} {line : Line} {lines : List Line}

/-- One character more at the start of the first line. -/
theorem cons {c : Char} (hc : c ≠ '\n')
    (h : CutInLines (offset + c.utf8Size) cs (line :: lines)) :
    CutInLines offset (c :: cs) (⟨offset, c :: line.text⟩ :: lines) := by
  have hfree : ∀ text : List Char, '\n' ∉ text → '\n' ∉ c :: text := fun text htext =>
    List.not_mem_cons_of_ne_of_not_mem hc.symm htext
  cases h with
  | last free => exact .last (hfree cs free)
  | @more _ text behind _ free rest =>
    refine @more offset (c :: text) behind _ (hfree text free) ?_
    have hoffset : offset + byteLength (c :: text) + 1
        = offset + c.utf8Size + byteLength text + 1 := by
      rw [byteLength_cons]
      omega
    rw [hoffset]
    exact rest

/-- Lines have no line feeds, since these separate them. -/
theorem newline_notMem (h : CutInLines offset cs lines) : ∀ l ∈ lines, '\n' ∉ l.text := by
  induction h with
  | last free => exact List.forall_mem_singleton.mpr free
  | more free rest ih => exact List.forall_mem_cons.mpr ⟨free, ih⟩

/-- The texts of the lines. -/
theorem texts_eq (h : CutInLines offset cs lines) : lines.map Line.text = cs.splitOn '\n' := by
  have hfalse : ∀ text : List Char, '\n' ∉ text → ∀ c ∈ text, (c == '\n') = false := by
    intro text hfree c hc
    rw [beq_eq_false_iff_ne]
    rintro rfl
    exact hfree hc
  induction h with
  | @last _ cs free => exact (List.splitOnP_eq_singleton (hfalse cs free)).symm
  | @more _ text behind lines free rest ih =>
    rw [List.splitOn, List.splitOnP_append_cons_of_forall_mem (hfalse text free) '\n' rfl,
      List.map_cons, ih]
    rfl

/-- A line stands behind as many bytes as its start says, and stops one byte in front
of the next one, or at the end. -/
theorem exists_stands (front : List Char) (h : CutInLines (byteLength front) cs lines) {i : Nat}
    (hi : lines[i]? = some line) :
    ∃ before behind : List Char, front ++ cs = before ++ line.text ++ behind ∧
      line.start = byteLength before ∧
      lines[i + 1]?.elim (behind = []) fun next =>
        next.start = byteLength (before ++ line.text) + 1 := by
  -- On the lines. The text in front of them grows, and the offset is its length.
  generalize hoffset : byteLength front = offset at h
  induction h generalizing front i with
  | last free =>
    cases i with
    | zero =>
      obtain rfl := Option.some.inj hi
      exact ⟨front, [], (List.append_nil _).symm, hoffset.symm, rfl⟩
    | succ i => cases hi
  | @more offset text behind lines free rest ih =>
    have hnext : byteLength (front ++ text ++ ['\n']) = offset + byteLength text + 1 := by
      rw [byteLength_append, byteLength_append, hoffset]
      rfl
    cases i with
    | zero =>
      obtain rfl := Option.some.inj hi
      refine ⟨front, '\n' :: behind, (List.append_assoc _ _ _).symm, hoffset.symm, ?_⟩
      have hstart : byteLength (front ++ text) + 1 = offset + byteLength text + 1 := by
        rw [byteLength_append, hoffset]
      rw [List.getElem?_cons_succ]
      cases rest <;> exact hstart.symm
    | succ i =>
      obtain ⟨before, after, hsource, hstart, hstop⟩ := ih _ hi hnext
      refine ⟨before, after, ?_, hstart, hstop⟩
      rw [← hsource]
      simp only [List.append_assoc, List.singleton_append]

end CutInLines

/-- **Lines make up the text.** -/
theorem cutInLines_splitLines (offset : Nat) (cs : List Char) :
    CutInLines offset cs ((splitLines offset cs).1 :: (splitLines offset cs).2) := by
  induction cs generalizing offset with
  | nil => exact .last List.not_mem_nil
  | cons c cs ih =>
    by_cases hc : c = '\n'
    · subst hc
      exact @CutInLines.more offset [] cs _ List.not_mem_nil (ih (offset + 1))
    · rw [splitLines_cons offset cs hc]
      exact (ih (offset + c.utf8Size)).cons hc

/-- A source text is cut into its lines from the start. -/
theorem cutInLines_lines (source : String) :
    CutInLines 0 source.toList (LineTable.lines source) := cutInLines_splitLines 0 source.toList

/-! ### The text of a line -/

namespace LineTable

/-- Where a line stops that is counted from one: in front of the line feed in front of
the next start, or where the text ends. -/
def stop? (t : LineTable) (line : Nat) : Option Nat :=
  match t.starts[line]? with
  | some next => minus? next 1
  | none => some t.length

/-- The text of a line that is counted from one, without the carriage returns at its
end. -/
def lineText? (t : LineTable) (source : String) (line : Nat) : Option (List Char) := do
  let before ← minus? line 1
  match t.starts[before]? with
  | none => return []
  | some start =>
    let stop ← t.stop? line
    return ((slice? source ⟨start, stop⟩).getD "").toList.rdropWhile (· == '\r')

variable {source : String} {offset i : Nat} {line : Line}

/-- The characters of a line are where the table says. -/
theorem exists_stop?_eq (h : (lines source)[i]? = some line) :
    ∃ stop : Nat, (ofSource source).stop? (i + 1) = some stop ∧
      slice? source ⟨line.start, stop⟩ = some (String.ofList line.text) := by
  obtain ⟨before, behind, hsource, hstart, hstop⟩ :=
    (cutInLines_lines source).exists_stands [] h
  have hholds : (Span.mk line.start (byteLength (before ++ line.text))).Holds source before
      line.text behind := ⟨hsource, hstart, rfl⟩
  refine ⟨_, ?_, hholds.slice?_eq⟩
  rw [stop?, starts_getElem?]
  -- The stop of a line is in front of the start of the next one, or at the end of the text.
  cases hnext : (lines source)[i + 1]? with
  | some next =>
    rw [hnext] at hstop
    have hstart' : next.start = byteLength (before ++ line.text) + 1 := hstop
    rw [Option.map_some, hstart']
    exact minus?_of_le (Nat.le_add_left 1 _)
  | none =>
    rw [hnext] at hstop
    obtain rfl : behind = [] := hstop
    rw [List.nil_append, List.append_nil] at hsource
    rw [← hsource, byteLength_toList]
    rfl

/-- **The text of a line is found**, without a check that fails. -/
theorem lineText?_ofSource (h : (lines source)[i]? = some line) :
    (ofSource source).lineText? source (i + 1) = some line.printed := by
  obtain ⟨stop, hstop, hslice⟩ := exists_stop?_eq h
  have hstart : (ofSource source).starts[i]? = some line.start := by
    rw [starts_getElem?, h]
    rfl
  simp only [lineText?, minus?_of_le (Nat.le_add_left 1 i), Nat.add_sub_cancel,
    Option.bind_eq_bind, Option.bind_some, hstart, hstop, hslice, Option.getD_some,
    String.toList_ofList]
  rfl

end LineTable

end ExprFrontEnd
