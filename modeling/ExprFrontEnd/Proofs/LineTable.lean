import ExprFrontEnd.Proofs.Positions
import Mathlib.Order.Fin.Basic

/-!
# `ExprFrontEnd.Proofs.LineTable`: the starts of lines in a table

A reader that works in place keeps the starts of lines in a table, which one loop
over the bytes of a text fills, and looks an offset up in it by halving. An index
into the table may be out of bounds, and a difference may be less than nothing.
Both are checked here, and give `none` out of their domain.

* `Lookup.exists_search?_eq`: in a table that increases strictly the search never
  fails. What it comes to is right (`Lookup.Holds`): a hit is at the number, and a
  miss is between the smaller and the greater ones. Nothing else is used of it.
* `LineTable.starts_ofSource`: the table that the loop fills holds the starts of
  the lines of the text, so it increases strictly and its first entry is zero.
* `LineTable.position?_ofSource`: so no check fails, and the table gives the places
  that a `LineIndex` gives.
* `positions_counted`: these are the places that are counted from the bytes.
-/

set_option autoImplicit false

namespace ExprFrontEnd

/-- The difference of two numbers, if the second one is not greater. -/
def minus? (a b : Nat) : Option Nat := if b ≤ a then some (a - b) else none

/-- Taking away no more than there is does not fail. -/
theorem minus?_of_le {a b : Nat} (h : b ≤ a) : minus? a b = some (a - b) := if_pos h

/-! ### Searching a table -/

/-- What a search for a number in a table comes to. -/
inductive Lookup where
  /-- The number is at this index. -/
  | hit (index : Nat)
  /-- The number is not in the table, and belongs in front of this index. -/
  | miss (index : Nat)
  deriving DecidableEq, Repr

namespace Lookup

/-- Halves a part of a table, which starts at the base, until one entry is left. -/
def narrow? (table : Array Nat) (x base size : Nat) : Option Nat :=
  if 1 < size then
    match table[base + size / 2]? with
    | none => none
    | some entry =>
      if x < entry then narrow? table x base (size - size / 2)
      else narrow? table x (base + size / 2) (size - size / 2)
  else some base
termination_by size

/-- Looks for a number in a table. -/
def search? (table : Array Nat) (x : Nat) : Option Lookup :=
  if table.size = 0 then some (.miss 0)
  else do
    let base ← narrow? table x 0 table.size
    let entry ← table[base]?
    return if entry = x then .hit base else if entry < x then .miss (base + 1) else .miss base

/-- What a search has to come to. -/
def Holds (table : Array Nat) (x : Nat) : Lookup → Prop
  | hit i => table[i]? = some x
  | miss i => i ≤ table.size ∧ (∀ j entry, j < i → table[j]? = some entry → entry < x) ∧
      ∀ j entry, i ≤ j → table[j]? = some entry → x < entry

/-- The entries of a table increase strictly. -/
def Increases (table : Array Nat) : Prop :=
  ∀ i j m n : Nat, i < j → table[i]? = some m → table[j]? = some n → m < n

section
variable {table : Array Nat} {x : Nat}

/-- What is left when a part has been halved. All entries behind it are greater
than the number, and it is not greater itself unless it is the first one. This is
kept up for the part that is halved: only its end and its base are moved. -/
theorem exists_narrow?_eq (htable : Increases table) (base size : Nat) (hsize : 0 < size)
    (hbase : base + size ≤ table.size)
    (hlow : base = 0 ∨ ∃ entry, table[base]? = some entry ∧ entry ≤ x)
    (hhigh : ∀ j entry, base + size ≤ j → table[j]? = some entry → x < entry) :
    ∃ i, narrow? table x base size = some i ∧ i < table.size ∧
      (i = 0 ∨ ∃ entry, table[i]? = some entry ∧ entry ≤ x) ∧
      ∀ j entry, i < j → table[j]? = some entry → x < entry := by
  fun_induction narrow? table x base size with
  | case1 base size hhalf hnone =>
    have hin : base + size / 2 < table.size := by omega
    rw [Array.getElem?_eq_getElem hin] at hnone
    cases hnone
  | case2 base size hhalf middle hmiddle hx ih =>
    -- The middle and all behind it are greater.
    refine ih (by omega) (by omega) hlow fun j entry hj hentry => ?_
    rcases Nat.lt_or_ge j (base + size) with hlt | hge
    · rcases Nat.eq_or_lt_of_le (show base + size / 2 ≤ j by omega) with rfl | hbehind
      · rw [hmiddle] at hentry
        obtain rfl := Option.some.inj hentry
        exact hx
      · have := htable _ _ _ _ hbehind hmiddle hentry
        omega
    · exact hhigh j entry hge hentry
  | case3 base size hhalf middle hmiddle hx ih =>
    -- The middle is not greater, so it is the next base.
    refine ih (by omega) (by omega) (.inr ⟨middle, hmiddle, by omega⟩) fun j entry hj => ?_
    exact hhigh j entry (by omega)
  | case4 base size hone =>
    refine ⟨base, rfl, by omega, hlow, fun j entry hj => ?_⟩
    exact hhigh j entry (by omega)

/-- **A search never leaves the table**, and what it comes to is right. -/
theorem exists_search?_eq (htable : Increases table) :
    ∃ found, search? table x = some found ∧ found.Holds table x := by
  unfold search?
  split
  · rename_i hempty
    refine ⟨.miss 0, rfl, Nat.zero_le _, by omega, fun j entry _ hentry => ?_⟩
    have hj := (Array.getElem?_eq_some_iff.mp hentry).1
    omega
  · rename_i hne
    have hend : ∀ j entry, 0 + table.size ≤ j → table[j]? = some entry → x < entry := by
      intro j entry hj hentry
      have hlt := (Array.getElem?_eq_some_iff.mp hentry).1
      omega
    obtain ⟨i, hi, hlt, hlow, hhigh⟩ :=
      exists_narrow?_eq htable 0 table.size (by omega) (by omega) (.inl rfl) hend
    have hentry := Array.getElem?_eq_getElem hlt
    rw [hi, Option.bind_eq_bind, Option.bind_some, hentry]
    refine ⟨_, rfl, ?_⟩
    by_cases heq : table[i] = x
    · rw [if_pos heq]
      show table[i]? = some x
      rw [hentry, heq]
    · rw [if_neg heq]
      by_cases hless : table[i] < x
      · -- The entry and all in front of it are smaller.
        rw [if_pos hless]
        refine ⟨hlt, fun j entry hj hj' => ?_, fun j entry hj => hhigh j entry (by omega)⟩
        rcases Nat.lt_succ_iff_lt_or_eq.mp hj with hj | rfl
        · have := htable _ _ _ _ hj hj' hentry
          omega
        · rw [hentry] at hj'
          obtain rfl := Option.some.inj hj'
          exact hless
      · -- The entry is greater, so it is the first one.
        rw [if_neg hless]
        obtain rfl : i = 0 := by
          refine hlow.resolve_right ?_
          rintro ⟨entry, hentry', hle⟩
          rw [hentry] at hentry'
          obtain rfl := Option.some.inj hentry'
          omega
        refine ⟨Nat.zero_le _, by omega, fun j entry _ hj' => ?_⟩
        rcases Nat.eq_zero_or_pos j with rfl | hpos
        · rw [hentry] at hj'
          obtain rfl := Option.some.inj hj'
          omega
        · exact hhigh j entry hpos hj'

end

end Lookup

/-! ### The table of a text -/

/-- The offsets where lines start, and the length of the text in bytes. -/
structure LineTable where
  starts : Array Nat
  length : Nat
  deriving DecidableEq, Repr

namespace LineTable

/-- The starts up to an offset, one byte further on. Behind a line feed a line
starts. -/
def visit (seen : Array Nat × Nat) (b : UInt8) : Array Nat × Nat :=
  (if b = lineFeed then seen.1.push (seen.2 + 1) else seen.1, seen.2 + 1)

/-- The table of a text, filled in one loop over its bytes. -/
def ofSource (source : String) : LineTable :=
  ⟨((sourceBytes source).foldl visit (#[0], 0)).1, source.utf8ByteSize⟩

/-- The line that an offset lies in, counted from zero. -/
def line? (t : LineTable) (offset : Nat) : Option Nat := do
  match ← Lookup.search? t.starts offset with
  | .hit i => return i
  | .miss i => minus? i 1

/-- The line and the column of an offset. -/
def position? (t : LineTable) (offset : Nat) : Option Position := do
  let offset := min offset t.length
  let line ← t.line? offset
  let start ← t.starts[line]?
  let column ← minus? offset start
  return ⟨line + 1, column + 1⟩

/-- Bytes without a line feed add nothing to the table. -/
theorem foldl_visit_of_notMem {bs : List UInt8} (h : lineFeed ∉ bs) (seen : Array Nat × Nat) :
    bs.foldl visit seen = (seen.1, seen.2 + bs.length) := by
  induction bs generalizing seen with
  | nil => rfl
  | cons b bs ih =>
    have hb : b ≠ lineFeed := (List.ne_of_not_mem_cons h).symm
    rw [List.foldl_cons, ih (List.not_mem_of_not_mem_cons h), visit, if_neg hb,
      List.length_cons]
    simp only [Prod.mk.injEq, true_and]
    omega

/-- The loop adds the starts of all lines but the first one. -/
theorem toList_foldl_visit (cs : List Char) (starts : Array Nat) (offset : Nat) :
    ((utf8Bytes cs).foldl visit (starts, offset)).1.toList
      = starts.toList ++ (splitLines offset cs).2.map Line.start := by
  induction cs generalizing starts offset with
  | nil => exact (List.append_nil _).symm
  | cons c cs ih =>
    rw [utf8Bytes_cons, List.foldl_append]
    by_cases hc : c = '\n'
    · subst hc
      rw [utf8EncodeChar_newline, List.foldl_cons, List.foldl_nil, visit, if_pos rfl, ih,
        splitLines_newline, List.map_cons, start_splitLines, Array.toList_push,
        List.append_assoc, List.singleton_append]
    · rw [foldl_visit_of_notMem (lineFeed_notMem_utf8EncodeChar hc),
        String.length_utf8EncodeChar, ih, splitLines_cons offset cs hc]

/-- The lines of a text, of which there is always a first one. -/
def lines (source : String) : List Line :=
  (splitLines 0 source.toList).1 :: (splitLines 0 source.toList).2

/-- **The table holds the starts of the lines.** -/
theorem starts_ofSource (source : String) :
    (ofSource source).starts.toList = (lines source).map Line.start := by
  rw [ofSource, sourceBytes_eq, toList_foldl_visit, lines, List.map_cons, start_splitLines]
  rfl

/-- The table has the starts of the lines, in order. -/
theorem starts_getElem? (source : String) (i : Nat) :
    (ofSource source).starts[i]? = (lines source)[i]?.map Line.start := by
  rw [← Array.getElem?_toList, starts_ofSource, List.getElem?_map]

/-- Lines start one behind the other. -/
theorem pairwise_splitLines (offset : Nat) (cs : List Char) :
    ((splitLines offset cs).1 :: (splitLines offset cs).2).Pairwise
      fun l m => l.start < m.start := by
  refine List.pairwise_cons.mpr ⟨fun l hl => ?_, ?_⟩
  · rw [start_splitLines]
    exact lt_start_of_mem_splitLines hl
  · induction cs generalizing offset with
    | nil => exact .nil
    | cons c cs ih =>
      by_cases hc : c = '\n'
      · subst hc
        rw [splitLines_newline]
        refine List.pairwise_cons.mpr ⟨fun l hl => ?_, ih _⟩
        rw [start_splitLines]
        exact lt_start_of_mem_splitLines hl
      · rw [splitLines_cons offset cs hc]
        exact ih _

/-- No two lines start at one place, so the starts increase. -/
theorem increases_ofSource (source : String) : Lookup.Increases (ofSource source).starts := by
  intro i j m n hij hm hn
  rw [starts_getElem?] at hm hn
  obtain ⟨l, hl, rfl⟩ := Option.map_eq_some_iff.mp hm
  obtain ⟨k, hk, rfl⟩ := Option.map_eq_some_iff.mp hn
  obtain ⟨hi, rfl⟩ := List.getElem?_eq_some_iff.mp hl
  obtain ⟨hj, rfl⟩ := List.getElem?_eq_some_iff.mp hk
  exact List.pairwise_iff_getElem.mp (pairwise_splitLines 0 source.toList) i j hi hj hij

/-- The line of an offset is the last one that starts there or in front of it. -/
structure LineAt (source : String) (offset i : Nat) (line : Line) : Prop where
  line_eq : (lines source)[i]? = some line
  start_le : line.start ≤ offset
  behind : ∀ j l, i < j → (lines source)[j]? = some l → offset < l.start

/-- **The line is found**, by a hit at its start or a miss behind it. There is no
miss in front of the first line, which starts at zero. -/
theorem exists_line?_eq (source : String) (offset : Nat) :
    ∃ i line, (ofSource source).line? offset = some i ∧ LineAt source offset i line := by
  obtain ⟨found, hfound, hholds⟩ :=
    Lookup.exists_search?_eq (x := offset) (increases_ofSource source)
  rw [line?, hfound]
  have hincreases := increases_ofSource source
  cases found with
  | hit i =>
    -- The offset is the start of a line, which then is its own line.
    have hstart : (ofSource source).starts[i]? = some offset := hholds
    have hline := hstart
    rw [starts_getElem?] at hline
    obtain ⟨line, hline, hoffset⟩ := Option.map_eq_some_iff.mp hline
    refine ⟨i, line, rfl, hline, Nat.le_of_eq hoffset, fun j l hj hl => ?_⟩
    refine hincreases i j offset l.start hj hstart ?_
    rw [starts_getElem?, hl]
    rfl
  | miss i =>
    obtain ⟨hsize, hsmaller, hgreater⟩ := hholds
    -- The first line starts at zero, so there is a start in front of the offset.
    have hfirst : (ofSource source).starts[0]? = some 0 := by
      rw [starts_getElem?, lines, List.getElem?_cons_zero, Option.map_some, start_splitLines]
    have hpos : 0 < i := by
      by_contra hi
      have := hgreater 0 0 (by omega) hfirst
      omega
    obtain ⟨start, hstart⟩ : ∃ start, (ofSource source).starts[i - 1]? = some start :=
      ⟨_, Array.getElem?_eq_getElem (by omega)⟩
    have hlt := hsmaller (i - 1) start (by omega) hstart
    rw [starts_getElem?] at hstart
    obtain ⟨line, hline, rfl⟩ := Option.map_eq_some_iff.mp hstart
    refine ⟨i - 1, line, minus?_of_le hpos, hline, Nat.le_of_lt hlt, fun j l hj hl => ?_⟩
    refine hgreater j l.start (by omega) ?_
    rw [starts_getElem?, hl]
    rfl

end LineTable

/-- A line that is found by its index is found by going through the lines. -/
theorem LineIndex.locate_eq {offset : Nat} (n : Nat) {i : Nat} {first found : Line}
    {rest : List Line} (hfound : (first :: rest)[i]? = some found)
    (hordered : (first :: rest).Pairwise fun l m => l.start < m.start)
    (hle : found.start ≤ offset)
    (hbehind : ∀ j l, i < j → (first :: rest)[j]? = some l → offset < l.start) :
    locate offset n first rest = (n + i, found) := by
  induction rest generalizing n i first with
  | nil =>
    cases i with
    | zero =>
      obtain rfl : first = found := Option.some.inj hfound
      rfl
    | succ i => cases hfound
  | cons next rest ih =>
    obtain ⟨-, hrest⟩ := List.pairwise_cons.mp hordered
    cases i with
    | zero =>
      obtain rfl : first = found := Option.some.inj hfound
      have hnext := hbehind 1 next Nat.one_pos rfl
      rw [locate, if_neg (by omega)]
      rfl
    | succ i =>
      rw [List.getElem?_cons_succ] at hfound
      -- The next line starts no later than the one that is looked for.
      have hnext : next.start ≤ offset := by
        rcases List.mem_cons.mp (List.mem_of_getElem? hfound) with rfl | hmem
        · exact hle
        · have := (List.pairwise_cons.mp hrest).1 found hmem
          omega
      rw [locate, if_pos hnext, ih (n + 1) hfound hrest fun j l hj hl =>
        hbehind (j + 1) l (by omega) (by rw [List.getElem?_cons_succ]; exact hl)]
      simp only [Prod.mk.injEq, and_true]
      omega

namespace LineTable

variable {source : String} {offset i : Nat} {line : Line}

/-- The number of the line of an offset is counted from one. -/
theorem LineAt.lineAt_eq (h : LineAt source (min offset source.utf8ByteSize) i line) :
    (LineIndex.ofSource source).lineAt offset = (i + 1, line) := by
  have hlocate := LineIndex.locate_eq 1 h.line_eq (pairwise_splitLines 0 source.toList)
    h.start_le h.behind
  rw [Nat.add_comm i 1]
  exact hlocate

/-- **The table gives the places of the index**, without a check that fails. -/
theorem position?_ofSource (source : String) (offset : Nat) :
    (ofSource source).position? offset = some ((LineIndex.ofSource source).position offset) := by
  obtain ⟨i, line, hline, hat⟩ := exists_line?_eq source (min offset source.utf8ByteSize)
  have hlength : (ofSource source).length = source.utf8ByteSize := rfl
  have hstart : (ofSource source).starts[i]? = some line.start := by
    rw [starts_getElem?, hat.line_eq]
    rfl
  simp only [position?, hlength, hline, LineIndex.position, hat.lineAt_eq]
  show ((ofSource source).starts[i]?.bind fun start =>
    (minus? (min offset source.utf8ByteSize) start).bind fun column =>
      some (⟨i + 1, column + 1⟩ : Position)) = _
  rw [hstart, Option.bind_some, minus?_of_le hat.start_le]
  rfl

end LineTable

/-- **An index agrees with counting, and offsets can be had back from places.** For
every source text and every offset, the place is the one that is counted in the
bytes in front of the offset, or of the end of the text if the offset is behind it:
the line by the line feeds among them, and the column by the bytes behind the last
line feed. The table of line starts gives the same place, and neither leaves the
table nor takes a greater number from a smaller one. From offset to offset up to the
length of the text the places increase strictly, by line and then by column, so no
two of them are the same. -/
theorem positions_counted (source : String) :
    (∀ offset : Nat,
      let o := min offset source.utf8ByteSize
      let front := (sourceBytes source).take o
      (LineIndex.ofSource source).position offset
          = ⟨1 + front.count lineFeed,
              if lineFeed ∈ front then 1 + (front.reverse.takeWhile (· != lineFeed)).length
              else o + 1⟩ ∧
        (LineTable.ofSource source).position? offset
          = some ((LineIndex.ofSource source).position offset)) ∧
      (StrictMono fun offset : Fin (source.utf8ByteSize + 1) =>
        ((LineIndex.ofSource source).position offset).key) ∧
      Function.Injective fun offset : Fin (source.utf8ByteSize + 1) =>
        (LineIndex.ofSource source).position offset := by
  have hmono : StrictMono fun offset : Fin (source.utf8ByteSize + 1) =>
      ((LineIndex.ofSource source).position offset).key := by
    intro m n hmn
    have hm : min m.val source.utf8ByteSize = m.val := by omega
    have hn : min n.val source.utf8ByteSize = n.val := by omega
    show Position.key _ < Position.key _
    rw [LineIndex.position_ofSource, LineIndex.position_ofSource, hm, hn]
    refine Position.key_behind_take_lt hmn ?_
    rw [length_sourceBytes]
    omega
  refine ⟨fun offset => ⟨?_, LineTable.position?_ofSource source offset⟩, hmono, ?_⟩
  -- In the first line all bytes in front are in the column.
  · rw [LineIndex.position_ofSource]
    split
    · rfl
    · rename_i hnone
      rw [Position.behind_of_notMem hnone, List.count_eq_zero_of_not_mem hnone, List.length_take,
        length_sourceBytes, Nat.min_eq_left (Nat.min_le_right _ _)]
  · intro m n hmn
    exact hmono.injective (congrArg Position.key hmn)

/-- At a line feed, at the start of an empty line, inside of a character, at the end
of a text that ends in a line feed, and behind it. -/
example :
    [2, 3, 5, 6, 7].map (LineIndex.ofSource "ab\n\né\n").position
      = [⟨1, 3⟩, ⟨2, 1⟩, ⟨3, 2⟩, ⟨3, 3⟩, ⟨4, 1⟩] ∧
      (LineIndex.ofSource "ab\n\né\n").position 100 = ⟨4, 1⟩ := by
  decide +kernel

end ExprFrontEnd
