import ExprFrontEnd.Lines
import Mathlib.Data.List.Induction
import Mathlib.Data.List.TakeWhile
import Mathlib.Data.Prod.Lex
import Mathlib.Order.Monotone.Defs

/-!
# `ExprFrontEnd.Proofs.Positions`: lines and columns by counting bytes

A `LineIndex` finds a place by the starts of lines. The same place can be had
without any index, from the bytes in front of it: the line feeds among them are
counted, and so are the bytes behind the last line feed (`Position.behind`).

* `Position.key_behind_take_lt`: every further byte moves the place on, to the
  next column or to the start of the next line. So places come in the order of
  the offsets, and no two offsets have the same place.
* `LineIndex.position_ofSource`: an index gives the places that are counted, for
  all offsets, also inside of a character and behind the text.

The bridge is the encoding. A line feed is a byte of its own, and no other
character has that byte (`lineFeed_notMem_utf8EncodeChar`), so lines can be cut
from the characters and counted in the bytes.
-/

set_option autoImplicit false

namespace ExprFrontEnd

/-- The byte of the line feed. -/
def lineFeed : UInt8 := 10

/-- The bytes of a text. -/
def sourceBytes (source : String) : List UInt8 := source.toByteArray.data.toList

namespace Position

/-- The place behind some bytes. The line feeds among them are counted, and the
bytes behind the last of these, which are all if there is none. -/
def behind (front : List UInt8) : Position :=
  ⟨1 + front.count lineFeed, 1 + (front.reverse.takeWhile (· != lineFeed)).length⟩

/-- The place one byte further on. -/
def pass (p : Position) (b : UInt8) : Position :=
  if b = lineFeed then ⟨p.line + 1, 1⟩ else ⟨p.line, p.column + 1⟩

/-- Places are ordered by their lines, and in one line by their columns. -/
def key (p : Position) : Nat ×ₗ Nat := toLex (p.line, p.column)

/-- Bytes are counted one at a time, the last one last. -/
theorem behind_concat (front : List UInt8) (b : UInt8) :
    behind (front ++ [b]) = (behind front).pass b := by
  unfold behind pass
  rw [List.count_append, List.reverse_append, List.reverse_singleton, List.singleton_append]
  by_cases hb : b = lineFeed
  · subst hb
    rw [if_pos rfl, List.takeWhile_cons_of_neg (by simp), List.count_singleton_self]
    rfl
  · rw [if_neg hb, List.takeWhile_cons_of_pos (by simpa using hb), List.length_cons,
      List.count_singleton, if_neg (by simpa using hb)]
    simp only [mk.injEq]
    omega

/-- Counting can be done byte by byte. -/
theorem foldl_pass (front : List UInt8) : front.foldl pass ⟨1, 1⟩ = behind front := by
  induction front using List.reverseRecOn with
  | nil => rfl
  | append_singleton front b ih =>
    rw [List.foldl_append, ih, behind_concat]
    rfl

/-- In the first line the column is that of a text without lines. -/
theorem behind_of_notMem {front : List UInt8} (h : lineFeed ∉ front) :
    behind front = ⟨1, front.length + 1⟩ := by
  have hall : ∀ b ∈ front.reverse, (b != lineFeed) = true := by
    intro b hb
    have hne : b ≠ lineFeed := by
      rintro rfl
      exact h (List.mem_reverse.mp hb)
    simpa using hne
  rw [behind, List.count_eq_zero_of_not_mem h, List.takeWhile_eq_self_iff.mpr hall,
    List.length_reverse, Nat.add_zero, Nat.add_comm]

/-- Bytes without a line feed move the place on in its line. -/
theorem foldl_pass_of_notMem {bs : List UInt8} (h : lineFeed ∉ bs) (p : Position) :
    bs.foldl pass p = ⟨p.line, p.column + bs.length⟩ := by
  induction bs generalizing p with
  | nil => rfl
  | cons b bs ih =>
    have hb : b ≠ lineFeed := (List.ne_of_not_mem_cons h).symm
    rw [List.foldl_cons, ih (List.not_mem_of_not_mem_cons h), pass, if_neg hb,
      List.length_cons]
    simp only [mk.injEq, true_and]
    omega

/-- A byte moves the place on, to the next column or to the next line. -/
theorem key_lt_key_pass (p : Position) (b : UInt8) : p.key < (p.pass b).key := by
  rw [key, key, Prod.Lex.toLex_lt_toLex, pass]
  by_cases hb : b = lineFeed
  · rw [if_pos hb]
    exact .inl (Nat.lt_succ_self _)
  · rw [if_neg hb]
    exact .inr ⟨rfl, Nat.lt_succ_self _⟩

/-- **More bytes, a later place.** -/
theorem key_behind_take_lt {bs : List UInt8} {m n : Nat} (hmn : m < n) (hn : n ≤ bs.length) :
    (behind (bs.take m)).key < (behind (bs.take n)).key := by
  induction n with
  | zero => omega
  | succ n ih =>
    have hlast : (behind (bs.take n)).key < (behind (bs.take (n + 1))).key := by
      rw [← List.take_concat_get (h := hn), List.concat_eq_append, behind_concat]
      exact key_lt_key_pass _ _
    rcases Nat.lt_succ_iff_lt_or_eq.mp hmn with hlt | rfl
    · exact lt_trans (ih hlt (Nat.le_of_succ_le hn)) hlast
    · exact hlast

end Position

/-! ### The bytes of characters -/

/-- The bytes of some characters in UTF-8. -/
def utf8Bytes (cs : List Char) : List UInt8 := cs.flatMap String.utf8EncodeChar

/-- The bytes of a text are those of its characters, one after the other. -/
theorem utf8Bytes_cons (c : Char) (cs : List Char) :
    utf8Bytes (c :: cs) = String.utf8EncodeChar c ++ utf8Bytes cs := List.flatMap_cons

/-- The bytes that the source holds are those of its characters. -/
theorem sourceBytes_eq (source : String) : sourceBytes source = utf8Bytes source.toList := by
  rw [sourceBytes, ← String.utf8Encode_toList, List.utf8Encode, List.toList_data_toByteArray]
  rfl

/-- So offsets in characters and in bytes agree. -/
theorem length_utf8Bytes (cs : List Char) : (utf8Bytes cs).length = byteLength cs := by
  induction cs with
  | nil => rfl
  | cons c cs ih =>
    rw [utf8Bytes_cons, List.length_append, String.length_utf8EncodeChar, ih, byteLength_cons]

/-- The length of a source in bytes is kept with the source. -/
theorem length_sourceBytes (source : String) :
    (sourceBytes source).length = source.utf8ByteSize := rfl

/-- The line feed is one byte. -/
theorem utf8EncodeChar_newline : String.utf8EncodeChar '\n' = [lineFeed] := by decide

/-- No other character has this byte: a character of one byte is that byte, and all
bytes of longer ones are above 127. -/
theorem lineFeed_notMem_utf8EncodeChar {c : Char} (h : c ≠ '\n') :
    lineFeed ∉ String.utf8EncodeChar c := by
  have hval : c.val.toNat ≠ 10 := by
    intro hval
    exact h (Char.ext (UInt32.toNat_inj.mp hval))
  have hbyte : ∀ n : Nat, lineFeed = UInt8.ofNat n → n % 256 = 10 := by
    intro n hn
    have := congrArg UInt8.toNat hn
    rw [UInt8.toNat_ofNat'] at this
    exact this.symm
  -- By the number of bytes. A single byte is the character itself, and in a longer code every
  -- byte is 128 or more.
  intro hmem
  unfold String.utf8EncodeChar at hmem
  dsimp only at hmem
  split at hmem
  · have := hbyte _ (List.mem_singleton.mp hmem)
    omega
  · split at hmem
    · simp only [List.mem_cons, List.not_mem_nil, or_false] at hmem
      rcases hmem with hmem | hmem <;> have := hbyte _ hmem <;> omega
    · split at hmem <;> simp only [List.mem_cons, List.not_mem_nil, or_false] at hmem
      · rcases hmem with hmem | hmem | hmem <;> have := hbyte _ hmem <;> omega
      · rcases hmem with hmem | hmem | hmem | hmem <;> have := hbyte _ hmem <;> omega

/-! ### Lines -/

/-- The first line of a text starts where the text does. -/
theorem start_splitLines (offset : Nat) (cs : List Char) :
    (splitLines offset cs).1.start = offset := by
  cases cs with
  | nil => rfl
  | cons c cs =>
    unfold splitLines
    split <;> rfl

/-- A line feed ends the line, and the next line starts behind it. -/
theorem splitLines_newline (offset : Nat) (cs : List Char) :
    splitLines offset ('\n' :: cs)
      = (⟨offset, []⟩, (splitLines (offset + 1) cs).1 :: (splitLines (offset + 1) cs).2) := rfl

/-- Any other character is part of the line that it stands in. -/
theorem splitLines_cons (offset : Nat) {c : Char} (cs : List Char) (hc : c ≠ '\n') :
    splitLines offset (c :: cs)
      = (⟨offset, c :: (splitLines (offset + c.utf8Size) cs).1.text⟩,
          (splitLines (offset + c.utf8Size) cs).2) := by
  rw [splitLines, if_neg hc]

/-- The other lines start behind it. -/
theorem lt_start_of_mem_splitLines {offset : Nat} {cs : List Char} {l : Line}
    (h : l ∈ (splitLines offset cs).2) : offset < l.start := by
  induction cs generalizing offset with
  | nil => cases h
  | cons c cs ih =>
    by_cases hc : c = '\n'
    -- The next line starts right behind the line feed, and the lines after it even later.
    · subst hc
      rw [splitLines_newline] at h
      rcases List.mem_cons.mp h with rfl | h
      · rw [start_splitLines]
        exact Nat.lt_succ_self offset
      · have := ih h
        omega
    · rw [splitLines_cons offset cs hc] at h
      have := ih h
      omega

namespace LineIndex

/-- In front of the second line there is only the first one. -/
theorem locate_of_lt {offset : Nat} (n : Nat) (line : Line) {lines : List Line}
    (h : ∀ l ∈ lines, offset < l.start) : locate offset n line lines = (n, line) := by
  cases lines with
  | nil => rfl
  | cons next lines =>
    have hnext := h next List.mem_cons_self
    rw [locate, if_neg (by omega)]

/-- What is found among the lines of a text is what is counted in its bytes. The
first line may have started further in front, since characters are taken away
from it one by one. -/
theorem locate_splitLines (cs : List Char) (first : Line) (n start offset : Nat)
    (hfirst : first.start ≤ start) (hstart : start ≤ offset)
    (hoffset : offset ≤ start + byteLength cs) :
    let found := locate offset n first (splitLines start cs).2
    (⟨found.1, offset - found.2.start + 1⟩ : Position)
      = ((utf8Bytes cs).take (offset - start)).foldl Position.pass
          ⟨n, start - first.start + 1⟩ := by
  induction cs generalizing first n start with
  | nil =>
    obtain rfl : offset = start := Nat.le_antisymm hoffset hstart
    rw [Nat.sub_self]
    rfl
  | cons c cs ih =>
    rw [byteLength_cons] at hoffset
    by_cases hc : c = '\n'
    · subst hc
      have hsize : '\n'.utf8Size = 1 := rfl
      rw [splitLines_newline, utf8Bytes_cons, utf8EncodeChar_newline]
      rcases Nat.eq_or_lt_of_le hstart with rfl | hlt
      · -- At the line feed itself the line is still the first one.
        have hnext : ∀ l ∈ (splitLines (start + 1) cs).1 :: (splitLines (start + 1) cs).2,
            start < l.start := by
          intro l hl
          have hbehind : l ∈ (splitLines start ('\n' :: cs)).2 := hl
          exact lt_start_of_mem_splitLines hbehind
        rw [locate_of_lt n first hnext, Nat.sub_self]
        rfl
      · -- Behind it the next line is the first one of what is left.
        have hrest := ih (splitLines (start + 1) cs).1 (n + 1) (start + 1)
          (Nat.le_of_eq (start_splitLines _ _)) hlt (by omega)
        rw [start_splitLines, Nat.sub_self] at hrest
        have htake : offset - start = offset - (start + 1) + 1 := by omega
        rw [locate, if_pos (by rw [start_splitLines]; exact hlt), htake, List.singleton_append,
          List.take_succ_cons, List.foldl_cons, Position.pass, if_pos rfl]
        exact hrest
    · have hfree := lineFeed_notMem_utf8EncodeChar hc
      have hlength := String.length_utf8EncodeChar c
      rw [splitLines_cons start cs hc, utf8Bytes_cons]
      by_cases hinside : offset < start + c.utf8Size
      · -- Inside of the character no line ends.
        have hlater : ∀ l ∈ (splitLines (start + c.utf8Size) cs).2, offset < l.start := by
          intro l hl
          have := lt_start_of_mem_splitLines hl
          omega
        rw [locate_of_lt n first hlater, List.take_append_of_le_length (by omega),
          Position.foldl_pass_of_notMem fun h => hfree (List.mem_of_mem_take h),
          List.length_take]
        simp only [Position.mk.injEq, true_and]
        omega
      · have hrest := ih first n (start + c.utf8Size) (by omega) (by omega) (by omega)
        rw [List.take_append, List.take_of_length_le (by omega), List.foldl_append,
          Position.foldl_pass_of_notMem hfree, hlength]
        have hcolumn : start - first.start + 1 + c.utf8Size
            = start + c.utf8Size - first.start + 1 := by omega
        have htake : offset - start - c.utf8Size = offset - (start + c.utf8Size) := by omega
        rw [hcolumn, htake]
        exact hrest

/-- **An index gives the places that are counted.** -/
theorem position_ofSource (source : String) (offset : Nat) :
    (ofSource source).position offset
      = .behind ((sourceBytes source).take (min offset source.utf8ByteSize)) := by
  have hlength : byteLength source.toList = source.utf8ByteSize := by
    rw [← length_utf8Bytes, ← sourceBytes_eq, length_sourceBytes]
  have hfirst := start_splitLines 0 source.toList
  have hfound := locate_splitLines source.toList (splitLines 0 source.toList).1 1 0
    (min offset source.utf8ByteSize) (Nat.le_of_eq hfirst) (Nat.zero_le _) (by omega)
  rw [hfirst, Nat.sub_zero, Position.foldl_pass, ← sourceBytes_eq] at hfound
  exact hfound

end LineIndex

end ExprFrontEnd
