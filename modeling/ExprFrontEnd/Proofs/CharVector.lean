import ExprFrontEnd.Proofs.Tiling

/-!
# `ExprFrontEnd.Proofs.CharVector`: characters by their index

A lexer that works in place has the characters of a text in a vector, each with the
byte offset where it starts, and the index of the next one. It needs both: loops
count characters, while places and slices are in bytes. An index may be behind the
last character, and an offset may be inside of one. So a look-up in the vector, a
slice of the text and a span are checked here, and give `none` out of their domain.

* `CharVector`: a text and the vector of its characters.
* `CharVector.Cut`: an index, the characters in front of it, and those from it on.
  This is the bridge between the two ways to count: the offset at the index is the
  number of bytes in front of it (`Cut.offsetAt_eq`).
* `Cut.skipWhile?_eq`, `Cut.quoted?_eq`: the loops over characters of one kind, and
  over a string literal, never fail. They come to what is taken from the characters.
-/

set_option autoImplicit false

namespace ExprFrontEnd

/-! ### The vector -/

/-- The characters of a text from an offset on, each with its own offset. -/
def charIndices (offset : Nat) : List Char → List (Nat × Char)
  | [] => []
  | c :: rest => (offset, c) :: charIndices (offset + c.utf8Size) rest

/-- The indices of two texts one behind the other: those of the second start where the first one
ends. -/
theorem charIndices_append (offset : Nat) (as bs : List Char) :
    charIndices offset (as ++ bs)
      = charIndices offset as ++ charIndices (offset + byteLength as) bs := by
  induction as generalizing offset with
  | nil => rfl
  | cons c as ih =>
    rw [List.cons_append, charIndices, charIndices, ih, List.cons_append, byteLength_cons,
      Nat.add_assoc]

/-- There are as many indices as characters. -/
theorem length_charIndices (offset : Nat) (cs : List Char) :
    (charIndices offset cs).length = cs.length := by
  induction cs generalizing offset with
  | nil => rfl
  | cons c cs ih => rw [charIndices, List.length_cons, List.length_cons, ih]

/-- A span whose ends are in order. -/
def Span.new? (start stop : Nat) : Option Span :=
  if start ≤ stop then some ⟨start, stop⟩ else none

/-- A span that is made up from its start and its length is never inverted. -/
theorem Span.new?_add (start n : Nat) : new? start (start + n) = some ⟨start, start + n⟩ :=
  if_pos (Nat.le_add_right start n)

/-- A text, and the vector of its characters with their offsets. -/
structure CharVector where
  text : String
  chars : Array (Nat × Char)
  chars_eq : chars.toList = charIndices 0 text.toList

namespace CharVector

/-- The vector of a text. -/
def ofText (text : String) : CharVector := ⟨text, (charIndices 0 text.toList).toArray, rfl⟩

/-- The character at an index. -/
def char? (v : CharVector) (index : Nat) : Option Char := do
  let entry ← v.chars[index]?
  return entry.2

/-- The offset of the character at an index. Behind the last one it is the end of the
text. -/
def offsetAt (v : CharVector) (index : Nat) : Nat :=
  match v.chars[index]? with
  | some entry => entry.1
  | none => v.text.utf8ByteSize

/-- The index behind characters of a kind. -/
def skipWhile? (v : CharVector) (p : Char → Bool) (index : Nat) : Option Nat :=
  if _h : index < v.chars.size then do
    let c ← v.char? index
    if p c then skipWhile? v p (index + 1) else return index
  else return index
termination_by v.chars.size - index

/-- The character that is escaped at an index, if the one there is a backslash and
the next one is in the same line. -/
def escaped? (v : CharVector) (index : Nat) : Option (Option Char) := do
  let c ← v.char? index
  if c = '\\' ∧ index + 1 < v.chars.size then do
    let d ← v.char? (index + 1)
    return if d = '\n' then none else some d
  else return none

/-- The rest of a string literal behind what is denoted by the characters in front of
an index: what it denotes, whether it is closed, and the index behind it. -/
def quoted? (v : CharVector) (index : Nat) (value : List Char) : Option (List Char × Bool × Nat) :=
  if _h : index < v.chars.size then do
    let c ← v.char? index
    if c = '\n' then return (value, false, index)
    else do
      let escaped ← v.escaped? index
      match escaped with
      | some d => quoted? v (index + 2) (value ++ [unescape d])
      | none =>
        if c = '"' then return (value, true, index + 1)
        else quoted? v (index + 1) (value ++ [c])
  else return (value, false, index)
termination_by v.chars.size - index

/-! ### Cuts -/

/-- An index cuts the text: some characters are in front of it, and the others from it
on. -/
structure Cut (v : CharVector) (index : Nat) (before rest : List Char) : Prop where
  text_eq : v.text.toList = before ++ rest
  index_eq : index = before.length

/-- The start of a text cuts it into nothing and all of it. -/
theorem cut_ofText (text : String) : Cut (ofText text) 0 [] text.toList := ⟨rfl, rfl⟩

namespace Cut

variable {v : CharVector} {index : Nat} {before cs rest : List Char} {c d : Char}

/-- The vector has as many characters as the index and what is left. -/
theorem size_eq (h : Cut v index before rest) : v.chars.size = index + rest.length := by
  rw [← Array.length_toList, v.chars_eq, length_charIndices, h.text_eq, List.length_append,
    h.index_eq]

/-- In front of a character the index is inside of the vector. -/
theorem lt_size (h : Cut v index before (c :: rest)) : index < v.chars.size := by
  rw [h.size_eq, List.length_cons]
  omega

/-- Behind the last character the index is outside of the vector. -/
theorem not_lt_size (h : Cut v index before []) : ¬index < v.chars.size := by
  rw [h.size_eq]
  exact Nat.lt_irrefl index

/-- The index some characters further on. -/
theorem skip (h : Cut v index before (cs ++ rest)) :
    Cut v (index + cs.length) (before ++ cs) rest where
  text_eq := by rw [h.text_eq, List.append_assoc]
  index_eq := by rw [List.length_append, h.index_eq]

/-- A step over one character. -/
theorem next (h : Cut v index before (c :: rest)) : Cut v (index + 1) (before ++ [c]) rest := by
  rw [← List.singleton_append] at h
  exact h.skip

/-- What is in the vector at the index. -/
theorem entry_eq (h : Cut v index before rest) :
    v.chars[index]? = rest.head?.map fun c => (byteLength before, c) := by
  rw [← Array.getElem?_toList, v.chars_eq, h.text_eq, charIndices_append,
    List.getElem?_append_right (by rw [length_charIndices, h.index_eq]), length_charIndices,
    h.index_eq, Nat.sub_self, Nat.zero_add]
  cases rest <;> rfl

/-- The character at the index is the first one of what is left. -/
theorem char?_eq (h : Cut v index before rest) : v.char? index = rest.head? := by
  rw [char?, h.entry_eq]
  cases rest <;> rfl

/-- The offset at the index counts the bytes in front of it, also at the end. -/
theorem offsetAt_eq (h : Cut v index before rest) : v.offsetAt index = byteLength before := by
  rw [offsetAt, h.entry_eq]
  cases rest with
  | nil =>
    show v.text.utf8ByteSize = _
    rw [← byteLength_toList, h.text_eq, List.append_nil]
  | cons c rest => rfl

/-- The offset some characters further on is that many bytes further on. -/
theorem offsetAt_skip (h : Cut v index before (cs ++ rest)) :
    v.offsetAt (index + cs.length) = byteLength before + byteLength cs := by
  rw [h.skip.offsetAt_eq, byteLength_append]

/-- Between two indices no character is cut. -/
theorem slice?_eq (h : Cut v index before (cs ++ rest)) :
    slice? v.text ⟨byteLength before, byteLength before + byteLength cs⟩
      = some (String.ofList cs) :=
  Span.Holds.slice?_eq
    ⟨by rw [h.text_eq, List.append_assoc], rfl, (byteLength_append before cs).symm⟩

/-! ### Loops -/

/-- The loop over characters of a kind. -/
theorem skipWhile?_eq (h : Cut v index before rest) (p : Char → Bool) :
    v.skipWhile? p index = some (index + (rest.takeWhile p).length) := by
  induction rest generalizing index before with
  | nil =>
    rw [skipWhile?, dif_neg h.not_lt_size]
    rfl
  | cons c rest ih =>
    rw [skipWhile?, dif_pos h.lt_size, h.char?_eq]
    simp only [List.head?_cons, Option.bind_eq_bind, Option.bind_some, ih h.next]
    cases hp : p c with
    | true => simp [hp, Nat.add_assoc, Nat.add_comm 1]
    | false => simp [hp]

/-- Only a backslash escapes. -/
theorem escaped?_of_ne (h : Cut v index before (c :: rest)) (hne : c ≠ '\\') :
    v.escaped? index = some none := by
  simp [escaped?, h.char?_eq, hne]

/-- A backslash does so neither at the end of its line nor at that of the text. -/
theorem escaped?_of_endsLine (h : Cut v index before ('\\' :: rest)) (hrest : EndsLine rest) :
    v.escaped? index = some none := by
  obtain rfl | ⟨rest, rfl⟩ := hrest.eq_nil_or_cons
  · simp [escaped?, h.char?_eq, h.size_eq]
  · simp [escaped?, h.char?_eq, h.size_eq, h.next.char?_eq]

/-- A backslash takes the character behind it along, but not a line feed. -/
theorem escaped?_of_pair (h : Cut v index before ('\\' :: d :: rest)) (hne : d ≠ '\n') :
    v.escaped? index = some (some d) := by
  simp [escaped?, h.char?_eq, h.size_eq, h.next.char?_eq, hne]

/-- A turn of the loop over a string literal. -/
theorem quoted?_cons (h : Cut v index before (c :: rest)) (hline : c ≠ '\n')
    (value : List Char) :
    v.quoted? index value = v.escaped? index >>= fun escaped =>
      match escaped with
      | some d => v.quoted? (index + 2) (value ++ [unescape d])
      | none =>
        if c = '"' then some (value, true, index + 1)
        else v.quoted? (index + 1) (value ++ [c]) := by
  rw [quoted?, dif_pos h.lt_size, h.char?_eq]
  simp only [List.head?_cons, Option.bind_eq_bind, Option.bind_some, if_neg hline]
  rfl

/-- At the end of a line the loop stops. -/
theorem quoted?_of_endsLine (h : Cut v index before rest) (hrest : EndsLine rest)
    (value : List Char) : v.quoted? index value = some (value, false, index) := by
  obtain rfl | ⟨rest, rfl⟩ := hrest.eq_nil_or_cons
  · rw [quoted?, dif_neg h.not_lt_size]
    rfl
  · rw [quoted?, dif_pos h.lt_size, h.char?_eq]
    rfl

/-- The loop over a string literal takes what is read of it from the characters. -/
theorem quoted?_eq (h : Cut v index before cs) (value : List Char) :
    v.quoted? index value = some (value ++ (Quote.read cs).value, (Quote.read cs).closed,
      index + (Quote.read cs).chars.length) := by
  fun_induction Quote.read cs generalizing index before value with
  | case1 =>
    rw [h.quoted?_of_endsLine (startsWithout_nil _), List.append_nil]
    rfl
  | case2 rest =>
    rw [h.quoted?_cons (by decide), h.escaped?_of_ne (by decide), List.append_nil]
    rfl
  | case3 rest =>
    rw [h.quoted?_of_endsLine (startsWithout_cons.mpr (by decide)), List.append_nil]
    rfl
  | case4 rest =>
    -- The backslash is put into the value, and the next turn finds the line break.
    have hrest : EndsLine ('\n' :: rest) := startsWithout_cons.mpr (by decide)
    rw [h.quoted?_cons (by decide), h.escaped?_of_endsLine hrest]
    exact h.next.quoted?_of_endsLine hrest (value ++ ['\\'])
  | case5 c rest line ih =>
    rw [h.quoted?_cons (by decide), h.escaped?_of_pair line]
    have hloop := ih h.next.next (value ++ [unescape c])
    simp only [Quote.prepend, List.length_append, List.length_cons, List.length_nil]
    rw [List.append_assoc, Nat.add_assoc] at hloop
    rw [← Nat.add_assoc]
    exact hloop
  | case6 c rest quote line _ hpair ih =>
    have hescaped : v.escaped? index = some none := by
      -- A backslash that is read like this is the last character of the text.
      by_cases hc : c = '\\'
      · subst hc
        cases rest with
        | nil => exact h.escaped?_of_endsLine (startsWithout_nil _)
        | cons d rest => exact absurd rfl (hpair d rest rfl)
      · exact h.escaped?_of_ne hc
    rw [h.quoted?_cons line, hescaped]
    have hloop := ih h.next (value ++ [c])
    simp only [Quote.prepend, List.length_append, List.length_cons, List.length_nil]
    rw [List.append_assoc] at hloop
    rw [Option.bind_eq_bind, Option.bind_some, if_neg quote, hloop, Nat.add_assoc]
    rfl

end Cut

end CharVector

end ExprFrontEnd
