import ExprFrontEnd.Proofs.OneLine
import ExprFrontEnd.Proofs.SourceLines

/-!
# `ExprFrontEnd.Proofs.Rendering`: rendered diagnostics line by line

A renderer that works in place looks places and line texts up in a table of starts,
takes columns from one another, writes a line feed behind each row, and at last trims
the whole block. All of these may go wrong: a difference may be less than nothing, and
a trim may take more than the last line feed.

* `Diagnostic.render?_eq`: none of them does, if the diagnostic does not end in front
  of its start. The last row always ends in a caret or a digit, so nothing but the last
  line feed is trimmed.
* `Diagnostic.shownAs_renderLines`: what the rows show, said without any table. The
  places are counted in the bytes of the text, and its lines are split at line feeds.
* `renderAll_lineExact`: rendered diagnostics consist of these rows and nothing else.
-/

set_option autoImplicit false

namespace ExprFrontEnd

/-! ### Texts and their ends -/

/-- A text without the blanks at its end. -/
def trimEnd (s : String) : String := String.ofList (s.toList.rdropWhile Text.isBlank)

/-- The last character of a text is one that shows. -/
def EndsVisibly (s : String) : Prop :=
  ∃ front c, s.toList = front ++ [c] ∧ Text.isBlank c = false

/-- The end of a text is the end of its last part. -/
theorem EndsVisibly.append {b : String} (h : EndsVisibly b) (a : String) :
    EndsVisibly (a ++ b) := by
  obtain ⟨front, c, hb, hblank⟩ := h
  exact ⟨a.toList ++ front, c, by rw [String.toList_append, hb, List.append_assoc], hblank⟩

/-- A line feed behind such a text is all that a trim takes. -/
theorem EndsVisibly.trimEnd_newline {s : String} (h : EndsVisibly s) : trimEnd (s ++ "\n") = s := by
  obtain ⟨front, c, hs, hblank⟩ := h
  rw [trimEnd, String.toList_append, hs]
  show String.ofList ((front ++ [c] ++ ['\n']).rdropWhile Text.isBlank) = s
  rw [List.rdropWhile_concat_pos _ _ _ (by decide),
    List.rdropWhile_concat_neg _ _ _ (by rw [hblank]; decide), ← hs, String.ofList_toList]

/-- A number ends in a digit. -/
theorem endsVisibly_toString (n : Nat) : EndsVisibly (toString n) := by
  have hne : Nat.toDigits 10 n ≠ [] := Nat.toDigits_ne_nil
  have hdigit := Nat.isDigit_of_mem_toDigits (by decide) (by decide) (List.getLast_mem hne)
  refine ⟨(Nat.toDigits 10 n).dropLast, (Nat.toDigits 10 n).getLast hne, ?_, ?_⟩
  · rw [Nat.toString_eq_ofList_toDigits, String.toList_ofList, List.dropLast_append_getLast hne]
  · rw [Bool.eq_false_iff]
    intro hblank
    have hname := isNameChar_of_isDigit hdigit
    rw [isNameChar_eq_false_of_isBlank hblank] at hname
    cases hname

/-- A row of characters of which at least one shows. -/
structure IsRow (s : String) : Prop where
  onOneLine : OnOneLine s
  visible : ∃ c ∈ s.toList, Text.isBlank c = false

/-- A row goes on with anything that has no line feed. -/
theorem IsRow.append {a b : String} (ha : IsRow a) (hb : OnOneLine b) : IsRow (a ++ b) := by
  obtain ⟨hline, c, hc, hblank⟩ := ha
  refine ⟨hline.append hb, c, ?_, hblank⟩
  rw [String.toList_append]
  exact List.mem_append_left _ hc

/-- A row may have anything without a line feed in front of it. -/
theorem IsRow.behind {a b : String} (ha : OnOneLine a) (hb : IsRow b) : IsRow (a ++ b) := by
  obtain ⟨hline, c, hc, hblank⟩ := hb
  refine ⟨ha.append hline, c, ?_, hblank⟩
  rw [String.toList_append]
  exact List.mem_append_right _ hc

/-- A character shows, so there is one. -/
theorem IsRow.ne_empty {s : String} (h : IsRow s) : s ≠ "" := by
  rintro rfl
  obtain ⟨c, hc, -⟩ := h.visible
  cases hc

/-- Rows with a line feed behind each. -/
theorem join_map_newline {rows : List String} (h : rows ≠ []) :
    String.join (rows.map (· ++ "\n")) = "\n".intercalate rows ++ "\n" := by
  induction rows with
  | nil => exact absurd rfl h
  | cons row rows ih =>
    rw [List.map_cons, String.join_cons]
    cases rows with
    | nil =>
      rw [String.intercalate_singleton]
      exact String.append_empty
    | cons next rows =>
      rw [ih (List.cons_ne_nil _ _), String.intercalate_cons_cons]
      simp only [String.append_assoc]

/-- Rows end as the last of them does. -/
theorem endsVisibly_intercalate {last : String} (h : EndsVisibly last) (rows : List String) :
    EndsVisibly ("\n".intercalate (rows ++ [last])) := by
  cases rows with
  | nil => rwa [List.nil_append, String.intercalate_singleton]
  | cons row rows =>
    rw [String.intercalate_append_of_ne_nil (List.cons_ne_nil _ _) (List.cons_ne_nil _ _),
      String.intercalate_singleton]
    exact h.append _

/-- The lines of a text. An empty text has none. -/
def textLines (s : String) : List String :=
  if s = "" then [] else (s.toList.splitOn '\n').map String.ofList

/-- The rows of a text can be had back from it. -/
theorem textLines_intercalate {rows : List String} (h : ∀ row ∈ rows, IsRow row) :
    textLines ("\n".intercalate rows) = rows := by
  rcases eq_or_ne rows [] with rfl | hrows
  · rfl
  · have hsplit : ("\n".intercalate rows).toList.splitOn '\n' = rows.map String.toList := by
      rw [String.toList_intercalate]
      exact List.splitOn_intercalate '\n'
        (List.forall_mem_map.mpr fun row hrow => (h row hrow).onOneLine)
        (by rwa [ne_eq, List.map_eq_nil_iff])
    have hback : (rows.map String.toList).map String.ofList = rows := by
      rw [List.map_map]
      exact (List.map_congr_left fun row _ => String.ofList_toList).trans (List.map_id rows)
    -- Rows are not empty, so the text is empty only if there is none.
    have htext : "\n".intercalate rows ≠ "" := by
      intro hempty
      rw [hempty] at hsplit
      have hone : rows = [""] := by
        rw [← hback, ← hsplit]
        rfl
      exact (h "" (hone ▸ List.mem_singleton_self _)).ne_empty rfl
    rw [textLines, if_neg htext, hsplit, hback]

/-! ### Places in one line -/

namespace LineIndex

/-- The line that an offset lies in, and the place in it. -/
theorem exists_lineAt_eq (source : String) (offset : Nat) :
    ∃ i line, (LineTable.lines source)[i]? = some line ∧
      line.start ≤ min offset source.utf8ByteSize ∧
      (ofSource source).lineAt offset = (i + 1, line) ∧
      (ofSource source).position offset
        = ⟨i + 1, min offset source.utf8ByteSize - line.start + 1⟩ := by
  obtain ⟨i, line, -, hat⟩ := LineTable.exists_line?_eq source (min offset source.utf8ByteSize)
  have hlineAt := hat.lineAt_eq
  refine ⟨i, line, hat.line_eq, hat.start_le, hlineAt, ?_⟩
  rw [position, hlineAt]
  rfl

/-- In one line columns are as far from one another as offsets. -/
theorem column_of_line_eq (source : String) {a b : Nat} (hab : a ≤ b)
    (hline : ((ofSource source).position b).line = ((ofSource source).position a).line) :
    ((ofSource source).position b).column = ((ofSource source).position a).column
      + (min b source.utf8ByteSize - min a source.utf8ByteSize) := by
  obtain ⟨i, line, hi, hle, -, hposition⟩ := exists_lineAt_eq source a
  obtain ⟨j, line', hj, hle', -, hposition'⟩ := exists_lineAt_eq source b
  rw [hposition, hposition'] at hline
  obtain rfl : j = i := Nat.succ.inj hline
  rw [hi] at hj
  obtain rfl := Option.some.inj hj
  rw [hposition, hposition']
  show min b source.utf8ByteSize - line.start + 1 = min a source.utf8ByteSize - line.start + 1 + _
  omega

/-- Columns are counted from one. -/
theorem one_le_column (index : LineIndex) (offset : Nat) :
    1 ≤ (index.position offset).column := Nat.le_add_left 1 _

end LineIndex

/-- The table gives the text of the line that an offset lies in. -/
theorem LineTable.lineText?_position (source : String) (offset : Nat) :
    (ofSource source).lineText? source ((LineIndex.ofSource source).position offset).line
      = some ((LineIndex.ofSource source).lineAt offset).2.printed := by
  obtain ⟨i, line, hline, -, hlineAt, hposition⟩ := LineIndex.exists_lineAt_eq source offset
  rw [hposition, hlineAt]
  exact lineText?_ofSource hline

/-! ### Rows -/

namespace Diagnostic

/-- The first row of a rendered diagnostic. -/
def headerRow (path : String) (d : Diagnostic) (start : Position) : String :=
  "error[" ++ d.code ++ "] " ++ placeText path start ++ " " ++ d.message

/-- The row of the source line. -/
def textRow (line : Nat) (text : List Char) : String :=
  lineNumber line ++ " | " ++ String.ofList text

/-- The row that underlines the source line. -/
def caretRow (indent carets : Nat) : String :=
  "     | " ++ String.ofList (List.replicate indent ' ')
    ++ String.ofList (List.replicate carets '^')

/-- The row of a label. -/
def noteRow (path : String) (l : Label) (place : Position) : String :=
  "  note: " ++ l.message ++ " at " ++ placeText path place

/-- The rows of a diagnostic, one by one: the header, the line of the text, the carets and the
notes. -/
theorem renderLines_eq (path : String) (index : LineIndex) (d : Diagnostic) :
    d.renderLines path index
      = [d.headerRow path (index.position d.span.start),
          textRow (index.position d.span.start).line (index.lineAt d.span.start).2.printed,
          caretRow ((index.position d.span.start).column - 1)
            (caretCount (index.position d.span.start) (index.position d.span.stop)
              (byteLength (index.lineAt d.span.start).2.printed))]
        ++ d.labels.map fun l => noteRow path l (index.position l.span.start) := rfl

/-- An empty span has one caret all the same. -/
theorem one_le_caretCount (start stop : Position) (length : Nat) :
    1 ≤ caretCount start stop length := by
  unfold caretCount
  split <;> exact Nat.le_max_right _ _

/-- The row of carets ends with a caret. -/
theorem endsVisibly_caretRow (indent : Nat) {carets : Nat} (h : 1 ≤ carets) :
    EndsVisibly (caretRow indent carets) := by
  obtain ⟨n, rfl⟩ := Nat.exists_eq_add_of_le' h
  have hcarets : EndsVisibly (String.ofList (List.replicate (n + 1) '^')) :=
    ⟨List.replicate n '^', '^', by rw [String.toList_ofList, List.replicate_succ'], by decide⟩
  exact hcarets.append _

/-- A note ends with a place, and so with a digit. -/
theorem endsVisibly_noteRow (path : String) (l : Label) (place : Position) :
    EndsVisibly (noteRow path l place) := by
  have hplace : EndsVisibly (placeText path place) := (endsVisibly_toString place.column).append _
  exact hplace.append _

/-- A place is a path and two numbers. -/
theorem onOneLine_placeText {path : String} (hpath : OnOneLine path) (p : Position) :
    OnOneLine (placeText path p) :=
  (((hpath.append (by decide)).append (onOneLine_toString p.line)).append (by decide)).append
    (onOneLine_toString p.column)

/-- The header has the code, which shows. -/
theorem isRow_headerRow {path : String} {d : Diagnostic} (hpath : OnOneLine path) (h : d.Plain)
    (start : Position) : IsRow (d.headerRow path start) := by
  have herror : IsRow "error[" := ⟨by decide, 'e', by decide, by decide⟩
  exact ((((herror.append h.code).append (by decide)).append
    (onOneLine_placeText hpath start)).append (by decide)).append h.message

/-- The line number shows, even if the line is empty. -/
theorem isRow_textRow {text : List Char} (h : '\n' ∉ text) (line : Nat) :
    IsRow (textRow line text) := by
  have hblanks : OnOneLine (String.ofList (List.replicate (4 - (toString line).length) ' ')) :=
    onOneLine_ofList.mpr fun hmem => absurd (List.eq_of_mem_replicate hmem) (by decide)
  have hbar : IsRow " | " := ⟨by decide, '|', by decide, by decide⟩
  exact (hbar.behind (hblanks.append (onOneLine_toString line))).append (onOneLine_ofList.mpr h)

/-- A row of carets has its bar in front. -/
theorem isRow_caretRow (indent carets : Nat) : IsRow (caretRow indent carets) := by
  have hsame : ∀ (n : Nat) (c : Char), '\n' ≠ c → OnOneLine (String.ofList (List.replicate n c)) :=
    fun n c hc => onOneLine_ofList.mpr fun hmem => hc (List.eq_of_mem_replicate hmem)
  have hbar : IsRow "     | " := ⟨by decide, '|', by decide, by decide⟩
  exact (hbar.append (hsame indent ' ' (by decide))).append (hsame carets '^' (by decide))

/-- A note is a fixed text, a message and a place. -/
theorem isRow_noteRow {path : String} {l : Label} (hpath : OnOneLine path)
    (h : OnOneLine l.message) (place : Position) : IsRow (noteRow path l place) := by
  have hnote : IsRow "  note: " := ⟨by decide, 'n', by decide, by decide⟩
  exact ((hnote.append h).append (by decide)).append (onOneLine_placeText hpath place)

/-- The last row of a diagnostic ends in a caret or in a digit. -/
theorem endsVisibly_renderLines (path : String) (index : LineIndex) (d : Diagnostic) :
    EndsVisibly ("\n".intercalate (d.renderLines path index)) := by
  rw [renderLines_eq]
  rcases List.eq_nil_or_concat d.labels with hlabels | ⟨labels, last, hlabels⟩
  · rw [hlabels, List.map_nil, List.append_nil]
    exact endsVisibly_intercalate (endsVisibly_caretRow _ (one_le_caretCount _ _ _)) [_, _]
  · rw [hlabels, List.concat_eq_append, List.map_append, ← List.append_assoc]
    exact endsVisibly_intercalate (endsVisibly_noteRow _ _ _) _

/-! ### The renderer -/

/-- The number of carets, if it can be had. Behind the end of the line there is one
all the same. -/
def caretCount? (start stop : Position) (length : Nat) : Option Nat :=
  if stop.line = start.line then (minus? stop.column start.column).map (max · 1)
  else some (max (length + 1 - start.column) 1)

/-- The row of a label, with a line feed behind it. -/
def note? (path : String) (t : LineTable) (l : Label) : Option String := do
  let place ← t.position? l.span.start
  return noteRow path l place ++ "\n"

/-- A diagnostic rendered by a table. -/
def render? (path source : String) (t : LineTable) (d : Diagnostic) : Option String := do
  let start ← t.position? d.span.start
  let text ← t.lineText? source start.line
  let stop ← t.position? d.span.stop
  let carets ← caretCount? start stop (byteLength text)
  let indent ← minus? start.column 1
  let notes ← d.labels.mapM (note? path t)
  return trimEnd (d.headerRow path start ++ "\n" ++ (textRow start.line text ++ "\n")
    ++ (caretRow indent carets ++ "\n") ++ String.join notes)

/-- Rendered diagnostics behind what is there already, with a line feed in front of
all but the first one. -/
def renderFrom? (path source : String) (t : LineTable) :
    Nat → String → List Diagnostic → Option String
  | _, output, [] => some output
  | i, output, d :: ds => do
    let block ← d.render? path source t
    renderFrom? path source t (i + 1) ((if 0 < i then output.push '\n' else output) ++ block) ds

/-- Diagnostics rendered by the table of a source text. -/
def renderAll? (path source : String) (ds : List Diagnostic) : Option String :=
  renderFrom? path source (.ofSource source) 0 "" ds

/-- Without going back on the same line, the subtraction stays within the numbers. -/
theorem caretCount?_of_le {start stop : Position} (length : Nat)
    (h : stop.line = start.line → start.column ≤ stop.column) :
    caretCount? start stop length = some (caretCount start stop length) := by
  unfold caretCount? caretCount
  split
  · rename_i hline
    rw [minus?_of_le (h hline)]
    rfl
  · rfl

/-- A note depends on the start of its label alone, so none of them fails. -/
theorem mapM_note? (path source : String) (labels : List Label) :
    labels.mapM (note? path (.ofSource source))
      = some (labels.map fun l =>
          noteRow path l ((LineIndex.ofSource source).position l.span.start) ++ "\n") := by
  have hnote : note? path (.ofSource source) = fun l =>
      pure (noteRow path l ((LineIndex.ofSource source).position l.span.start) ++ "\n") := by
    funext l
    rw [note?, LineTable.position?_ofSource]
    rfl
  rw [hnote]
  exact List.mapM_pure

/-- **A diagnostic is rendered**, without a check that fails. -/
theorem render?_eq (path source : String) {d : Diagnostic} (h : d.span.start ≤ d.span.stop) :
    d.render? path source (.ofSource source) = some (d.render path source) := by
  have htext := LineTable.lineText?_position source d.span.start
  have hline := LineIndex.column_of_line_eq source h
  have hindent := LineIndex.one_le_column (.ofSource source) d.span.start
  have hends := endsVisibly_renderLines path (.ofSource source) d
  rw [renderLines_eq] at hends
  rw [render, renderLines_eq]
  simp only [render?, LineTable.position?_ofSource, htext, mapM_note?, Option.bind_eq_bind,
    Option.bind_some, Option.pure_def]
  generalize (LineIndex.ofSource source).position d.span.start = start at *
  generalize (LineIndex.ofSource source).position d.span.stop = stop at *
  rw [caretCount?_of_le _ fun hstop => Nat.le.intro (hline hstop).symm, minus?_of_le hindent,
    Option.bind_some, Option.bind_some]
  -- The rows with a line feed behind each, of which the last one is trimmed.
  rw [← hends.trimEnd_newline, ← join_map_newline (by simp)]
  simp only [List.map_append, List.map_cons, List.map_nil, List.map_map, String.join_append,
    String.join_cons, String.join_nil, String.append_empty, String.append_assoc]
  rfl

section
variable {path source : String} {ds : List Diagnostic}

/-- Behind the first diagnostic each one has a line feed in front of it. -/
theorem renderFrom?_eq (h : ∀ d ∈ ds, d.span.start ≤ d.span.stop) {i : Nat} (hi : 0 < i)
    (output : String) :
    renderFrom? path source (.ofSource source) i output ds
      = some (output ++ String.join (ds.map fun d => "\n" ++ d.render path source)) := by
  induction ds generalizing i output with
  | nil => exact congrArg some String.append_empty.symm
  | cons d ds ih =>
    obtain ⟨hd, hds⟩ := List.forall_mem_cons.mp h
    rw [renderFrom?, render?_eq path source hd, Option.bind_eq_bind, Option.bind_some,
      ih hds (Nat.succ_pos i), if_pos hi, List.map_cons, String.join_cons,
      ← String.append_singleton]
    simp only [String.append_assoc]
    rfl

/-- One block below the other. -/
theorem renderAll_cons (path source : String) (d : Diagnostic) (ds : List Diagnostic) :
    renderAll path source (d :: ds)
      = d.render path source ++ String.join (ds.map fun d => "\n" ++ d.render path source) := by
  have hne : ∀ d : Diagnostic, d.renderLines path (.ofSource source) ≠ [] := fun _ =>
    List.cons_ne_nil _ _
  induction ds generalizing d with
  | nil => rw [renderAll, List.flatMap_singleton, List.map_nil, String.join_nil,
      String.append_empty, render]
  | cons e ds ih =>
    have hrest : (e :: ds).flatMap (renderLines path (.ofSource source)) ≠ [] := by
      rw [List.flatMap_cons]
      exact List.append_ne_nil_of_left_ne_nil (hne e) _
    rw [renderAll, List.flatMap_cons, String.intercalate_append_of_ne_nil (hne d) hrest]
    show d.render path source ++ "\n" ++ renderAll path source (e :: ds) = _
    rw [ih e, List.map_cons, String.join_cons]
    simp only [String.append_assoc]

/-- **Diagnostics are rendered**, without a check that fails. -/
theorem renderAll?_eq (path source : String) (h : ∀ d ∈ ds, d.span.start ≤ d.span.stop) :
    renderAll? path source ds = some (renderAll path source ds) := by
  cases ds with
  | nil => rfl
  | cons d ds =>
    obtain ⟨hd, hds⟩ := List.forall_mem_cons.mp h
    rw [renderAll?, renderFrom?, render?_eq path source hd, Option.bind_eq_bind, Option.bind_some,
      renderFrom?_eq hds Nat.one_pos, renderAll_cons, if_neg (Nat.lt_irrefl 0), String.empty_append]

end

/-! ### What the rows show -/

/-- The place of an offset, counted in the bytes in front of it. An offset behind the
text counts as its end. -/
def countedPlace (source : String) (offset : Nat) : Position :=
  .behind ((sourceBytes source).take (min offset source.utf8ByteSize))

/-- What the rows of a rendered diagnostic are. No table and no index is needed to say
it: places are counted in the bytes of the text, and its lines are what splitting at
line feeds gives. -/
structure ShownAs (path source : String) (d : Diagnostic) (rows : List String) : Prop where
  /-- There are three rows, and one more for each label. -/
  length_eq : rows.length = 3 + d.labels.length
  /-- None of them is blank, and none has a line feed in it. -/
  isRow : ∀ row ∈ rows, IsRow row
  /-- The line that the diagnostic starts in is shown without the carriage returns at
  its end, and below it are a blank for each byte in front of the start, and a caret
  for each byte up to the end, or up to the end of the line if that comes first, but
  one caret at least. -/
  rows_eq :
    let start := countedPlace source d.span.start
    let stop := countedPlace source d.span.stop
    ∃ (text printed : List Char) (returns : Nat),
      (source.toList.splitOn '\n')[start.line - 1]? = some text ∧
      text = printed ++ List.replicate returns '\r' ∧ printed.getLast? ≠ some '\r' ∧
      rows = [d.headerRow path start, textRow start.line printed,
          caretRow (start.column - 1)
            (if stop.line = start.line then
              max 1 (min d.span.stop source.utf8ByteSize - min d.span.start source.utf8ByteSize)
            else max 1 (byteLength printed - (start.column - 1)))]
        ++ d.labels.map fun l => noteRow path l (countedPlace source l.span.start)

/-- The carriage returns at the end of a line, and what is printed of it. -/
theorem exists_text_eq_printed (l : Line) :
    ∃ returns : Nat, l.text = l.printed ++ List.replicate returns '\r' ∧
      l.printed.getLast? ≠ some '\r' := by
  have hprinted : l.printed = l.text.rdropWhile (· == '\r') := rfl
  have hreturns : ∀ c ∈ l.text.rtakeWhile (· == '\r'), c = '\r' := fun c hc =>
    beq_iff_eq.mp (List.mem_rtakeWhile_imp (p := (· == '\r')) hc)
  refine ⟨(l.text.rtakeWhile (· == '\r')).length, ?_, fun h => ?_⟩
  · rw [hprinted, ← List.eq_replicate_of_mem hreturns]
    exact List.rdropWhile_append_rtakeWhile.symm
  · obtain ⟨hne, hlast⟩ := List.mem_getLast?_eq_getLast h
    exact List.rdropWhile_last_not (· == '\r') l.text hne (beq_iff_eq.mpr hlast.symm)

/-- The carets, counted by offsets instead of columns. -/
theorem caretCount_position {source : String} {span : Span} (h : span.start ≤ span.stop)
    (length : Nat) :
    let start := (LineIndex.ofSource source).position span.start
    let stop := (LineIndex.ofSource source).position span.stop
    caretCount start stop length
      = if stop.line = start.line then
          max 1 (min span.stop source.utf8ByteSize - min span.start source.utf8ByteSize)
        else max 1 (length - (start.column - 1)) := by
  intro start stop
  have hcolumn := LineIndex.column_of_line_eq source h
  have hpos : 1 ≤ start.column := LineIndex.one_le_column _ _
  rw [caretCount]
  split
  -- On one line columns differ as offsets do.
  · rename_i hline
    have hstop : stop.column = start.column + _ := hcolumn hline
    rw [hstop, Nat.add_sub_cancel_left, Nat.max_comm]
  · omega

/-- Each field is about one row of the list in `renderLines_eq`. -/
theorem shownAs_renderLines {path : String} (source : String) {d : Diagnostic}
    (hpath : OnOneLine path) (h : d.Plain) :
    d.ShownAs path source (d.renderLines path (.ofSource source)) := by
  obtain ⟨i, line, hline, hle, hlineAt, hstart⟩ :=
    LineIndex.exists_lineAt_eq source d.span.start
  obtain ⟨returns, htext, hlast⟩ := exists_text_eq_printed line
  have hcut := cutInLines_lines source
  have hfree : '\n' ∉ line.printed := fun hmem =>
    hcut.newline_notMem line (List.mem_of_getElem? hline) (htext ▸ List.mem_append_left _ hmem)
  -- Places by the index are places by counting.
  have hplace : ∀ offset : Nat,
      (LineIndex.ofSource source).position offset = countedPlace source offset :=
    LineIndex.position_ofSource source
  refine ⟨?_, ?_, line.text, line.printed, returns, ?_, htext, hlast, ?_⟩
  · rw [renderLines_eq, List.length_append, List.length_map]
    rfl
  · rw [renderLines_eq, hlineAt, List.forall_mem_append]
    refine ⟨?_, List.forall_mem_map.mpr fun l hl => isRow_noteRow hpath (h.labels l hl) _⟩
    simp only [List.mem_cons, List.not_mem_nil, or_false, forall_eq_or_imp, forall_eq]
    exact ⟨isRow_headerRow hpath h _, isRow_textRow hfree _, isRow_caretRow _ _⟩
  · rw [← hcut.texts_eq, List.getElem?_map, ← hplace, hstart]
    exact congrArg (Option.map Line.text) hline
  · rw [renderLines_eq, hlineAt, caretCount_position h.span]
    simp only [hplace]

/-- **Rendering never fails and goes line by line**, for every source text, every path
on one line and all diagnostics whose texts stay on one line and which do not end in
front of their starts. All offsets will do, also those behind the text and inside of
characters. No place or line is looked up out of the table and no difference is less
than nothing. What is rendered has three lines and one more for each label, diagnostic
by diagnostic, without a blank line between them (`ShownAs` says what they are). The
diagnostics of the lexer and of the parser are of this kind, whatever the source
text. -/
theorem renderAll_lineExact (path source : String) (ds : List Diagnostic)
    (hpath : OnOneLine path) (hds : ∀ d ∈ ds, d.Plain) :
    renderAll? path source ds = some (renderAll path source ds) ∧
      (∃ blocks : List (List String),
        textLines (renderAll path source ds) = blocks.flatten ∧
          List.Forall₂ (ShownAs path source) ds blocks) ∧
      ∀ mode : Reduction, ∀ d ∈ (parseExpression mode source).diagnostics
        ++ (parseProgram mode source).diagnostics, d.Plain := by
  have hshown : ∀ d ∈ ds, d.ShownAs path source (d.renderLines path (.ofSource source)) :=
    fun d hd => shownAs_renderLines source hpath (hds d hd)
  refine ⟨renderAll?_eq path source fun d hd => (hds d hd).span,
    ⟨ds.map (renderLines path (.ofSource source)), ?_, ?_⟩,
    fun mode => plain_diagnostics mode source⟩
  -- Every row is one line of the text, so splitting gives the rows of all diagnostics.
  · rw [renderAll, ← List.flatMap_def]
    refine textLines_intercalate fun row hrow => ?_
    obtain ⟨d, hd, hrow⟩ := List.mem_flatMap.mp hrow
    exact (hshown d hd).isRow row hrow
  · rw [List.forall₂_map_right_iff, List.forall₂_same]
    exact hshown

/-- A diagnostic from behind the printed part of a line, up to behind the text. Its
column is one more than there is to underline, since the carriage return is not
printed. -/
theorem renderAll_lineExact_carriageReturn :
    let d : Diagnostic := ⟨"E1001", "no end", ⟨3, 100⟩, [⟨"here", ⟨5, 6⟩⟩]⟩
    OnOneLine "a.esc" ∧ (∀ e ∈ [d, d], e.Plain) ∧
      renderAll? "a.esc" "ab\r\ncd" [d, d] = some ("error[E1001] a.esc:1:4 no end\n"
        ++ "   1 | ab\n     |    ^\n  note: here at a.esc:2:2\n"
        ++ "error[E1001] a.esc:1:4 no end\n"
        ++ "   1 | ab\n     |    ^\n  note: here at a.esc:2:2") := by
  intro d
  have hpath : OnOneLine "a.esc" := by decide
  have hplain : ∀ e ∈ [d, d], e.Plain := by
    have hd : d.Plain := ⟨by decide, by decide, by decide, by decide⟩
    exact List.forall_mem_cons.mpr ⟨hd, List.forall_mem_singleton.mpr hd⟩
  refine ⟨hpath, hplain, ?_⟩
  rw [(renderAll_lineExact "a.esc" "ab\r\ncd" [d, d] hpath hplain).1]
  decide +kernel

end Diagnostic

end ExprFrontEnd
