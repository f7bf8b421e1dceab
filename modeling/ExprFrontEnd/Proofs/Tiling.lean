import ExprFrontEnd.Proofs.LexedTokens
import ExprFrontEnd.Proofs.Scanning
import Mathlib.Data.String.Basic

/-!
# `ExprFrontEnd.Proofs.Tiling`: tokens and gaps tile the source

The places of tokens are byte offsets, and texts are rows of characters. A
place is where some characters stand if as many bytes are in front of them
(`Span.Holds`). Then no character is cut there, and the slice of the source at
that place is the text of these characters.

* `Scans.tiles`: a reading of a text is a row of gaps with a token behind each,
  where a gap is white space and comments (`Gap`).
* `tiled_lex`: so the tokens of a source text are slices of it one behind the
  other, and with the gaps between them they are all of it.
-/

set_option autoImplicit false

namespace ExprFrontEnd

/-! ### Places -/

/-- The text at a place of a source text, if the ends of the place are in order
and no character is cut there. -/
def slice? (source : String) (span : Span) : Option String :=
  let start : String.Pos.Raw := ⟨span.start⟩
  let stop : String.Pos.Raw := ⟨span.stop⟩
  if start.isValid source && stop.isValid source && decide (span.start ≤ span.stop) then
    some (start.extract source stop)
  else none

/-- Characters stand at a place of a source text, between others. -/
structure Span.Holds (source : String) (span : Span) (before text behind : List Char) : Prop where
  source_eq : source.toList = before ++ text ++ behind
  start_eq : span.start = byteLength before
  stop_eq : span.stop = byteLength (before ++ text)

/-- Offsets in characters agree with those of the library. -/
theorem byteLength_eq_utf8Len (cs : List Char) : byteLength cs = String.utf8Len cs := by
  induction cs with
  | nil => rfl
  | cons c cs ih => rw [byteLength_cons, String.utf8Len_cons, ih, Nat.add_comm]

/-- As many bytes as some first characters take up are a valid offset. -/
theorem isValid_byteLength {source : String} {before behind : List Char}
    (h : source.toList = before ++ behind) :
    String.Pos.Raw.IsValid source ⟨byteLength before⟩ := by
  rw [String.Pos.Raw.isValid_iff_exists_append]
  refine ⟨String.ofList before, String.ofList behind, ?_, ?_⟩
  · rw [← String.ofList_append, ← h, String.ofList_toList]
  · rw [byteLength_eq_utf8ByteSize_ofList]
    rfl

namespace Span.Holds

variable {source : String} {span : Span} {before text behind : List Char}

/-- A lexeme starts at a boundary of characters. -/
theorem isValid_start (h : span.Holds source before text behind) :
    String.Pos.Raw.IsValid source ⟨span.start⟩ := by
  rw [h.start_eq]
  exact isValid_byteLength (h.source_eq.trans (List.append_assoc _ _ _))

/-- A lexeme stops at a boundary of characters. -/
theorem isValid_stop (h : span.Holds source before text behind) :
    String.Pos.Raw.IsValid source ⟨span.stop⟩ := by
  rw [h.stop_eq]
  exact isValid_byteLength h.source_eq

/-- Characters do not have a negative length. -/
theorem start_le_stop (h : span.Holds source before text behind) : span.start ≤ span.stop := by
  rw [h.start_eq, h.stop_eq, byteLength_append]
  exact Nat.le_add_right _ _

/-- What stands in a source does not reach beyond it. -/
theorem stop_le (h : span.Holds source before text behind) : span.stop ≤ source.utf8ByteSize := by
  rw [h.stop_eq, ← byteLength_toList, h.source_eq, byteLength_append _ behind]
  exact Nat.le_add_right _ _

/-- Slicing gives the characters that stand there, since both ends are boundaries. -/
theorem slice?_eq (h : span.Holds source before text behind) :
    slice? source span = some (String.ofList text) := by
  have hsource : source = String.ofList (before ++ text ++ behind) := by
    rw [← h.source_eq, String.ofList_toList]
  have hextract := String.extract_of_valid before text behind
  rw [← hsource, ← byteLength_eq_utf8Len, ← byteLength_eq_utf8Len, ← byteLength_append,
    ← h.start_eq, ← h.stop_eq] at hextract
  simp only [slice?, String.Pos.Raw.isValid_eq_true_iff.mpr h.isValid_start,
    String.Pos.Raw.isValid_eq_true_iff.mpr h.isValid_stop, h.start_le_stop, Bool.and_self,
    decide_true, ↓reduceIte, hextract]

end Span.Holds

/-! ### Gaps -/

/-- White space and comments in front of other characters. A comment runs to the
end of its line, which may be in the gap or behind it. -/
inductive Gap (behind : List Char) : List Char → Prop
  | nil : Gap behind []
  | blank {c : Char} {cs : List Char} (blank : Text.isBlank c = true) (rest : Gap behind cs) :
      Gap behind (c :: cs)
  | comment {body cs : List Char} (line : '\n' ∉ body) (ends : EndsLine (cs ++ behind))
      (rest : Gap behind cs) : Gap behind ('/' :: '/' :: body ++ cs)

/-- The tokens of a text behind another one, each with a gap in front of it. -/
inductive Tiles : List Char → List Char → List SourceToken → Prop
  | last {before gap : List Char} (front : Gap [] gap) :
      Tiles before gap [⟨.eof, "", .empty (byteLength (before ++ gap))⟩]
  | more {before gap text behind : List Char} {t : SourceToken} {ts : List SourceToken}
      (front : Gap (text ++ behind) gap) (text_eq : t.text = String.ofList text)
      (start_eq : t.span.start = byteLength (before ++ gap))
      (stop_eq : t.span.stop = byteLength (before ++ gap ++ text))
      (rest : Tiles (before ++ gap ++ text) behind ts) :
      Tiles before (gap ++ (text ++ behind)) (t :: ts)

/-- A lexeme without a token makes the gap behind it longer. -/
theorem Gap.cons {before behind gap : List Char} {l : Lexeme}
    (kind : l.kind = .blank ∨ l.kind = .comment) (fits : l.Fits before (gap ++ behind))
    (h : Gap behind gap) : Gap behind (l.chars ++ gap) := by
  cases fits with
  | blank blank => exact .blank blank h
  | comment line right => exact .comment line right h
  | _ => rcases kind with kind | kind <;> cases kind

/-- A blank or a comment widens the gap in front of the next token. -/
theorem Tiles.cons {before behind : List Char} {l : Lexeme} {ts : List SourceToken}
    (kind : l.kind = .blank ∨ l.kind = .comment) (fits : l.Fits before behind)
    (h : Tiles (before ++ l.chars) behind ts) : Tiles before (l.chars ++ behind) ts := by
  cases h with
  | last front =>
    rw [List.append_assoc]
    exact .last (.cons kind (by rwa [List.append_nil]) front)
  | more front text_eq start_eq stop_eq rest =>
    rw [List.append_assoc before] at start_eq stop_eq rest
    rw [← List.append_assoc]
    exact .more (.cons kind fits front) text_eq start_eq stop_eq rest

/-- A reading of a text is a row of gaps with a token behind each. -/
theorem Scans.tiles {before cs : List Char} {ts : List SourceToken} {is : List Issue}
    (h : Scans before cs ts is) : Tiles before cs ts := by
  induction h with
  | @done before =>
    have hlast : Tiles before [] [⟨.eof, "", .empty (byteLength (before ++ []))⟩] := .last .nil
    rwa [List.append_nil] at hlast
  | gap kind fits rest ih => exact .cons kind fits ih
  | @token before text behind kind flaw span ts is fits place rest ih =>
    -- All white space in front of the token has been passed.
    rw [← List.append_nil before] at ih place
    exact .more .nil rfl (by rw [place]) (by rw [place]) ih

/-! ### Tokens and gaps -/

/-- What a gap at a place of a source text is. -/
def IsGap (source : String) (span : Span) (text : String) : Prop :=
  ∃ before gap behind : List Char, span.Holds source before gap behind ∧
    text = String.ofList gap ∧ Gap behind gap

/-- The places in front of other places, from an offset on. -/
def Span.gaps (offset : Nat) : List Span → List Span
  | [] => []
  | s :: rest => ⟨offset, s.start⟩ :: gaps s.stop rest

section
variable {source : String} {before cs : List Char} {ts : List SourceToken}

/-- The text of a token stands at its place. -/
theorem Tiles.exists_holds (h : Tiles before cs ts) (hsource : source.toList = before ++ cs) :
    ∀ t ∈ ts, ∃ front text behind : List Char, t.span.Holds source front text behind ∧
      t.text = String.ofList text := by
  induction h with
  | @last before gap front =>
    refine List.forall_mem_singleton.mpr ⟨before ++ gap, [], [], ⟨?_, rfl, ?_⟩, rfl⟩
    · rw [hsource, List.append_nil, List.append_nil]
    · rw [List.append_nil]
      rfl
  | @more before gap text behind t ts front text_eq start_eq stop_eq rest ih =>
    have hsource' : source.toList = before ++ gap ++ text ++ behind := by
      rw [hsource]
      simp only [List.append_assoc]
    exact List.forall_mem_cons.mpr
      ⟨⟨before ++ gap, text, behind, ⟨hsource', start_eq, stop_eq⟩, text_eq⟩, ih hsource'⟩

/-- The gaps stand between the tokens, and with them they are the whole text. -/
theorem Tiles.exists_gaps (h : Tiles before cs ts) (hsource : source.toList = before ++ cs) :
    ∃ gaps : List String,
      List.Forall₂ (IsGap source) (Span.gaps (byteLength before) (ts.map SourceToken.span)) gaps ∧
      String.join (List.zipWith (· ++ ·) gaps (ts.map SourceToken.text)) = String.ofList cs := by
  induction h with
  | @last before gap front =>
    have hholds : (Span.mk (byteLength before) (byteLength (before ++ gap))).Holds source before
        gap [] := ⟨by rw [hsource, List.append_nil], rfl, rfl⟩
    refine ⟨[String.ofList gap], .cons ⟨before, gap, [], hholds, rfl, front⟩ .nil, ?_⟩
    simp
  | @more before gap text behind t ts front text_eq start_eq stop_eq rest ih =>
    have hsource' : source.toList = before ++ gap ++ text ++ behind := by
      rw [hsource]
      simp only [List.append_assoc]
    obtain ⟨gaps, hgaps, hjoin⟩ := ih hsource'
    rw [← stop_eq] at hgaps
    -- The gap runs from where the tiles start to where the token does.
    have hholds : (Span.mk (byteLength before) t.span.start).Holds source before gap
        (text ++ behind) := ⟨by rw [hsource, List.append_assoc], rfl, start_eq⟩
    refine ⟨String.ofList gap :: gaps,
      .cons ⟨before, gap, text ++ behind, hholds, rfl, front⟩ hgaps, ?_⟩
    simp only [List.map_cons, List.zipWith_cons_cons, String.join_cons, hjoin, text_eq,
      String.ofList_append, String.append_assoc]

end

/-- The tokens of a source text: those that stand in it, one behind the other,
and the end. -/
theorem exists_sourceTokens_lex (source : String) :
    ∃ front : List SourceToken,
      (lex source).sourceTokens = front ++ [⟨.eof, "", .empty source.utf8ByteSize⟩] ∧
      (∀ t ∈ front, t.toToken.IsLexed ∧ t.span.stop ≤ source.utf8ByteSize) ∧
      front.Pairwise fun t u => t.span.stop ≤ u.span.start := by
  let front := (place 0 (lexemes source.toList)).filterMap fun p => SourceToken.ofLexeme? p.1 p.2
  have hfront : (lex source).sourceTokens
      = front ++ [⟨.eof, "", .empty source.utf8ByteSize⟩] := rfl
  obtain ⟨tokens, htokens, hlexed, hpw⟩ := exists_tokens_lex source
  rw [Lexed.tokens, hfront, List.map_append] at htokens
  rw [← List.append_cancel_right htokens] at hlexed hpw
  exact ⟨front, hfront, fun t ht => hlexed _ (List.mem_map_of_mem ht), List.pairwise_map.mp hpw⟩

/-! ### Tilings -/

/-- The tokens of a source text and what is between them tile it. -/
structure Tiled (source : String) (ts : List SourceToken) : Prop where
  /-- No token cuts a character. -/
  isValid : ∀ t ∈ ts, String.Pos.Raw.IsValid source ⟨t.span.start⟩ ∧
    String.Pos.Raw.IsValid source ⟨t.span.stop⟩
  bounds : ∀ t ∈ ts, t.span.start ≤ t.span.stop ∧ t.span.stop ≤ source.utf8ByteSize
  ordered : ts.Pairwise fun t u => t.span.stop ≤ u.span.start
  /-- The last token is the only end of input, and the only empty one. -/
  last : ∃ front : List SourceToken, ts = front ++ [⟨.eof, "", .empty source.utf8ByteSize⟩] ∧
    ∀ t ∈ front, t.kind ≠ .eof ∧ t.span.start < t.span.stop
  /-- The text of a token is the slice of the source at its place. -/
  slice : ∀ t ∈ ts, slice? source t.span = some t.text
  /-- In front of each token is white space and comments, and nothing is lost. -/
  gaps : ∃ gaps : List String,
    List.Forall₂ (IsGap source) (Span.gaps 0 (ts.map SourceToken.span)) gaps ∧
      String.join (List.zipWith (· ++ ·) gaps (ts.map SourceToken.text)) = source

/-- **The lexer tiles the source**, whatever its characters. -/
theorem tiled_lex (source : String) : Tiled source (lex source).sourceTokens := by
  have htiles := (scans_lex source).tiles
  have hholds := htiles.exists_holds rfl
  obtain ⟨front, hfront, hlexed, hpw⟩ := exists_sourceTokens_lex source
  refine ⟨fun t ht => ?_, fun t ht => ?_, ?_, ?_, fun t ht => ?_, ?_⟩
  · obtain ⟨_, _, _, h, -⟩ := hholds t ht
    exact ⟨h.isValid_start, h.isValid_stop⟩
  · obtain ⟨_, _, _, h, -⟩ := hholds t ht
    exact ⟨h.start_le_stop, h.stop_le⟩
  -- The end is behind all other tokens, and those are in order.
  · rw [hfront]
    refine List.pairwise_append.mpr ⟨hpw, List.pairwise_singleton _ _, fun t ht u hu => ?_⟩
    rw [List.mem_singleton.mp hu]
    exact (hlexed t ht).2
  · exact ⟨front, hfront, fun t ht => ⟨(hlexed t ht).1.kind, (hlexed t ht).1.span⟩⟩
  · obtain ⟨_, _, _, h, htext⟩ := hholds t ht
    rw [htext]
    exact h.slice?_eq
  · obtain ⟨gaps, hgaps, hjoin⟩ := htiles.exists_gaps rfl
    exact ⟨gaps, hgaps, by rw [hjoin, String.ofList_toList]⟩

/-- Places count bytes, of which some characters have more than one. -/
example : (lex "\"é\" // ü\nx").sourceTokens.map SourceToken.span
    = [⟨0, 4⟩, ⟨11, 12⟩, ⟨12, 12⟩] := by
  decide +kernel

end ExprFrontEnd
