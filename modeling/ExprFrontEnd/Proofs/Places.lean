import ExprFrontEnd.Files.Target
import Mathlib.Data.List.DropRight
import Mathlib.Data.List.Infix

/-!
# `ExprFrontEnd.Proofs.Places`: paths by their steps

A `Path` is a text, and going up from it is an operation on texts. Two things are
kept of a text here: its anchor, which says how the path starts, and its steps,
which are the parts between slashes that count (`Path.steps`).

Going up keeps the anchor and takes away the last step (`exists_parent`). If there
is no step left, it ends, but for the dot that a path may start with
(`parent?_of_steps_eq_nil`). So a relative path ends up at no steps, and that is
the working directory and not the root.

* `findSome?_ancestors`: **what is found first on the way up from a path is what is
  found last on the way along its steps**, if it depends on the steps alone.
* `segments_join`: the path of an entry in a directory has the steps of the directory
  in front of its last part. The file of options is one.

A text is put together from an anchor and the parts behind it (`ofBody`). Not all
parts may stand there, since an empty part in front would be read as the root and
a dot as an anchor of its own. `Fits` says which ones may; the parts of a path do,
and so do the first ones of them.
-/

set_option autoImplicit false

namespace ExprFrontEnd

section Starts

variable {α β : Type} (f : List α → Option β)

/-! ### Looking through the starts of a list, the longest first -/

/-- There is one start of the empty list, the list itself. -/
theorem findSome?_starts_nil : (List.inits []).reverse.findSome? f = f [] := by
  rw [List.inits, List.reverse_singleton, List.findSome?_singleton]

/-- One more element is one more start, and it is the first to be looked at. -/
theorem findSome?_starts_concat (l : List α) (x : α) :
    (l ++ [x]).inits.reverse.findSome? f
      = (f (l ++ [x])).or (l.inits.reverse.findSome? f) := by
  have hstarts : (l ++ [x]).inits.reverse = (l ++ [x]) :: l.inits.reverse := by
    rw [List.inits_append, List.reverse_append]
    rfl
  rw [hstarts, List.findSome?_cons]
  cases f (l ++ [x]) <;> rfl

end Starts

namespace Path

/-! ### Texts and their parts -/

/-- Segments are what is between slashes. -/
theorem slash_not_mem_segments {cs s : List Char} (h : s ∈ segments cs) : '/' ∉ s := by
  induction cs generalizing s with
  | nil =>
    obtain rfl : s = [] := List.mem_singleton.mp h
    exact List.not_mem_nil
  | cons c cs ih =>
    rw [segments, List.splitOn_cons_eq_if_modifyHead] at h
    split at h
    · rcases List.mem_cons.mp h with rfl | h
      · exact List.not_mem_nil
      · exact ih h
    · rename_i hc
      -- A character that does not separate is put in front of the first segment.
      obtain ⟨first, rest, hsplit⟩ := List.exists_cons_of_ne_nil (List.splitOn_ne_nil '/' cs)
      rw [hsplit, List.modifyHead_cons] at h
      have hmem : ∀ t ∈ first :: rest, '/' ∉ t := by
        intro t ht
        rw [← hsplit] at ht
        exact ih ht
      rcases List.mem_cons.mp h with rfl | h
      · refine fun hslash => ?_
        rcases List.mem_cons.mp hslash with rfl | hslash
        · exact hc (beq_self_eq_true '/')
        · exact hmem first List.mem_cons_self hslash
      · exact hmem s (List.mem_cons_of_mem _ h)

/-- A text is its segments with slashes between them. -/
theorem intercalate_segments (cs : List Char) : ['/'].intercalate (segments cs) = cs :=
  List.intercalate_splitOn '/'

/-- Segments can be put together from any parts without slashes, but for no parts at all: the
empty text has one segment. -/
theorem segments_intercalate {parts : List (List Char)} (h : ∀ s ∈ parts, '/' ∉ s)
    (hne : parts ≠ []) : segments (['/'].intercalate parts) = parts :=
  List.splitOn_intercalate '/' h hne

/-- A slash between two texts separates their segments. -/
theorem segments_append (cs ds : List Char) :
    segments (cs ++ '/' :: ds) = segments cs ++ segments ds :=
  List.splitOn_append_cons_self cs ds

/-- A leading slash has an empty segment in front of it. -/
theorem segments_slash (cs : List Char) : segments ('/' :: cs) = [] :: segments cs :=
  segments_append [] cs

/-- The parts of a path that count, which is all but empty ones and dots. -/
def steps (p : Path) : List (List Char) := (segments p.text.toList).filter fun s => !isIdle s

/-- A text is its first part, or has the other parts behind that and a slash. -/
theorem eq_of_segments_eq_cons {cs first : List Char} {rest : List (List Char)}
    (h : segments cs = first :: rest) :
    cs = first ∧ rest = [] ∨ ∃ ds, cs = first ++ '/' :: ds ∧ rest = segments ds := by
  have hcs := intercalate_segments cs
  rw [h] at hcs
  cases rest with
  | nil => exact .inl ⟨by rw [← hcs, List.intercalate_singleton], rfl⟩
  | cons second rest =>
    refine .inr ⟨['/'].intercalate (second :: rest), ?_, ?_⟩
    · rw [← hcs, List.intercalate_cons_cons, List.append_assoc]
      rfl
    · have hslash : ∀ s ∈ second :: rest, '/' ∉ s := fun s hs =>
        slash_not_mem_segments (h ▸ List.mem_cons_of_mem _ hs)
      rw [segments_intercalate hslash (List.cons_ne_nil _ _)]

/-- An absolute path is anchored at the root. -/
theorem anchor_of_isAbsolute {p : Path} (h : p.isAbsolute = true) : p.anchor = ['/'] := by
  rw [anchor, if_pos h]

/-- An absolute path starts with a slash. -/
theorem exists_of_isAbsolute {p : Path} (h : p.isAbsolute = true) :
    ∃ cs, p.text.toList = '/' :: cs := by
  rw [isAbsolute, beq_iff_eq] at h
  exact List.head?_eq_some_iff.mp h

/-- The dot that a path starts with is followed by nothing or by a slash. -/
theorem exists_of_startsWithDot {p : Path} (h : p.startsWithDot = true) :
    ∃ rest, segments p.text.toList = ['.'] :: rest ∧
      segments (p.text.toList.drop 1) = [] :: rest := by
  rw [startsWithDot, beq_iff_eq] at h
  obtain ⟨rest, hrest⟩ := List.head?_eq_some_iff.mp h
  refine ⟨rest, hrest, ?_⟩
  rcases eq_of_segments_eq_cons hrest with ⟨hcs, rfl⟩ | ⟨ds, hcs, rfl⟩
  · rw [hcs]
    rfl
  · rw [hcs]
    exact segments_slash ds

/-- What counts in a path is behind its anchor. -/
theorem filter_body (p : Path) : p.body.filter (fun s => !isIdle s) = p.steps := by
  by_cases habs : p.isAbsolute = true
  · obtain ⟨cs, hcs⟩ := exists_of_isAbsolute habs
    rw [body, anchor_of_isAbsolute habs, steps, hcs, segments_slash]
    rfl
  · by_cases hdot : p.startsWithDot = true
    · obtain ⟨rest, hwhole, hbody⟩ := exists_of_startsWithDot hdot
      have hanchor : p.anchor = ['.'] := by rw [anchor, if_neg habs, if_pos hdot]
      rw [body, hanchor, List.length_singleton, hbody, steps, hwhole]
      rfl
    · rw [body, anchor, if_neg habs, if_neg hdot, steps]
      rfl

/-- A path by its anchor and the parts behind it. -/
def ofBody (anchor : List Char) (parts : List (List Char)) : Path :=
  ⟨String.ofList (anchor ++ ['/'].intercalate parts)⟩

/-- Parts that may stand behind an anchor: with it they make up a text that has
this anchor. Nothing is demanded behind the slash of the root. -/
structure Fits (anchor : List Char) (parts : List (List Char)) : Prop where
  slashless : ∀ s ∈ parts, '/' ∉ s
  first : anchor = ['/'] ∨ anchor = ['.'] ∧ (∀ s ∈ parts.head?, s = []) ∨
    anchor = [] ∧ ∀ s ∈ parts.head?, s ≠ ['.'] ∧ (s = [] → parts = [[]])

namespace Fits

variable {anchor : List Char} {parts front : List (List Char)}

/-- So do the first ones of them. -/
theorem of_isPrefix (h : Fits anchor parts) (hfront : front <+: parts) : Fits anchor front := by
  refine ⟨fun s hs => h.slashless s (hfront.subset hs), ?_⟩
  obtain ⟨rest, rfl⟩ := hfront
  cases front with
  -- No part is left, so nothing is demanded of the first one.
  | nil =>
    rcases h.first with h | ⟨h, -⟩ | ⟨h, -⟩
    · exact .inl h
    · exact .inr (.inl ⟨h, nofun⟩)
    · exact .inr (.inr ⟨h, nofun⟩)
  | cons s front =>
    refine h.first.imp_right (Or.imp_right fun ⟨h, hfirst⟩ => ⟨h, fun t ht => ?_⟩)
    obtain ⟨hdot, hnil⟩ := hfirst t ht
    refine ⟨hdot, fun he => ?_⟩
    obtain ⟨rfl, hrest⟩ := List.cons.inj (hnil he)
    rw [(List.append_eq_nil_iff.mp hrest).1]

end Fits

/-- The body of a path may stand behind its anchor. -/
theorem fits_body (p : Path) : Fits p.anchor p.body := by
  refine ⟨fun s hs => slash_not_mem_segments hs, ?_⟩
  by_cases habs : p.isAbsolute = true
  · exact .inl (anchor_of_isAbsolute habs)
  · by_cases hdot : p.startsWithDot = true
    · obtain ⟨rest, -, hbody⟩ := exists_of_startsWithDot hdot
      have hanchor : p.anchor = ['.'] := by rw [anchor, if_neg habs, if_pos hdot]
      refine .inr (.inl ⟨hanchor, fun s hs => ?_⟩)
      rw [body, hanchor] at hs
      exact (Option.some.inj ((congrArg List.head? hbody).symm.trans hs)).symm
    · have hanchor : p.anchor = [] := by rw [anchor, if_neg habs, if_neg hdot]
      have hbody : p.body = segments p.text.toList := by rw [body, hanchor]; rfl
      refine .inr (.inr ⟨hanchor, fun s hs => ⟨?_, ?_⟩⟩)
      · rintro rfl
        rw [hbody] at hs
        exact hdot (beq_iff_eq.mpr hs)
      · rintro rfl
        obtain ⟨rest, hrest⟩ := List.head?_eq_some_iff.mp hs
        rw [hrest]
        rw [hbody] at hrest
        -- Only the empty text starts with an empty part and not with a slash.
        rcases eq_of_segments_eq_cons hrest with ⟨-, rfl⟩ | ⟨ds, hcs, -⟩
        · rfl
        · exact absurd (by rw [isAbsolute, hcs]; rfl) habs

/-- The anchor tells absolute paths from relative ones. -/
theorem isAbsolute_iff {p : Path} : p.isAbsolute = true ↔ p.anchor = ['/'] := by
  constructor
  · exact anchor_of_isAbsolute
  · intro h
    by_contra habs
    rw [anchor, if_neg habs] at h
    split at h <;> cases h

namespace Fits

variable {anchor : List Char} {parts : List (List Char)}

/-- This is what `Fits` is for: the anchor comes back out of the text. -/
theorem anchor_ofBody (h : Fits anchor parts) : (ofBody anchor parts).anchor = anchor := by
  have htext : (ofBody anchor parts).text.toList = anchor ++ ['/'].intercalate parts :=
    String.toList_ofList
  rcases h.first with rfl | ⟨rfl, hfirst⟩ | ⟨rfl, hfirst⟩
  -- The root: the text starts with its slash.
  · refine anchor_of_isAbsolute ?_
    rw [Path.isAbsolute, htext]
    rfl
  -- The dot: nothing or a slash stands behind it, so it is the first part.
  · have habs : (ofBody ['.'] parts).isAbsolute ≠ true := by
      rw [Path.isAbsolute, htext]
      nofun
    have hdot : (ofBody ['.'] parts).startsWithDot = true := by
      rw [startsWithDot, htext]
      match parts, hfirst with
      | [], _ => rfl
      | [s], hfirst =>
        obtain rfl : s = [] := hfirst s rfl
        rfl
      | s :: t :: rest, hfirst =>
        obtain rfl : s = [] := hfirst s rfl
        rw [List.intercalate_cons_cons]
        show (segments (['.'] ++ '/' :: ['/'].intercalate (t :: rest))).head? == some ['.']
        rw [segments_append]
        rfl
    rw [Path.anchor, if_neg habs, if_pos hdot]
  -- No anchor: the first part is neither empty nor a dot, unless there is no text at all.
  · have hplain : (ofBody [] parts).isAbsolute = false ∧
        (ofBody [] parts).startsWithDot = false := by
      rw [Path.isAbsolute, startsWithDot, htext]
      match parts, hfirst, h.slashless with
      | [], _, _ => exact ⟨rfl, rfl⟩
      | [] :: rest, hfirst, _ =>
        obtain rfl : rest = [] := (List.cons.inj ((hfirst [] rfl).2 rfl)).2
        exact ⟨rfl, rfl⟩
      | (c :: cs) :: rest, hfirst, hslash =>
        have hc : c ≠ '/' := by
          rintro rfl
          exact hslash _ List.mem_cons_self List.mem_cons_self
        rw [List.nil_append]
        constructor
        · cases rest with
          | nil => simpa using hc
          | cons t rest => simpa [List.intercalate_cons_cons] using hc
        · rw [segments_intercalate hslash (List.cons_ne_nil _ _)]
          simpa using (hfirst _ rfl).1
    rw [Path.anchor, hplain.1, hplain.2]
    rfl

/-- What counts in the path are the parts that count. -/
theorem steps_ofBody (h : Fits anchor parts) :
    (ofBody anchor parts).steps = parts.filter fun s => !isIdle s := by
  have hbody : (ofBody anchor parts).body = segments (['/'].intercalate parts) := by
    rw [body, h.anchor_ofBody, ofBody, String.toList_ofList, List.drop_left]
  rw [← filter_body, hbody]
  cases parts with
  | nil => rfl
  | cons s rest => rw [segments_intercalate h.slashless (List.cons_ne_nil _ _)]

end Fits

/-! ### Going up -/

/-- The parts without those at the end that do not count. -/
theorem dropIdleEnd_isPrefix (parts : List (List Char)) : dropIdleEnd parts <+: parts :=
  List.rdropWhile_prefix isIdle parts

/-- Idle segments at the end do not count among the steps. -/
theorem filter_dropIdleEnd (parts : List (List Char)) :
    (dropIdleEnd parts).filter (fun s => !isIdle s) = parts.filter fun s => !isIdle s := by
  induction parts using List.reverseRecOn with
  | nil => rfl
  | append_singleton parts s ih =>
    by_cases hs : isIdle s = true
    · rw [show dropIdleEnd (parts ++ [s]) = dropIdleEnd parts from
        List.rdropWhile_concat_pos isIdle parts s hs, ih, List.filter_append]
      simp [hs]
    · rw [show dropIdleEnd (parts ++ [s]) = parts ++ [s] from
        List.rdropWhile_concat_neg isIdle parts s hs]

/-- Nothing is left just in case every part is idle. -/
theorem dropIdleEnd_eq_nil_iff {parts : List (List Char)} :
    dropIdleEnd parts = [] ↔ parts.filter (fun s => !isIdle s) = [] := by
  rw [show dropIdleEnd parts = parts.rdropWhile isIdle from rfl, List.rdropWhile_eq_nil_iff,
    List.filter_eq_nil_iff]
  simp

/-- Behind the last part that counts there is nothing left. -/
theorem exists_dropIdleEnd {parts : List (List Char)} (h : dropIdleEnd parts ≠ []) :
    ∃ front s, dropIdleEnd parts = front ++ [s] ∧ isIdle s = false := by
  refine ⟨_, _, (List.dropLast_append_getLast h).symm, ?_⟩
  rw [← Bool.not_eq_true]
  exact List.rdropWhile_last_not isIdle parts h

/-- The text of the first parts is the start of that of all. -/
theorem intercalate_isPrefix {front parts : List (List Char)} (h : front <+: parts) :
    ['/'].intercalate front <+: ['/'].intercalate parts := by
  obtain ⟨rest, rfl⟩ := h
  induction front with
  | nil => exact List.nil_prefix
  | cons s front ih =>
    cases front with
    | nil =>
      cases rest with
      | nil => exact List.prefix_refl _
      | cons t rest =>
        rw [List.singleton_append, List.intercalate_cons_cons, List.intercalate_singleton,
          List.append_assoc]
        exact List.prefix_append _ _
    | cons t front =>
      rw [List.cons_append, List.cons_append, List.intercalate_cons_cons,
        List.intercalate_cons_cons, List.prefix_append_right_inj]
      exact ih

/-- A text is its anchor and its body. -/
theorem text_eq (p : Path) : p.text.toList = p.anchor ++ ['/'].intercalate p.body := by
  -- The anchor is what the text starts with, by the definition of each of the three anchors.
  have hstart : p.anchor <+: p.text.toList := by
    by_cases habs : p.isAbsolute = true
    · obtain ⟨cs, hcs⟩ := exists_of_isAbsolute habs
      rw [anchor_of_isAbsolute habs, hcs]
      exact ⟨cs, rfl⟩
    · by_cases hdot : p.startsWithDot = true
      · obtain ⟨rest, hwhole, -⟩ := exists_of_startsWithDot hdot
        rw [anchor, if_neg habs, if_pos hdot]
        rcases eq_of_segments_eq_cons hwhole with ⟨hcs, -⟩ | ⟨ds, hcs, -⟩
        · rw [hcs]
        · rw [hcs]
          exact List.prefix_append _ _
      · rw [anchor, if_neg habs, if_neg hdot]
        exact List.nil_prefix
  rw [body, intercalate_segments]
  exact (List.prefix_iff_eq_append.mp hstart).symm

/-- A path with a step has a parent, with the same steps but the last one. Its
text is the start of that of the path. -/
theorem exists_parent {p : Path} (h : p.steps ≠ []) :
    ∃ q, p.parent? = some q ∧ q.anchor = p.anchor ∧ q.steps = p.steps.dropLast ∧
      q.text.toList <+: p.text.toList := by
  have hparts : dropIdleEnd p.body ≠ [] := fun hnil =>
    h (by rw [← filter_body]; exact dropIdleEnd_eq_nil_iff.mp hnil)
  obtain ⟨front, s, hlast, hs⟩ := exists_dropIdleEnd hparts
  have hstart : dropIdleEnd front <+: p.body :=
    (dropIdleEnd_isPrefix front).trans
      ((hlast ▸ List.prefix_append front [s]).trans (dropIdleEnd_isPrefix p.body))
  have hfits := p.fits_body.of_isPrefix hstart
  refine ⟨ofBody p.anchor (dropIdleEnd front), ?_, hfits.anchor_ofBody, ?_, ?_⟩
  · simp only [parent?, hlast, List.dropLast_concat]
    rw [if_neg (by simp)]
    rfl
  · -- The last part counts, so the steps in front of it are all but one.
    rw [hfits.steps_ofBody, filter_dropIdleEnd, ← filter_body, ← filter_dropIdleEnd p.body, hlast,
      List.filter_append]
    simp [hs]
  · rw [p.text_eq, ofBody, String.toList_ofList, List.prefix_append_right_inj]
    exact intercalate_isPrefix hstart

/-- Without a step, only the dot that a path starts with can be taken away. -/
theorem parent?_of_steps_eq_nil {p : Path} (h : p.steps = []) :
    p.parent? = if p.anchor = ['.'] then some ⟨""⟩ else none := by
  rw [← filter_body, ← dropIdleEnd_eq_nil_iff] at h
  simp only [parent?, h, List.isEmpty_nil, ↓reduceIte]
  rcases p.fits_body.first with hanchor | ⟨hanchor, -⟩ | ⟨hanchor, -⟩
  · rw [isAbsolute_iff.mpr hanchor, hanchor]
    rfl
  · have habs : p.isAbsolute = false := by
      rw [← Bool.not_eq_true, isAbsolute_iff, hanchor]
      decide
    rw [habs, hanchor]
    rfl
  · rw [hanchor, List.isEmpty_nil, Bool.or_true]
    rfl

/-- There is a character for every step, besides the anchor. -/
theorem length_steps_le (p : Path) : p.steps.length + p.anchor.length ≤ p.text.toList.length := by
  -- A part that counts has at least one character, and slashes only add to the length.
  have hle : ∀ parts : List (List Char),
      (parts.filter fun s => !isIdle s).length ≤ (['/'].intercalate parts).length := by
    intro parts
    induction parts with
    | nil => exact Nat.le_refl _
    | cons s rest ih =>
      have hs : ([s].filter fun s => !isIdle s).length ≤ s.length := by
        cases s with
        | nil => exact Nat.le_refl _
        | cons c cs =>
          have hone := List.length_filter_le (fun s => !isIdle s) [c :: cs]
          rw [List.length_singleton] at hone
          rw [List.length_cons]
          omega
      cases rest with
      | nil => rwa [List.intercalate_singleton]
      | cons t rest =>
        rw [← List.singleton_append, List.filter_append, List.singleton_append,
          List.intercalate_cons_cons, List.length_append, List.length_append, List.length_append]
        omega
  have hbody := hle p.body
  rw [filter_body] at hbody
  rw [p.text_eq, List.length_append]
  omega

/-- **Going up along a path takes its steps away from the end**, one by one. What
is looked for may depend on how a path starts and on its steps. -/
theorem findSome?_ancestors {β : Type} {p : Path} {look : Path → Option β}
    {find : List (List Char) → Option β}
    (hlook : ∀ q : Path, q.isAbsolute = p.isAbsolute → q.text.toList <+: p.text.toList →
      look q = find q.steps) :
    p.ancestors.findSome? look = p.steps.inits.reverse.findSome? find := by
  have key : ∀ (fuel : Nat) (q : Path), q.isAbsolute = p.isAbsolute →
      q.text.toList <+: p.text.toList → q.steps.length + q.anchor.length < fuel →
      (ancestorsUpTo fuel q).findSome? look = q.steps.inits.reverse.findSome? find := by
    intro fuel
    induction fuel with
    | zero => intro q _ _ hfuel; omega
    | succ fuel ih =>
      intro q habs htext hfuel
      by_cases hsteps : q.steps = []
      · have hq : look q = find [] := by rw [hlook q habs htext, hsteps]
        have hparent := parent?_of_steps_eq_nil hsteps
        rw [hsteps, findSome?_starts_nil]
        by_cases hanchor : q.anchor = ['.']
        · -- Above the dot is the empty path, which has no step either.
          rw [if_pos hanchor] at hparent
          have hq' : q.isAbsolute = false := by
            rw [← Bool.not_eq_true, isAbsolute_iff, hanchor]
            decide
          have hroom : 0 < fuel := by
            rw [hanchor, List.length_singleton] at hfuel
            omega
          have hempty : (ancestorsUpTo fuel ⟨""⟩).findSome? look = find [] :=
            (ih ⟨""⟩ (by rw [← habs, hq']; rfl) List.nil_prefix hroom).trans
              (findSome?_starts_nil find)
          simp only [ancestorsUpTo, hparent, List.findSome?_cons, hempty, hq]
          cases find [] <;> rfl
        · rw [if_neg hanchor] at hparent
          simp only [ancestorsUpTo, hparent, List.findSome?_singleton, hq]
      · obtain ⟨q', hparent, hanchor, hdrop, hstart⟩ := exists_parent hsteps
        have hlast := List.dropLast_append_getLast hsteps
        have hlen : q'.steps.length + 1 = q.steps.length := by
          rw [hdrop, List.length_dropLast]
          exact Nat.sub_add_cancel (List.length_pos_iff.mpr hsteps)
        have habs' : q'.isAbsolute = p.isAbsolute := by
          rw [← habs, Bool.eq_iff_iff, isAbsolute_iff, isAbsolute_iff, hanchor]
        have hrest := ih q' habs' (hstart.trans htext) (by rw [hanchor]; omega)
        simp only [ancestorsUpTo, hparent, List.findSome?_cons, hrest, hlook q habs htext]
        rw [← hlast, findSome?_starts_concat, hlast, hdrop]
        cases find q.steps <;> rfl
  have hlen := p.length_steps_le
  exact key _ p rfl (List.prefix_refl _) (by rw [String.length]; omega)

/-! ### A name in a directory -/

section
variable {name : String}

/-- The name stands behind a slash, or alone. -/
theorem join_cases (h : '/' ∉ name.toList) (p : Path) :
    p.text.toList = [] ∧ (p.join ⟨name⟩).text.toList = name.toList ∨
      ∃ cs, (p.text.toList = cs ∧ cs ≠ [] ∨ p.text.toList = cs ++ ['/']) ∧
        (p.join ⟨name⟩).text.toList = cs ++ '/' :: name.toList := by
  have habs : ¬(Path.mk name).isAbsolute = true := by
    intro habs
    obtain ⟨cs, hcs⟩ := exists_of_isAbsolute habs
    exact h (hcs ▸ List.mem_cons_self)
  rw [join, if_neg habs]
  by_cases hend : (p.text.isEmpty || p.text.toList.getLast? == some '/') = true
  · rw [if_pos hend]
    rw [Bool.or_eq_true, String.isEmpty_iff, beq_iff_eq] at hend
    rcases hend with hend | hend
    -- Nothing stands in front of the name, not even a slash.
    · exact .inl ⟨by rw [hend]; rfl, by rw [hend, String.empty_append]⟩
    · obtain ⟨cs, hcs⟩ := List.getLast?_eq_some_iff.mp hend
      refine .inr ⟨cs, .inr hcs, ?_⟩
      rw [String.toList_append, hcs, List.append_assoc]
      rfl
  · rw [if_neg hend]
    refine .inr ⟨p.text.toList, .inl ⟨rfl, fun hnil => hend ?_⟩, ?_⟩
    · rw [Bool.or_eq_true, String.isEmpty_iff]
      exact .inl (String.toList_inj.mp hnil)
    · rw [String.toList_append, String.toList_append, List.append_assoc]
      rfl

/-- The text of the directory is kept. -/
theorem exists_text_join (h : '/' ∉ name.toList) (p : Path) :
    ∃ rest, (p.join ⟨name⟩).text = p.text ++ rest := by
  rcases join_cases h p with ⟨hnil, hjoin⟩ | ⟨cs, ⟨hcs, -⟩ | hcs, hjoin⟩
  · refine ⟨name, ?_⟩
    rw [← String.toList_inj, hjoin, String.toList_append, hnil, List.nil_append]
  · refine ⟨"/" ++ name, ?_⟩
    rw [← String.toList_inj, hjoin, String.toList_append, String.toList_append, hcs]
    rfl
  · refine ⟨name, ?_⟩
    rw [← String.toList_inj, hjoin, String.toList_append, hcs, List.append_assoc]
    rfl

/-- Nothing is added but a slash. -/
theorem mem_join (h : '/' ∉ name.toList) {p : Path} {c : Char}
    (hc : c ∈ (p.join ⟨name⟩).text.toList) : c ∈ p.text.toList ∨ c ∈ '/' :: name.toList := by
  rcases join_cases h p with ⟨-, hjoin⟩ | ⟨cs, hcs, hjoin⟩
  · rw [hjoin] at hc
    exact .inr (List.mem_cons_of_mem _ hc)
  · rw [hjoin] at hc
    refine (List.mem_append.mp hc).imp_left fun hc => ?_
    rcases hcs with ⟨hcs, -⟩ | hcs
    · rwa [hcs]
    · rw [hcs]
      exact List.mem_append_left ['/'] hc

/-- A text without slashes is one segment. -/
theorem segments_of_notMem {cs : List Char} (h : '/' ∉ cs) : segments cs = [cs] := by
  have hparts := segments_intercalate (List.forall_mem_singleton.mpr h) (List.cons_ne_nil cs [])
  rwa [List.intercalate_singleton] at hparts

/-- In front of the name stand the steps of the directory. -/
theorem segments_join (h : '/' ∉ name.toList) (p : Path) : ∃ parts,
    segments (p.join ⟨name⟩).text.toList = parts ++ [name.toList] ∧
      (parts.filter fun s => !isIdle s) = p.steps := by
  rcases join_cases h p with ⟨hnil, hjoin⟩ | ⟨cs, hcs, hjoin⟩
  · exact ⟨[], by rw [hjoin, segments_of_notMem h]; rfl, by rw [steps, hnil]; rfl⟩
  · refine ⟨segments cs, by rw [hjoin, segments_append, segments_of_notMem h], ?_⟩
    rcases hcs with ⟨hcs, -⟩ | hcs
    · rw [steps, hcs]
    · rw [steps, hcs, segments_append, List.filter_append]
      exact (List.append_nil _).symm

/-- A name is put behind a path, so it does not change how the path starts. -/
theorem isAbsolute_join (h : '/' ∉ name.toList) (p : Path) :
    (p.join ⟨name⟩).isAbsolute = p.isAbsolute := by
  rcases join_cases h p with ⟨hnil, hjoin⟩ | ⟨cs, hcs, hjoin⟩
  · rw [isAbsolute, isAbsolute, hnil, hjoin]
    cases hname : name.toList with
    | nil => rfl
    | cons c cs =>
      rw [hname] at h
      have hc : c ≠ '/' := fun hc => h (hc ▸ List.mem_cons_self)
      simpa using hc
  · rcases hcs with ⟨hcs, hne⟩ | hcs
    · obtain ⟨c, cs, rfl⟩ := List.exists_cons_of_ne_nil hne
      rw [isAbsolute, isAbsolute, hcs, hjoin]
      rfl
    · rw [isAbsolute, isAbsolute, hcs, hjoin]
      cases cs <;> rfl

end

end Path

end ExprFrontEnd
