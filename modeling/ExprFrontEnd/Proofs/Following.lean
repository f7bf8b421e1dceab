import ExprFrontEnd.Proofs.Places

/-!
# `ExprFrontEnd.Proofs.Following`: where the steps of a path lead

`Disk.names` follows all parts of a path between its slashes. Empty parts and dots
do not move, but they ask for a directory to stand in. So they can be left out if
the path leads somewhere (`follow?_filter`), and also in front of a last step
whether it does or not, since the step asks for the same directory
(`follow?_filter_concat`). What is left are the steps of the path, and
`Disk.follow?` follows these.

* `toOption_step`: what one step does, in all cases.
* `isName_of_names`: a path leads to a row of proper names if the working
  directory has proper names. These are what a directory can have as entries.
* `follow?_names`: proper names lead to the same place as names and as steps.
* `eq_append_of_follow?`: if no step goes up, then the place is the one at the
  start with the steps behind it.
* `steps_ne_nil_of_isFile`: what leads to a file has a step, since the start is a
  directory if anything at all is followed from there.
-/

set_option autoImplicit false

namespace ExprFrontEnd

/-- Names are followed one after another. -/
theorem Entry.descend?_append (front back : List String) (e : Entry) :
    e.descend? (front ++ back) = (e.descend? front).bind (descend? back) := by
  induction front generalizing e with
  | nil => rfl
  | cons name front ih =>
    simp only [List.cons_append, descend?]
    cases e.child? name with
    | none => rfl
    | some child => exact ih child

/-- What is left of a result that may be an error. -/
theorem toOption_eq_some_iff {ε α : Type} {x : Except ε α} {a : α} :
    x.toOption = some a ↔ x = .ok a := by
  cases x with
  | error reason => exact iff_of_false nofun nofun
  | ok b => exact ⟨fun h => congrArg _ (Option.some.inj h), fun h => congrArg Except.toOption h⟩

/-- A path that is not refused for its text alone. -/
structure Path.Followable (p : Path) : Prop where
  unterminated : '\x00' ∉ p.text.toList
  ne_empty : p.text ≠ ""
  short : p.text.utf8ByteSize ≤ Disk.maxPathLength

namespace Disk

variable (d : Disk)

/-! ### One step and many -/

/-- The entries of the directory that names lead to. -/
def entries? (names : List String) : Option (List (String × Entry)) :=
  match d.root.descend? names with
  | some (.directory entries) => some entries
  | _ => none

/-- A step is made inside of a directory, and it leads to something there. -/
theorem toOption_step (names : List String) (segment : List Char) :
    (d.step names segment).toOption = (d.entries? names).bind fun entries =>
      if Path.isIdle segment then some names
      else if segment = ['.', '.'] then some names.dropLast
      else if (String.ofList segment).utf8ByteSize ≤ maxNameLength ∧
          (entries.lookup (String.ofList segment)).isSome then
        some (names ++ [String.ofList segment])
      else none := by
  simp only [step, entries?]
  -- Only a directory can be left or entered.
  rcases d.root.descend? names with - | ⟨content | entries | outcome⟩
  · rfl
  · rfl
  · simp only [Option.bind_some]
    by_cases hidle : Path.isIdle segment = true
    · rw [if_pos hidle, if_pos hidle]
      rfl
    · rw [if_neg hidle, if_neg hidle]
      by_cases hup : segment = ['.', '.']
      · rw [if_pos hup, if_pos hup]
        rfl
      · rw [if_neg hup, if_neg hup]
        by_cases hlong : maxNameLength < (String.ofList segment).utf8ByteSize
        · rw [if_pos hlong, if_neg fun h => absurd h.1 (Nat.not_le.mpr hlong)]
          rfl
        · rw [if_neg hlong]
          by_cases hfound : (entries.lookup (String.ofList segment)).isSome = true
          · rw [if_pos hfound, if_pos ⟨Nat.not_lt.mp hlong, hfound⟩]
            rfl
          · rw [if_neg hfound, if_neg fun h => hfound h.2]
            rfl
  · rfl

/-- The place that steps lead to from another one. -/
def follow? (start : List String) (steps : List (List Char)) : Option (List String) :=
  (steps.foldlM d.step start).toOption

/-- The first step is made, and the others from where it leads. -/
theorem follow?_cons (start : List String) (s : List Char) (steps : List (List Char)) :
    d.follow? start (s :: steps) = (d.step start s).toOption.bind (d.follow? · steps) := by
  rw [follow?, List.foldlM_cons]
  cases d.step start s <;> rfl

/-- Steps are made one list after the other. -/
theorem follow?_append (start : List String) (front back : List (List Char)) :
    d.follow? start (front ++ back) = (d.follow? start front).bind (d.follow? · back) := by
  induction front generalizing start with
  | nil => rfl
  | cons s front ih =>
    rw [List.cons_append, follow?_cons, follow?_cons, Option.bind_assoc]
    exact Option.bind_congr fun next _ => ih next

variable {d}

/-! ### Parts of no account -/

/-- Outside of directories there is no step. -/
theorem follow?_eq_none {start : List String} {steps : List (List Char)}
    (hstart : d.entries? start = none) (hsteps : steps ≠ []) : d.follow? start steps = none := by
  obtain ⟨s, rest, rfl⟩ := List.exists_cons_of_ne_nil hsteps
  rw [follow?_cons, toOption_step, hstart]
  rfl

/-- In front of a step, parts of no account can be left out: all that they ask for
is a directory, and so does the step. -/
theorem follow?_filter_concat (start : List String) (parts : List (List Char)) (s : List Char) :
    d.follow? start (parts ++ [s])
      = d.follow? start ((parts.filter fun t => !Path.isIdle t) ++ [s]) := by
  induction parts generalizing start with
  | nil => rfl
  | cons t parts ih =>
    rw [List.cons_append, follow?_cons]
    by_cases ht : Path.isIdle t = true
    · rw [List.filter_cons_of_neg (by simp [ht]), toOption_step]
      cases hstart : d.entries? start with
      | none =>
        -- Even an idle step needs a directory; so does the last step, which is left.
        rw [follow?_eq_none hstart (List.append_ne_nil_of_right_ne_nil _ (List.cons_ne_nil s []))]
        rfl
      | some entries =>
        rw [Option.bind_some, if_pos ht, Option.bind_some]
        exact ih start
    · rw [List.filter_cons_of_pos (by simp [ht]), List.cons_append, follow?_cons]
      exact Option.bind_congr fun next _ => ih next

/-- Parts of no account do not change the place. -/
theorem follow?_filter {start place : List String} {parts : List (List Char)}
    (h : d.follow? start parts = some place) :
    d.follow? start (parts.filter fun t => !Path.isIdle t) = some place := by
  induction parts generalizing start with
  | nil => exact h
  | cons t parts ih =>
    rw [follow?_cons] at h
    obtain ⟨next, hnext, hrest⟩ := Option.bind_eq_some_iff.mp h
    by_cases ht : Path.isIdle t = true
    · rw [List.filter_cons_of_neg (by simp [ht])]
      rw [toOption_step] at hnext
      obtain ⟨entries, -, hnext⟩ := Option.bind_eq_some_iff.mp hnext
      rw [if_pos ht] at hnext
      obtain rfl := Option.some.inj hnext
      exact ih hrest
    · rw [List.filter_cons_of_pos (by simp [ht]), follow?_cons, hnext]
      exact ih hrest

/-- At a directory the parts of no account can be put back. -/
theorem follow?_of_filter {start place : List String} {parts : List (List Char)}
    {entries : List (String × Entry)} (hplace : d.entries? place = some entries)
    (h : d.follow? start (parts.filter fun t => !Path.isIdle t) = some place) :
    d.follow? start parts = some place := by
  -- A dot behind the parts asks for nothing but the directory, with them or without.
  have hdot : ∀ next, (d.step next ['.']).toOption = (d.entries? next).bind fun _ => some next :=
    fun next => toOption_step d next ['.']
  have hlast := follow?_filter_concat (d := d) start parts ['.']
  rw [follow?_append, follow?_append, h, Option.bind_some, follow?_cons, hdot, hplace] at hlast
  obtain ⟨next, hparts, hnext⟩ := Option.bind_eq_some_iff.mp hlast
  rw [hparts]
  rw [follow?_cons, hdot, Option.bind_assoc] at hnext
  obtain ⟨_, -, hnext⟩ := Option.bind_eq_some_iff.mp hnext
  exact hnext

/-- The place that a path is followed from. -/
def startOf (d : Disk) (p : Path) : List String := if p.isAbsolute then [] else d.workingDirectory

/-- All parts of a path are followed, unless the path is refused. -/
theorem names_eq_ok_iff {p : Path} {place : List String} :
    d.names p = .ok place ↔ p.Followable ∧
      d.follow? (d.startOf p) (Path.segments p.text.toList) = some place := by
  rw [names]
  split
  -- One case for each check of a path, in their order.
  · rename_i hterm
    exact iff_of_false nofun fun h => h.1.unterminated (by simpa using hterm)
  · rename_i hterm
    split
    · rename_i hempty
      exact iff_of_false nofun fun h => h.1.ne_empty (by simpa using hempty)
    · rename_i hempty
      split
      · rename_i hlong
        exact iff_of_false nofun fun h => Nat.not_le.mpr hlong h.1.short
      · rename_i hlong
        have hp : p.Followable :=
          ⟨by simpa using hterm, by simpa using hempty, Nat.not_lt.mp hlong⟩
        rw [and_iff_right hp, follow?, toOption_eq_some_iff]
        exact Iff.rfl

/-- What is followed of a path that is not refused. -/
theorem toOption_names {p : Path} (hp : p.Followable) :
    (d.names p).toOption = d.follow? (d.startOf p) (Path.segments p.text.toList) := by
  refine Option.ext fun place => ?_
  rw [toOption_eq_some_iff, names_eq_ok_iff, and_iff_right hp]

/-- A path leads where its steps lead. -/
theorem follow?_of_names {p : Path} {place : List String} (h : d.names p = .ok place) :
    d.follow? (d.startOf p) p.steps = some place :=
  follow?_filter (names_eq_ok_iff.mp h).2

/-! ### Places and names -/

/-- A name that an entry of a directory can have. -/
structure IsName (name : String) : Prop where
  counts : Path.isIdle name.toList = false
  down : name.toList ≠ ['.', '.']
  slashless : '/' ∉ name.toList
  short : name.utf8ByteSize ≤ maxNameLength

/-- Steps from a place with proper names lead to one with proper names. -/
theorem isName_of_follow? {start place : List String} {steps : List (List Char)}
    (hstart : ∀ name ∈ start, IsName name) (hsteps : ∀ s ∈ steps, '/' ∉ s)
    (h : d.follow? start steps = some place) : ∀ name ∈ place, IsName name := by
  induction steps generalizing start with
  | nil =>
    obtain rfl := Option.some.inj h
    exact hstart
  | cons s steps ih =>
    rw [follow?_cons, toOption_step] at h
    obtain ⟨next, hnext, hrest⟩ := Option.bind_eq_some_iff.mp h
    obtain ⟨entries, -, hnext⟩ := Option.bind_eq_some_iff.mp hnext
    refine ih ?_ (fun t ht => hsteps t (List.mem_cons_of_mem s ht)) hrest
    split at hnext
    -- An idle part stays, and going up only takes a name away.
    · obtain rfl := Option.some.inj hnext
      exact hstart
    · rename_i hidle
      split at hnext
      · obtain rfl := Option.some.inj hnext
        exact fun name hname => hstart name (List.mem_of_mem_dropLast hname)
      · rename_i hup
        split at hnext
        · rename_i hfound
          obtain rfl := Option.some.inj hnext
          intro name hname
          rcases List.mem_append.mp hname with hname | hname
          · exact hstart name hname
          · obtain rfl := List.mem_singleton.mp hname
            exact ⟨by simpa using hidle, by simpa using hup,
              by simpa using hsteps s List.mem_cons_self, hfound.1⟩
        · cases hnext

/-- The place of a path has proper names. -/
theorem isName_of_names {p : Path} {place : List String}
    (hwd : ∀ name ∈ d.workingDirectory, IsName name) (h : d.names p = .ok place) :
    ∀ name ∈ place, IsName name := by
  refine isName_of_follow? ?_ ?_ (follow?_of_names h)
  · rw [startOf]
    split
    · nofun
    · exact hwd
  · exact fun s hs => Path.slash_not_mem_segments (List.mem_of_mem_filter hs)

/-- Without a step up, the place is the one at the start with the steps behind it. -/
theorem eq_append_of_follow? {start place : List String} {steps : List (List Char)}
    (hsteps : ∀ s ∈ steps, Path.isIdle s = false ∧ s ≠ ['.', '.'])
    (h : d.follow? start steps = some place) : place = start ++ steps.map String.ofList := by
  induction steps generalizing start with
  | nil =>
    obtain rfl := Option.some.inj h
    rw [List.map_nil, List.append_nil]
  | cons s steps ih =>
    rw [follow?_cons, toOption_step] at h
    obtain ⟨next, hnext, hrest⟩ := Option.bind_eq_some_iff.mp h
    obtain ⟨entries, -, hnext⟩ := Option.bind_eq_some_iff.mp hnext
    obtain ⟨hidle, hup⟩ := hsteps s List.mem_cons_self
    rw [if_neg (by simp [hidle]), if_neg hup] at hnext
    -- Neither staying nor going up, so the name is put behind the place.
    split at hnext
    · obtain rfl := Option.some.inj hnext
      rw [ih (fun t ht => hsteps t (List.mem_cons_of_mem s ht)) hrest, List.map_cons,
        List.append_assoc]
      rfl
    · cases hnext

/-- Names followed as steps lead where they lead as names. -/
theorem follow?_names (start : List String) {names : List String}
    (h : ∀ name ∈ names, IsName name) :
    ((d.follow? start (names.map String.toList)).bind fun place => d.root.descend? place)
      = d.root.descend? (start ++ names) := by
  induction names generalizing start with
  | nil =>
    rw [List.append_nil]
    rfl
  | cons name names ih =>
    have hname := h name List.mem_cons_self
    rw [List.map_cons, follow?_cons, toOption_step, Option.bind_assoc, Option.bind_assoc,
      Entry.descend?_append, entries?]
    rcases hstart : d.root.descend? start with - | ⟨content | entries | outcome⟩
    · rfl
    · rfl
    -- A name counts, is not the way up and is short enough, so it is looked for.
    · rw [Option.bind_some, Option.bind_some, String.ofList_toList, if_neg (by simp [hname.counts]),
        if_neg hname.down]
      show _ = (entries.lookup name).bind (Entry.descend? names)
      cases hfound : entries.lookup name with
      | none =>
        rw [if_neg (by simp)]
        rfl
      | some child =>
        rw [if_pos ⟨hname.short, rfl⟩, Option.bind_some, ih _ fun n hn => h n (.tail name hn),
          Entry.descend?_append, Entry.descend?_append, hstart]
        simp only [Option.bind_some, Entry.descend?, Entry.child?, hfound]
    · rfl

/-! ### Files -/

/-- A path leads to what is at its place. -/
theorem locate?_eq (p : Path) :
    d.locate? p = (d.names p).toOption.bind fun place => d.root.descend? place := by
  rw [locate?, locate]
  cases d.names p with
  | error reason => rfl
  | ok place =>
    simp only [bind, Except.bind, Except.toOption, Option.bind_some]
    cases d.root.descend? place <;> rfl

/-- A path leads to something if it leads to a place, and something is there. -/
theorem locate?_eq_some_iff {p : Path} {e : Entry} :
    d.locate? p = some e ↔ ∃ place, d.names p = .ok place ∧ d.root.descend? place = some e := by
  simp only [locate?_eq, Option.bind_eq_some_iff, toOption_eq_some_iff]

/-- A file is at the place of a path that leads to a file. -/
theorem exists_place_of_isFile {p : Path} (h : d.isFile p = true) :
    ∃ place content, d.names p = .ok place ∧ d.root.descend? place = some (.file content) := by
  rw [isFile, Option.any_eq_true] at h
  obtain ⟨e, he, hfile⟩ := h
  obtain ⟨place, hnames, hplace⟩ := locate?_eq_some_iff.mp he
  cases e with
  | file content => exact ⟨place, content, hnames, hplace⟩
  | directory entries => cases hfile
  | special outcome => cases hfile

/-- A path that leads to a file has a step: what is of no account stays where it
is, and that has to be a directory. -/
theorem steps_ne_nil_of_isFile {p : Path} (h : d.isFile p = true) : p.steps ≠ [] := by
  intro hsteps
  obtain ⟨place, content, hnames, hplace⟩ := exists_place_of_isFile h
  have hfollow := follow?_of_names hnames
  rw [hsteps] at hfollow
  obtain rfl : d.startOf p = place := Option.some.inj hfollow
  have hentries : d.entries? (d.startOf p) = none := by rw [entries?, hplace]
  have hnone := follow?_eq_none hentries (List.splitOn_ne_nil '/' p.text.toList)
  exact absurd ((names_eq_ok_iff.mp hnames).2.symm.trans hnone) nofun

end Disk

end ExprFrontEnd
