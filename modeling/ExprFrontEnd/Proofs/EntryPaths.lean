import ExprFrontEnd.Proofs.Following

/-!
# `ExprFrontEnd.Proofs.EntryPaths`: the paths of entries

The path of an entry is that of its directory and its name. Three things are said
about it, each for a name that an entry can have (`EntryName`).

* `Path.components_join`, `Path.components_along`: its components are those of the
  directory and the name behind them, so paths below a directory tell names apart.
* `Path.isSource_join`: it has the extension of source files if the name ends in it
  and does not start with the dot in front of it.
* `Disk.locate?_join`: it leads to the entry, unless it is too long to be followed.
  And if it leads anywhere, then the path of the directory leads to a directory
  (`Disk.isDirectory_of_locate?_join`).

The path of the directory must not be empty. An empty path leads nowhere, and a name
alone could be taken for the dot that paths start with.
-/

set_option autoImplicit false

namespace ExprFrontEnd

/-- A name that an entry has: it can be a step of a path, and does not end the path
early. -/
structure EntryName (name : String) : Prop extends Disk.IsName name where
  unterminated : '\x00' ∉ name.toList

/-- What is asked of the name of an entry, as a list of conditions that can be decided. -/
theorem entryName_iff {name : String} : EntryName name ↔
    (Path.isIdle name.toList = false ∧ name.toList ≠ ['.', '.'] ∧ '/' ∉ name.toList ∧
      name.utf8ByteSize ≤ Disk.maxNameLength) ∧ '\x00' ∉ name.toList :=
  ⟨fun h => ⟨⟨h.counts, h.down, h.slashless, h.short⟩, h.unterminated⟩,
    fun ⟨⟨counts, down, slashless, short⟩, unterminated⟩ =>
      ⟨⟨counts, down, slashless, short⟩, unterminated⟩⟩

instance (name : String) : Decidable (EntryName name) := decidable_of_iff _ entryName_iff.symm

namespace Path

/-! ### Components -/

/-- The component that a path starts with in front of its steps. -/
def opening (p : Path) : List Component :=
  if p.isAbsolute then [.root] else if p.startsWithDot then [.here] else []

/-- The component of a step. -/
def Component.ofStep (s : List Char) : Component := if s = ['.', '.'] then .up else .name s

/-- The components of a path are those of its steps behind the opening. -/
theorem components_eq (p : Path) : p.components = p.opening ++ p.steps.map Component.ofStep := by
  rw [components, filter_body]
  rfl

section
variable {p : Path} {name : String}

/-- A text is empty if it has no characters. -/
theorem text_ne_empty_iff : p.text ≠ "" ↔ p.text.toList ≠ [] := by
  rw [ne_eq, ne_eq, String.toList_eq_nil_iff]

/-- The path of an entry is never empty, since the name is not. -/
theorem text_join_ne_empty (h : Disk.IsName name) : (p.join ⟨name⟩).text ≠ "" := by
  have hname : name.toList ≠ [] := by
    intro hnil
    have hcounts := h.counts
    rw [hnil] at hcounts
    cases hcounts
  rw [text_ne_empty_iff]
  rcases join_cases h.slashless p with ⟨-, hjoin⟩ | ⟨cs, -, hjoin⟩
  · rwa [hjoin]
  · rw [hjoin]
    exact List.append_ne_nil_of_right_ne_nil cs (List.cons_ne_nil _ _)

/-- Joining a name adds one step. -/
theorem steps_join (h : Disk.IsName name) : (p.join ⟨name⟩).steps = p.steps ++ [name.toList] := by
  obtain ⟨parts, hparts, hsteps⟩ := segments_join h.slashless p
  rw [steps, hparts, List.filter_append, hsteps, List.filter_cons_of_pos (by simp [h.counts])]
  rfl

/-- Joining a name changes nothing about how a path starts. -/
theorem startsWithDot_join (hp : p.text ≠ "") (h : '/' ∉ name.toList) :
    (p.join ⟨name⟩).startsWithDot = p.startsWithDot := by
  -- Behind a slash nothing is added to the first part.
  have hhead : ∀ cs ds : List Char, (segments (cs ++ '/' :: ds)).head? = (segments cs).head? := by
    intro cs ds
    obtain ⟨first, rest, hcs⟩ := List.exists_cons_of_ne_nil (List.splitOn_ne_nil '/' cs)
    have hcs : segments cs = first :: rest := hcs
    rw [segments_append, hcs]
    rfl
  rw [startsWithDot, startsWithDot]
  rcases join_cases h p with ⟨hnil, -⟩ | ⟨cs, hcs, hjoin⟩
  · exact absurd hnil (text_ne_empty_iff.mp hp)
  · rw [hjoin, hhead]
    rcases hcs with ⟨hcs, -⟩ | hcs
    · rw [hcs]
    · rw [hcs, hhead]

/-- The path of an entry has one component more. -/
theorem components_join (hp : p.text ≠ "") (h : Disk.IsName name) :
    (p.join ⟨name⟩).components = p.components ++ [.name name.toList] := by
  have hopening : (p.join ⟨name⟩).opening = p.opening := by
    rw [opening, opening, isAbsolute_join h.slashless, startsWithDot_join hp h.slashless]
  have hstep : Component.ofStep name.toList = .name name.toList := if_neg h.down
  rw [components_eq, components_eq, hopening, steps_join h, List.map_append, List.append_assoc,
    List.map_singleton, hstep]

end

/-- The path of what some names lead to below another path. -/
def along (p : Path) (names : List String) : Path := names.foldl (fun q name => q.join ⟨name⟩) p

/-- The path along names goes to the first of them and then along the others. -/
theorem along_cons (p : Path) (name : String) (names : List String) :
    p.along (name :: names) = (p.join ⟨name⟩).along names := rfl

/-- The path along names ends in the last of them. -/
theorem along_concat (p : Path) (names : List String) (name : String) :
    p.along (names ++ [name]) = (p.along names).join ⟨name⟩ :=
  List.foldl_concat _ p name names

/-- The components along names are those names, behind the components of the path. -/
theorem components_along {p : Path} {names : List String} (hp : p.text ≠ "")
    (h : ∀ name ∈ names, Disk.IsName name) :
    (p.along names).components = p.components ++ names.map fun name => .name name.toList := by
  induction names generalizing p with
  | nil => exact (List.append_nil _).symm
  | cons name names ih =>
    obtain ⟨hname, hnames⟩ := List.forall_mem_cons.mp h
    rw [along_cons, ih (text_join_ne_empty hname) hnames, components_join hp hname,
      List.append_assoc]
    rfl

/-! ### The extension -/

/-- The last part that is not left out is the last step. -/
theorem getLast?_dropIdleEnd (parts : List (List Char)) :
    (dropIdleEnd parts).getLast? = (parts.filter fun s => !isIdle s).getLast? := by
  rw [← filter_dropIdleEnd]
  rcases eq_or_ne (dropIdleEnd parts) [] with hnone | hsome
  · rw [hnone]
    rfl
  · obtain ⟨front, s, hparts, hs⟩ := exists_dropIdleEnd hsome
    rw [hparts, List.filter_append, List.filter_cons_of_pos (by simp [hs]), List.filter_nil,
      List.getLast?_concat, List.getLast?_concat]

/-- The last component of the path of an entry is its name. -/
theorem name?_join {name : String} (h : Disk.IsName name) (p : Path) :
    (p.join ⟨name⟩).name? = some name.toList := by
  have hlast : (dropIdleEnd (p.join ⟨name⟩).body).getLast? = some name.toList := by
    rw [getLast?_dropIdleEnd, filter_body, steps_join h, List.getLast?_concat]
  rw [name?, hlast]
  exact if_neg h.down

/-- An extension is what stands behind the last dot, if there is something in front of
that. -/
theorem extensionOf_eq_some_iff {name ext : List Char} :
    extensionOf name = some ext ↔ '.' ∉ ext ∧ ∃ stem, stem ≠ [] ∧ name = stem ++ '.' :: ext := by
  constructor
  · intro h
    -- From its end, a name is the extension, the dot and what is in front of the dot.
    have hdots : name.reverse.takeWhile (· != '.') ++ name.reverse.dropWhile (· != '.')
        = name.reverse := List.takeWhile_append_dropWhile
    have hlast := List.head?_dropWhile_not (· != '.') name.reverse
    rw [extensionOf] at h
    split at h
    · rename_i hlength
      obtain rfl := Option.some.inj h
      have hdot : '.' ∉ name.reverse.takeWhile (· != '.') := fun hmem =>
        absurd (List.mem_takeWhile_imp hmem) (by decide)
      generalize name.reverse.takeWhile (· != '.') = behind at hdots hlength hdot
      generalize name.reverse.dropWhile (· != '.') = front at hdots hlast
      refine ⟨by rwa [List.mem_reverse], ?_⟩
      have hsum := congrArg List.length hdots
      rw [List.length_append, List.length_reverse] at hsum
      match front, hlast, hsum, hdots with
      | [], _, hsum, _ => rw [List.length_nil] at hsum; omega
      | [_], _, hsum, _ => rw [List.length_singleton] at hsum; omega
      | dot :: c :: cs, hlast, _, hdots =>
        obtain rfl : dot = '.' := by simpa using hlast
        refine ⟨(c :: cs).reverse, by simp, ?_⟩
        rw [← List.reverse_reverse name, ← hdots, List.reverse_append, List.reverse_cons,
          List.append_assoc]
        rfl
    · cases h
  · rintro ⟨hdot, stem, hstem, rfl⟩
    have hext : ∀ c ∈ ext.reverse, (c != '.') = true := by
      intro c hc
      rw [bne_iff_ne]
      rintro rfl
      exact hdot (List.mem_reverse.mp hc)
    have hbehind : (stem ++ '.' :: ext).reverse.takeWhile (· != '.') = ext.reverse := by
      rw [List.reverse_append, List.reverse_cons, List.append_assoc,
        List.takeWhile_append_of_pos hext, List.singleton_append,
        List.takeWhile_cons_of_neg (by decide), List.append_nil]
    have hlength := List.length_pos_iff.mpr hstem
    rw [extensionOf, hbehind, List.length_reverse, List.length_append, List.length_cons,
      if_pos (by omega), List.reverse_reverse]

/-- The name of a source file. -/
def IsSourceName (name : String) : Prop :=
  ∃ stem : String, stem ≠ "" ∧ name = stem ++ "." ++ sourceExtension

/-- The path of an entry has the extension of source files if the name ends in it. -/
theorem isSource_join {name : String} (h : Disk.IsName name) (p : Path) :
    (p.join ⟨name⟩).isSource = true ↔ IsSourceName name := by
  rw [isSource, extension?, name?_join h, Option.bind_some, beq_iff_eq, extensionOf_eq_some_iff]
  constructor
  · rintro ⟨-, stem, hstem, hname⟩
    refine ⟨String.ofList stem, by simpa using hstem, ?_⟩
    rw [← String.toList_inj, hname, String.toList_append, String.toList_append,
      String.toList_ofList, List.append_assoc]
    rfl
  · rintro ⟨stem, hstem, rfl⟩
    refine ⟨by decide +kernel, stem.toList, by simpa using hstem, ?_⟩
    rw [String.toList_append, String.toList_append, List.append_assoc]
    rfl

end Path

/-! ### Looking entries up -/

namespace Disk

variable {d : Disk} {p : Path} {name : String} {entries : List (String × Entry)} {e : Entry}

/-- A path that leads somewhere is not refused. -/
theorem followable_of_locate? (h : d.locate? p = some e) : p.Followable := by
  obtain ⟨place, hnames, -⟩ := locate?_eq_some_iff.mp h
  exact (names_eq_ok_iff.mp hnames).1

/-- The path of an entry is not refused, unless it is too long. -/
theorem followable_join (hp : p.Followable) (hname : EntryName name)
    (hshort : (p.join ⟨name⟩).text.utf8ByteSize ≤ maxPathLength) :
    (p.join ⟨name⟩).Followable := by
  refine ⟨fun hmem => ?_, Path.text_join_ne_empty hname.toIsName, hshort⟩
  rcases Path.mem_join hname.slashless hmem with hmem | hmem
  · exact hp.unterminated hmem
  · rcases List.mem_cons.mp hmem with hslash | hmem
    · cases hslash
    · exact hname.unterminated hmem

/-- The path of an entry is followed along the steps of the directory, and one step
further. -/
theorem toOption_names_join (hname : IsName name) (h : (p.join ⟨name⟩).Followable) :
    (d.names (p.join ⟨name⟩)).toOption
      = (d.follow? (d.startOf p) p.steps).bind (d.follow? · [name.toList]) := by
  obtain ⟨parts, hparts, hsteps⟩ := Path.segments_join hname.slashless p
  have hstart : d.startOf (p.join ⟨name⟩) = d.startOf p := by
    rw [startOf, startOf, Path.isAbsolute_join hname.slashless]
  rw [toOption_names h, hparts, hstart, follow?_filter_concat, hsteps, follow?_append]

/-- The step to an entry. -/
theorem follow?_name (place : List String) (hname : IsName name) :
    d.follow? place [name.toList] = (d.entries? place).bind fun entries =>
      if (entries.lookup name).isSome then some (place ++ [name]) else none := by
  rw [follow?_cons, toOption_step]
  cases d.entries? place with
  | none => rfl
  | some entries =>
    rw [Option.bind_some, Option.bind_some, if_neg (by simp [hname.counts]), if_neg hname.down,
      String.ofList_toList]
    by_cases hfound : (entries.lookup name).isSome = true
    · rw [if_pos ⟨hname.short, hfound⟩, if_pos hfound]
      rfl
    · rw [if_neg fun h => hfound h.2, if_neg hfound]
      rfl

/-- **The path of an entry leads to it**, unless it is too long. -/
theorem locate?_join (hp : d.locate? p = some (.directory entries)) (hname : EntryName name)
    (he : entries.lookup name = some e)
    (hshort : (p.join ⟨name⟩).text.utf8ByteSize ≤ maxPathLength) :
    d.locate? (p.join ⟨name⟩) = some e := by
  obtain ⟨place, hnames, hplace⟩ := locate?_eq_some_iff.mp hp
  have hentries : d.entries? place = some entries := by rw [entries?, hplace]
  -- The path is followed to the directory, and then there is one more step.
  rw [locate?_eq,
    toOption_names_join hname.toIsName (followable_join (followable_of_locate? hp) hname hshort),
    follow?_of_names hnames, Option.bind_some, follow?_name place hname.toIsName, hentries,
    Option.bind_some, he]
  show d.root.descend? (place ++ [name]) = some e
  rw [Entry.descend?_append, hplace]
  show (entries.lookup name).bind some = some e
  rw [he]
  rfl

/-- Whether a path leads to a regular file is a matter of what it leads to. -/
theorem isFile_eq_of_locate? (h : d.locate? p = some e) : d.isFile p = e.isFile := by
  rw [isFile, h, Option.any_some]

/-- Whether a path leads to a directory is a matter of what it leads to. -/
theorem isDirectory_eq_of_locate? (h : d.locate? p = some e) :
    d.isDirectory p = e.isDirectory := by
  rw [isDirectory, h, Option.any_some]

/-- What leads further leads to a directory first. -/
theorem isDirectory_of_locate?_join (hp : p.text ≠ "") (hname : IsName name)
    (h : d.locate? (p.join ⟨name⟩) = some e) : d.isDirectory p = true := by
  obtain ⟨last, hlast, -⟩ := locate?_eq_some_iff.mp h
  have hjoin := followable_of_locate? h
  obtain ⟨rest, hrest⟩ := Path.exists_text_join hname.slashless p
  -- The text of the directory is a start of the whole text, so it is not refused either.
  have hfollowable : p.Followable := by
    refine ⟨fun hmem => hjoin.unterminated ?_, hp, ?_⟩
    · rw [hrest, String.toList_append]
      exact List.mem_append_left _ hmem
    · have hshort := hjoin.short
      rw [hrest, String.utf8ByteSize_append] at hshort
      omega
  have hnames := toOption_names_join (d := d) hname hjoin
  rw [hlast] at hnames
  obtain ⟨place, hplace, hstep⟩ := Option.bind_eq_some_iff.mp hnames.symm
  rw [follow?_name place hname] at hstep
  obtain ⟨entries, hentries, -⟩ := Option.bind_eq_some_iff.mp hstep
  have hdirectory : d.root.descend? place = some (.directory entries) := by
    unfold entries? at hentries
    split at hentries
    · rename_i found hfound
      rw [hfound, Option.some.inj hentries]
    · cases hentries
  have hlocate : d.locate? p = some (.directory entries) :=
    locate?_eq_some_iff.mpr ⟨place,
      names_eq_ok_iff.mpr ⟨hfollowable, follow?_of_filter hentries hplace⟩, hdirectory⟩
  exact isDirectory_eq_of_locate? hlocate

end Disk

/-! ### Slashes behind a path -/

/-- Slashes at the end are between parts that are empty. -/
theorem Path.segments_slashes (cs : List Char) (n : Nat) :
    segments (cs ++ List.replicate n '/') = segments cs ++ List.replicate n [] := by
  induction n with
  | zero => rw [List.replicate_zero, List.replicate_zero, List.append_nil, List.append_nil]
  | succ n ih =>
    rw [List.replicate_succ', ← List.append_assoc, segments_append, ih, List.append_assoc,
      List.replicate_succ']
    rfl

/-- A slash is one byte. -/
theorem utf8ByteSize_slashes (n : Nat) :
    (String.ofList (List.replicate n '/')).utf8ByteSize = n := by
  induction n with
  | zero => rfl
  | succ n ih =>
    rw [List.replicate_succ', String.ofList_append, String.utf8ByteSize_append, ih]
    rfl

/-- A path with slashes behind it. -/
def Path.slashed (p : Path) (n : Nat) : Path := ⟨p.text ++ String.ofList (List.replicate n '/')⟩

/-- Behind a slash a name is added without another one. -/
theorem Path.join_slashed {p : Path} {n : Nat} {name : String} (h : '/' ∉ name.toList) :
    (p.slashed (n + 1)).join ⟨name⟩ = ⟨(p.slashed (n + 1)).text ++ name⟩ := by
  have habsolute : ¬(Path.mk name).isAbsolute = true := by
    rw [isAbsolute, beq_iff_eq]
    exact fun hhead => h (List.mem_of_head? hhead)
  have hslash : (p.slashed (n + 1)).text.toList.getLast? = some '/' := by
    rw [slashed, String.toList_append, String.toList_ofList, List.replicate_succ',
      ← List.append_assoc, List.getLast?_concat]
  rw [join, if_neg habsolute, if_pos (by simp [hslash])]

namespace Disk

variable {d : Disk} {p : Path} {entries : List (String × Entry)} {n : Nat}

/-- What has a path that is too long is no directory to the one who asks. -/
theorem isDirectory_of_long (h : maxPathLength < p.text.utf8ByteSize) :
    d.isDirectory p = false := by
  rw [isDirectory]
  cases hp : d.locate? p with
  | none => rfl
  | some e => exact absurd (followable_of_locate? hp).short (Nat.not_le.mpr h)

/-- **A directory has paths of any length** up to the greatest one: slashes behind its path
are of no account. -/
theorem locate?_slashed (hp : d.locate? p = some (.directory entries))
    (hshort : p.text.utf8ByteSize + n ≤ maxPathLength) :
    d.locate? (p.slashed n) = some (.directory entries) := by
  obtain ⟨place, hnames, hplace⟩ := locate?_eq_some_iff.mp hp
  have hfollowable := followable_of_locate? hp
  have htext : (p.slashed n).text.toList = p.text.toList ++ List.replicate n '/' := by
    rw [Path.slashed, String.toList_append, String.toList_ofList]
  -- A path with slashes behind it can be followed as long as there is room for them.
  have hslashed : (p.slashed n).Followable := by
    constructor
    · rw [htext, List.mem_append, not_or]
      refine ⟨hfollowable.unterminated, fun hmem => ?_⟩
      exact absurd (List.eq_of_mem_replicate hmem) (by decide)
    · rw [Path.text_ne_empty_iff, htext]
      exact List.append_ne_nil_of_left_ne_nil (Path.text_ne_empty_iff.mp hfollowable.ne_empty) _
    · rw [Path.slashed, String.utf8ByteSize_append, utf8ByteSize_slashes]
      exact hshort
  have hstart : d.startOf (p.slashed n) = d.startOf p := by
    have hne := Path.text_ne_empty_iff.mp hfollowable.ne_empty
    rw [startOf, startOf, Path.isAbsolute, Path.isAbsolute, htext,
      List.head?_append_of_ne_nil _ hne]
  -- What is between the slashes is empty and does not count.
  have hsteps : (Path.segments (p.slashed n).text.toList).filter (fun s => !Path.isIdle s)
      = p.steps := by
    rw [htext, Path.segments_slashes, List.filter_append, List.filter_replicate_of_neg (by decide),
      List.append_nil]
    rfl
  have hentries : d.entries? place = some entries := by rw [entries?, hplace]
  refine locate?_eq_some_iff.mpr ⟨place, names_eq_ok_iff.mpr ⟨hslashed, ?_⟩, hplace⟩
  rw [hstart]
  exact follow?_of_filter hentries (hsteps ▸ follow?_of_names hnames)

end Disk

end ExprFrontEnd
