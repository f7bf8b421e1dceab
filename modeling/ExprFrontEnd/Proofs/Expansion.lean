import ExprFrontEnd.Proofs.EntryPaths
import ExprFrontEnd.Proofs.PathOrder

/-!
# `ExprFrontEnd.Proofs.Expansion`: what targets stand for

A target leads to a path (`Disk.Leads`), and what is there decides which files it
stands for. A file stands for itself. What a directory stands for, without and with
what is below it, is said by `Disk.Listing`: the members of each list, in terms of the
names in the tree, and that the list is in strict order. So no path is listed twice,
and there is one such list only.

The two lists do not ask the same of an entry. Right inside of a directory it has to
be a regular file, and at any depth it only must not be a directory to the one who
asks. Two kinds of entries are therefore listed at any depth that are no files: a pipe
or a socket, and an entry whose path is too long to be followed, be it a directory
(`expandTarget_ne_regular`). In a tree of which no path is too long
(`Entry.Readable`) only the first kind is left, and the list at any depth is that of
the regular files exactly if the tree has no such entry with the name of a source file
(`Listing.exact`).

The members of the lists come from the recursion on the tree (`mem_sources`). It needs
that a path leads to its entry if it leads anywhere (`eq_of_locate?_join`), in a tree
that a file system can hold (`Entry.WellFormed`).

`Disk.Reordered` takes two disks for the same if their directories have the same
entries in some order. A path is followed in the same way on both
(`Disk.Reordered.locate?`), so the lists have the same members, and since these are
sorted the order of entries is not seen (`Disk.Reordered.mergeSort_sourcesAt`).

`Disk.expandTarget_lists` is about all targets.
-/

set_option autoImplicit false

namespace ExprFrontEnd

/-! ### Trees -/

namespace Entry

/-- A tree that a file system can hold: in each directory the names are proper ones,
and no two of them are the same. -/
inductive WellFormed : Entry → Prop
  | file (content : ByteArray) : WellFormed (.file content)
  | special (outcome : Except ReadError ByteArray) : WellFormed (.special outcome)
  | directory {entries : List (String × Entry)} (named : ∀ x ∈ entries, EntryName x.1)
      (distinct : (entries.map Prod.fst).Nodup) (below : ∀ x ∈ entries, WellFormed x.2) :
      WellFormed (.directory entries)

/-- A tree at a path that can be read: no path of it is too long to be followed. -/
inductive Readable : Path → Entry → Prop
  | file {p : Path} {content : ByteArray} (short : p.text.utf8ByteSize ≤ Disk.maxPathLength) :
      Readable p (.file content)
  | special {p : Path} {outcome : Except ReadError ByteArray}
      (short : p.text.utf8ByteSize ≤ Disk.maxPathLength) : Readable p (.special outcome)
  | directory {p : Path} {entries : List (String × Entry)}
      (short : p.text.utf8ByteSize ≤ Disk.maxPathLength)
      (below : ∀ x ∈ entries, Readable (p.join ⟨x.1⟩) x.2) : Readable p (.directory entries)

/-- A tree that can be read has a path that is not too long. -/
theorem Readable.short {p : Path} {e : Entry} (h : Readable p e) :
    p.text.utf8ByteSize ≤ Disk.maxPathLength := by
  cases h with
  | file short | special short | directory short below => exact short

section
variable {entries : List (String × Entry)} {name : String} {names : List String} {e e' : Entry}

/-- An entry is found by its name. -/
theorem lookup_eq_some_iff (h : (entries.map Prod.fst).Nodup) :
    entries.lookup name = some e ↔ (name, e) ∈ entries := by
  rw [List.lookup_eq_some_iff]
  constructor
  · rintro ⟨front, back, rfl, -⟩
    exact List.mem_append_right front List.mem_cons_self
  · intro hmem
    obtain ⟨front, back, rfl⟩ := List.append_of_mem hmem
    refine ⟨front, back, rfl, fun x hx => ?_⟩
    rw [List.map_append, List.map_cons] at h
    have hne := (List.nodup_append.mp h).2.2 x.1 (List.mem_map_of_mem hx) name List.mem_cons_self
    exact bne_iff_ne.mpr (Ne.symm hne)

/-- The first of some names tells the entry, and the others lead on from it. -/
theorem descend?_cons (h : (entries.map Prod.fst).Nodup) :
    (directory entries).descend? (name :: names) = some e ↔
      ∃ child, (name, child) ∈ entries ∧ child.descend? names = some e := by
  show (entries.lookup name).bind (descend? names) = some e ↔ _
  simp only [Option.bind_eq_some_iff, lookup_eq_some_iff h]

/-- One name leads to the entry that has it. -/
theorem descend?_singleton (h : (entries.map Prod.fst).Nodup) :
    (directory entries).descend? [name] = some e ↔ (name, e) ∈ entries := by
  rw [descend?_cons h]
  constructor
  · rintro ⟨child, hmem, hchild⟩
    exact Option.some.inj hchild ▸ hmem
  · intro hmem
    exact ⟨e, hmem, rfl⟩

/-- In a directory that a file system can hold no name is used twice. -/
theorem WellFormed.distinct (h : (Entry.directory entries).WellFormed) :
    (entries.map Prod.fst).Nodup := by
  cases h with
  | directory named distinct below => exact distinct

/-- What names lead to in such a tree is such a tree. -/
theorem WellFormed.of_descend? (h : e.WellFormed) (he : e.descend? names = some e') :
    e'.WellFormed := by
  induction names generalizing e with
  | nil => exact Option.some.inj he ▸ h
  | cons name names ih =>
    cases h with
    | file content | special outcome => cases he
    | directory named distinct below =>
      obtain ⟨child, hchild, hrest⟩ := (descend?_cons distinct).mp he
      exact ih (below _ hchild) hrest

/-- Names that lead somewhere are proper ones. -/
theorem WellFormed.isName (h : e.WellFormed) (he : e.descend? names = some e') :
    ∀ name ∈ names, Disk.IsName name := by
  induction names generalizing e with
  | nil => exact List.forall_mem_nil _
  | cons name names ih =>
    cases h with
    | file content | special outcome => cases he
    | directory named distinct below =>
      obtain ⟨child, hchild, hrest⟩ := (descend?_cons distinct).mp he
      exact List.forall_mem_cons.mpr ⟨(named _ hchild).toIsName, ih (below _ hchild) hrest⟩

end

end Entry

/-! ### The files that are listed -/

section
variable {d : Disk} {p q : Path} {e : Entry} {entries : List (String × Entry)}

/-- What is listed inside of a directory is listed entry by entry. -/
theorem allSources_eq_flatMap (d : Disk) (p : Path) (entries : List (String × Entry)) :
    allSources d p entries = entries.flatMap fun x => x.2.sources d (p.join ⟨x.1⟩) := by
  induction entries with
  | nil => rfl
  | cons x entries ih =>
    rw [allSources, ih]
    rfl

/-- A directory that is one to the one who asks stands for what is listed inside of it. -/
theorem sources_directory (hp : d.isDirectory p = true) :
    (Entry.directory entries).sources d p
      = entries.flatMap fun x => x.2.sources d (p.join ⟨x.1⟩) := by
  rw [Entry.sources, if_pos hp, allSources_eq_flatMap]

/-- Where there is no directory to the one who asks, nothing is looked for below. -/
theorem sources_of_not_isDirectory (hp : d.isDirectory p = false) :
    e.sources d p = if p.isSource then [p] else [] := by
  cases e with
  | file content | special outcome => rw [Entry.sources]
  | directory entries => rw [Entry.sources, if_neg (by simp [hp])]

/-- What leads along names leads to a directory in front of them. -/
theorem isDirectory_of_along {names : List String} (hp : p.text ≠ "")
    (hnames : ∀ name ∈ names, Disk.IsName name) (h : d.isDirectory (p.along names) = true) :
    d.isDirectory p = true := by
  induction names generalizing p with
  | nil => exact h
  | cons name names ih =>
    obtain ⟨hname, hnames⟩ := List.forall_mem_cons.mp hnames
    have hnext := ih (Path.text_join_ne_empty hname) hnames h
    rw [Disk.isDirectory, Option.any_eq_true] at hnext
    obtain ⟨e, he, -⟩ := hnext
    exact Disk.isDirectory_of_locate?_join hp hname he

/-- What the path of an entry leads to, if it leads anywhere, is the entry. -/
theorem eq_of_locate?_join (hp : d.locate? p = some (.directory entries))
    (hwf : (Entry.directory entries).WellFormed) {x : String × Entry} (hx : x ∈ entries)
    (he : d.locate? (p.join ⟨x.1⟩) = some e) : e = x.2 := by
  cases hwf with
  | directory named distinct below =>
    have hshort := (Disk.followable_of_locate? he).short
    have hfound := Disk.locate?_join hp (named x hx) ((Entry.lookup_eq_some_iff distinct).mpr hx)
      hshort
    exact Option.some.inj (he.symm.trans hfound)

/-- The path of an entry below another one, if all that is entered on the way is a
directory to the one who asks. -/
def Entry.Below (d : Disk) (p : Path) (e : Entry) (q : Path) : Prop :=
  ∃ names name, (e.descend? (names ++ [name])).isSome = true ∧
    d.isDirectory (p.along names) = true ∧ q = p.along (names ++ [name])

/-- Below a directory there are its entries and what is below these. -/
theorem below_directory_iff (hwf : (Entry.directory entries).WellFormed)
    (hp : d.isDirectory p = true) : (Entry.directory entries).Below d p q ↔
      ∃ x ∈ entries, q = p.join ⟨x.1⟩ ∨ x.2.Below d (p.join ⟨x.1⟩) q := by
  constructor
  · rintro ⟨names, name, hfound, hplace, rfl⟩
    obtain ⟨found, hfound⟩ := Option.isSome_iff_exists.mp hfound
    -- The last name is an entry of the directory itself, or there is a directory on the way.
    cases names with
    | nil =>
      obtain ⟨child, hx, -⟩ := (Entry.descend?_cons hwf.distinct).mp hfound
      exact ⟨(name, child), hx, .inl rfl⟩
    | cons first names =>
      obtain ⟨child, hx, hchild⟩ := (Entry.descend?_cons hwf.distinct).mp hfound
      exact ⟨(first, child), hx, .inr ⟨names, name, hchild ▸ rfl, hplace, rfl⟩⟩
  · rintro ⟨x, hx, rfl | ⟨names, name, hfound, hplace, rfl⟩⟩
    · have hfound := (Entry.descend?_singleton hwf.distinct).mpr hx
      exact ⟨[], x.1, hfound ▸ rfl, hp, rfl⟩
    · obtain ⟨found, hfound⟩ := Option.isSome_iff_exists.mp hfound
      have hfound := (Entry.descend?_cons hwf.distinct).mpr ⟨x.2, hx, hfound⟩
      exact ⟨x.1 :: names, name, hfound ▸ rfl, hplace, rfl⟩

/-- Nothing is below what is no directory. -/
theorem not_below_of_not_isDirectory (hwf : e.WellFormed) (hp : p.text ≠ "")
    (hplace : d.isDirectory p = false) : ¬e.Below d p q := by
  rintro ⟨names, name, hfound, hbelow, -⟩
  obtain ⟨found, hfound⟩ := Option.isSome_iff_exists.mp hfound
  have hnames := fun n hn => hwf.isName hfound n (List.mem_append_left [name] hn)
  rw [isDirectory_of_along hp hnames hbelow] at hplace
  cases hplace

/-- A directory to the one who asks is an entry that is a directory. -/
theorem isDirectory_of_place (hplace : ∀ found, d.locate? p = some found → found = e)
    (h : d.isDirectory p = true) : d.locate? p = some e ∧ e.isDirectory = true := by
  rw [Disk.isDirectory, Option.any_eq_true] at h
  obtain ⟨found, hfound, hkind⟩ := h
  obtain rfl := hplace found hfound
  exact ⟨hfound, hkind⟩

/-- What is no directory is listed itself, if its name says so. -/
theorem mem_sources_of_not_isDirectory (hwf : e.WellFormed) (hp : p.text ≠ "")
    (hplace : d.isDirectory p = false) : q ∈ e.sources d p ↔
      (q.isSource = true ∧ d.isDirectory q = false) ∧ (q = p ∨ e.Below d p q) := by
  rw [sources_of_not_isDirectory hplace, or_iff_left (not_below_of_not_isDirectory hwf hp hplace)]
  split
  · rename_i hsource
    rw [List.mem_singleton]
    constructor
    · rintro rfl
      exact ⟨⟨hsource, hplace⟩, rfl⟩
    · exact And.right
  · rename_i hsource
    refine iff_of_false List.not_mem_nil ?_
    rintro ⟨⟨hq, -⟩, rfl⟩
    exact hsource hq

/-- **What is listed at any depth**: the path itself and what is below it, if it has
the extension of source files and is no directory to the one who asks. The induction
is on the tree. -/
theorem mem_sources (hwf : e.WellFormed) (hp : p.text ≠ "")
    (hplace : ∀ found, d.locate? p = some found → found = e) :
    q ∈ e.sources d p ↔
      (q.isSource = true ∧ d.isDirectory q = false) ∧ (q = p ∨ e.Below d p q) := by
  induction hwf generalizing p with
  | file content | special outcome =>
    refine mem_sources_of_not_isDirectory (by constructor) hp (Bool.eq_false_iff.mpr fun h => ?_)
    cases (isDirectory_of_place hplace h).2
  | @directory entries named distinct below ih =>
    have hwf : (Entry.directory entries).WellFormed := .directory named distinct below
    cases hdirectory : d.isDirectory p with
    | false => exact mem_sources_of_not_isDirectory hwf hp hdirectory
    | true =>
      obtain ⟨hlocate, -⟩ := isDirectory_of_place hplace hdirectory
      have hchild : ∀ x ∈ entries, q ∈ x.2.sources d (p.join ⟨x.1⟩) ↔
          (q.isSource = true ∧ d.isDirectory q = false) ∧
            (q = p.join ⟨x.1⟩ ∨ x.2.Below d (p.join ⟨x.1⟩) q) := fun x hx =>
        ih x hx (Path.text_join_ne_empty (named x hx).toIsName) fun found =>
          eq_of_locate?_join hlocate hwf hx
      -- A directory is not listed itself, so what is listed is below it.
      have hself : d.isDirectory q = false → q ≠ p := by
        rintro hq rfl
        rw [hdirectory] at hq
        cases hq
      rw [sources_directory hdirectory, List.mem_flatMap, below_directory_iff hwf hdirectory]
      constructor
      · rintro ⟨x, hx, hq⟩
        obtain ⟨hlisted, hq⟩ := (hchild x hx).mp hq
        exact ⟨hlisted, .inr ⟨x, hx, hq⟩⟩
      · rintro ⟨hlisted, heq | ⟨x, hx, hq⟩⟩
        · exact absurd heq (hself hlisted.2)
        · exact ⟨x, hx, (hchild x hx).mpr ⟨hlisted, hq⟩⟩

/-- Paths below two entries of one directory differ where the names of these stand. -/
theorem components_ne_of_names_ne {x y : String} {xs ys : List String} (hp : p.text ≠ "")
    (hxs : ∀ name ∈ x :: xs, Disk.IsName name) (hys : ∀ name ∈ y :: ys, Disk.IsName name)
    (hne : x ≠ y) : (p.along (x :: xs)).components ≠ (p.along (y :: ys)).components := by
  rw [Path.components_along hp hxs, Path.components_along hp hys]
  intro heq
  obtain ⟨hname, -⟩ := List.cons.inj (List.append_cancel_left heq)
  exact hne (String.toList_inj.mp (Path.Component.name.inj hname))

/-- What is listed for an entry has the name of the entry in its path. -/
theorem exists_along_of_mem_sources (hwf : e.WellFormed) {name : String}
    (hname : Disk.IsName name)
    (hplace : ∀ found, d.locate? (p.join ⟨name⟩) = some found → found = e)
    (hq : q ∈ e.sources d (p.join ⟨name⟩)) :
    ∃ names, q = p.along (name :: names) ∧ ∀ n ∈ name :: names, Disk.IsName n := by
  obtain ⟨-, rfl | ⟨names, last, hfound, -, rfl⟩⟩ :=
    (mem_sources hwf (Path.text_join_ne_empty hname) hplace).mp hq
  · exact ⟨[], rfl, List.forall_mem_singleton.mpr hname⟩
  · obtain ⟨found, hfound⟩ := Option.isSome_iff_exists.mp hfound
    exact ⟨names ++ [last], rfl, List.forall_mem_cons.mpr ⟨hname, hwf.isName hfound⟩⟩

/-- One path, or none, differs from all others on the list. -/
theorem pairwise_sources_of_not_isDirectory (hplace : d.isDirectory p = false) :
    (e.sources d p).Pairwise fun q r => q.components ≠ r.components := by
  rw [sources_of_not_isDirectory hplace]
  split
  · exact List.pairwise_singleton _ _
  · exact .nil

/-- No two paths that are listed have the same components. -/
theorem pairwise_sources (hwf : e.WellFormed) (hp : p.text ≠ "")
    (hplace : ∀ found, d.locate? p = some found → found = e) :
    (e.sources d p).Pairwise fun q r => q.components ≠ r.components := by
  induction hwf generalizing p with
  | file content | special outcome =>
    refine pairwise_sources_of_not_isDirectory (Bool.eq_false_iff.mpr fun h => ?_)
    cases (isDirectory_of_place hplace h).2
  | @directory entries named distinct below ih =>
    cases hdirectory : d.isDirectory p with
    | false => exact pairwise_sources_of_not_isDirectory hdirectory
    | true =>
      obtain ⟨hlocate, -⟩ := isDirectory_of_place hplace hdirectory
      have hname : ∀ x ∈ entries, Disk.IsName x.1 := fun x hx => (named x hx).toIsName
      have hchild : ∀ x ∈ entries, ∀ found, d.locate? (p.join ⟨x.1⟩) = some found → found = x.2 :=
        fun x hx found => eq_of_locate?_join hlocate (.directory named distinct below) hx
      rw [sources_directory hdirectory, List.pairwise_flatMap]
      refine ⟨fun x hx => ih x hx (Path.text_join_ne_empty (hname x hx)) (hchild x hx), ?_⟩
      -- What is listed below different entries differs in their names.
      refine (List.pairwise_map.mp distinct).imp_of_mem fun {x y} hx hy hne q hq r hr => ?_
      obtain ⟨xs, rfl, hxs⟩ :=
        exists_along_of_mem_sources (below x hx) (hname x hx) (hchild x hx) hq
      obtain ⟨ys, rfl, hys⟩ :=
        exists_along_of_mem_sources (below y hy) (hname y hy) (hchild y hy) hr
      exact components_ne_of_names_ne hp hxs hys hne

/-- **What is listed right inside of a directory**: here an entry has to be a regular
file. -/
theorem mem_directSources : q ∈ directSources d p entries ↔
    (q.isSource = true ∧ d.isFile q = true) ∧ ∃ x ∈ entries, q = p.join ⟨x.1⟩ := by
  rw [directSources, List.mem_filter, List.mem_map, Bool.and_eq_true]
  constructor
  · rintro ⟨⟨x, hx, rfl⟩, hfile, hsource⟩
    exact ⟨⟨hsource, hfile⟩, x, hx, rfl⟩
  · rintro ⟨⟨hsource, hfile⟩, x, hx, rfl⟩
    exact ⟨⟨x, hx, rfl⟩, hfile, hsource⟩

/-- No two entries of a directory have paths with the same components, since their names
differ. -/
theorem pairwise_directSources (hp : p.text ≠ "")
    (hwf : (Entry.directory entries).WellFormed) :
    (directSources d p entries).Pairwise fun q r => q.components ≠ r.components := by
  cases hwf with
  | directory named distinct below =>
    refine List.Pairwise.filter _ (List.pairwise_map.mpr ?_)
    refine (List.pairwise_map.mp distinct).imp_of_mem fun {x y} hx hy hne => ?_
    exact @components_ne_of_names_ne p x.1 y.1 [] [] hp
      (List.forall_mem_singleton.mpr (named x hx).toIsName)
      (List.forall_mem_singleton.mpr (named y hy).toIsName) hne

end

/-! ### Expansion -/

namespace Disk

variable {d : Disk} {p : Path} {entries : List (String × Entry)}

/-- What comes of the files that a target stands for. -/
def listed (target : String) (files : List Path) : Except Failure (List Path) :=
  if files = [] then .error (.invalidTarget target) else .ok files

/-- Expanding, with the two parts of a target by their places in the pair. -/
theorem expandTarget_eq (target : String) :
    d.expandTarget target = match d.resolveTarget? (splitTarget target).1 with
      | none => .error (.invalidTarget target)
      | some p => listed target ((d.sourcesAt (splitTarget target).2 p).mergeSort Path.le) := by
  -- The pair is made a variable before it is opened, so that no target is split here.
  delta expandTarget
  generalize splitTarget target = split
  obtain ⟨base, recursive⟩ := split
  dsimp only
  cases d.resolveTarget? base with
  | none => rfl
  | some p =>
    dsimp only
    cases (d.sourcesAt recursive p).mergeSort Path.le with
    | nil => rfl
    | cons q files => rfl

/-- What a target stands for, once it is known where it leads. -/
theorem expandTarget_of_resolved {target : String}
    (h : d.resolveTarget? (splitTarget target).1 = some p) :
    d.expandTarget target
      = listed target ((d.sourcesAt (splitTarget target).2 p).mergeSort Path.le) := by
  rw [expandTarget_eq, h]

/-- A target that leads nowhere is an error with the target in it. -/
theorem expandTarget_of_unresolved {target : String}
    (h : d.resolveTarget? (splitTarget target).1 = none) :
    d.expandTarget target = .error (.invalidTarget target) := by
  rw [expandTarget_eq, h]

/-- What a directory stands for, without and with what is below it: `flat` and
`all`. -/
structure Listing (d : Disk) (p : Path) (entries : List (String × Entry))
    (flat all : List Path) : Prop where
  flat_ordered : flat.Pairwise Path.Before
  all_ordered : all.Pairwise Path.Before
  /-- A regular file right inside of the directory, by its name. -/
  mem_flat (q : Path) : q ∈ flat ↔ ∃ name ∈ entries.map Prod.fst, Path.IsSourceName name ∧
    q = p.join ⟨name⟩ ∧ d.isFile q = true
  /-- An entry at any depth, by the names of directories and its own name. The last of
  the directories is one to the one who asks, and the entry itself is none. -/
  mem_all (q : Path) : q ∈ all ↔ ∃ names name,
    ((Entry.directory entries).descend? (names ++ [name])).isSome = true ∧
      Path.IsSourceName name ∧ q = p.along (names ++ [name]) ∧
      d.isDirectory (p.along names) = true ∧ d.isDirectory q = false

/-- A regular file is no directory. -/
theorem isDirectory_of_isFile {q : Path} (h : d.isFile q = true) : d.isDirectory q = false := by
  rw [isFile] at h
  rw [isDirectory]
  cases hq : d.locate? q with
  | none => rfl
  | some e =>
    rw [hq] at h
    cases e with
    | file content => rfl
    | directory below | special outcome => cases h

/-- What is right inside of a directory is in the directory. -/
theorem Listing.sublist {flat all : List Path} (h : Listing d p entries flat all)
    (hwf : (Entry.directory entries).WellFormed) (hp : d.isDirectory p = true) :
    flat.Sublist all := by
  refine Path.sublist_of_pairwise_before h.flat_ordered h.all_ordered fun q hq => ?_
  obtain ⟨name, hmem, hname, rfl, hfile⟩ := (h.mem_flat q).mp hq
  obtain ⟨⟨_, e⟩, hx, rfl⟩ := List.mem_map.mp hmem
  have hfound := (Entry.descend?_singleton hwf.distinct).mpr hx
  exact (h.mem_all _).mpr ⟨[], _, hfound ▸ rfl, hname, rfl, hp, isDirectory_of_isFile hfile⟩

/-- The path of an entry has the extension of source files if the name says so. -/
theorem isSource_along {e : Entry} {names : List String} {name : String} (hwf : e.WellFormed)
    (h : (e.descend? (names ++ [name])).isSome = true) :
    (p.along (names ++ [name])).isSource = true ↔ Path.IsSourceName name := by
  obtain ⟨found, hfound⟩ := Option.isSome_iff_exists.mp h
  rw [Path.along_concat]
  exact Path.isSource_join (hwf.isName hfound name (List.mem_append_right _ (.head _))) _

/-- The two lists of a directory, sorted, are those that its entries say. -/
theorem listing_sourcesAt (hp : d.locate? p = some (.directory entries))
    (hwf : (Entry.directory entries).WellFormed) :
    Listing d p entries ((d.sourcesAt false p).mergeSort Path.le)
      ((d.sourcesAt true p).mergeSort Path.le) := by
  have hdirectory : d.isDirectory p = true := isDirectory_eq_of_locate? hp
  have hne : p.text ≠ "" := (followable_of_locate? hp).ne_empty
  have hplace : ∀ found, d.locate? p = some found → found = .directory entries :=
    fun found hfound => Option.some.inj (hfound.symm.trans hp)
  have hflat : d.sourcesAt false p = directSources d p entries := by
    simp only [sourcesAt, hp]
    rfl
  have hall : d.sourcesAt true p = (Entry.directory entries).sources d p := by
    simp only [sourcesAt, hp, sources_directory hdirectory, allSources_eq_flatMap]
    rfl
  rw [hflat, hall]
  refine ⟨Path.pairwise_before_mergeSort (pairwise_directSources hne hwf),
    Path.pairwise_before_mergeSort (pairwise_sources hwf hne hplace), fun q => ?_, fun q => ?_⟩
  -- Directly in the directory: an entry has to be a regular file.
  · have hsource : ∀ x ∈ entries,
        ((p.join ⟨x.1⟩).isSource = true ↔ Path.IsSourceName x.1) := by
      intro x hx
      have hname := hwf.isName ((Entry.descend?_singleton hwf.distinct).mpr hx) x.1 (.head _)
      exact Path.isSource_join hname p
    rw [List.mem_mergeSort, mem_directSources]
    constructor
    · rintro ⟨⟨hq, hfile⟩, x, hx, rfl⟩
      exact ⟨x.1, List.mem_map_of_mem hx, (hsource x hx).mp hq, rfl, hfile⟩
    · rintro ⟨name, hmem, hname, rfl, hfile⟩
      obtain ⟨x, hx, rfl⟩ := List.mem_map.mp hmem
      exact ⟨⟨(hsource x hx).mpr hname, hfile⟩, x, hx, rfl⟩
  -- At any depth: an entry must not be a directory. The place itself is one, so it is not listed.
  · rw [List.mem_mergeSort, mem_sources hwf hne hplace]
    constructor
    · rintro ⟨⟨hsource, hq⟩, rfl | ⟨names, name, hfound, hbelow, rfl⟩⟩
      · rw [hdirectory] at hq
        cases hq
      · exact ⟨names, name, hfound, (isSource_along hwf hfound).mp hsource, rfl, hbelow, hq⟩
    · rintro ⟨names, name, hfound, hname, rfl, hbelow, hq⟩
      exact ⟨⟨(isSource_along hwf hfound).mpr hname, hq⟩, .inr ⟨names, name, hfound, hbelow, rfl⟩⟩

/-! ### Trees that can be read -/

/-- In a readable directory all entries are where their paths lead. -/
theorem locate?_of_mem (hp : d.locate? p = some (.directory entries))
    (hwf : (Entry.directory entries).WellFormed) (hread : (Entry.directory entries).Readable p)
    {x : String × Entry} (hx : x ∈ entries) : d.locate? (p.join ⟨x.1⟩) = some x.2 := by
  cases hwf with
  | directory named distinct _ =>
    cases hread with
    | directory _ below =>
      exact locate?_join hp (named x hx) ((Entry.lookup_eq_some_iff distinct).mpr hx)
        (below x hx).short

/-- In a readable tree names lead to the same as the path along them. -/
theorem locate?_along {names : List String} {e e' : Entry} (hread : e.Readable p)
    (hwf : e.WellFormed) (hp : d.locate? p = some e) (h : e.descend? names = some e') :
    d.locate? (p.along names) = some e' := by
  -- On the names. One entry further down the tree can still be read.
  induction names generalizing p e with
  | nil => exact Option.some.inj h ▸ hp
  | cons name names ih =>
    cases hread with
    | file short | special short => cases h
    | directory short below =>
      obtain ⟨child, hchild, hrest⟩ := (Entry.descend?_cons hwf.distinct).mp h
      have hplace := locate?_of_mem hp hwf (.directory short below) hchild
      cases hwf with
      | directory named distinct hbelow =>
        rw [Path.along_cons]
        exact ih (below (name, child) hchild) (hbelow (name, child) hchild) hplace hrest

/-- The two lists of a directory that can be read, by what its entries are. -/
structure ReadableListing (d : Disk) (p : Path) (entries : List (String × Entry))
    (flat all : List Path) : Prop where
  /-- The regular files right inside of the directory. -/
  mem_flat (q : Path) : q ∈ flat ↔ ∃ name content, (name, Entry.file content) ∈ entries ∧
    Path.IsSourceName name ∧ q = p.join ⟨name⟩
  /-- What is no directory, at any depth. -/
  mem_all (q : Path) : q ∈ all ↔ ∃ names name e,
    (Entry.directory entries).descend? (names ++ [name]) = some e ∧ e.isDirectory = false ∧
      Path.IsSourceName name ∧ q = p.along (names ++ [name])
  /-- Only regular files are listed exactly if there is nothing else with the name of one
  that is no directory either. -/
  regular_iff : (∀ q ∈ all, d.isFile q = true) ↔ ∀ names name outcome,
    (Entry.directory entries).descend? (names ++ [name]) = some (.special outcome) →
      ¬Path.IsSourceName name

/-- In a readable tree only what an entry is decides whether it is listed. -/
theorem Listing.exact {flat all : List Path} (h : Listing d p entries flat all)
    (hp : d.locate? p = some (.directory entries))
    (hwf : (Entry.directory entries).WellFormed) (hread : (Entry.directory entries).Readable p) :
    ReadableListing d p entries flat all := by
  have hplace : ∀ {names e}, (Entry.directory entries).descend? names = some e →
      d.locate? (p.along names) = some e := locate?_along hread hwf hp
  have hall : ∀ q, q ∈ all ↔ ∃ names name e,
      (Entry.directory entries).descend? (names ++ [name]) = some e ∧ e.isDirectory = false ∧
        Path.IsSourceName name ∧ q = p.along (names ++ [name]) := by
    intro q
    rw [h.mem_all]
    constructor
    · rintro ⟨names, name, hfound, hname, rfl, -, hq⟩
      obtain ⟨e, he⟩ := Option.isSome_iff_exists.mp hfound
      rw [isDirectory_eq_of_locate? (hplace he)] at hq
      exact ⟨names, name, e, he, hq, hname, rfl⟩
    · rintro ⟨names, name, e, he, hkind, hname, rfl⟩
      refine ⟨names, name, he ▸ rfl, hname, rfl, ?_, ?_⟩
      · -- What names lead on from is a directory.
        obtain ⟨parent, hparent, hlast⟩ :=
          Option.bind_eq_some_iff.mp ((Entry.descend?_append names [name] _).symm.trans he)
        rw [isDirectory_eq_of_locate? (hplace hparent)]
        cases parent with
        | file content | special outcome => cases hlast
        | directory below => rfl
      · rwa [isDirectory_eq_of_locate? (hplace he)]
  refine ⟨fun q => ?_, hall, ?_⟩
  · rw [h.mem_flat]
    constructor
    · rintro ⟨name, hmem, hname, rfl, hfile⟩
      obtain ⟨⟨_, e⟩, hx, rfl⟩ := List.mem_map.mp hmem
      rw [isFile_eq_of_locate? (locate?_of_mem hp hwf hread hx)] at hfile
      cases e with
      | file content => exact ⟨_, content, hx, hname, rfl⟩
      | directory below | special outcome => cases hfile
    · rintro ⟨name, content, hx, hname, rfl⟩
      refine ⟨name, List.mem_map_of_mem hx, hname, rfl, ?_⟩
      exact isFile_eq_of_locate? (locate?_of_mem hp hwf hread hx)
  · constructor
    · intro hregular names name outcome hfound hname
      have hfile := hregular _ ((hall _).mpr ⟨names, name, _, hfound, rfl, hname, rfl⟩)
      rw [isFile_eq_of_locate? (hplace hfound)] at hfile
      cases hfile
    · intro hnone q hq
      obtain ⟨names, name, e, he, hkind, hname, rfl⟩ := (hall q).mp hq
      rw [isFile_eq_of_locate? (hplace he)]
      cases e with
      | file content => rfl
      | directory below => cases hkind
      | special outcome => exact absurd hname (hnone names name outcome he)

end Disk

/-! ### The order of entries -/

/-- Trees with the same entries, whatever the order in which a directory has them. -/
inductive Entry.Reordered : Entry → Entry → Prop
  | file (content : ByteArray) : Reordered (.file content) (.file content)
  | special (outcome : Except ReadError ByteArray) :
      Reordered (.special outcome) (.special outcome)
  | directory {entries entries' : List (String × Entry)}
      (names : (entries.map Prod.fst).Perm (entries'.map Prod.fst))
      (below : ∀ x ∈ entries, ∀ y ∈ entries', x.1 = y.1 → Reordered x.2 y.2) :
      Reordered (.directory entries) (.directory entries')

namespace Entry.Reordered

variable {e e' : Entry}

/-- A tree has the entries that it has. Names are distinct, so each is compared with itself. -/
theorem refl (hwf : e.WellFormed) : e.Reordered e := by
  induction hwf with
  | file content => exact .file content
  | special outcome => exact .special outcome
  | directory named distinct below ih =>
    exact .directory (.refl _) fun x hx y hy hxy =>
      List.inj_on_of_nodup_map distinct hx hy hxy ▸ ih x hx

/-- The entries of a directory in another order. -/
theorem of_perm {entries entries' : List (String × Entry)}
    (hwf : (Entry.directory entries).WellFormed) (h : entries.Perm entries') :
    (Entry.directory entries).Reordered (.directory entries') := by
  cases hwf with
  | directory named distinct below =>
    refine .directory (h.map Prod.fst) fun x hx y hy hxy => ?_
    exact List.inj_on_of_nodup_map distinct hx (h.mem_iff.mpr hy) hxy ▸ refl (below x hx)

/-- The entry of the same name in the first directory. -/
theorem exists_mem {entries entries' : List (String × Entry)}
    (names : (entries.map Prod.fst).Perm (entries'.map Prod.fst)) {y : String × Entry}
    (hy : y ∈ entries') : ∃ x ∈ entries, x.1 = y.1 :=
  List.mem_map.mp (names.mem_iff.mpr (List.mem_map_of_mem hy))

/-- Another order of entries makes no difference to whether a file system can hold them. -/
theorem wellFormed (h : e.Reordered e') (hwf : e.WellFormed) : e'.WellFormed := by
  induction h with
  | file content | special outcome => exact hwf
  | @directory entries entries' names below ih =>
    cases hwf with
    | directory named distinct hbelow =>
      refine .directory (fun y hy => ?_) (names.nodup distinct) fun y hy => ?_
      · obtain ⟨x, hx, hxy⟩ := exists_mem names hy
        exact hxy ▸ named x hx
      · obtain ⟨x, hx, hxy⟩ := exists_mem names hy
        exact ih x hx y hy hxy (hbelow x hx)

/-- A name is in both directories or in none. -/
theorem isSome_lookup_eq {entries entries' : List (String × Entry)}
    (names : (entries.map Prod.fst).Perm (entries'.map Prod.fst)) (name : String) :
    (entries.lookup name).isSome = (entries'.lookup name).isSome := by
  have hname : ∀ entries : List (String × Entry),
      (entries.lookup name).isSome = true ↔ name ∈ entries.map Prod.fst := by
    intro entries
    rw [List.lookup_isSome_iff, List.mem_map]
    exact exists_congr fun x => and_congr_right fun _ => by rw [beq_iff_eq, eq_comm]
  rw [Bool.eq_iff_iff, hname, hname, names.mem_iff]

/-- What has the same name is the same up to order. -/
theorem lookup {entries entries' : List (String × Entry)}
    (names : (entries.map Prod.fst).Perm (entries'.map Prod.fst))
    (below : ∀ x ∈ entries, ∀ y ∈ entries', x.1 = y.1 → Reordered x.2 y.2)
    (distinct : (entries.map Prod.fst).Nodup) (name : String) :
    Option.Rel Reordered (entries.lookup name) (entries'.lookup name) := by
  have distinct' := names.nodup distinct
  cases hx : entries.lookup name with
  | some child =>
    have hmem := (lookup_eq_some_iff distinct).mp hx
    obtain ⟨⟨_, child'⟩, hy, rfl⟩ := exists_mem names.symm hmem
    rw [(lookup_eq_some_iff distinct').mpr hy]
    exact .some (below _ hmem _ hy rfl)
  | none =>
    cases hy : entries'.lookup name with
    | none => exact .none
    | some child' =>
      obtain ⟨⟨_, child⟩, hmem, rfl⟩ :=
        exists_mem names ((lookup_eq_some_iff distinct').mp hy)
      rw [(lookup_eq_some_iff distinct).mpr hmem] at hx
      cases hx

/-- The same names lead to trees that are the same up to order. -/
theorem descend? (h : e.Reordered e') (hwf : e.WellFormed) (names : List String) :
    Option.Rel Reordered (e.descend? names) (e'.descend? names) := by
  induction names generalizing e e' with
  | nil => exact .some h
  | cons name names ih =>
    cases h with
    | file content | special outcome => exact .none
    | @directory entries entries' hnames below =>
      cases hwf with
      | directory named distinct hbelow =>
        have hchild := lookup hnames below distinct name
        have hwf : ∀ child, entries.lookup name = some child → child.WellFormed := fun child hx =>
          hbelow _ ((lookup_eq_some_iff distinct).mp hx)
        -- What the two directories have under this name is all that matters from here on.
        show Option.Rel Reordered ((entries.lookup name).bind (Entry.descend? names))
          ((entries'.lookup name).bind (Entry.descend? names))
        generalize entries.lookup name = x at hchild hwf
        generalize entries'.lookup name = y at hchild
        cases hchild with
        | none => exact .none
        | some hchild => exact ih hchild (hwf _ rfl)

/-- The same names lead somewhere. -/
theorem isSome_descend?_eq (h : e.Reordered e') (hwf : e.WellFormed) (names : List String) :
    (e.descend? names).isSome = (e'.descend? names).isSome := by
  have hplace := h.descend? hwf names
  generalize e.descend? names = place at hplace
  generalize e'.descend? names = place' at hplace
  cases hplace <;> rfl

end Entry.Reordered

/-- Disks with the same tree up to the order of entries. -/
structure Disk.Reordered (d d' : Disk) : Prop where
  root : d.root.Reordered d'.root
  workingDirectory : d.workingDirectory = d'.workingDirectory

namespace Disk.Reordered

variable {d d' : Disk}

/-- A path is followed in the same way. -/
theorem step_eq (h : d.Reordered d') (hwf : d.root.WellFormed) (names : List String)
    (segment : List Char) : d.step names segment = d'.step names segment := by
  have hplace := h.root.descend? hwf names
  rw [step, step]
  generalize d.root.descend? names = place at hplace
  generalize d'.root.descend? names = place' at hplace
  cases hplace with
  | none => rfl
  | some hplace =>
    cases hplace with
    | file content | special outcome => rfl
    | directory hnames below => simp only [Entry.Reordered.isSome_lookup_eq hnames]

/-- A path leads to the same place. -/
theorem names_eq (h : d.Reordered d') (hwf : d.root.WellFormed) (p : Path) :
    d.names p = d'.names p := by
  have hstep : d.step = d'.step := funext fun names => funext (h.step_eq hwf names)
  rw [names, names, hstep, h.workingDirectory]

/-- A path leads to the same, up to order. -/
theorem locate? (h : d.Reordered d') (hwf : d.root.WellFormed) (p : Path) :
    Option.Rel Entry.Reordered (d.locate? p) (d'.locate? p) := by
  rw [locate?_eq, locate?_eq, h.names_eq hwf]
  cases (d'.names p).toOption with
  | none => exact .none
  | some place => exact h.root.descend? hwf place

/-- What is asked about an entry, but for the order of its own entries, has one answer. -/
theorem any_locate?_eq (h : d.Reordered d') (hwf : d.root.WellFormed) {test : Entry → Bool}
    (htest : ∀ {e e'}, e.Reordered e' → test e = test e') (p : Path) :
    (d.locate? p).any test = (d'.locate? p).any test := by
  have hp := h.locate? hwf p
  generalize d.locate? p = e at hp
  generalize d'.locate? p = e' at hp
  cases hp with
  | none => rfl
  | some hsame => exact htest hsame

/-- A path leads somewhere on both disks or on neither. -/
theorem existsAt_eq (h : d.Reordered d') (hwf : d.root.WellFormed) : d.existsAt = d'.existsAt := by
  have hexists : ∀ d : Disk, ∀ p, d.existsAt p = (d.locate? p).any fun _ => true := by
    intro d p
    rw [existsAt]
    cases d.locate? p <;> rfl
  funext p
  rw [hexists, hexists]
  exact h.any_locate?_eq hwf (fun _ => rfl) p

/-- A path leads to a regular file on both disks or on neither. -/
theorem isFile_eq (h : d.Reordered d') (hwf : d.root.WellFormed) : d.isFile = d'.isFile :=
  funext (h.any_locate?_eq hwf fun hsame => by cases hsame <;> rfl)

/-- A path leads to a directory on both disks or on neither. -/
theorem isDirectory_eq (h : d.Reordered d') (hwf : d.root.WellFormed) :
    d.isDirectory = d'.isDirectory :=
  funext (h.any_locate?_eq hwf fun hsame => by cases hsame <;> rfl)

/-- A target leads to the same path. -/
theorem resolveTarget?_eq (h : d.Reordered d') (hwf : d.root.WellFormed) (target : String) :
    d.resolveTarget? target = d'.resolveTarget? target := by
  rw [resolveTarget?, resolveTarget?, h.existsAt_eq hwf, workingPath, workingPath,
    h.workingDirectory]

end Disk.Reordered

namespace Disk

variable {d d' : Disk} {p : Path} {entries entries' : List (String × Entry)}

/-- Only entries make a difference to a listing, not their order. -/
theorem Listing.eq_of_reordered {flat all flat' all' : List Path}
    (h : Listing d p entries flat all) (h' : Listing d' p entries' flat' all')
    (hdisk : d.Reordered d') (hwf : d.root.WellFormed)
    (hsame : (Entry.directory entries).Reordered (.directory entries'))
    (hbelow : (Entry.directory entries).WellFormed) : flat = flat' ∧ all = all' := by
  have hname : ∀ name, name ∈ entries.map Prod.fst ↔ name ∈ entries'.map Prod.fst := by
    cases hsame with
    | directory names below => exact fun name => names.mem_iff
  constructor
  · refine Path.eq_of_pairwise_before h.flat_ordered h'.flat_ordered fun q => ?_
    simp only [h.mem_flat, h'.mem_flat, hdisk.isFile_eq hwf, hname]
  · refine Path.eq_of_pairwise_before h.all_ordered h'.all_ordered fun q => ?_
    simp only [h.mem_all, h'.mem_all, hdisk.isDirectory_eq hwf, hsame.isSome_descend?_eq hbelow]

/-- What a path leads to is part of a tree that a file system can hold. -/
theorem wellFormed_of_locate? {e : Entry} (hwf : d.root.WellFormed)
    (h : d.locate? p = some e) : e.WellFormed := by
  obtain ⟨place, -, hplace⟩ := locate?_eq_some_iff.mp h
  exact hwf.of_descend? hplace

/-- A path stands for the same files, in order, on disks with the same tree. -/
theorem Reordered.mergeSort_sourcesAt (h : d.Reordered d') (hwf : d.root.WellFormed) (p : Path)
    (recursive : Bool) :
    (d.sourcesAt recursive p).mergeSort Path.le = (d'.sourcesAt recursive p).mergeSort Path.le := by
  have hplace := h.locate? hwf p
  -- Both look-ups succeed or none, and what they find is equal up to order.
  cases hp : d.locate? p with
  | none =>
    cases hp' : d'.locate? p with
    | none => simp only [sourcesAt, hp, hp']
    | some e' =>
      rw [hp, hp'] at hplace
      cases hplace
  | some e =>
    cases hp' : d'.locate? p with
    | none =>
      rw [hp, hp'] at hplace
      cases hplace
    | some e' =>
      rw [hp, hp'] at hplace
      have hsame : e.Reordered e' := by
        cases hplace
        assumption
      have hbelow := wellFormed_of_locate? hwf hp
      have hbelow' := hsame.wellFormed hbelow
      cases hsame with
      | file content | special outcome => simp only [sourcesAt, hp, hp']
      | @directory entries entries' names below =>
        obtain ⟨hflat, hall⟩ := (listing_sourcesAt hp hbelow).eq_of_reordered
          (listing_sourcesAt hp' hbelow') h hwf (.directory names below) hbelow
        cases recursive with
        | false => exact hflat
        | true => exact hall

/-! ### Targets -/

/-- What a target leads to, and whether it asks for files at any depth. -/
structure Leads (d : Disk) (target : String) (recursive : Bool) (p : Path) : Prop where
  ending : (splitTarget target).2 = recursive
  resolved : d.resolveTarget? (splitTarget target).1 = some p

/-- The ending asks for files at any depth, and is taken off. -/
theorem splitTarget_append {dir : String} (h : dir ≠ "") :
    splitTarget (dir ++ "/...") = (dir, true) := by
  have htext : (dir ++ "/...").toList = dir.toList ++ recursiveEnding := String.toList_append
  have hne : ¬dir.toList.isEmpty = true := by
    rw [List.isEmpty_iff, String.toList_eq_nil_iff]
    exact h
  simp only [splitTarget, htext, List.isSuffixOf_iff_suffix, List.suffix_append, if_pos,
    List.length_append, Nat.add_sub_cancel, List.take_left, if_neg hne, String.ofList_toList]

/-- A target without the ending is the path itself. -/
theorem splitTarget_of_no_ending {dir : String} (h : ∀ base, dir ≠ base ++ "/...") :
    splitTarget dir = (dir, false) := by
  have hending : ¬recursiveEnding.isSuffixOf dir.toList = true := by
    rw [List.isSuffixOf_iff_suffix]
    rintro ⟨base, hbase⟩
    refine h (String.ofList base) ?_
    rw [← String.toList_inj, ← hbase, String.toList_append, String.toList_ofList]
    rfl
  simp only [splitTarget, if_neg hending]

/-- A directory is named by its path, and with the ending also what is below it. -/
theorem leads_of_existsAt {dir : String} (h : d.existsAt ⟨dir⟩ = true) :
    d.Leads (dir ++ "/...") true ⟨dir⟩ ∧
      ((∀ base, dir ≠ base ++ "/...") → d.Leads dir false ⟨dir⟩) := by
  have hresolved : d.resolveTarget? dir = some ⟨dir⟩ := by rw [resolveTarget?, if_pos h]
  obtain ⟨e, he⟩ := Option.isSome_iff_exists.mp h
  have hne : dir ≠ "" := (followable_of_locate? he).ne_empty
  refine ⟨?_, fun hending => ?_⟩
  · constructor <;> rw [splitTarget_append hne]
    exact hresolved
  · constructor <;> rw [splitTarget_of_no_ending hending]
    exact hresolved

/-- **A target stands for the source files of its directory, each of them once and in
order**, on every disk. What counts as a file is not the same in both cases.

* A target that leads nowhere is an error with the target in it. So is one that leads to
  something that is neither a regular file nor a directory.
* One that leads to a file stands for this file, whatever its name.
* For a directory there are two lists, both with the extension of source files: of the
  regular files right inside of it, and of what is at any depth and no directory to the
  one who asks (`Listing`). The first one is part of the second one. They are what all
  targets that lead to the directory stand for, and an empty one is an error with the
  target in it.
* For a readable directory the lists are those of the regular files and of all that is
  no directory. The second one has regular files only, exactly if there is nothing in
  the tree that has the name of a source file and is neither (`ReadableListing`).
* A path that leads somewhere is a target that leads there, without and with the
  ending that asks for files at any depth. Only a path that has this ending itself
  must have it twice.
* Files are listed in the same way whatever the order in which directories have their
  entries. -/
theorem expandTarget_lists (d : Disk) (hwf : d.root.WellFormed) :
    (∀ target, d.resolveTarget? (splitTarget target).1 = none →
      d.expandTarget target = .error (.invalidTarget target)) ∧
    (∀ target recursive p content, d.Leads target recursive p →
      d.locate? p = some (.file content) → d.expandTarget target = .ok [p]) ∧
    (∀ target recursive p outcome, d.Leads target recursive p →
      d.locate? p = some (.special outcome) →
        d.expandTarget target = .error (.invalidTarget target)) ∧
    (∀ p entries, d.locate? p = some (.directory entries) →
      ∃ flat all, Listing d p entries flat all ∧ flat.Sublist all ∧
        (∀ target, (d.Leads target false p → d.expandTarget target = listed target flat) ∧
          (d.Leads target true p → d.expandTarget target = listed target all)) ∧
        ((Entry.directory entries).Readable p → ReadableListing d p entries flat all)) ∧
    (∀ dir, d.existsAt ⟨dir⟩ = true → d.Leads (dir ++ "/...") true ⟨dir⟩ ∧
      ((∀ base, dir ≠ base ++ "/...") → d.Leads dir false ⟨dir⟩)) ∧
    ∀ d' target, d.Reordered d' → d'.expandTarget target = d.expandTarget target := by
  refine ⟨fun target => expandTarget_of_unresolved, fun target recursive p content h hp => ?_,
    fun target recursive p outcome h hp => ?_, fun p entries hp => ?_,
    fun dir => leads_of_existsAt, fun d' target h => ?_⟩
  -- A file stands for itself, whatever its name is.
  · have hone : d.sourcesAt (splitTarget target).2 p = [p] := by simp only [sourcesAt, hp]
    rw [expandTarget_of_resolved h.resolved, hone, List.mergeSort_singleton]
    rfl
  -- Anything else that is no directory has no sources.
  · have hnone : d.sourcesAt (splitTarget target).2 p = [] := by simp only [sourcesAt, hp]
    rw [expandTarget_of_resolved h.resolved, hnone, List.mergeSort_nil]
    rfl
  -- A directory has two lists, and the ending of the target says which one is asked for.
  · have hbelow := wellFormed_of_locate? hwf hp
    have hdirectory : d.isDirectory p = true := isDirectory_eq_of_locate? hp
    have hlisting := listing_sourcesAt hp hbelow
    refine ⟨_, _, hlisting, hlisting.sublist hbelow hdirectory,
      fun target => ⟨fun h => ?_, fun h => ?_⟩, hlisting.exact hp hbelow⟩
    · rw [expandTarget_of_resolved h.resolved, h.ending]
    · rw [expandTarget_of_resolved h.resolved, h.ending]
  -- Both trees resolve the target to one place or to none.
  · have hresolve := h.resolveTarget?_eq hwf (splitTarget target).1
    cases hp : d.resolveTarget? (splitTarget target).1 with
    | none =>
      rw [expandTarget_of_unresolved hp, expandTarget_of_unresolved (hresolve ▸ hp)]
    | some p =>
      rw [expandTarget_of_resolved hp, expandTarget_of_resolved (hresolve ▸ hp),
        h.mergeSort_sourcesAt hwf p]

/-- Entries of which one is a directory with the name of a source file. -/
def mixed : List (String × Entry) :=
  [("b.esc", .file .empty), ("a.esc", .directory [("x.esc", .file .empty)]),
    ("notes.txt", .file .empty), ("pipe", .special (.error .noDevice))]

/-- A disk with a directory that has its entries in some order. -/
def ofSources (entries : List (String × Entry)) : Disk :=
  ⟨.directory [("src", .directory entries)], []⟩

/-- The directory of the examples is found by its name. -/
theorem locate?_src (entries : List (String × Entry)) :
    (ofSources entries).locate? ⟨"src"⟩ = some (.directory entries) := rfl

/-- A disk can hold the directory of the examples if the entries can stand in one. -/
theorem wellFormed_ofSources (h : (Entry.directory entries).WellFormed) :
    (ofSources entries).root.WellFormed :=
  .directory (by
    intro x hx
    obtain rfl := List.mem_singleton.mp hx
    exact (by decide +kernel : EntryName "src")) (List.nodup_singleton _)
    (List.forall_mem_singleton.mpr h)

/-- The names of the example are proper ones, and distinct. -/
theorem wellFormed_mixed : (Entry.directory mixed).WellFormed := by
  have hfile : (Entry.file .empty).WellFormed := .file _
  have hbelow : (Entry.directory [("x.esc", .file .empty)]).WellFormed :=
    .directory (by decide +kernel) (by decide) (List.forall_mem_singleton.mpr hfile)
  refine .directory (by decide +kernel) (by decide) ?_
  simp only [mixed, List.forall_mem_cons, List.not_mem_nil, false_imp_iff, implies_true, and_true]
  exact ⟨hfile, hbelow, hfile, .special _⟩

/-- The paths of the example are short. -/
theorem readable_mixed : (Entry.directory mixed).Readable ⟨"src"⟩ := by
  refine .directory (by decide +kernel) ?_
  simp only [mixed, List.forall_mem_cons, List.not_mem_nil, false_imp_iff, implies_true, and_true]
  exact ⟨.file (by decide +kernel),
    .directory (by decide +kernel) (List.forall_mem_singleton.mpr (.file (by decide +kernel))),
    .file (by decide +kernel), .special (by decide +kernel)⟩

/-- The example has the same entries from back to front. -/
theorem reordered_mixed : (ofSources mixed).Reordered (ofSources mixed.reverse) := by
  refine ⟨.directory (.refl _) ?_, rfl⟩
  intro x hx y hy _
  obtain rfl := List.mem_singleton.mp hx
  obtain rfl := List.mem_singleton.mp hy
  exact .of_perm wellFormed_mixed (List.reverse_perm mixed).symm

/-- The directory is entered and not listed, in both orders of the entries. -/
theorem expandTarget_lists_mixed :
    (ofSources mixed).root.WellFormed ∧ (Entry.directory mixed).Readable ⟨"src"⟩ ∧
      (ofSources mixed).Reordered (ofSources mixed.reverse) ∧
      (ofSources mixed).expandTarget "lib/..." = .error (.invalidTarget "lib/...") ∧
      (ofSources mixed).expandTarget "src/notes.txt" = .ok [⟨"src/notes.txt"⟩] ∧
      (ofSources mixed).expandTarget "src/pipe" = .error (.invalidTarget "src/pipe") ∧
      ∃ all, (ofSources mixed).expandTarget "src/..." = .ok all ∧
        (ofSources mixed.reverse).expandTarget "src/..." = .ok all ∧
        all.Pairwise Path.Before ∧ ⟨"src/a.esc/x.esc"⟩ ∈ all ∧ ⟨"src/a.esc"⟩ ∉ all := by
  have hwf : (ofSources mixed).root.WellFormed := wellFormed_ofSources wellFormed_mixed
  obtain ⟨hunresolved, hfile, hspecial, hdirectory, hleads, horder⟩ :=
    expandTarget_lists (ofSources mixed) hwf
  obtain ⟨flat, all, hlisting, -, hlisted, hexact⟩ :=
    hdirectory ⟨"src"⟩ mixed (locate?_src mixed)
  have hsrc : (ofSources mixed).Leads "src/..." true ⟨"src"⟩ := (hleads "src" rfl).1
  have hmem : ⟨"src/a.esc/x.esc"⟩ ∈ all :=
    ((hexact readable_mixed).mem_all _).mpr
      ⟨["a.esc"], "x.esc", .file .empty, rfl, rfl, ⟨"x", by decide, by decide⟩, by decide +kernel⟩
  have hall : (ofSources mixed).expandTarget "src/..." = .ok all := by
    rw [(hlisted "src/...").2 hsrc, listed, if_neg (List.ne_nil_of_mem hmem)]
  refine ⟨hwf, readable_mixed, reordered_mixed, hunresolved "lib/..." (by decide +kernel),
    hfile "src/notes.txt" false ⟨"src/notes.txt"⟩ .empty ⟨by decide +kernel, by decide +kernel⟩ rfl,
    hspecial "src/pipe" false ⟨"src/pipe"⟩ (.error .noDevice)
      ⟨by decide +kernel, by decide +kernel⟩ rfl,
    all, hall, (horder _ "src/..." reordered_mixed).trans hall, hlisting.all_ordered, hmem,
    fun hmem => ?_⟩
  obtain ⟨names, name, -, -, -, -, hnone⟩ := (hlisting.mem_all _).mp hmem
  revert hnone
  decide +kernel

/-- What is right inside of a directory and no directory to the one who asks is on the
list at any depth. -/
theorem exists_expandTarget_of_entry {e : Entry} {target name : String}
    (hwf : d.root.WellFormed) (hlead : d.Leads target true p)
    (hp : d.locate? p = some (.directory entries)) (hx : (name, e) ∈ entries)
    (hname : Path.IsSourceName name) (hplace : d.isDirectory (p.join ⟨name⟩) = false) :
    ∃ all, d.expandTarget target = .ok all ∧ p.join ⟨name⟩ ∈ all := by
  have hbelow := wellFormed_of_locate? hwf hp
  have hfound := (Entry.descend?_singleton hbelow.distinct).mpr hx
  have hdirectory : d.isDirectory p = true := isDirectory_eq_of_locate? hp
  have hmem := ((listing_sourcesAt hp hbelow).mem_all _).mpr
    ⟨[], name, hfound ▸ rfl, hname, rfl, hdirectory, hplace⟩
  refine ⟨_, ?_, hmem⟩
  rw [expandTarget_of_resolved hlead.resolved, hlead.ending, listed,
    if_neg (List.ne_nil_of_mem hmem)]

/-- Entries of which one is a directory with a longer name than the file. -/
def besides : List (String × Entry) :=
  [("a.esc", .file .empty), ("directory.esc", .directory [])]

/-- The names of the second example are proper ones, and distinct. -/
theorem wellFormed_besides : (Entry.directory besides).WellFormed := by
  refine .directory (by decide +kernel) (by decide) ?_
  simp only [besides, List.forall_mem_cons, List.not_mem_nil, false_imp_iff, implies_true, and_true]
  exact ⟨.file _, .directory (List.forall_mem_nil _) List.nodup_nil (List.forall_mem_nil _)⟩

/-- A directory can have the name of a source file. -/
theorem isSourceName_directory : Path.IsSourceName "directory.esc" :=
  ⟨"directory", by decide, by decide⟩

/-- With enough slashes the path of the directory is too long, and that of its parent is
not. -/
theorem exists_expandTarget_besides {n : Nat} (hshort : n + 4 ≤ maxPathLength)
    (hlong : maxPathLength < n + 17) :
    ∃ all, (ofSources besides).expandTarget ((Path.slashed ⟨"src"⟩ (n + 1)).text ++ "/...")
        = .ok all ∧
      ⟨(Path.slashed ⟨"src"⟩ (n + 1)).text ++ "directory.esc"⟩ ∈ all := by
  have hsize : "src".utf8ByteSize = 3 := by decide +kernel
  have hplace : (ofSources besides).locate? (Path.slashed ⟨"src"⟩ (n + 1))
      = some (.directory besides) := locate?_slashed (locate?_src besides) (by
    rw [hsize]
    omega)
  have hjoin : (Path.slashed ⟨"src"⟩ (n + 1)).join ⟨"directory.esc"⟩
      = ⟨(Path.slashed ⟨"src"⟩ (n + 1)).text ++ "directory.esc"⟩ := Path.join_slashed (by decide)
  have hexists : (ofSources besides).existsAt ⟨(Path.slashed ⟨"src"⟩ (n + 1)).text⟩ = true := by
    show ((ofSources besides).locate? (Path.slashed ⟨"src"⟩ (n + 1))).isSome = true
    rw [hplace]
    rfl
  rw [← hjoin]
  -- The directory is found by this path, but with its own name behind it the path has no room.
  refine exists_expandTarget_of_entry (wellFormed_ofSources wellFormed_besides)
    (leads_of_existsAt hexists).1 hplace (.tail _ (.head _)) isSourceName_directory
    (isDirectory_of_long ?_)
  have hname : "directory.esc".utf8ByteSize = 13 := by decide +kernel
  rw [hjoin, String.utf8ByteSize_append, Path.slashed, String.utf8ByteSize_append,
    utf8ByteSize_slashes, hsize, hname]
  omega

/-- An entry that is neither a regular file nor a directory. -/
def besidesPipe : List (String × Entry) := [("x.esc", .special (.error .noDevice))]

/-- The name of the pipe is a proper one. -/
theorem wellFormed_besidesPipe : (Entry.directory besidesPipe).WellFormed :=
  .directory (by decide +kernel) (List.nodup_singleton _)
    (List.forall_mem_singleton.mpr (.special _))

/-- **Not only regular files are listed at any depth.** A directory is listed if its path
is too long, for which it takes no more than slashes behind the target. And a pipe is
listed that the target without the ending leaves out. -/
theorem expandTarget_ne_regular :
    (∃ all, (ofSources besides).expandTarget ((Path.slashed ⟨"src"⟩ 4083).text ++ "/...")
        = .ok all ∧
      ⟨(Path.slashed ⟨"src"⟩ 4083).text ++ "directory.esc"⟩ ∈ all) ∧
    (ofSources besidesPipe).expandTarget "src" = .error (.invalidTarget "src") ∧
    ∃ all, (ofSources besidesPipe).expandTarget "src/..." = .ok all ∧ ⟨"src/x.esc"⟩ ∈ all := by
  refine ⟨?_, ?_, ?_⟩
  · exact exists_expandTarget_besides (n := 4082) (by decide) (by decide)
  · have hnone : (ofSources besidesPipe).sourcesAt false ⟨"src"⟩ = [] := by decide +kernel
    rw [expandTarget_of_resolved (p := ⟨"src"⟩) (by decide +kernel)]
    rw [show (splitTarget "src").2 = false by decide +kernel, hnone, List.mergeSort_nil]
    rfl
  · exact exists_expandTarget_of_entry (wellFormed_ofSources wellFormed_besidesPipe)
      (leads_of_existsAt rfl).1 (locate?_src besidesPipe) (.head _) ⟨"x", by decide, by decide⟩ rfl

end Disk

end ExprFrontEnd
