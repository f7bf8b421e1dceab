import ExprFrontEnd.Command
import ExprFrontEnd.Proofs.EntryPaths

/-!
# `ExprFrontEnd.Proofs.NearestOptions`: the options of a target

Options are taken from the file of options that is found first on the way up from a
path. The way up is one along the text of the path (`Disk.findConfig?`). Its
directories are the places on the way along the steps of the path, the last one
first, so it is `Disk.nearestAlong?` that finds the file
(`findConfig?_bind_content?`).

For a path from the root these places are the place of the path and all those above
it, and what is found is the nearest file of options (`optionsAt_absolute`). A
relative path is followed from the working directory, and no place above that is on
the way, unless there is a step up (`optionsAt_relative`). So a target need not have
the options of the place that it is resolved to:

* `optionsAt_target`: **what the options of a relative target are**, what those of
  its place are, and when they are the same.
* `optionsAt_ne_of_configAbove`: they are not if the only file of options is above
  the working directory.

How the text of a file of options is read is left open: all this holds for every
reader (`Options.Reader`).

A path of nearly the greatest length is too long with the name of the file of options
behind it, and a file there is not found. Such paths are left out (`Path.HasRoom`).
The working directory is taken to have names that directories can have.

Where the file of options is faulty, the reason names it, by the text of the path on
which it was found. That part of the reason depends on the path in any case and is
left out of the comparison (`Failure.withoutPath`).
-/

set_option autoImplicit false

namespace ExprFrontEnd

/-- The name of files of options is one that an entry has. -/
theorem entryName_configName : EntryName configName := by decide +kernel

namespace Path

/-- A path with room for the name of a file of options behind it. -/
structure HasRoom (p : Path) : Prop where
  unterminated : '\x00' ∉ p.text.toList
  short : p.text.utf8ByteSize + ("/" ++ configName).utf8ByteSize ≤ Disk.maxPathLength

namespace HasRoom

variable {p q : Path}

/-- The paths whose text is the start of it have room as well. -/
theorem of_isPrefix (hp : p.HasRoom) (h : q.text.toList <+: p.text.toList) : q.HasRoom := by
  obtain ⟨rest, hrest⟩ := h
  have htext : p.text = q.text ++ String.ofList rest := by
    rw [← String.toList_inj, String.toList_append, String.toList_ofList, hrest]
  refine ⟨fun hmem => hp.unterminated ?_, ?_⟩
  · rw [← hrest]
    exact List.mem_append_left rest hmem
  · have hshort := hp.short
    rw [htext, String.utf8ByteSize_append] at hshort
    omega

/-- With room for it, the path of the file of options is not too long. -/
theorem short_config (h : p.HasRoom) : p.config.text.utf8ByteSize ≤ Disk.maxPathLength := by
  refine Nat.le_trans ?_ h.short
  rw [config, join, if_neg (by decide +kernel), String.utf8ByteSize_append]
  split <;> simp only [String.utf8ByteSize_append] <;> omega

/-- The path of the file of options is not refused. -/
theorem followable_config (h : p.HasRoom) : p.config.Followable := by
  have hname : '\x00' ∉ '/' :: configName.toList := by decide +kernel
  refine ⟨fun hmem => ?_, text_join_ne_empty entryName_configName.toIsName, h.short_config⟩
  rcases mem_join entryName_configName.slashless hmem with hmem | hmem
  · exact h.unterminated hmem
  · exact hname hmem

end HasRoom

end Path

/-! ### Files of options -/

/-- The bytes of a regular file. -/
def Entry.content? : Entry → Option ByteArray
  | file content => some content
  | directory _ | special _ => none

namespace Disk

/-- The bytes of the file that a path leads to. -/
def content? (d : Disk) (p : Path) : Option ByteArray := (d.locate? p).bind Entry.content?

/-- The bytes of the file of options in a directory. -/
def configAt? (d : Disk) (names : List String) : Option ByteArray :=
  (d.root.descend? (names ++ [configName])).bind Entry.content?

/-- The bytes of the file of options that is found last on the way along steps. -/
def nearestAlong? (d : Disk) (start : List String) (steps : List (List Char)) :
    Option ByteArray :=
  steps.inits.reverse.findSome? fun front => (d.follow? start front).bind d.configAt?

/-- The bytes of the file of options that is nearest to a place, in its directory or
above, but not above the place at the top. -/
def nearest? (d : Disk) (top below : List String) : Option ByteArray :=
  below.inits.reverse.findSome? fun names => d.configAt? (top ++ names)

variable {d : Disk}

/-- A path leads to a regular file exactly if there is something to read from one. -/
theorem isFile_eq (p : Path) : d.isFile p = (d.content? p).isSome := by
  rw [isFile, content?]
  rcases d.locate? p with - | ⟨content | entries | outcome⟩ <;> rfl

/-- The file of options in a directory is found by the steps to the directory. -/
theorem content?_config {p : Path} (hp : p.HasRoom) :
    d.content? p.config = (d.follow? (d.startOf p) p.steps).bind d.configAt? := by
  have hname := entryName_configName.toIsName
  have hnames := toOption_names_join (d := d) hname hp.followable_config
  rw [content?, Path.config, locate?_eq, hnames, Option.bind_assoc, Option.bind_assoc]
  refine Option.bind_congr fun place _ => ?_
  rw [configAt?, ← follow?_names place (List.forall_mem_singleton.mpr hname), Option.bind_assoc]
  rfl

/-! ### The way up -/

/-- The last step is looked at first. -/
theorem nearestAlong?_concat (start : List String) (steps : List (List Char)) (s : List Char) :
    d.nearestAlong? start (steps ++ [s])
      = ((d.follow? start (steps ++ [s])).bind d.configAt?).or (d.nearestAlong? start steps) :=
  findSome?_starts_concat _ steps s

/-- The bytes of the first file of options in a row of directories. -/
theorem find?_bind_content? (paths : List Path) :
    ((paths.map Path.config).find? d.isFile).bind d.content?
      = paths.findSome? fun p => d.content? p.config := by
  induction paths with
  | nil => rfl
  | cons p paths ih =>
    rw [List.map_cons, List.find?_cons, List.findSome?_cons, isFile_eq]
    cases hp : d.content? p.config with
    | none => exact ih
    | some content => exact hp

/-- Going up along the text of a path comes by the places along its steps, from the last one to
the first. -/
theorem findSome?_ancestors {p : Path} (hp : p.HasRoom) :
    (p.ancestors.findSome? fun q => d.content? q.config)
      = d.nearestAlong? (d.startOf p) p.steps := by
  refine Path.findSome?_ancestors fun q habs htext => ?_
  rw [content?_config (hp.of_isPrefix htext), startOf, habs]
  rfl

/-- **The file of options that applies to a path** is the last one on the way along
its steps. -/
theorem findConfig?_bind_content? {p : Path} (hp : p.HasRoom) :
    (d.findConfig? p).bind d.content? = d.nearestAlong? (d.startOf p) p.steps := by
  rw [findConfig?]
  by_cases hfile : d.isFile p = true
  · rw [if_pos hfile]
    have hsteps := steps_ne_nil_of_isFile hfile
    obtain ⟨q, hparent, hanchor, hdrop, htext⟩ := Path.exists_parent hsteps
    have hstart : d.startOf q = d.startOf p := by
      have habs : q.isAbsolute = p.isAbsolute := by
        rw [Bool.eq_iff_iff, Path.isAbsolute_iff, Path.isAbsolute_iff, hanchor]
      rw [startOf, startOf, habs]
    -- The way up starts above a file, and inside of the file there are no options.
    have hnone : (d.follow? (d.startOf p) p.steps).bind d.configAt? = none := by
      obtain ⟨place, content, hnames, hplace⟩ := exists_place_of_isFile hfile
      rw [follow?_of_names hnames, Option.bind_some, configAt?, Entry.descend?_append, hplace]
      rfl
    have hlast := List.dropLast_append_getLast hsteps
    rw [hparent, Option.bind_some, find?_bind_content?, findSome?_ancestors (hp.of_isPrefix htext),
      hstart, hdrop]
    rw [← hlast, nearestAlong?_concat, hlast, hnone, Option.none_or]
  · rw [if_neg hfile]
    exact (find?_bind_content? p.ancestors).trans (findSome?_ancestors hp)

end Disk

/-! ### Options -/

/-- The reason without the path of the file of options. -/
def Failure.withoutPath : Failure → Failure
  | .invalidOptions _ => .invalidOptions ⟨""⟩
  | failure => failure

/-- The options that a file sets, by its bytes and a reader of texts, or the standard
ones. -/
def Options.ofContent (read : Options.Reader) : Option ByteArray → Except Failure Reduction
  | none => .ok .standard
  | some content =>
    match String.fromUTF8? content with
    | none => .error (.unreadable .invalidUtf8)
    | some text =>
      match read text with
      | none => .error (.invalidOptions ⟨""⟩)
      | some mode => .ok mode

namespace Disk

/-- The options that apply to a path if the command line does not say anything,
or what is wrong with them. -/
def optionsAt (d : Disk) (read : Options.Reader) (p : Path) : Except Failure Reduction :=
  ((Job.modeFor read d p none).run.run []).1.mapError Failure.withoutPath

variable {d : Disk} {read : Options.Reader}

/-- What is read of a file. -/
theorem readText_eq {p : Path} {content : ByteArray} (h : d.content? p = some content) :
    d.readText p = match String.fromUTF8? content with
      | some text => .ok text
      | none => .error .invalidUtf8 := by
  obtain ⟨e, he, hcontent⟩ := Option.bind_eq_some_iff.mp h
  have hlocate : d.locate p = .ok (.file content) := by
    rw [locate?] at he
    cases hl : d.locate p with
    | error reason => rw [hl] at he; cases he
    | ok found =>
      rw [hl] at he
      obtain rfl := Option.some.inj he
      cases found with
      | file bytes => rw [Option.some.inj hcontent]
      | directory entries => cases hcontent
      | special outcome => cases hcontent
  rw [readText, hlocate]
  show (match String.fromUTF8? content with
    | some text => pure text
    | none => throw ReadError.invalidUtf8) = _
  cases String.fromUTF8? content <;> rfl

/-- What is found is a file. -/
theorem isFile_of_findConfig? {p config : Path} (h : d.findConfig? p = some config) :
    d.isFile config = true := by
  obtain ⟨directory, -, hfound⟩ := Option.bind_eq_some_iff.mp h
  exact List.find?_some hfound

/-- Options are those of the file that is found. -/
theorem optionsAt_eq (p : Path) :
    d.optionsAt read p = Options.ofContent read ((d.findConfig? p).bind d.content?) := by
  cases hconfig : d.findConfig? p with
  | none =>
    simp only [optionsAt, Job.modeFor, Job.loadOptions, hconfig]
    rfl
  | some config =>
    -- What was found is a file, so it can be read, and only its content can be wrong.
    have hfile := isFile_of_findConfig? hconfig
    rw [isFile_eq] at hfile
    obtain ⟨content, hcontent⟩ := Option.isSome_iff_exists.mp hfile
    rw [Option.bind_some, hcontent]
    simp only [optionsAt, Job.modeFor, Job.loadOptions, hconfig, Job.readOptions, Job.readText,
      readText_eq hcontent, Options.ofContent]
    cases htext : String.fromUTF8? content with
    | none => rfl
    | some text =>
      simp only [pure_bind]
      cases read text <;> rfl

/-- **The options of a path are those of the last file of options on the way along
its steps.** A relative path is followed from the working directory, so no file
above that is on the way but for steps up. -/
theorem optionsAt_of_hasRoom {p : Path} (hp : p.HasRoom) :
    d.optionsAt read p = Options.ofContent read (d.nearestAlong? (d.startOf p) p.steps) := by
  rw [optionsAt_eq, findConfig?_bind_content? hp]

/-! ### Targets and their places -/

/-- The path of a place from the root. -/
def absolute (names : List String) : Path := ⟨"/" ++ "/".intercalate names⟩

/-- A target is resolved to a place: it leads there itself, or it does so from a
directory above that has options. -/
def Resolves (d : Disk) (target : String) (place : List String) : Prop :=
  ∃ p, d.resolveTarget? (splitTarget target).1 = some p ∧ d.names p = .ok place

/-- An absolute path is a slash and names with slashes between them. -/
theorem toList_absolute (names : List String) :
    (absolute names).text.toList = '/' :: ['/'].intercalate (names.map String.toList) := by
  rw [absolute, String.toList_append, String.toList_intercalate]
  rfl

/-- The steps of an absolute path are its names. -/
theorem steps_absolute {names : List String} (h : ∀ name ∈ names, IsName name) :
    (absolute names).steps = names.map String.toList := by
  rw [Path.steps, toList_absolute, Path.segments_slash]
  have hcounts : (names.map String.toList).filter (fun s => !Path.isIdle s)
      = names.map String.toList := by
    rw [List.filter_eq_self]
    intro s hs
    obtain ⟨name, hname, rfl⟩ := List.mem_map.mp hs
    rw [(h name hname).counts]
    rfl
  -- The root alone has no segments to put together.
  by_cases hnil : names.map String.toList = []
  · rw [hnil]
    rfl
  · rw [Path.segments_intercalate ?_ hnil, List.filter_cons_of_neg (by decide), hcounts]
    intro s hs
    obtain ⟨name, hname, rfl⟩ := List.mem_map.mp hs
    exact (h name hname).slashless

/-- At the top there is only the file of options there. -/
theorem nearest?_nil (top : List String) : d.nearest? top [] = d.configAt? top := by
  rw [nearest?, findSome?_starts_nil, List.append_nil]

/-- The nearest file of options is in the directory itself, or else nearest above. -/
theorem nearest?_concat (top below : List String) (name : String) :
    d.nearest? top (below ++ [name])
      = (d.configAt? (top ++ (below ++ [name]))).or (d.nearest? top below) :=
  findSome?_starts_concat _ below name

/-- Names followed as steps lead to the same file of options. -/
theorem follow?_names_bind (start : List String) {names : List String}
    (h : ∀ name ∈ names, IsName name) :
    (d.follow? start (names.map String.toList)).bind d.configAt?
      = d.configAt? (start ++ names) := by
  have hconfig : ∀ l, d.configAt? l
      = (d.root.descend? l).bind fun e => (e.descend? [configName]).bind Entry.content? := by
    intro l
    rw [configAt?, Entry.descend?_append, Option.bind_assoc]
  rw [hconfig, ← follow?_names start h, Option.bind_assoc]
  exact Option.bind_congr fun l _ => hconfig l

/-- The last file of options on the way along names is the nearest. -/
theorem nearestAlong?_names (top : List String) {below : List String}
    (h : ∀ name ∈ below, IsName name) :
    d.nearestAlong? top (below.map String.toList) = d.nearest? top below := by
  induction below using List.reverseRecOn with
  | nil =>
    have hstart := follow?_names_bind (d := d) top h
    rw [List.append_nil] at hstart
    rw [nearest?_nil, List.map_nil, nearestAlong?, findSome?_starts_nil]
    exact hstart
  | append_singleton below name ih =>
    rw [nearest?_concat, ← follow?_names_bind top h, List.map_append, List.map_singleton,
      nearestAlong?_concat, ih fun n hn => h n (List.mem_append_left [name] hn)]

/-- What is nearest from further up is what is nearest from there, or else what is
nearest in between. -/
theorem nearest?_append (top mid below : List String) :
    d.nearest? top (mid ++ below) = (d.nearest? (top ++ mid) below).or (d.nearest? top mid) := by
  induction below using List.reverseRecOn with
  | nil =>
    rw [List.append_nil, nearest?_nil]
    rcases List.eq_nil_or_concat' mid with rfl | ⟨mid, name, rfl⟩
    · rw [nearest?_nil, List.append_nil, Option.or_self]
    · rw [nearest?_concat, ← Option.or_assoc, Option.or_self]
  | append_singleton below name ih =>
    rw [← List.append_assoc, nearest?_concat, ih, nearest?_concat, Option.or_assoc]
    simp only [List.append_assoc]

/-- **The options of a place**, by its path from the root, are those of the nearest
file of options. -/
theorem optionsAt_absolute {place : List String} (hplace : ∀ name ∈ place, IsName name)
    (hroom : (absolute place).HasRoom) :
    d.optionsAt read (absolute place) = Options.ofContent read (d.nearest? [] place) := by
  have habs : (absolute place).isAbsolute = true := by
    rw [Path.isAbsolute, toList_absolute]
    rfl
  rw [optionsAt_of_hasRoom hroom, startOf, if_pos habs, steps_absolute hplace,
    nearestAlong?_names [] hplace]

/-- A relative path without a step up leads to a place below the working directory.
Only the files of options from there on count for it. -/
theorem optionsAt_relative {p : Path} {place : List String}
    (hwd : ∀ name ∈ d.workingDirectory, IsName name) (hrel : p.isAbsolute = false)
    (hroom : p.HasRoom) (hp : d.names p = .ok place) (hup : ['.', '.'] ∉ p.steps) :
    ∃ below, place = d.workingDirectory ++ below ∧
      d.optionsAt read p = Options.ofContent read (d.nearest? d.workingDirectory below) := by
  have hstart : d.startOf p = d.workingDirectory := by rw [startOf, hrel]; rfl
  have hfollow := follow?_of_names hp
  rw [hstart] at hfollow
  have hplace := eq_append_of_follow? (fun s hs => ?_) hfollow
  -- The steps of the path are names below the working directory, and the way up goes through
  -- them.
  · refine ⟨p.steps.map String.ofList, hplace, ?_⟩
    have hnames : ∀ name ∈ p.steps.map String.ofList, IsName name := fun name hname =>
      isName_of_names hwd hp name (hplace ▸ List.mem_append_right d.workingDirectory hname)
    have hsteps : (p.steps.map String.ofList).map String.toList = p.steps := by
      simp [Function.comp_def]
    rw [optionsAt_of_hasRoom hroom, hstart, ← nearestAlong?_names d.workingDirectory hnames, hsteps]
  · obtain ⟨-, hcounts⟩ := List.mem_filter.mp hs
    refine ⟨by simpa using hcounts, ?_⟩
    rintro rfl
    exact hup hs

/-- **The options of a relative target.** They are those of the last file of options
on the way from the working directory along the steps of the target, whatever the
target is resolved to; the options of the place that it is resolved to are those of
the nearest file of options. -/
theorem optionsAt_target {target : String} {place : List String}
    (hwd : ∀ name ∈ d.workingDirectory, IsName name)
    (hrel : (Path.ofTarget target).isAbsolute = false) (hroom : (Path.ofTarget target).HasRoom)
    (hplace : d.Resolves target place) (hplaceRoom : (absolute place).HasRoom) :
    let p := Path.ofTarget target
    d.optionsAt read p = Options.ofContent read (d.nearestAlong? d.workingDirectory p.steps) ∧
      d.optionsAt read (absolute place) = Options.ofContent read (d.nearest? [] place) ∧
      (d.names p = .ok place → ['.', '.'] ∉ p.steps →
        ∃ below, place = d.workingDirectory ++ below ∧
          d.optionsAt read p = Options.ofContent read (d.nearest? d.workingDirectory below) ∧
          (d.optionsAt read p = d.optionsAt read (absolute place) ↔
            (d.nearest? d.workingDirectory below).isSome ∨
              d.optionsAt read (absolute place) = .ok .standard)) := by
  intro p
  obtain ⟨q, -, hq⟩ := hplace
  have habsolute := @optionsAt_absolute d read place (isName_of_names hwd hq) hplaceRoom
  refine ⟨?_, habsolute, fun hp hup => ?_⟩
  · rw [optionsAt_of_hasRoom hroom, startOf, hrel]
    rfl
  · obtain ⟨below, hbelow, hoptions⟩ := optionsAt_relative hwd hrel hroom hp hup
    refine ⟨below, hbelow, hoptions, ?_⟩
    rw [hoptions]
    cases hnearest : d.nearest? d.workingDirectory below with
    | none =>
      -- Nothing is found on the way up, so the options are the standard ones.
      rw [eq_comm]
      simp [Options.ofContent]
    | some content =>
      -- What is found below the working directory is also found first on the way up from the
      -- place.
      have hwhole : d.nearest? [] place = some content := by
        rw [hbelow, nearest?_append, List.nil_append, hnearest]
        rfl
      rw [habsolute, hwhole]
      simp

/-- A text of options that sets the mode `cascading`. -/
def cascadingText : String := "[parser]\nreduction = \"cascading\"\n"

/-- A working directory with a file of options above it. -/
def configAbove : Disk where
  root := .directory [(configName, .file cascadingText.toUTF8),
    ("sub", .directory [("a.esc", .file "return a + b * c + d".toUTF8)])]
  workingDirectory := ["sub"]

/-- The target is resolved to the file in the working directory. -/
theorem resolves_configAbove : configAbove.Resolves "a.esc" ["sub", "a.esc"] :=
  ⟨⟨"a.esc"⟩, by decide +kernel, by decide +kernel⟩

/-- What applies to the target and to its place, by the reader of TOML. -/
theorem optionsAt_target_configAbove :
    configAbove.Resolves "a.esc" ["sub", "a.esc"] ∧
      configAbove.optionsAt Options.mode? (.ofTarget "a.esc")
        = Options.ofContent Options.mode?
          (configAbove.nearestAlong? ["sub"] (Path.ofTarget "a.esc").steps) ∧
      configAbove.optionsAt Options.mode? (absolute ["sub", "a.esc"])
        = Options.ofContent Options.mode? (configAbove.nearest? [] ["sub", "a.esc"]) ∧
      ∃ below, ["sub", "a.esc"] = ["sub"] ++ below ∧
        configAbove.optionsAt Options.mode? (.ofTarget "a.esc")
          = Options.ofContent Options.mode? (configAbove.nearest? ["sub"] below) := by
  have hwd : ∀ name ∈ configAbove.workingDirectory, IsName name := by
    intro name hname
    obtain rfl : name = "sub" := List.mem_singleton.mp hname
    exact ⟨by decide +kernel, by decide +kernel, by decide +kernel, by decide +kernel⟩
  have hroom : (Path.ofTarget "a.esc").HasRoom := ⟨by decide +kernel, by decide +kernel⟩
  have hplaceRoom : (absolute ["sub", "a.esc"]).HasRoom := ⟨by decide +kernel, by decide +kernel⟩
  obtain ⟨hp, habsolute, hbelow⟩ :=
    @optionsAt_target configAbove Options.mode? "a.esc" ["sub", "a.esc"] hwd (by decide +kernel)
      hroom resolves_configAbove hplaceRoom
  obtain ⟨below, heq, hoptions, -⟩ := hbelow (by decide +kernel) (by decide +kernel)
  exact ⟨resolves_configAbove, hp, habsolute, below, heq, hoptions⟩

/-- **The options of a target do depend on how its path is written**, for every reader
that takes the text of options for what it says, as the reader of TOML does: the target
has the standard options, and its place has those of the file above. -/
theorem optionsAt_ne_of_configAbove :
    configAbove.Resolves "a.esc" ["sub", "a.esc"] ∧
      Options.mode? cascadingText = some .cascading ∧
      ∀ read : Options.Reader, read cascadingText = some .cascading →
        configAbove.optionsAt read (.ofTarget "a.esc") = .ok .standard ∧
          configAbove.optionsAt read (absolute ["sub", "a.esc"]) = .ok .cascading ∧
          configAbove.optionsAt read (.ofTarget "a.esc")
            ≠ configAbove.optionsAt read (absolute ["sub", "a.esc"]) := by
  refine ⟨resolves_configAbove, by decide +kernel, fun read hread => ?_⟩
  -- Only the file above is on one of the two ways, and its text is left to the reader.
  have hnone : (configAbove.findConfig? (.ofTarget "a.esc")).bind configAbove.content? = none := by
    decide +kernel
  have hsome : (configAbove.findConfig? (absolute ["sub", "a.esc"])).bind configAbove.content?
      = some cascadingText.toUTF8 := by
    decide +kernel
  have htext : String.fromUTF8? cascadingText.toUTF8 = some cascadingText := by decide +kernel
  have htarget : configAbove.optionsAt read (.ofTarget "a.esc") = .ok .standard := by
    rw [optionsAt_eq, hnone]
    rfl
  have hplace : configAbove.optionsAt read (absolute ["sub", "a.esc"]) = .ok .cascading := by
    rw [optionsAt_eq, hsome]
    simp only [Options.ofContent, htext, hread]
  refine ⟨htarget, hplace, ?_⟩
  rw [htarget, hplace]
  decide

end Disk

end ExprFrontEnd
