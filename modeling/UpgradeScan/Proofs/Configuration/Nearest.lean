/-
`Proofs/Configuration/Nearest.lean` -- the configuration file that a start folder gets.

The search asks the folder itself and then one folder above after the other. In each folder it looks
for three names in a fixed order, and a folder without any of them that has an entry called `.git`
ends the search with nothing. What it finds is said here without a search (`IsNearest`): a folder at
or above the start, the first of the three names under which that folder has a file, and nothing
that would have ended the search in any folder before it.

Going from one to the other takes one step. A folder that has a file ends the search, and so does a
repository. Past any other folder, an open one, the search is that of the parent
(`isNearest_iff_of_open`), and there are no more folders than the path has components, so the steps
that the search is given are enough (`nearest?_upward_eq_some_iff`).

The order of the two questions matters: the names are asked about before `.git`. So a file in the
root of a repository is found from below, and a `.git` hides only what is above it. It does not
matter what kind of entry `.git` is; a file called so ends the search as a folder does.

Which folders are at or above a start is a question about the text of its path, and is settled by
components (`Proofs/Path/Ancestor.lean`). Nothing on the disk is followed: a path with `..` in it is
climbed as it is written.
-/
import UpgradeScan.Configuration.File
import UpgradeScan.Proofs.Files.Entry
import UpgradeScan.Proofs.Path.Ancestor

set_option autoImplicit false

namespace UpgradeScan

/-! ## 1. Entries

The three names and `.git` are looked for by joining them to the path of a folder. What such a path
leads to is the entry of that name, also where the folder is given by the empty path. -/

namespace Disk

variable {d : Disk} {folder p : Path} {name : String} {n : Node}

/-- What a path of a folder leads to. An empty path is the current folder. -/
def folderAt (d : Disk) (p : Path) : Option Node :=
  if p.text = "" then d.root.at? d.current else (d.node p).toOption

/-- The folder has an entry of that name, and it is this one. -/
def Holds (d : Disk) (folder : Path) (name : String) (n : Node) : Prop :=
  ∃ es, d.folderAt folder = some (.folder es) ∧ (Node.folder es).child? name = some n

/-- A path leads to a file when a file is found there. -/
theorem isFile_iff : d.isFile p = true ↔ ∃ c, d.node p = .ok (.file c) := by
  rw [isFile]
  cases d.node p with
  | error e => exact ⟨nofun, nofun⟩
  | ok n => cases n <;> simp [Node.isFolder]

theorem has_iff : d.has p = true ↔ ∃ n, d.node p = .ok n := by
  rw [has]
  cases d.node p <;> simp

/-- A lone name is looked for in the current folder. -/
theorem node_name_eq_ok_iff (hname : Node.IsFileName name) :
    d.node ⟨name⟩ = .ok n ↔
      ∃ es, d.root.at? d.current = some (.folder es) ∧ (Node.folder es).child? name = some n := by
  -- A single name is a path of one segment, so the walk is one step from the current folder.
  have haccepted : refused? ⟨name⟩ = none :=
    refused?_eq_none_iff.mpr ⟨hname.no_nul, fun h => hname.isName.ne_nil (by
      rw [show name = "" from h]; rfl)⟩
  have hstart : d.start ⟨name⟩ = d.current :=
    if_neg fun h => hname.isName.no_slash (List.mem_of_head? (beq_iff_eq.mp h))
  have hwalk : ∀ next, d.walk d.current [name.toList] = .ok next ↔
      d.step d.current name.toList = .ok next := by
    intro next
    rw [walk]
    cases d.step d.current name.toList <;> exact Iff.rfl
  rw [node_eq_ok_iff, hstart, Text.fields_of_not_mem hname.isName.no_slash]
  simp only [haccepted, true_and, hwalk, step_name_eq_ok_iff hname]
  constructor
  · rintro ⟨_, ⟨rfl, es, m, hat, hm⟩, hn⟩
    rw [Node.at?_append, hat, Option.bind_some, Node.at?_cons, hm] at hn
    exact ⟨es, hat, hm.trans hn⟩
  · rintro ⟨es, hat, hn⟩
    refine ⟨_, ⟨rfl, es, n, hat, hn⟩, ?_⟩
    rw [Node.at?_append, hat, Option.bind_some, Node.at?_cons, hn]
    rfl

/-- What a name behind a folder leads to is the entry of that name. -/
theorem node_join_eq_ok_iff_holds (hname : Node.IsFileName name) :
    d.node (folder.join ⟨name⟩) = .ok n ↔ d.Holds folder name n := by
  by_cases hempty : folder.text = ""
  · have hjoin : folder.join ⟨name⟩ = ⟨name⟩ := by
      rw [Path.join, hempty]
      split
      · rfl
      · exact congrArg Path.mk String.empty_append
    rw [hjoin, node_name_eq_ok_iff hname, Holds, folderAt, if_pos hempty]
  · have hnode : ∀ es,
        d.folderAt folder = some (.folder es) ↔ d.node folder = .ok (.folder es) := by
      intro es
      rw [folderAt, if_neg hempty]
      cases d.node folder <;> simp [Except.toOption]
    simp only [node_join_eq_ok_iff hempty hname, Holds, hnode]

end Disk

namespace Configuration

/-! ## 2. One folder

What a folder says to the search: it has a file, or it is open, or it ends the search with nothing.
-/

/-- The folder has a file with this name of the three, and with none that comes before it. -/
def FirstFile (d : Disk) (folder : Path) (name : String) : Prop :=
  ∃ earlier later, ["typo3scan.toml", "typo3scan.yaml", "typo3scan.yml"] = earlier ++ name :: later ∧
    (∃ c, d.Holds folder name (.file c)) ∧ ∀ other ∈ earlier, ∀ c, ¬ d.Holds folder other (.file c)

/-- The folder has no file with any of the three names, and it is no repository. -/
structure IsOpen (d : Disk) (folder : Path) : Prop where
  noFile : ∀ name ∈ ["typo3scan.toml", "typo3scan.yaml", "typo3scan.yml"], ∀ c,
    ¬ d.Holds folder name (.file c)
  noMark : ∀ n, ¬ d.Holds folder ".git" n

variable {d : Disk} {start folder file : Path} {name : String}

/-- None of the three names has anything special in it. -/
theorem isFileName_of_mem (h : name ∈ fileNames) : Node.IsFileName name := by
  revert name
  decide +kernel

/-- A folder is asked for a file by the path of that name. -/
theorem isFile_join_iff (h : name ∈ fileNames) :
    d.isFile (folder.join ⟨name⟩) = true ↔ ∃ c, d.Holds folder name (.file c) := by
  simp only [Disk.isFile_iff, Disk.node_join_eq_ok_iff_holds (isFileName_of_mem h)]

theorem FirstFile.mem (h : FirstFile d folder name) : name ∈ fileNames := by
  obtain ⟨earlier, later, hnames, -⟩ := h
  rw [fileNames, hnames]
  exact List.mem_append_right _ List.mem_cons_self

theorem FirstFile.not_isOpen (h : FirstFile d folder name) : ¬ IsOpen d folder := by
  intro hopen
  obtain ⟨-, -, -, ⟨c, hc⟩, -⟩ := id h
  exact hopen.noFile name h.mem c hc

/-- What is found in a folder is the first of the three names under which it has a file. -/
theorem fileIn?_eq_some_iff : fileIn? d folder = some file ↔
    ∃ name, FirstFile d folder name ∧ file = folder.join ⟨name⟩ := by
  -- The search runs over the joined paths, the statement over the names; both sides are
  -- brought to the names first, where the earlier ones are the ones that were passed over.
  rw [fileIn?, List.find?_map, Option.map_eq_some_iff]
  refine exists_congr fun name => and_congr ?_ eq_comm
  rw [List.find?_eq_some_iff_append]
  constructor
  · rintro ⟨hname, earlier, later, hnames, hearlier⟩
    have hmem : ∀ other ∈ earlier ++ [name], other ∈ fileNames := by
      intro other hother
      rw [hnames, List.append_cons]
      exact List.mem_append_left _ hother
    refine ⟨earlier, later, hnames, (isFile_join_iff (hmem name (by simp))).mp hname, ?_⟩
    intro other hother c hc
    have hno := hearlier other hother
    rw [Function.comp_apply, (isFile_join_iff (hmem other (by simp [hother]))).mpr ⟨c, hc⟩] at hno
    cases hno
  · intro h
    have hname := h.mem
    obtain ⟨earlier, later, hnames, hfile, hearlier⟩ := h
    refine ⟨(isFile_join_iff hname).mpr hfile, earlier, later, hnames, fun other hother => ?_⟩
    have hmem : other ∈ fileNames := by
      rw [fileNames, hnames]
      exact List.mem_append_left _ hother
    rw [Function.comp_apply, Bool.not_eq_true', ← Bool.not_eq_true, isFile_join_iff hmem]
    rintro ⟨c, hc⟩
    exact hearlier other hother c hc

/-- A folder is a repository when it has any entry called `.git`. -/
theorem isRepository_iff : isRepository d folder = true ↔ ∃ n, d.Holds folder ".git" n := by
  simp only [isRepository, Disk.has_iff, repositoryMark,
    Disk.node_join_eq_ok_iff_holds (show Node.IsFileName ".git" by decide +kernel)]

/-- A folder is open when the search finds nothing there and goes on. -/
theorem isOpen_iff : IsOpen d folder ↔ fileIn? d folder = none ∧ isRepository d folder = false := by
  have hnone : fileIn? d folder = none ↔
      ∀ name ∈ fileNames, ∀ c, ¬ d.Holds folder name (.file c) := by
    rw [fileIn?, List.find?_map, Option.map_eq_none_iff, List.find?_eq_none]
    refine forall₂_congr fun name hname => ?_
    rw [Function.comp_apply, isFile_join_iff hname, not_exists]
  rw [hnone, ← Bool.not_eq_true, isRepository_iff, not_exists]
  exact ⟨fun h => ⟨h.noFile, h.noMark⟩, fun h => ⟨h.1, h.2⟩⟩

/-! ## 3. The nearest folder

How the nearest folder of a start is found from that of its parent. Both lemmas are about folders
and entries alone. -/

/-- The file of that name in this folder is what counts for the start: the folder is the start or
above it, and nothing in a folder before it ends the search. -/
structure IsNearest (d : Disk) (start folder : Path) (name : String) : Prop where
  upTo : start.UpTo folder
  file : FirstFile d folder name
  passed : ∀ other, start.UpTo other → other.Above folder → IsOpen d other

/-- From a folder with a file the search goes nowhere else. -/
theorem isNearest_iff_of_file {name' : String} (h : FirstFile d start name') :
    IsNearest d start folder name ↔ folder = start ∧ FirstFile d start name := by
  constructor
  · intro hnearest
    rcases Path.upTo_iff.mp hnearest.upTo with rfl | habove
    · exact ⟨rfl, hnearest.file⟩
    · exact absurd (hnearest.passed start .refl habove) h.not_isOpen
  · rintro ⟨rfl, hfile⟩
    refine ⟨.refl, hfile, fun other hother habove => ?_⟩
    exact absurd (Relation.TransGen.trans_right hother habove) (Path.not_above_self _)

/-- Past an open folder the search is that of its parent. -/
theorem isNearest_iff_of_open (h : IsOpen d start) :
    IsNearest d start folder name ↔ ∃ q, start.Under q ∧ IsNearest d q folder name := by
  constructor
  · intro hnearest
    rcases Path.upTo_iff.mp hnearest.upTo with rfl | habove
    · exact absurd h hnearest.file.not_isOpen
    · obtain ⟨q, hstep, hclimb⟩ := Path.above_iff.mp habove
      exact ⟨q, hstep, hclimb, hnearest.file, fun other hother =>
        hnearest.passed other (.head hstep hother)⟩
  · rintro ⟨q, hstep, hnearest⟩
    refine ⟨.head hstep hnearest.upTo, hnearest.file, fun other hother habove => ?_⟩
    rcases Path.upTo_iff.mp hother with rfl | hbeyond
    · exact h
    · obtain ⟨r, hstep', hclimb⟩ := Path.above_iff.mp hbeyond
      obtain rfl := Path.Under.rightUnique hstep hstep'
      exact hnearest.passed other hclimb habove

/-! ## 4. The search

The function that searches, by induction on the steps that it is given. -/

/-- Where there are as many folders as the climb can have, the search ends at the nearest one. -/
theorem nearest?_upward_eq_some_iff {n : Nat} (hn : start.components.length < n) :
    nearest? d (Path.upward n start) = some file ↔
      ∃ folder name, IsNearest d start folder name ∧ file = folder.join ⟨name⟩ := by
  induction n generalizing start with
  | zero => exact absurd hn (Nat.not_lt_zero _)
  | succ n ih =>
    rw [Path.upward, nearest?]
    cases hfile : fileIn? d start with
    | some p =>
      obtain ⟨name', hname', rfl⟩ := fileIn?_eq_some_iff.mp hfile
      simp only [isNearest_iff_of_file hname']
      rw [← hfile, fileIn?_eq_some_iff]
      constructor
      · rintro ⟨name, hname, rfl⟩
        exact ⟨start, name, ⟨rfl, hname⟩, rfl⟩
      · rintro ⟨_, name, ⟨rfl, hname⟩, rfl⟩
        exact ⟨name, hname, rfl⟩
    | none =>
      cases hmark : isRepository d start with
      | true =>
        -- a repository without a file is passed by no search
        refine ⟨nofun, ?_⟩
        rintro ⟨folder, name, hnearest, -⟩
        exfalso
        rcases Path.upTo_iff.mp hnearest.upTo with rfl | habove
        · exact nomatch hfile.symm.trans (fileIn?_eq_some_iff.mpr ⟨name, hnearest.file, rfl⟩)
        · have hopen := isOpen_iff.mp (hnearest.passed start .refl habove)
          exact nomatch hmark.symm.trans hopen.2
      | false =>
        simp only [isNearest_iff_of_open (isOpen_iff.mpr ⟨hfile, hmark⟩)]
        cases hparent : start.parent? with
        | none =>
          refine ⟨nofun, ?_⟩
          rintro ⟨folder, name, ⟨q, hstep, -⟩, -⟩
          exact nomatch hparent.symm.trans hstep
        | some q =>
          have hlength := Path.Above.length_lt (.single hparent)
          rw [if_neg Bool.false_ne_true, ih (by omega)]
          constructor
          · rintro ⟨folder, name, hnearest, rfl⟩
            exact ⟨folder, name, ⟨q, hparent, hnearest⟩, rfl⟩
          · rintro ⟨folder, name, ⟨q', hstep, hnearest⟩, rfl⟩
            obtain rfl := Path.Under.rightUnique hparent hstep
            exact ⟨folder, name, hnearest, rfl⟩

/-- The search finds the file of the nearest folder that has one. -/
theorem find?_eq_some_iff : find? d start = some file ↔
    ∃ folder name, IsNearest d start folder name ∧ file = folder.join ⟨name⟩ := by
  refine nearest?_upward_eq_some_iff ?_
  have hle := start.length_components_le
  rw [String.length_toList] at hle
  omega

/-- A start with a file of its own gets that, also beside a `.git`. -/
theorem find?_of_file (h : FirstFile d start name) : find? d start = some (start.join ⟨name⟩) :=
  find?_eq_some_iff.mpr ⟨start, name, (isNearest_iff_of_file h).mpr ⟨rfl, h⟩, rfl⟩

/-- An open start gets what its parent gets. -/
theorem find?_of_open (h : IsOpen d start) : find? d start = start.parent?.bind (find? d) := by
  refine Option.ext fun file => ?_
  simp only [Option.bind_eq_some_iff, find?_eq_some_iff, isNearest_iff_of_open h]
  constructor
  · rintro ⟨folder, name, ⟨q, hstep, hnearest⟩, rfl⟩
    exact ⟨q, hstep, folder, name, hnearest, rfl⟩
  · rintro ⟨q, hstep, folder, name, hnearest, rfl⟩
    exact ⟨folder, name, ⟨q, hstep, hnearest⟩, rfl⟩

/-- On one climb, a file tells in which folder it is. -/
theorem folder_eq_of_join {other : Path} {name' : String} (h : start.UpTo folder)
    (h' : start.UpTo other) (hname : name ∈ fileNames) (hname' : name' ∈ fileNames)
    (heq : folder.join ⟨name⟩ = other.join ⟨name'⟩) : folder = other := by
  have hplain : ∀ name ∈ fileNames,
      (Path.lead (Path.mk name).text.toList).1 = .plain ∧ (Path.mk name).components.length = 1 := by
    decide +kernel
  obtain ⟨hq, hone⟩ := hplain name hname
  obtain ⟨hq', hone'⟩ := hplain name' hname'
  have hcomponents := congrArg Path.components heq
  rw [Path.components_join _ hq, Path.components_join _ hq'] at hcomponents
  exact h.eq_of_components h' (List.append_inj' hcomponents (hone.trans hone'.symm)).1

/-- **The nearest configuration.** The folders at and above a start are those whose components begin
the components of the start, and there is a last one. The search finds the file of the nearest of
them and nothing else. So a file in the start itself is found even beside a `.git`, a `.git` in any
folder before another hides the files of that one, and an open folder gets what its parent gets. -/
theorem find?_nearest (d : Disk) (start : Path) :
    (∃ top, start.UpTo top ∧ top.parent? = none) ∧
    (∀ cs, (∃ folder, start.UpTo folder ∧ folder.components = cs) ↔
      cs <+: start.components ∧ (cs = [] → start.components.head? ≠ some .root)) ∧
    (∀ file, find? d start = some file ↔
      ∃ folder name, IsNearest d start folder name ∧ file = folder.join ⟨name⟩) ∧
    (find? d start = none ↔ ¬ ∃ folder name, IsNearest d start folder name) ∧
    (∀ name, FirstFile d start name → find? d start = some (start.join ⟨name⟩)) ∧
    (∀ between folder mark, start.UpTo between → between.Above folder →
      d.Holds between ".git" mark →
      ∀ name ∈ ["typo3scan.toml", "typo3scan.yaml", "typo3scan.yml"],
        find? d start ≠ some (folder.join ⟨name⟩)) ∧
    (IsOpen d start → find? d start = start.parent?.bind (find? d)) := by
  refine ⟨Path.exists_top start, fun cs => Path.exists_upTo_iff, fun file => find?_eq_some_iff, ?_,
    fun name => find?_of_file, ?_, find?_of_open⟩
  · rw [Option.eq_none_iff_forall_ne_some]
    constructor
    · rintro hnone ⟨folder, name, hnearest⟩
      exact hnone _ (find?_eq_some_iff.mpr ⟨folder, name, hnearest, rfl⟩)
    · rintro hno file hfile
      obtain ⟨folder, name, hnearest, -⟩ := find?_eq_some_iff.mp hfile
      exact hno ⟨folder, name, hnearest⟩
  · intro between folder mark hbetween habove hmark name hname hfile
    obtain ⟨other, name', hnearest, heq⟩ := find?_eq_some_iff.mp hfile
    -- the file that was found is in the folder behind the mark, which is not passed
    have hfolder : start.UpTo folder := Relation.ReflTransGen.trans hbetween habove.upTo
    obtain rfl := folder_eq_of_join hfolder hnearest.upTo hname hnearest.file.mem heq
    exact (hnearest.passed between hbetween habove).noMark mark hmark

/-- Two folders below `/p` the second name counts, though `/p` has a third one and a `.git` beside
it. The `.git` of `/q` hides the file in the root from the folder below it. -/
theorem find?_nearest_of_second_name :
    let d : Disk := ⟨.folder [("typo3scan.toml", .file []),
      ("p", .folder [("typo3scan.yml", .file []), ("typo3scan.yaml", .file []),
        (".git", .folder []), ("sub", .folder [("deep", .folder [])])]),
      ("q", .folder [(".git", .file []), ("in", .folder [])])], []⟩
    IsNearest d ⟨"/p/sub/deep"⟩ ⟨"/p"⟩ "typo3scan.yaml" ∧
    find? d ⟨"/p/sub/deep"⟩ = some ⟨"/p/typo3scan.yaml"⟩ ∧
    find? d ⟨"/p"⟩ = some ⟨"/p/typo3scan.yaml"⟩ ∧
    find? d ⟨"/q/in"⟩ ≠ some ⟨"/typo3scan.toml"⟩ ∧
    find? d ⟨"/p/sub"⟩ = find? d ⟨"/p"⟩ := by
  intro d
  have hdeep : IsOpen d ⟨"/p/sub/deep"⟩ := isOpen_iff.mpr (by decide +kernel)
  have hsub : IsOpen d ⟨"/p/sub"⟩ := isOpen_iff.mpr (by decide +kernel)
  have hnone : d.isFile (Path.join ⟨"/p"⟩ ⟨"typo3scan.toml"⟩) = false := by decide +kernel
  have hfile : d.isFile (Path.join ⟨"/p"⟩ ⟨"typo3scan.yaml"⟩) = true := by decide +kernel
  have hfirst : FirstFile d ⟨"/p"⟩ "typo3scan.yaml" := by
    refine ⟨["typo3scan.toml"], ["typo3scan.yml"], rfl, (isFile_join_iff (by decide)).mp hfile, ?_⟩
    intro other hother c hc
    rw [List.mem_singleton.mp hother] at hc
    rw [(isFile_join_iff (by decide)).mpr ⟨c, hc⟩] at hnone
    cases hnone
  -- Two open folders are climbed through before the one with the file.
  have hnearest : IsNearest d ⟨"/p/sub/deep"⟩ ⟨"/p"⟩ "typo3scan.yaml" :=
    (isNearest_iff_of_open hdeep).mpr ⟨⟨"/p/sub"⟩, by unfold Path.Under; decide +kernel,
      (isNearest_iff_of_open hsub).mpr ⟨⟨"/p"⟩, by unfold Path.Under; decide +kernel,
        (isNearest_iff_of_file hfirst).mpr ⟨rfl, hfirst⟩⟩⟩
  obtain ⟨-, -, hfound, -⟩ := find?_nearest d ⟨"/p/sub/deep"⟩
  obtain ⟨-, -, -, -, hown, -⟩ := find?_nearest d ⟨"/p"⟩
  obtain ⟨-, -, -, -, -, hhidden, -⟩ := find?_nearest d ⟨"/q/in"⟩
  obtain ⟨-, -, -, -, -, -, hopen⟩ := find?_nearest d ⟨"/p/sub"⟩
  refine ⟨hnearest, (hfound _).mpr ⟨_, _, hnearest, by decide +kernel⟩, ?_, ?_, ?_⟩
  · rw [hown _ hfirst]
    decide +kernel
  · have hgit : isRepository d ⟨"/q"⟩ = true := by decide +kernel
    obtain ⟨mark, hholds⟩ := isRepository_iff.mp hgit
    refine hhidden ⟨"/q"⟩ ⟨"/"⟩ mark (.single ?_) (.single ?_) hholds "typo3scan.toml" (by simp)
    · unfold Path.Under
      decide +kernel
    · unfold Path.Under
      decide +kernel
  · rw [hopen hsub, show (Path.mk "/p/sub").parent? = some ⟨"/p"⟩ by decide +kernel]
    rfl

end Configuration

end UpgradeScan
