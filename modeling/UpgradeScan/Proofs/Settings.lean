/-
`Proofs/Settings.lean` -- where each setting comes from.

A setting has up to three sources: the command line, the configuration file and a fixed value, in
this order (`Chosen`). What has to be shown is that the settings are merged field by field. Each of
them is drawn from its own sources and no other (`Merged`), so two runs agree in a setting as soon
as they agree in what that setting is drawn from (`FieldByField`), whatever else their
configurations say.

Three things could get in the way. Paths in a configuration are seen from a folder, and where a run
starts could stand in for that folder; but the folder is that of the configuration file, and a file
that can be read always has one (`Configuration.exists_parent_of_load`). A configuration without a
file has no folder, but it names no path either (`Merged.of_empty`). And a file that cannot be
loaded refuses the settings as a whole, even if the command line gives all that the file could have
said.

That a field depends on its own sources only cannot be seen from one run. It is a statement about
two: on any two disks, from any two starts and with any two command lines, the same sources of a
field give the same value of it. What the command line gives therefore hides what the file says
about it, and a value in the file that is hidden can be anything (`Hides`).
-/
import UpgradeScan.Settings
import UpgradeScan.Proofs.Files.Entry
import UpgradeScan.Proofs.Path.Parent

set_option autoImplicit false

namespace UpgradeScan

/-! ## 1. The folder of a file

A path without a parent is made of segments that lead nowhere, so what it leads to is a folder and
cannot be read as a file. This is the only place where settings depend on what a path is. -/

namespace Disk

variable {d : Disk} {place next : List String} {p : Path} {n : Node}

/-- A segment that does not count stays where it is. -/
theorem step_idle {seg : List Char} (hidle : Path.counts seg = false)
    (h : d.step place seg = .ok next) :
    next = place ∧ ∃ es, d.root.at? place = some (.folder es) := by
  have hseg : seg = [] ∨ seg = ['.'] := by
    rw [Path.counts, Bool.and_eq_false_iff] at hidle
    simpa using hidle
  rw [step] at h
  cases hat : d.root.at? place with
  | none =>
    rw [hat] at h
    cases h
  | some m =>
    rw [hat] at h
    cases m with
    | file content => cases h
    | folder es =>
      simp only [if_pos hseg, Except.ok.injEq] at h
      exact ⟨h.symm, es, rfl⟩

/-- Segments that do not count stay where they are, and there has to be a folder. -/
theorem walk_idle {segs : List (List Char)} (hne : segs ≠ [])
    (hidle : ∀ seg ∈ segs, Path.counts seg = false) (h : d.walk place segs = .ok next) :
    next = place ∧ ∃ es, d.root.at? place = some (.folder es) := by
  induction segs with
  | nil => exact absurd rfl hne
  | cons seg rest ih =>
    rw [List.forall_mem_cons] at hidle
    rw [walk] at h
    cases hstep : d.step place seg with
    | error e =>
      rw [hstep] at h
      cases h
    | ok mid =>
      rw [hstep] at h
      obtain ⟨rfl, hfolder⟩ := step_idle hidle.1 hstep
      cases rest with
      | nil =>
        cases h
        exact ⟨rfl, hfolder⟩
      | cons other rest => exact ih (List.cons_ne_nil _ _) hidle.2 h

/-- A path of nothing but such segments leads to a folder. -/
theorem exists_folder_of_idle
    (hidle : ∀ seg ∈ Text.fields '/' p.text.toList, Path.counts seg = false)
    (h : d.node p = .ok n) : ∃ es, n = .folder es := by
  obtain ⟨-, place, hwalk, hat⟩ := node_eq_ok_iff.mp h
  obtain ⟨rfl, es, hes⟩ := walk_idle (Text.fields_ne_nil _ _) hidle hwalk
  exact ⟨es, Option.some.inj (hat.symm.trans hes)⟩

end Disk

/-- In a path without a parent no segment counts. -/
theorem Path.idle_of_parent? {p : Path} (h : p.parent? = none) :
    ∀ seg ∈ Text.fields '/' p.text.toList, counts seg = false := by
  have hsegments : ∀ seg ∈ p.segments, counts seg = false := by
    rw [parent?] at h
    split at h
    · next hnil =>
      intro seg hseg
      have hidle := List.dropWhile_eq_nil_iff.mp hnil seg (List.mem_reverse.mpr hseg)
      simpa using hidle
    · cases h
  rw [segments] at hsegments
  -- The segments leave out the lead, which is one more idle segment when it is a slash.
  have htext := lead_text p.text.toList
  cases hlead : (lead p.text.toList).1 with
  | root =>
    rw [hlead] at htext
    rw [← htext]
    rintro seg (_ | ⟨_, hseg⟩)
    · rfl
    · exact hsegments seg hseg
  | here =>
    rw [parent?, hlead] at h
    split at h <;> cases h
  | plain =>
    rw [hlead] at htext
    rw [← htext]
    exact hsegments

/-- A configuration file stands in a folder. -/
theorem Configuration.exists_parent_of_load {d : Disk} {p : Path} {c : Configuration}
    (h : load d p = .ok c) : ∃ folder, p.parent? = some folder := by
  cases hparent : p.parent? with
  | some folder => exact ⟨folder, rfl⟩
  | none =>
    rw [load, Disk.readText, Disk.read] at h
    cases hnode : d.node p with
    | error f =>
      rw [hnode] at h
      cases h
    | ok n =>
      obtain ⟨es, rfl⟩ := Disk.exists_folder_of_idle (Path.idle_of_parent? hparent) hnode
      rw [hnode] at h
      cases h

/-- Whatever is wrong with a configuration file, the failure names the file. -/
theorem Configuration.load_eq_error {d : Disk} {p : Path} {e : ScanError}
    (h : load d p = .error e) : ∃ why, e = .config p why := by
  rw [load] at h
  split at h
  · exact ⟨_, (Except.error.inj h).symm⟩
  · split at h
    · cases h
    · exact ⟨_, (Except.error.inj h).symm⟩

namespace Settings

/-! ## 2. Where a value comes from

Sources of one value, without saying which. The three cases exclude each other, so a value and its
sources determine each other as far as they have to. -/

section Sources

variable {α β : Type}

/-- The value of the command line, else that of the file, else the fixed one. -/
inductive Chosen (given inFile : Option α) (fixed : α) : α → Prop
  | given {a : α} (h : given = some a) : Chosen given inFile fixed a
  | inFile {a : α} (hgiven : given = none) (h : inFile = some a) : Chosen given inFile fixed a
  | fixed (hgiven : given = none) (hfile : inFile = none) : Chosen given inFile fixed fixed

/-- Two runs have the same source of a value: the same value on the command line or, if there is
none, the same one in the file. -/
def SameSource (given given' : Option α) (inFile inFile' : Option β) : Prop :=
  given = given' ∧ (given = none → inFile = inFile')

variable {given given' inFile inFile' : Option α} {fixed a a' : α}

/-- What is computed is what the sources give. -/
theorem chosen_getD (given inFile : Option α) (fixed : α) :
    Chosen given inFile fixed ((given <|> inFile).getD fixed) := by
  cases given with
  | some a => exact .given rfl
  | none =>
    cases inFile with
    | some a => exact .inFile rfl rfl
    | none => exact .fixed rfl rfl

/-- The same source gives the same value. -/
theorem Chosen.congr (h : Chosen given inFile fixed a) (h' : Chosen given' inFile' fixed a')
    (hsame : SameSource given given' inFile inFile') : a = a' := by
  obtain ⟨rfl, hfile⟩ := hsame
  cases h with
  | given h =>
    cases h' with
    | given h' => exact Option.some.inj (h.symm.trans h')
    | inFile hgiven _ => exact nomatch h.symm.trans hgiven
    | fixed hgiven _ => exact nomatch h.symm.trans hgiven
  | inFile hgiven h =>
    obtain rfl := hfile hgiven
    cases h' with
    | given h' => exact nomatch hgiven.symm.trans h'
    | inFile _ h' => exact Option.some.inj (h.symm.trans h')
    | fixed _ hfile' => exact nomatch h.symm.trans hfile'
  | fixed hgiven hfile' =>
    obtain rfl := hfile hgiven
    cases h' with
    | given h' => exact nomatch hgiven.symm.trans h'
    | inFile _ h' => exact nomatch hfile'.symm.trans h'
    | fixed _ _ => rfl

/-- The same source stays the same when values are turned into something else. -/
theorem SameSource.map {γ δ : Type} {given given' : Option α} {inFile inFile' : Option β}
    (h : SameSource given given' inFile inFile') (f : α → γ) (g : β → δ) :
    SameSource (given.map f) (given'.map f) (inFile.map g) (inFile'.map g) :=
  ⟨congrArg _ h.1, fun hgiven => congrArg _ (h.2 (Option.map_eq_none_iff.mp hgiven))⟩

theorem sameSource_of_eq {inFile inFile' : Option β} (h : inFile = inFile') :
    SameSource (none : Option α) none inFile inFile' :=
  ⟨rfl, fun _ => h⟩

end Sources

/-! ## 3. Each setting for itself

All settings at once, as a structure with one field for each. The command line has no options for
the last five, and the configuration groups some of its values, so not every field has the same
shape. -/

/-- The settings that a command line and a configuration give. Paths of the configuration are seen
from `folder`, and what comes with the program is in `home`. -/
structure Merged (home folder : Path) (o : Overrides) (c : Configuration) (s : Settings) :
    Prop where
  target : Chosen o.target c.target "10" s.target
  only : Chosen o.only c.only "breaking,deprecation,important,feature" s.only
  indicators : Chosen o.indicators c.indicators "strong,weak" s.indicators
  format : Chosen o.format c.format "plain" s.format
  templates : Chosen (o.templates.map some) (c.templates.map fun t => some (folder.join ⟨t⟩)) none
    s.templates
  changelog : Chosen none ((c.resources.bind (·.changelog)).map fun t => folder.join ⟨t⟩)
    ((home.join ⟨"Resources/Private"⟩).join ⟨"Changelog"⟩) s.changelog
  links : Chosen none ((c.resources.bind (·.links)).map fun t => folder.join ⟨t⟩)
    ((home.join ⟨"Resources/Private"⟩).join ⟨"links.txt"⟩) s.links
  /-- The place that the configuration names, and then those that are always looked at. -/
  matchers : ∃ first,
    Chosen none ((c.matchers.bind (·.path)).map fun t => [folder.join ⟨t⟩]) [] first ∧
      s.matchers = first ++ [home.join ⟨"vendor/typo3/cms-scanner/config/Matcher/"⟩,
        home.join ⟨"../../typo3/cms-scanner/config/Matcher/"⟩]
  program : Chosen none (c.engine.bind (·.program)) "typo3-scanner" s.program
  arguments : Chosen none (c.engine.map (·.arguments)) [] s.arguments

/-- Two runs agree in each setting that has the same source in both. -/
structure FieldByField (o o' : Overrides) (c c' : Configuration) (s s' : Settings) : Prop where
  file : s.file = s'.file
  target : SameSource o.target o'.target c.target c'.target → s.target = s'.target
  only : SameSource o.only o'.only c.only c'.only → s.only = s'.only
  indicators : SameSource o.indicators o'.indicators c.indicators c'.indicators →
    s.indicators = s'.indicators
  format : SameSource o.format o'.format c.format c'.format → s.format = s'.format
  templates : SameSource o.templates o'.templates c.templates c'.templates →
    s.templates = s'.templates
  changelog : c.resources.bind (·.changelog) = c'.resources.bind (·.changelog) →
    s.changelog = s'.changelog
  links : c.resources.bind (·.links) = c'.resources.bind (·.links) → s.links = s'.links
  matchers : c.matchers.bind (·.path) = c'.matchers.bind (·.path) → s.matchers = s'.matchers
  program : c.engine.bind (·.program) = c'.engine.bind (·.program) → s.program = s'.program
  arguments : c.engine.map (·.arguments) = c'.engine.map (·.arguments) →
    s.arguments = s'.arguments

/-- Two configurations differ only in values that are given on the command line. -/
structure Hides (o : Overrides) (c c' : Configuration) : Prop where
  target : o.target = none → c.target = c'.target
  only : o.only = none → c.only = c'.only
  indicators : o.indicators = none → c.indicators = c'.indicators
  format : o.format = none → c.format = c'.format
  templates : o.templates = none → c.templates = c'.templates
  resources : c.resources = c'.resources
  matchers : c.matchers = c'.matchers
  engine : c.engine = c'.engine

section

variable {home folder : Path} {o o' : Overrides} {c c' : Configuration} {s s' : Settings}

/-- Merging draws each setting from its sources. -/
theorem merged_merge {file : Option Path} {start : Path} (h : folderOf file start = folder) :
    Merged home folder o c (merge home start o file c) := by
  subst h
  constructor
  case target => exact chosen_getD _ _ _
  case only => exact chosen_getD _ _ _
  case indicators => exact chosen_getD _ _ _
  case format => exact chosen_getD _ _ _
  case templates =>
    rw [merge]
    cases o.templates with
    | some t => exact .given rfl
    | none =>
      cases c.templates with
      | some t => exact .inFile rfl rfl
      | none => exact .fixed rfl rfl
  case changelog => exact chosen_getD none _ _
  case links => exact chosen_getD none _ _
  case matchers =>
    refine ⟨_, chosen_getD none _ _, ?_⟩
    rw [merge]
    cases c.matchers.bind (·.path) <;> rfl
  case program => exact chosen_getD none _ _
  case arguments => exact chosen_getD none _ _

/-- A configuration that says nothing names no path, so no folder matters. -/
theorem Merged.of_empty (h : Merged home folder o .empty s) (other : Path) :
    Merged home other o .empty s :=
  ⟨h.target, h.only, h.indicators, h.format, h.templates, h.changelog, h.links, h.matchers,
    h.program, h.arguments⟩

/-- Settings that are merged agree in each field of which the sources agree. -/
theorem Merged.fieldByField (h : Merged home folder o c s) (h' : Merged home folder o' c' s')
    (hfile : s.file = s'.file) : FieldByField o o' c c' s s' := by
  constructor
  case file => exact hfile
  case target => exact h.target.congr h'.target
  case only => exact h.only.congr h'.only
  case indicators => exact h.indicators.congr h'.indicators
  case format => exact h.format.congr h'.format
  case templates => exact fun hsame => h.templates.congr h'.templates (hsame.map _ _)
  case changelog =>
    exact fun hsame => h.changelog.congr h'.changelog (sameSource_of_eq (hsame ▸ rfl))
  case links => exact fun hsame => h.links.congr h'.links (sameSource_of_eq (hsame ▸ rfl))
  case matchers =>
    intro hsame
    obtain ⟨first, hfirst, hs⟩ := h.matchers
    obtain ⟨first', hfirst', hs'⟩ := h'.matchers
    rw [hs, hs', hfirst.congr hfirst' (sameSource_of_eq (hsame ▸ rfl))]
  case program => exact fun hsame => h.program.congr h'.program (sameSource_of_eq hsame)
  case arguments => exact fun hsame => h.arguments.congr h'.arguments (sameSource_of_eq hsame)

/-- What the command line says hides what the configuration says about it. -/
theorem FieldByField.eq_of_hides (h : FieldByField o o c c' s s') (hhides : Hides o c c') :
    s = s' := by
  obtain ⟨hfile, htarget, honly, hindicators, hformat, htemplates, hchangelog, hlinks, hmatchers,
    hprogram, harguments⟩ := h
  cases s
  cases s'
  simp only [Settings.mk.injEq]
  exact ⟨hfile, htarget ⟨rfl, hhides.target⟩, honly ⟨rfl, hhides.only⟩,
    hindicators ⟨rfl, hhides.indicators⟩, hformat ⟨rfl, hhides.format⟩,
    htemplates ⟨rfl, hhides.templates⟩, hchangelog (hhides.resources ▸ rfl),
    hlinks (hhides.resources ▸ rfl), hmatchers (hhides.matchers ▸ rfl),
    hprogram (hhides.engine ▸ rfl), harguments (hhides.engine ▸ rfl)⟩

end

/-! ## 4. Runs

A run finds its configuration file, loads it and merges. The file that it finds is a source of its
own, and two runs are compared only if they have the same one. -/

/-- What the configuration file says; nothing, if there is none. -/
def configuration (d : Disk) : Option Path → Except ScanError Configuration
  | none => .ok .empty
  | some p => Configuration.load d p

section

variable {d d' : Disk} {home start start' : Path} {o o' : Overrides} {c c' : Configuration}

/-- Settings are what the configuration file and the command line are merged to, or the error of the
file. -/
theorem resolve_eq (d : Disk) (home start : Path) (o : Overrides) :
    resolve d home start o =
      (configuration d (fileFor d start o)).map (merge home start o (fileFor d start o)) := by
  rw [resolve]
  cases fileFor d start o <;> rfl

/-- All paths of a configuration are seen from one folder, wherever the run starts. -/
theorem exists_merged {file : Option Path} (h : configuration d file = .ok c) :
    ∃ folder, (∀ p, file = some p → p.parent? = some folder) ∧
      ∀ (d' : Disk) (start : Path) (o : Overrides) (c' : Configuration),
        configuration d' file = .ok c' → Merged home folder o c' (merge home start o file c') := by
  cases file with
  | none =>
    refine ⟨⟨""⟩, nofun, fun d' start o c' h' => ?_⟩
    cases h'
    exact (merged_merge rfl).of_empty _
  | some p =>
    obtain ⟨folder, hfolder⟩ := Configuration.exists_parent_of_load h
    refine ⟨folder, fun q hq => Option.some.inj hq ▸ hfolder, fun d' start o c' _ => ?_⟩
    refine merged_merge ?_
    rw [folderOf, Option.bind_some, hfolder, Option.getD_some]

/-- Two runs with one configuration file. -/
theorem resolve_fieldByField (home : Path) (hfile : fileFor d' start' o' = fileFor d start o)
    (hc : configuration d (fileFor d start o) = .ok c)
    (hc' : configuration d' (fileFor d start o) = .ok c') :
    ∃ s s', resolve d home start o = .ok s ∧ resolve d' home start' o' = .ok s' ∧
      FieldByField o o' c c' s s' := by
  obtain ⟨folder, -, hmerged⟩ := exists_merged hc
  refine ⟨_, _, by rw [resolve_eq, hc]; rfl, by rw [resolve_eq, hfile, hc']; rfl, ?_⟩
  exact (hmerged d start o c hc).fieldByField (hmerged d' start' o' c' hc') rfl

/-- Where a run starts matters only for which configuration file it finds. -/
theorem resolve_start (home : Path) (hfile : fileFor d start' o = fileFor d start o) :
    resolve d home start' o = resolve d home start o := by
  cases hc : configuration d (fileFor d start o) with
  | error e => rw [resolve_eq, resolve_eq, hfile, hc]; rfl
  | ok c =>
    obtain ⟨s, s', hs, hs', hfields⟩ := resolve_fieldByField home hfile hc hc
    have hhides : Hides o c c := by constructor <;> intros <;> rfl
    rw [hs, hs', hfields.eq_of_hides hhides]

end

/-- **Settings are merged field by field.** The configuration file is the one that is named, else
the nearest one. If it cannot be loaded the settings are refused with the name of the file, whatever
the command line gives. Otherwise each setting is drawn from its own sources, with the paths of the
configuration seen from the folder of its file; an absolute path stays as it is. Two runs with the
same configuration file agree in each setting that has the same source in both, so what the
command line gives hides what the file says about it, and it does not matter where a run starts. -/
theorem resolve_field_by_field (d : Disk) (home start : Path) (o : Overrides) :
    Chosen (o.config.map some) ((Configuration.find? d start).map some) none (fileFor d start o) ∧
    (∀ p e, fileFor d start o = some p → Configuration.load d p = .error e →
      resolve d home start o = .error e ∧ ∃ why, e = .config p why) ∧
    (∀ p c, fileFor d start o = some p → Configuration.load d p = .ok c →
      ∃ folder s, p.parent? = some folder ∧ resolve d home start o = .ok s ∧
        s.file = some p ∧ Merged home folder o c s) ∧
    (fileFor d start o = none → ∃ s, resolve d home start o = .ok s ∧ s.file = none ∧
      ∀ folder, Merged home folder o .empty s) ∧
    (∀ folder q : Path, q.isAbsolute = true → folder.join q = q) ∧
    (∀ (d' : Disk) (start' : Path) (o' : Overrides) (c c' : Configuration),
      fileFor d' start' o' = fileFor d start o →
      configuration d (fileFor d start o) = .ok c → configuration d' (fileFor d start o) = .ok c' →
      ∃ s s', resolve d home start o = .ok s ∧ resolve d' home start' o' = .ok s' ∧
        FieldByField o o' c c' s s' ∧ (o = o' → Hides o c c' → s = s')) ∧
    ∀ start', fileFor d start' o = fileFor d start o →
      resolve d home start' o = resolve d home start o := by
  refine ⟨?_, ?_, ?_, ?_, fun folder q h => if_pos h, ?_, fun start' => resolve_start home⟩
  · rw [fileFor]
    cases o.config with
    | some p => exact .given rfl
    | none =>
      cases Configuration.find? d start with
      | some p => exact .inFile rfl rfl
      | none => exact .fixed rfl rfl
  · intro p e hfile hload
    refine ⟨?_, Configuration.load_eq_error hload⟩
    rw [resolve_eq, hfile, configuration, hload]
    rfl
  · intro p c hfile hload
    have hc : configuration d (some p) = .ok c := hload
    obtain ⟨folder, hfolder, hmerged⟩ := exists_merged hc
    refine ⟨folder, _, hfolder p rfl, ?_, rfl, hmerged d start o c hload⟩
    rw [resolve_eq, hfile, configuration, hload]
    rfl
  · intro hfile
    refine ⟨_, by rw [resolve_eq, hfile]; rfl, rfl, fun folder => ?_⟩
    exact (merged_merge rfl).of_empty folder
  · intro d' start' o' c c' hfile hc hc'
    obtain ⟨s, s', hs, hs', hfields⟩ := resolve_fieldByField home hfile hc hc'
    refine ⟨s, s', hs, hs', hfields, ?_⟩
    rintro rfl hhides
    exact hfields.eq_of_hides hhides

/-- Two disks whose configurations differ in what the command line gives. A run below the folder
of the file on the one and a run in that folder on the other have the same settings, and both are
refused a file that is no configuration. -/
theorem resolve_field_by_field_of_hidden :
    let content (s : String) : Node := .file (Text.Utf8.encode s.toList)
    let disk (only : String) : Disk :=
      ⟨.folder [("p", .folder [("sub", .folder []), ("typo3scan.toml", content
        ("only = \"" ++ only ++ "\"\ntemplate_path = \"t\"\n[resources]\nlinks_file = \"/l\"\n"))]),
        ("bad.yaml", content "- x\n")], []⟩
    let home : Path := ⟨"/opt"⟩
    let o : Overrides := ⟨none, none, some "important", none, none, none⟩
    fileFor (disk "breaking") ⟨"/p/sub"⟩ o = some ⟨"/p/typo3scan.toml"⟩ ∧
    (∃ s, resolve (disk "breaking") home ⟨"/p/sub"⟩ o = .ok s ∧
      resolve (disk "feature") home ⟨"/p"⟩ o = .ok s ∧
      s.target = "10" ∧ s.only = "important" ∧ s.templates = some ⟨"/p/t"⟩ ∧ s.links = ⟨"/l"⟩) ∧
    resolve (disk "breaking") home ⟨"/p"⟩ { o with config := some ⟨"/bad.yaml"⟩ } =
      .error (.config ⟨"/bad.yaml"⟩ .invalid) := by
  intro content disk home o
  let c (only : String) : Configuration :=
    ⟨none, some only, none, none, some "t", some ⟨none, some "/l"⟩, none, none⟩
  have hfile : fileFor (disk "breaking") ⟨"/p/sub"⟩ o = some ⟨"/p/typo3scan.toml"⟩ := by
    decide +kernel
  have hfile' : fileFor (disk "feature") ⟨"/p"⟩ o = fileFor (disk "breaking") ⟨"/p/sub"⟩ o := by
    decide +kernel
  have hload : Configuration.load (disk "breaking") ⟨"/p/typo3scan.toml"⟩ = .ok (c "breaking") := by
    decide +kernel
  have hload' : Configuration.load (disk "feature") ⟨"/p/typo3scan.toml"⟩ = .ok (c "feature") := by
    decide +kernel
  have hbad : Configuration.load (disk "breaking") ⟨"/bad.yaml"⟩ =
      .error (.config ⟨"/bad.yaml"⟩ .invalid) := by decide +kernel
  -- The two files differ in `only`, which the command line decides.
  have hhides : Hides o (c "breaking") (c "feature") :=
    ⟨fun _ => rfl, nofun, fun _ => rfl, fun _ => rfl, fun _ => rfl, rfl, rfl, rfl⟩
  obtain ⟨-, -, hloaded, -, -, htwo, -⟩ :=
    resolve_field_by_field (disk "breaking") home ⟨"/p/sub"⟩ o
  obtain ⟨-, hrefused, -⟩ :=
    resolve_field_by_field (disk "breaking") home ⟨"/p"⟩ { o with config := some ⟨"/bad.yaml"⟩ }
  obtain ⟨folder, s, hfolder, hs, -, hmerged⟩ := hloaded _ _ hfile hload
  obtain rfl : (⟨"/p"⟩ : Path) = folder := by
    have hp : (Path.mk "/p/typo3scan.toml").parent? = some ⟨"/p"⟩ := by decide
    exact Option.some.inj (hp.symm.trans hfolder)
  obtain ⟨t, t', ht, ht', -, heq⟩ := htwo (disk "feature") ⟨"/p"⟩ o (c "breaking") (c "feature")
    hfile' ((congrArg (configuration _) hfile).trans hload)
    ((congrArg (configuration _) hfile).trans hload')
  obtain rfl : s = t := Except.ok.inj (hs.symm.trans ht)
  obtain rfl := heq rfl hhides
  refine ⟨hfile, ⟨s, hs, ht', ?_, ?_, ?_, ?_⟩, (hrefused _ _ rfl hbad).1⟩
  · exact hmerged.target.congr (.fixed rfl rfl) ⟨rfl, fun _ => rfl⟩
  · exact hmerged.only.congr (.given rfl) ⟨rfl, fun _ => rfl⟩
  · exact hmerged.templates.congr (.inFile rfl rfl) ⟨rfl, fun _ => rfl⟩
  · exact hmerged.links.congr (.inFile rfl rfl) ⟨rfl, fun _ => rfl⟩

end Settings

end UpgradeScan
