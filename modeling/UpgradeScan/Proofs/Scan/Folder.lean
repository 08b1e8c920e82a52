/-
`Proofs/Scan/Folder.lean` -- the folder of the report file is asked about twice, with one answer.

A scan takes a while, and it would be a pity to lose its report because the folder that it should go
to is not there. So the folder is asked about before the engine runs, and once more when the report
is written. A check that is made in two places can say two different things. If the first one lets
through what the second one refuses, the scan was made for nothing; if it refuses what the second
one would take, a report cannot be written where it could be.

The two are indeed written differently. Before the engine runs, a report file without a folder in
its path is let through; when the report is written, such a file stands in the current folder, which
is asked about as `.`. They come to the same as long as there is a current folder: both refuse a
file exactly when its path names a folder that is not there (`LacksFolder`), and both name that
folder. A file that is not refused is written, and no other file changes, or the disk says why not.

That there is a current folder is a condition on the disk (`Disk.HasCurrent`). Without it the second
check refuses a bare file name that the first one lets through. Between the two checks the engine
runs and may remove the folder; the statement here is about one disk.
-/
import UpgradeScan.Proofs.Scan.Failure

set_option autoImplicit false

namespace UpgradeScan

/-! ## 1. The current folder

What `.` leads to is the current folder, if that is there. -/

/-- The current folder is there. -/
def Disk.HasCurrent (d : Disk) : Prop := ∃ es, d.root.at? d.current = some (.folder es)

/-- Where the current folder is there, `.` leads to a folder. -/
theorem Disk.isFolder_here {d : Disk} (h : d.HasCurrent) : d.isFolder ⟨"."⟩ = true := by
  obtain ⟨es, hes⟩ := h
  have hstart : d.start ⟨"."⟩ = d.current := rfl
  have hfields : Text.fields '/' (Path.mk ".").text.toList = [['.']] := by decide
  have hstep : d.step d.current ['.'] = .ok d.current := by
    rw [step, hes]
    exact if_pos (.inr rfl)
  have hresolve : d.resolve ⟨"."⟩ = .ok d.current := by
    rw [resolve, show refused? ⟨"."⟩ = none from by decide, hstart, hfields]
    simp only [walk, hstep]
  simp only [isFolder, node, hresolve, hes, Node.isFolder]

/-! ## 2. The two checks

Each check is compared with `LacksFolder`, which is about the path of the report and the disk. A
path without a folder in it has the empty path as its parent, and a root has none. -/

/-- The path of the file names a folder, and that is not there. -/
structure LacksFolder (d : Disk) (file folder : Path) : Prop where
  parent : file.parent? = some folder
  named : folder.text ≠ ""
  missing : d.isFolder folder = false

variable {d : Disk} {text : String} {file folder : Path}

/-- The check before the engine refuses a report file exactly when its folder is lacking, and has no
other error. -/
theorem checkFolder_eq_error_iff {e : ScanError} : checkFolder d (some file) = .error e ↔
    ∃ folder, LacksFolder d file folder ∧ e = .reportFolderNotFound folder := by
  rw [checkFolder, Option.bind_some]
  constructor
  · intro h
    split at h
    · next folder hparent =>
      split at h
      · cases h
      · next hnot =>
        simp only [Bool.or_eq_true, String.isEmpty_iff, not_or, Bool.not_eq_true] at hnot
        exact ⟨folder, ⟨hparent, hnot.1, hnot.2⟩, (Except.error.inj h).symm⟩
    · cases h
  · rintro ⟨folder, ⟨hparent, hnamed, hmissing⟩, rfl⟩
    simp only [hparent, hmissing, Bool.or_false, String.isEmpty_iff, if_neg hnamed]

/-- The folder of a report is the one that its path names, or the current one if it names none. -/
theorem reportFolder_cases (file : Path) :
    (∃ folder, file.parent? = some folder ∧ folder.text ≠ "" ∧ reportFolder file = folder) ∨
    ((∀ folder, file.parent? = some folder → folder.text = "") ∧ reportFolder file = ⟨"."⟩) := by
  rw [reportFolder]
  cases file.parent? with
  | none => exact .inr ⟨nofun, rfl⟩
  | some folder =>
    by_cases hnamed : folder.text = ""
    · refine .inr ⟨fun q hq => Option.some.inj hq ▸ hnamed, ?_⟩
      simp only [String.isEmpty_iff, if_pos hnamed]
    · refine .inl ⟨folder, rfl, hnamed, ?_⟩
      simp only [String.isEmpty_iff, if_neg hnamed]

/-- A folder that is lacking is the one that the report would be written to. -/
theorem LacksFolder.reportFolder_eq (h : LacksFolder d file folder) :
    reportFolder file = folder := by
  simp only [reportFolder, h.parent, String.isEmpty_iff, if_neg h.named]

/-- Where there is a current folder, the folder of a report is missing only if its path names
one. -/
theorem lacksFolder_of_missing (hcurrent : d.HasCurrent)
    (h : d.isFolder (reportFolder file) = false) : LacksFolder d file (reportFolder file) := by
  rcases reportFolder_cases file with ⟨folder, hparent, hnamed, hfolder⟩ | ⟨-, hhere⟩
  · rw [hfolder] at h ⊢
    exact ⟨hparent, hnamed, h⟩
  · rw [hhere, Disk.isFolder_here hcurrent] at h
    cases h

/-- The check of the writing refuses a report exactly when its folder is lacking. -/
theorem writeReport_eq_folder_error_iff (hcurrent : d.HasCurrent) :
    writeReport d text file = .error (.reportFolderNotFound folder) ↔
      LacksFolder d file folder := by
  rw [writeReport]
  cases hfolder : d.isFolder (reportFolder file) with
  | true =>
    rw [if_pos rfl]
    constructor
    · intro h
      split at h <;> cases h
    · intro h
      rw [h.reportFolder_eq, h.missing] at hfolder
      cases hfolder
  | false =>
    rw [if_neg Bool.false_ne_true, Except.error.injEq, ScanError.reportFolderNotFound.injEq]
    exact ⟨fun h => h ▸ lacksFolder_of_missing hcurrent hfolder, LacksFolder.reportFolder_eq⟩

/-- A report is refused its folder, is refused by the disk, or is written and nothing else is. -/
theorem writeReport_cases (d : Disk) (text : String) (file : Path) :
    (∃ folder, writeReport d text file = .error (.reportFolderNotFound folder)) ∨
    (∃ f, writeReport d text file = .error (.io f)) ∨
    ∃ d', writeReport d text file = .ok d' ∧ d'.read file = .ok (Text.Utf8.bytes text) ∧
      ∃ place, d.target file = .ok place ∧ d.DiffersAt d' place (Text.Utf8.bytes text) := by
  rw [writeReport]
  cases d.isFolder (reportFolder file) with
  | false => exact .inl ⟨_, rfl⟩
  | true =>
    cases hw : d.write file (Text.Utf8.bytes text) with
    | error f => exact .inr (.inl ⟨f, rfl⟩)
    | ok d' => exact .inr (.inr ⟨d', rfl, Disk.write_eq_ok hw⟩)

/-! ## 3. The check of a scan

The first check is made in the middle of the preparation. Where the stages before it are passed it
is the next one to decide, so that what is said of the check holds of the scan. -/

/-- Where the stages before are passed, a scan is refused the folder of its report by the first of
the two checks. -/
theorem prepare_eq_folder_error_iff {o : Order} {root base : Path} {s : Settings}
    (hroot : scanRoot d o.path = .ok root)
    (hs : Settings.resolve d o.home o.start o.overrides = .ok s)
    (hbase : locateMatchers d s.matchers = .ok base) :
    prepare d o = .error (.reportFolderNotFound folder) ↔
      checkFolder d o.reportFile = .error (.reportFolderNotFound folder) := by
  rw [prepare, hroot, ok_bind, hs, ok_bind, hbase, ok_bind]
  cases checkFolder d o.reportFile with
  | error e => rw [error_bind, Except.error.injEq, Except.error.injEq]
  | ok u =>
    -- what comes after the check has errors of its own
    refine ⟨fun h => ?_, fun h => (by cases h)⟩
    rw [ok_bind] at h
    cases hload : Renderer.load d s.templates with
    | error e =>
      obtain ⟨f, -, rfl⟩ := Renderer.load_eq_error_iff.mp hload
      rw [hload] at h
      cases h
    | ok r =>
      rw [hload, ok_bind, checkFormat] at h
      split at h <;> cases h

/-- **The two checks of a report's folder agree.** On a disk that has a current folder, whatever the
path of the report is, the check before the engine refuses it for a folder exactly when the writing
does, and for the same folder; a scan that has passed the stages before is refused so too. If
neither refuses it, the file then holds the text and no other file has changed, or the disk says why
it cannot be written. -/
theorem checkFolder_agrees_writeReport {d : Disk} (hcurrent : d.HasCurrent) (text : String)
    (file : Path) :
    (∀ folder, checkFolder d (some file) = .error (.reportFolderNotFound folder) ↔
      writeReport d text file = .error (.reportFolderNotFound folder)) ∧
    (∀ (o : Order) (root base : Path) (s : Settings), o.reportFile = some file →
      scanRoot d o.path = .ok root → Settings.resolve d o.home o.start o.overrides = .ok s →
      locateMatchers d s.matchers = .ok base → ∀ folder,
      prepare d o = .error (.reportFolderNotFound folder) ↔
        writeReport d text file = .error (.reportFolderNotFound folder)) ∧
    ((∀ folder, checkFolder d (some file) ≠ .error (.reportFolderNotFound folder)) →
      (∀ folder, writeReport d text file ≠ .error (.reportFolderNotFound folder)) →
      (∃ d', writeReport d text file = .ok d' ∧ d'.read file = .ok (Text.Utf8.bytes text) ∧
        ∃ place, d.target file = .ok place ∧ d.DiffersAt d' place (Text.Utf8.bytes text)) ∨
      ∃ f, writeReport d text file = .error (.io f)) := by
  have hagree : ∀ folder, checkFolder d (some file) = .error (.reportFolderNotFound folder) ↔
      writeReport d text file = .error (.reportFolderNotFound folder) := by
    intro folder
    rw [checkFolder_eq_error_iff, writeReport_eq_folder_error_iff hcurrent]
    constructor
    · rintro ⟨folder', h, he⟩
      rwa [ScanError.reportFolderNotFound.inj he]
    · exact fun h => ⟨folder, h, rfl⟩
  refine ⟨hagree, ?_, fun _ hwritten => ?_⟩
  · intro o root base s hfile hroot hs hbase folder
    rw [prepare_eq_folder_error_iff hroot hs hbase, hfile]
    exact hagree folder
  · rcases writeReport_cases d text file with ⟨folder, h⟩ | hio | hok
    · exact absurd h (hwritten folder)
    · exact .inr hio
    · exact .inl hok

/-- On one disk the report `gone/./r.txt` is refused for `gone` by both checks and by the scan, and
the bare name `r.txt` is written into the current folder. -/
theorem checkFolder_agrees_writeReport_bare_name :
    let d : Disk := ⟨.folder [("src", .folder []), ("opt", .folder [("vendor", .folder
      [("typo3", .folder [("cms-scanner", .folder [("config", .folder [("Matcher",
        .folder [])])])])])])], ["src"]⟩
    let file : Path := ⟨"gone/./r.txt"⟩
    let o : Order := ⟨⟨"/opt"⟩, ⟨"/"⟩, ⟨"/src"⟩, ⟨none, none, none, none, none, none⟩, some file,
      default, {}⟩
    d.HasCurrent ∧ checkFolder d (some file) = .error (.reportFolderNotFound ⟨"gone"⟩) ∧
    writeReport d "x" file = .error (.reportFolderNotFound ⟨"gone"⟩) ∧
    prepare d o = .error (.reportFolderNotFound ⟨"gone"⟩) ∧
    ∃ d', writeReport d "x" ⟨"r.txt"⟩ = .ok d' ∧ d'.read ⟨"r.txt"⟩ = .ok (Text.Utf8.bytes "x") := by
  intro d file o
  have hcurrent : d.HasCurrent := ⟨[], rfl⟩
  have hchecked : checkFolder d (some file) = .error (.reportFolderNotFound ⟨"gone"⟩) :=
    checkFolder_eq_error_iff.mpr ⟨_, ⟨by decide +kernel, by decide, by decide +kernel⟩, rfl⟩
  have hroot : (d.canonical ⟨"/src"⟩).toOption = some ⟨"/src"⟩ := by decide +kernel
  have hfolder : d.isFolder ⟨"/src"⟩ = true := by decide +kernel
  have hscanRoot : scanRoot d o.path = .ok ⟨"/src"⟩ := by
    simp only [scanRoot, o, eq_ok_of_toOption hroot, hfolder, if_true]
  have hfile : Settings.fileFor d o.start o.overrides = none := by decide +kernel
  have hs : Settings.resolve d o.home o.start o.overrides =
      .ok (.merge o.home o.start o.overrides none .empty) := by rw [Settings.resolve, hfile]
  have hmatchers : (Settings.standardMatchers ⟨"/opt"⟩).find? d.isFolder =
      some ⟨"/opt/vendor/typo3/cms-scanner/config/Matcher/"⟩ := by decide +kernel
  have hbase : locateMatchers d (Settings.standardMatchers ⟨"/opt"⟩) =
      .ok ⟨"/opt/vendor/typo3/cms-scanner/config/Matcher/"⟩ := by rw [locateMatchers, hmatchers]
  obtain ⟨hagree, hscan, -⟩ := checkFolder_agrees_writeReport hcurrent "x" file
  have hwritten := (hagree ⟨"gone"⟩).mp hchecked
  refine ⟨hcurrent, hchecked, hwritten,
    (hscan o _ _ _ rfl hscanRoot hs hbase ⟨"gone"⟩).mpr hwritten, ?_⟩
  -- the bare name has no folder that could be missing
  obtain ⟨hagree', -, hdone⟩ := checkFolder_agrees_writeReport hcurrent "x" ⟨"r.txt"⟩
  have hpassed : checkFolder d (some ⟨"r.txt"⟩) = .ok () := rfl
  have hnot : ∀ folder, checkFolder d (some ⟨"r.txt"⟩) ≠ .error (.reportFolderNotFound folder) := by
    intro folder
    rw [hpassed]
    intro h
    cases h
  rcases hdone hnot fun folder h => hnot folder ((hagree' folder).mpr h) with
    ⟨d', hd', hread, -⟩ | ⟨f, hf⟩
  · exact ⟨d', hd', hread⟩
  · have hok : (writeReport d "x" ⟨"r.txt"⟩).isOk = true := by decide +kernel
    rw [hf] at hok
    cases hok

end UpgradeScan
