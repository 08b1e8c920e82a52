/-
`Proofs/Scan/Format.lean` -- the format is asked about twice, with one answer.

A scan looks its format up in the list of formats before the engine runs, and the rendering looks
for a template of that name afterwards. The first check is there so that a scan with a misspelled
format does not run for minutes before it fails. It does so only if it refuses all that the
rendering would refuse, and no more.

Both refuse the same formats, in the words in which the format was given. Each decides by the name
that the format is looked up by, trimmed and in lower case, and a name has a template exactly when
it is listed or is `json` (`Proofs/Report/Templates.lean`). So a scan that comes to its engine
cannot fail on the format any more, whatever the engine reports and whatever the template does, and
one that is refused for its format could not have been rendered whatever the engine had found. In
the second case the machine is as it was: no program was started, nothing was written and nothing
was printed.

What is rendered may still fail in its template. That is another error, and a template cannot make
it look like an unknown format.
-/
import UpgradeScan.Proofs.Report.Layout
import UpgradeScan.Proofs.Scan.Failure

set_option autoImplicit false

namespace UpgradeScan

/-! ## 1. Before the engine

The check is one lookup in the list of formats. -/

/-- A format that is not listed is refused in the words in which it was given. -/
theorem checkFormat_of_not_mem_formats {r : Renderer} {format : String}
    (h : Renderer.formatName format ∉ r.formats) :
    checkFormat r format = .error (.unknownFormat format) := by
  rw [checkFormat, if_neg (mt Renderer.knows_iff.mp h)]

/-- The check has no other error. -/
theorem checkFormat_eq_error_iff {r : Renderer} {format : String} {e : ScanError} :
    checkFormat r format = .error e ↔
      Renderer.formatName format ∉ r.formats ∧ e = .unknownFormat format := by
  by_cases h : Renderer.formatName format ∈ r.formats
  · rw [checkFormat_of_mem_formats h]
    exact ⟨nofun, fun h' => absurd h h'.1⟩
  · rw [checkFormat_of_not_mem_formats h, Except.error.injEq]
    exact ⟨fun he => ⟨h, he.symm⟩, fun h' => h'.2.symm⟩

/-! ## 2. From the engine on

Nothing that a prepared scan does can end with an unknown format: the engine has its own errors, the
rendering of a listed format fails in its template at most, and the writing fails with the folder or
the disk. -/

/-- Writing a report does not ask about formats. -/
theorem writeReport_ne_unknownFormat (d : Disk) (text : String) (file : Path) (format : String) :
    writeReport d text file ≠ .error (.unknownFormat format) := by
  intro h
  rw [writeReport] at h
  split at h
  · split at h <;> cases h
  · cases h

/-- A prepared scan whose format is listed does not fail on the format. -/
theorem Preparation.run_ne_unknownFormat (launch : Launcher) (o : Order) (m : Machine)
    {p : Preparation} (h : Renderer.formatName p.settings.format ∈ p.renderer.formats)
    (format : String) : (p.run launch o m).1 ≠ .error (.unknownFormat format) := by
  intro hrun
  simp only [run] at hrun
  -- the engine, the template, and what takes the report each have errors of their own
  split at hrun
  · cases hrun
  · split at hrun
    · next htext =>
      cases hrun
      exact (Renderer.render_eq_unknownFormat_iff.mp htext).1 h
    · split at hrun
      · next hdeliver =>
        cases hrun
        rcases deliver_eq_error_iff.mp (congrArg Prod.fst hdeliver) with ⟨file, -, hwrite⟩ |
          ⟨-, _, _, -, -, hio⟩
        · exact writeReport_ne_unknownFormat _ _ _ _ hwrite
        · cases hio
      · cases hrun

/-! ## 3. The two answers

A scan that has all else it works with is decided by the check, one way or the other. -/

section

variable (launch : Launcher) {o : Order} {m : Machine} {p : Preparation}

/-- With a listed format a scan goes on to its engine. -/
theorem runScan_of_mem_formats (hp : Given m.disk o p)
    (hfolder : checkFolder m.disk o.reportFile = .ok ())
    (h : Renderer.formatName p.settings.format ∈ p.renderer.formats) :
    runScan launch o m = p.run launch o m := by
  rw [runScan, prepare_of_given hp hfolder, checkFormat_of_mem_formats h]
  rfl

/-- With any other format it ends there, and leaves the machine as it was. -/
theorem runScan_of_not_mem_formats (hp : Given m.disk o p)
    (hfolder : checkFolder m.disk o.reportFile = .ok ())
    (h : Renderer.formatName p.settings.format ∉ p.renderer.formats) :
    runScan launch o m = (.error (.unknownFormat p.settings.format), m) := by
  rw [runScan, prepare_of_given hp hfolder, checkFormat_of_not_mem_formats h]
  rfl

end

/-- **The two checks of a format agree.** Whatever the templates are, the check before the scan
refuses a format exactly when the rendering of any context does, and both name it as it was given.
A scan that has all else it works with is refused with the unknown format exactly when rendering
would be, and then it leaves the machine as it was. -/
theorem checkFormat_agrees_render (r : Renderer) (format : String) (d : Disk) (log : Changelog)
    (c : Context) (chance : Template.Chance) :
    let checked := checkFormat r format
    let rendered := (r.render d log format c chance).1
    (checked = .error (.unknownFormat format) ↔ rendered = .error (.unknownFormat format)) ∧
    (∀ e, checked = .error e → e = .unknownFormat format) ∧
    (∀ name, rendered = .error (.unknownFormat name) → name = format) ∧
    ∀ (launch : Launcher) (o : Order) (m : Machine) (p : Preparation), Given m.disk o p →
      checkFolder m.disk o.reportFile = .ok () → p.renderer = r → p.settings.format = format →
      ((runScan launch o m).1 = .error (.unknownFormat format) ↔
        rendered = .error (.unknownFormat format)) ∧
      (rendered = .error (.unknownFormat format) → (runScan launch o m).2 = m) := by
  intro checked rendered
  have hchecked : checked = .error (.unknownFormat format) ↔
      Renderer.formatName format ∉ r.formats := by
    rw [checkFormat_eq_error_iff, and_iff_left rfl]
  have hrendered : rendered = .error (.unknownFormat format) ↔
      Renderer.formatName format ∉ r.formats := by
    rw [Renderer.render_eq_unknownFormat_iff, and_iff_left rfl]
  refine ⟨hchecked.trans hrendered.symm, fun e he => (checkFormat_eq_error_iff.mp he).2,
    fun name hname => (Renderer.render_eq_unknownFormat_iff.mp hname).2, ?_⟩
  intro launch o m p hp hfolder hr hformat
  subst hr hformat
  rw [hrendered]
  by_cases h : Renderer.formatName p.settings.format ∈ p.renderer.formats
  · rw [runScan_of_mem_formats launch hp hfolder h]
    exact ⟨⟨fun herror => absurd herror (p.run_ne_unknownFormat launch o m h _),
      fun hnot => absurd h hnot⟩, fun hnot => absurd h hnot⟩
  · rw [runScan_of_not_mem_formats launch hp hfolder h]
    exact ⟨iff_of_true rfl h, fun _ => rfl⟩

/-- A scan with a template directory asks for ` Csv`, which is looked up as `csv`: it is refused in
the words of the order, and the engine is not started. Another one asks for ` OWN`, which is a
template of the directory, and is not refused. -/
theorem checkFormat_agrees_render_of_directory :
    let r := Sample.renderer ⟨"/good"⟩
    let refused := Sample.order ⟨"/good"⟩ none " Csv" none
    let accepted := Sample.order ⟨"/good"⟩ none " OWN" none
    let m : Machine := .fresh Sample.disk
    (checkFormat r " Csv" = .error (.unknownFormat " Csv") ∧
      (r.render m.disk default " Csv" default).1 = .error (.unknownFormat " Csv") ∧
      (runScan Sample.engine refused m).1 = .error (.unknownFormat " Csv") ∧
      (runScan Sample.engine refused m).2 = m) ∧
    checkFormat r " OWN" = .ok () ∧
      (r.render m.disk default " OWN" default).1 = .ok "found 0" ∧
      (runScan Sample.engine accepted m).1 ≠ .error (.unknownFormat " OWN") := by
  intro r refused accepted m
  have hgood : (⟨"/good"⟩ : Path) ∈ Sample.directories := by decide
  have hnames : (r.templates.lookup (Renderer.formatName " Csv")).isSome = false ∧
      (r.templates.lookup (Renderer.formatName " OWN")).isSome = true := by decide +kernel
  have hchecked : checkFormat r " Csv" = .error (.unknownFormat " Csv") := by
    refine checkFormat_of_not_mem_formats ?_
    rw [Renderer.mem_formats_iff, ← Option.isSome_iff_exists, hnames.1]
    decide
  have hpassed : checkFormat r " OWN" = .ok () := by
    refine checkFormat_of_mem_formats ?_
    rw [Renderer.mem_formats_iff, ← Option.isSome_iff_exists, hnames.2]
    exact .inr rfl
  have hfound : (r.render m.disk default " OWN" default).1 = .ok "found 0" := by decide +kernel
  obtain ⟨hiff, -, -, hscan⟩ := checkFormat_agrees_render r " Csv" m.disk default default {}
  obtain ⟨-, -, -, hscan'⟩ := checkFormat_agrees_render r " OWN" m.disk default default {}
  have hrendered := hiff.mp hchecked
  obtain ⟨hrefused, hsame⟩ := hscan Sample.engine refused m _
    (Sample.given hgood none " Csv" none) rfl rfl rfl
  obtain ⟨haccepted, -⟩ := hscan' Sample.engine accepted m _
    (Sample.given hgood none " OWN" none) rfl rfl rfl
  refine ⟨⟨hchecked, hrendered, hrefused.mpr hrendered, hsame hrendered⟩, hpassed, hfound,
    fun herror => ?_⟩
  cases hfound.symm.trans (haccepted.mp herror)

end UpgradeScan
