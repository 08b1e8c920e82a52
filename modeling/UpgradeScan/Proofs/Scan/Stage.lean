/-
`Proofs/Scan/Stage.lean` -- the stages of a scan and how each of them fails.

What it is for a stage to fail is said without the scan: of the machine, of the order, and of what
the engine does. A stage that works with the result of an earlier one can fail only where there is
such a result. For each stage one lemma says that the scan's own function for it fails in exactly
these cases.

The stages come in two groups. The first six ask whether what the scan works with is there, and look
at nothing but the disk. The other three do the work: the engine is started, its report is rendered,
and the text is written. They depend on what is not on the disk as well: on what the engine does, on
what comes up while a template is rendered, and on how much the output still takes. A text that is
written to a file and one that is printed are refused by different things, so the last stage is the
only one that can fail in two ways.

A stack that is full is not among the failures. It ends the program inside a stage, and the stage
has no error then.
-/
import UpgradeScan.Scan.Run
import UpgradeScan.Proofs.Files.Write
import UpgradeScan.Proofs.Report.Templates

set_option autoImplicit false

namespace UpgradeScan

/-! ## 1. The call of the engine

All that a scan has to do with the engine is one call and one answer. The answer is not trusted: an
engine that starts can still end with another status than 0, and one that ends with status 0 can
still have written something that is no report. -/

/-- A program with its arguments. -/
structure Call where
  program : String
  arguments : List String
  deriving DecidableEq, Repr

/-- No text of a call holds the character that no program can be given. -/
def Call.Clean (c : Call) : Prop := ∀ t ∈ c.program :: c.arguments, '\x00' ∉ t.toList

/-- The call that a scan makes. -/
def Preparation.call (p : Preparation) : Call :=
  ⟨p.settings.program,
    p.settings.arguments ++ (Ruleset.select p.settings.target p.matchers).arguments p.root⟩

/-- The engine gives a report: it starts, ends with status 0, and what it wrote is the report. -/
structure Answers (launch : Launcher) (c : Call) (d d' : Disk) (all : Report) : Prop where
  clean : c.Clean
  output : ∃ out, launch c.program c.arguments d = (.ok out, d') ∧ out.ending = .status 0 ∧
    Report.ofBytes out.output = .ok all

/-- The engine gives no report, and why. -/
inductive GivesNoReport (launch : Launcher) (c : Call) (d : Disk) : EngineFault → Prop
  /-- It cannot be started with such a text. -/
  | unclean (h : ¬ c.Clean) : GivesNoReport launch c d (.notStarted c.program .nulInArgument)
  | notStarted {why : StartFault} (hclean : c.Clean)
      (h : (launch c.program c.arguments d).1 = .error why) :
      GivesNoReport launch c d (.notStarted c.program why)
  | ended {out : Outcome} (hclean : c.Clean)
      (h : (launch c.program c.arguments d).1 = .ok out) (hending : out.ending ≠ .status 0) :
      GivesNoReport launch c d
        (.ended c.program out.ending (Text.trimmed (Text.Utf8.lossy out.complaints)))
  | unreadable {out : Outcome} {defect : Defect} (hclean : c.Clean)
      (h : (launch c.program c.arguments d).1 = .ok out) (hending : out.ending = .status 0)
      (hdefect : Report.ofBytes out.output = .error defect) :
      GivesNoReport launch c d (.unreadable defect)

/-! ## 2. The stages

Nine stages, in the order in which they are passed. Where a stage works with what an earlier one
gave, that is a premise of its failure, so that no failure is claimed for a stage that is not come
to with something to work on. -/

/-- The stages of a scan. -/
inductive Stage where
  /-- The path to scan leads to a folder. -/
  | root
  /-- The configuration is found and loaded. -/
  | configuration
  /-- One of the places for matchers is a folder. -/
  | matchers
  /-- The folder that the report file names is there. -/
  | folder
  /-- All templates can be used. -/
  | templates
  /-- The format is known. -/
  | format
  /-- The engine gives a report. -/
  | engine
  | rendering
  | writing
  deriving DecidableEq, Repr

/-- The place of a stage in the order, counted from 1. -/
def Stage.number : Stage → Nat
  | .root => 1
  | .configuration => 2
  | .matchers => 3
  | .folder => 4
  | .templates => 5
  | .format => 6
  | .engine => 7
  | .rendering => 8
  | .writing => 9

/-- No two stages have the same place. -/
theorem Stage.eq_of_number_eq {j k : Stage} (h : j.number = k.number) : j = k := by
  revert h
  cases j <;> cases k <;> decide

/-- What a scan works with, as the disk and the order give it. -/
structure Given (d : Disk) (o : Order) (p : Preparation) : Prop where
  root : d.canonical o.path = .ok p.root
  folder : d.isFolder p.root = true
  settings : Settings.resolve d o.home o.start o.overrides = .ok p.settings
  matchers : p.settings.matchers.find? d.isFolder = some p.matchers
  renderer : Renderer.load d p.settings.templates = .ok p.renderer

/-- The engine gives this report and leaves this disk, and rendering it ends with this result. -/
structure Renders (launch : Launcher) (o : Order) (m : Machine) (p : Preparation) (d' : Disk)
    (result : Except ScanError String) : Prop where
  given : Given m.disk o p
  rendered : ∃ all, Answers launch p.call m.disk d' all ∧
    p.render d' o.chance (p.request.context all o.seconds) = result

/-- A stage of a scan fails, and how. -/
inductive Fails (launch : Launcher) (o : Order) (m : Machine) : Stage → ScanError → Prop
  | root (h : ∀ q, m.disk.canonical o.path = .ok q → m.disk.isFolder q = false) :
      Fails launch o m .root (.pathNotFound o.path)
  | configuration {file : Path} {e : ScanError}
      (hfile : Settings.fileFor m.disk o.start o.overrides = some file)
      (h : Configuration.load m.disk file = .error e) : Fails launch o m .configuration e
  | matchers {s : Settings} (hs : Settings.resolve m.disk o.home o.start o.overrides = .ok s)
      (h : ∀ p ∈ s.matchers, m.disk.isFolder p = false) :
      Fails launch o m .matchers (.matchersNotFound s.matchers)
  | folder {file parent : Path} (hfile : o.reportFile = some file)
      (hparent : file.parent? = some parent) (hne : parent.text ≠ "")
      (h : m.disk.isFolder parent = false) :
      Fails launch o m .folder (.reportFolderNotFound parent)
  | templates {s : Settings} {f : Template.LoadFault}
      (hs : Settings.resolve m.disk o.home o.start o.overrides = .ok s)
      (h : Renderer.FirstUnusable (Renderer.sources m.disk s.templates) f) :
      Fails launch o m .templates (.template (f := f))
  | format {s : Settings} {r : Renderer}
      (hs : Settings.resolve m.disk o.home o.start o.overrides = .ok s)
      (hr : Renderer.load m.disk s.templates = .ok r)
      (h : Renderer.formatName s.format ∉ r.formats) :
      Fails launch o m .format (.unknownFormat s.format)
  | engine {p : Preparation} {f : EngineFault} (hp : Given m.disk o p)
      (h : GivesNoReport launch p.call m.disk f) : Fails launch o m .engine (.engine f)
  | rendering {p : Preparation} {d' : Disk} {e : ScanError}
      (h : Renders launch o m p d' (.error e)) (hreturned : e.isReturned = true) :
      Fails launch o m .rendering e
  /-- The disk does not take the report. -/
  | writing {p : Preparation} {d' : Disk} {text : String} {file : Path} {e : ScanError}
      (htext : Renders launch o m p d' (.ok text)) (hfile : o.reportFile = some file)
      (h : writeReport d' text file = .error e) : Fails launch o m .writing e
  /-- The output has no room for all of the report. -/
  | printing {p : Preparation} {d' : Disk} {text : String} {n : Nat} {f : Fault}
      (htext : Renders launch o m p d' (.ok text)) (hfile : o.reportFile = none)
      (hroom : m.output.room = some (n, f)) (h : n < (Text.Utf8.bytes text).length) :
      Fails launch o m .writing (.io f)

/-- The stack is full before the rendering has a result. -/
def Exhausts (launch : Launcher) (o : Order) (m : Machine) : Prop :=
  ∃ p d', Renders launch o m p d' (.error (.render (i := .exhausted)))

/-! ## 3. What each stage asks

The first six stages are functions of the scan, so for each of them there is one lemma: the stage
fails with an error exactly when its function returns that error. -/

variable {launch : Launcher} {o : Order} {m : Machine} {d : Disk} {e : ScanError}

/-- The path to scan is refused as a path that is not there, whatever the reason is. -/
theorem fails_root_iff : Fails launch o m .root e ↔ scanRoot m.disk o.path = .error e := by
  constructor
  · intro h
    cases h with
    | root h =>
      unfold scanRoot
      cases hq : m.disk.canonical o.path with
      | error f => rfl
      | ok q => simp only [h q hq, Bool.false_eq_true, if_false]
  · intro h
    unfold scanRoot at h
    cases hq : m.disk.canonical o.path with
    | error f =>
      rw [hq] at h
      cases h
      exact .root fun q hq' => by rw [hq] at hq'; cases hq'
    | ok q =>
      rw [hq] at h
      cases hf : m.disk.isFolder q with
      | true =>
        simp only [hf, if_true] at h
        cases h
      | false =>
        simp only [hf, Bool.false_eq_true, if_false] at h
        cases h
        refine .root fun q' hq' => ?_
        rw [hq] at hq'
        cases hq'
        exact hf

/-- Settings fail only in the configuration file, where there is one. -/
theorem fails_configuration_iff :
    Fails launch o m .configuration e ↔
      Settings.resolve m.disk o.home o.start o.overrides = .error e := by
  constructor
  · intro h
    cases h with
    | configuration hfile h =>
      rw [Settings.resolve, hfile]
      simp only [h, Except.map]
  · intro h
    unfold Settings.resolve at h
    cases hfile : Settings.fileFor m.disk o.start o.overrides with
    | none =>
      rw [hfile] at h
      cases h
    | some file =>
      rw [hfile] at h
      cases hload : Configuration.load m.disk file with
      | ok c =>
        simp only [hload, Except.map] at h
        cases h
      | error e' =>
        simp only [hload, Except.map] at h
        cases h
        exact .configuration hfile hload

/-- Of the places for matchers all are named in the failure, in the order in which they were asked.
-/
theorem fails_matchers_iff {s : Settings}
    (hs : Settings.resolve m.disk o.home o.start o.overrides = .ok s) :
    Fails launch o m .matchers e ↔ locateMatchers m.disk s.matchers = .error e := by
  unfold locateMatchers
  constructor
  · intro h
    cases h with
    | @matchers s' hs' h =>
      rw [hs] at hs'
      cases hs'
      rw [List.find?_eq_none.mpr fun p hp => by rw [h p hp]; exact Bool.false_ne_true]
  · intro h
    cases hf : s.matchers.find? m.disk.isFolder with
    | some p =>
      rw [hf] at h
      cases h
    | none =>
      rw [hf] at h
      cases h
      refine .matchers hs fun p hp => ?_
      simpa using List.find?_eq_none.mp hf p hp

/-- The folder of the report is asked about only if the order names a report file, and that names a
folder. -/
theorem fails_folder_iff :
    Fails launch o m .folder e ↔ checkFolder m.disk o.reportFile = .error e := by
  unfold checkFolder
  constructor
  · intro h
    cases h with
    | @folder file parent hfile hparent hne h =>
      have hempty : parent.text.isEmpty = false := by simpa using hne
      simp only [hfile, Option.bind_some, hparent, hempty, h, Bool.or_false, Bool.false_eq_true,
        if_false]
  · intro h
    cases hparent : o.reportFile.bind Path.parent? with
    | none =>
      rw [hparent] at h
      cases h
    | some parent =>
      rw [hparent] at h
      obtain ⟨file, hfile, hparent⟩ := Option.bind_eq_some_iff.mp hparent
      simp only at h
      split at h
      · cases h
      · next hnot =>
        cases h
        simp only [Bool.or_eq_true, not_or, Bool.not_eq_true] at hnot
        exact .folder hfile hparent (by simpa using hnot.1) hnot.2

/-- Loading fails with the first template that cannot be used. -/
theorem fails_templates_iff {s : Settings}
    (hs : Settings.resolve m.disk o.home o.start o.overrides = .ok s) :
    Fails launch o m .templates e ↔ Renderer.load m.disk s.templates = .error e := by
  rw [Renderer.load_eq_error_iff]
  constructor
  · intro h
    cases h with
    | @templates s' f hs' h =>
      rw [hs] at hs'
      cases hs'
      exact ⟨f, h, rfl⟩
  · rintro ⟨f, h, rfl⟩
    exact .templates hs h

/-- The format is refused in the words of the settings. -/
theorem fails_format_iff {s : Settings} {r : Renderer}
    (hs : Settings.resolve m.disk o.home o.start o.overrides = .ok s)
    (hr : Renderer.load m.disk s.templates = .ok r) :
    Fails launch o m .format e ↔ checkFormat r s.format = .error e := by
  rw [checkFormat, Renderer.knows]
  constructor
  · intro h
    cases h with
    | @format s' r' hs' hr' h =>
      rw [hs] at hs'
      cases hs'
      rw [hr] at hr'
      cases hr'
      rw [if_neg (by simpa using h)]
  · intro h
    split at h
    · cases h
    · next hnot =>
      cases h
      exact .format hs hr (by simpa using hnot)

/-- A path that is accepted is scanned by its canonical form, which leads to a folder. -/
theorem scanRoot_eq_ok {p q : Path} (h : scanRoot d p = .ok q) :
    d.canonical p = .ok q ∧ d.isFolder q = true := by
  unfold scanRoot at h
  cases hq : d.canonical p with
  | error f =>
    rw [hq] at h
    cases h
  | ok q' =>
    simp only [hq] at h
    split at h
    · next hf =>
      cases h
      exact ⟨rfl, hf⟩
    · cases h

/-- The first of the places that is a folder is taken. -/
theorem locateMatchers_eq_ok {candidates : List Path} {p : Path}
    (h : locateMatchers d candidates = .ok p) : candidates.find? d.isFolder = some p := by
  unfold locateMatchers at h
  split at h
  · next q hq =>
    cases h
    exact hq
  · cases h

/-- There is only one thing that a scan can work with. -/
theorem Given.unique {p q : Preparation} (hp : Given d o p) (hq : Given d o q) : p = q := by
  obtain ⟨root, s, base, r⟩ := p
  obtain ⟨root', s', base', r'⟩ := q
  obtain rfl : root = root' := Except.ok.inj (hp.root.symm.trans hq.root)
  obtain rfl : s = s' := Except.ok.inj (hp.settings.symm.trans hq.settings)
  obtain rfl : base = base' := Option.some.inj (hp.matchers.symm.trans hq.matchers)
  obtain rfl : r = r' := Except.ok.inj (hp.renderer.symm.trans hq.renderer)
  rfl

/-! ## 4. What the engine does

A call is noted, changes the disk in no other way than the program that was called, and prints
nothing. What the program wrote is either a reason for which there is no report, or a report. -/

namespace Machine

variable (launch : Launcher) (program : String) (args : List String) (m : Machine)

/-- Every start is noted, also that of a program which cannot be started. -/
@[simp] theorem started_start :
    (m.start launch program args).2.started = (program, args) :: m.started := by
  unfold start
  split <;> rfl

@[simp] theorem output_start : (m.start launch program args).2.output = m.output := by
  unfold start
  split <;> rfl

/-- A clean call is carried out, and what the program leaves behind is the new disk. -/
theorem start_of_clean (h : Call.Clean ⟨program, args⟩) :
    m.start launch program args =
      ((launch program args m.disk).1,
        ⟨(launch program args m.disk).2, m.output, (program, args) :: m.started⟩) := by
  rw [start, if_neg]
  intro hnul
  obtain ⟨t, ht, hmem⟩ := List.any_eq_true.mp hnul
  exact h t ht (by simpa using hmem)

/-- A call that is not clean is refused before there is a program to look for. -/
theorem start_of_not_clean (h : ¬ Call.Clean ⟨program, args⟩) :
    m.start launch program args =
      (.error .nulInArgument, ⟨m.disk, m.output, (program, args) :: m.started⟩) := by
  rw [start, if_pos]
  -- a text without the character would make the call clean
  refine Classical.byContradiction fun hnul => h fun t ht hmem => ?_
  exact hnul (List.any_eq_true.mpr ⟨t, ht, by simpa using hmem⟩)

/-- The only disk that a start can leave behind is the one that the program leaves. -/
theorem sameFiles_start (h : m.disk.SameFiles (launch program args m.disk).2) :
    m.disk.SameFiles (m.start launch program args).2.disk := by
  by_cases hclean : Call.Clean ⟨program, args⟩
  · rw [start_of_clean launch program args m hclean]
    exact h
  · rw [start_of_not_clean launch program args m hclean]
    exact .refl _

end Machine

/-- The machine after the call of a prepared scan. -/
def Preparation.called (p : Preparation) (launch : Launcher) (m : Machine) : Machine :=
  (m.start launch p.call.program p.call.arguments).2

section

variable (launch : Launcher) (m : Machine) (p : Preparation)

/-- The call is noted. -/
@[simp] theorem Preparation.started_called :
    (p.called launch m).started = (p.call.program, p.call.arguments) :: m.started :=
  Machine.started_start launch p.call.program p.call.arguments m

@[simp] theorem Preparation.output_called : (p.called launch m).output = m.output :=
  Machine.output_start launch p.call.program p.call.arguments m

variable {launch m p}

theorem Preparation.sameFiles_called
    (h : ∀ program args, m.disk.SameFiles (launch program args m.disk).2) :
    m.disk.SameFiles (p.called launch m).disk :=
  Machine.sameFiles_start launch p.call.program p.call.arguments m (h _ _)

end

/-- What an engine that started has to say about its report: the status is asked first, so a report
that was written before the engine failed does not count. -/
theorem Outcome.report_cases (program : String) (out : Outcome) :
    (out.ending ≠ .status 0 ∧ out.report program =
      .error (.ended program out.ending (Text.trimmed (Text.Utf8.lossy out.complaints)))) ∨
    (out.ending = .status 0 ∧ ∃ defect, Report.ofBytes out.output = .error defect ∧
      out.report program = .error (.unreadable defect)) ∨
    (out.ending = .status 0 ∧ ∃ all, Report.ofBytes out.output = .ok all ∧
      out.report program = .ok all) := by
  rw [report, Ending.isSuccess]
  by_cases hending : out.ending = .status 0
  · rw [if_pos (by simpa using hending)]
    cases hread : Report.ofBytes out.output with
    | error defect => exact .inr (.inl ⟨hending, defect, rfl, rfl⟩)
    | ok all => exact .inr (.inr ⟨hending, all, rfl, rfl⟩)
  · rw [if_neg (by simpa using hending)]
    exact .inl ⟨hending, rfl⟩

/-- A scan asks the engine once, by its call, and goes on exactly with a report. -/
theorem scan_cases (launch : Launcher) (p : Preparation) (seconds : Number.Binary64)
    (m : Machine) :
    let engine := programEngine launch p.settings.program p.settings.arguments
    (∃ f, GivesNoReport launch p.call m.disk f ∧
      scan engine p.matchers p.request seconds m = (.error f, p.called launch m)) ∨
    (∃ all, Answers launch p.call m.disk (p.called launch m).disk all ∧
      scan engine p.matchers p.request seconds m =
        (.ok (p.request.context all seconds), p.called launch m)) := by
  intro engine
  have hcall : m.start launch p.settings.program (p.settings.arguments ++
      (Ruleset.select p.request.target p.matchers).arguments p.request.root) =
      m.start launch p.call.program p.call.arguments := rfl
  -- the cases are those of `GivesNoReport`, and the one that is left is an answer
  by_cases hclean : p.call.Clean
  · have hstart := Machine.start_of_clean launch p.call.program p.call.arguments m hclean
    cases hlaunch : (launch p.call.program p.call.arguments m.disk).1 with
    | error why =>
      refine .inl ⟨_, .notStarted hclean hlaunch, ?_⟩
      simp only [engine, Preparation.called, scan, programEngine, hcall, hstart, hlaunch]
      rfl
    | ok out =>
      have hlaunched : launch p.call.program p.call.arguments m.disk =
          (.ok out, (p.called launch m).disk) := by
        simp only [Preparation.called, hstart, ← hlaunch]
      rcases out.report_cases p.settings.program with ⟨hending, hreport⟩ |
        ⟨hending, defect, hread, hreport⟩ | ⟨hending, all, hread, hreport⟩
      · refine .inl ⟨_, .ended hclean hlaunch hending, ?_⟩
        simp only [engine, Preparation.called, scan, programEngine, hcall, hstart, hlaunch]
        rw [hreport]
        rfl
      · refine .inl ⟨_, .unreadable hclean hlaunch hending hread, ?_⟩
        simp only [engine, Preparation.called, scan, programEngine, hcall, hstart, hlaunch]
        rw [hreport]
      · refine .inr ⟨all, ⟨hclean, out, hlaunched, hending, hread⟩, ?_⟩
        simp only [engine, Preparation.called, scan, programEngine, hcall, hstart, hlaunch]
        rw [hreport]
  · have hstart := Machine.start_of_not_clean launch p.call.program p.call.arguments m hclean
    refine .inl ⟨_, .unclean hclean, ?_⟩
    simp only [engine, Preparation.called, scan, programEngine, hcall, hstart]
    rfl

/-! ## 5. What takes the report

A report file is taken or refused as a whole. The output may take a part of the text before it
refuses the rest, so here there is one more thing to know: what has arrived. -/

namespace Output

variable (out : Output) (bytes : Bytes)

/-- The output refuses a text exactly when it takes fewer bytes than the text has. -/
theorem write_eq_error_iff {f : Fault} :
    (out.write bytes).1 = .error f ↔ ∃ n, out.room = some (n, f) ∧ n < bytes.length := by
  rw [write]
  cases out.room with
  | none => simp
  | some room =>
    obtain ⟨n, f'⟩ := room
    simp only [Option.some.injEq, Prod.mk.injEq]
    by_cases h : bytes.length ≤ n
    · rw [if_pos h]
      refine ⟨nofun, ?_⟩
      rintro ⟨_, ⟨rfl, -⟩, hlt⟩
      exact absurd hlt (Nat.not_lt.mpr h)
    · rw [if_neg h, Except.error.injEq]
      refine ⟨fun hf => ⟨n, ⟨rfl, hf⟩, Nat.lt_of_not_le h⟩, ?_⟩
      rintro ⟨_, ⟨-, hf⟩, -⟩
      exact hf

end Output

section

variable {text : String} {file : Option Path}

/-- Without a report file, what becomes of the report is what becomes of the printing. -/
theorem deliver_none (text : String) (m : Machine) :
    deliver text none m = ((m.print text).1.mapError .io, (m.print text).2) := by
  unfold deliver
  generalize m.print text = printed
  obtain ⟨_ | _, after⟩ := printed <;> rfl

/-- A report that is not delivered was refused by the disk or by the output. -/
theorem deliver_eq_error_iff : (deliver text file m).1 = .error e ↔
    (∃ p, file = some p ∧ writeReport m.disk text p = .error e) ∨
    file = none ∧ ∃ n f, m.output.room = some (n, f) ∧ n < (Text.Utf8.bytes text).length ∧
      e = .io f := by
  cases file with
  | some p =>
    unfold deliver
    cases hw : writeReport m.disk text p <;> simp [hw]
  | none =>
    have hprint : (m.print text).1 = (m.output.write (Text.Utf8.bytes text)).1 := rfl
    have hwrite := fun f => m.output.write_eq_error_iff (Text.Utf8.bytes text) (f := f)
    simp only [deliver_none, hprint, reduceCtorEq, false_and, exists_false, false_or, true_and]
    cases hout : (m.output.write (Text.Utf8.bytes text)).1 with
    | error f =>
      obtain ⟨n, hn, hlt⟩ := (hwrite f).mp hout
      rw [hn]
      constructor
      · intro h
        cases h
        exact ⟨n, f, rfl, hlt, rfl⟩
      · rintro ⟨_, _, hsome, -, rfl⟩
        cases hsome
        rfl
    | ok u =>
      refine ⟨fun h => (by cases h), ?_⟩
      rintro ⟨n, f, hn, hlt, -⟩
      cases hout.symm.trans ((hwrite f).mpr ⟨n, hn, hlt⟩)

/-- Delivering a report starts nothing. -/
theorem started_deliver (text : String) (file : Option Path) (m : Machine) :
    (deliver text file m).2.started = m.started := by
  cases file with
  | some p =>
    unfold deliver
    cases hw : writeReport m.disk text p <;> simp only [hw]
  | none =>
    rw [deliver_none]
    rfl

end

end UpgradeScan
