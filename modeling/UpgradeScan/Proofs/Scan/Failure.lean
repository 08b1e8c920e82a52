/-
`Proofs/Scan/Failure.lean` -- the stage at which a scan fails.

The first stage that fails decides the error, whatever else is wrong. Up to the format nothing has
been started; from the engine on one program has. Until the report is written no file is touched
by the scan itself and nothing is printed.

Any number of stages may be unable to succeed at once, so what has to be shown is an order. The
proof goes through the stages as the scan does and keeps one fact on its way, that every stage so
far is clear (`Clear`). At each stage either the fact is extended by one, or the stage fails and is
the first to do so (`FirstFailure`). That a scan has only one first failure follows from the stages
alone and does not look at the scan. How a scan ends is then a relation with one constructor for
each way (`Ends`), and all that is said of a whole scan is read off it.

There is one more way in which a scan can end, and it is not a failure of a stage: the stack may be
full before a template is rendered (`Exhausts`). Then the scan has no result to speak of. It is told
apart from the failures, and what holds up to a failed rendering holds for it too.
-/
import UpgradeScan.Proofs.Report.Document
import UpgradeScan.Proofs.Scan.Stage
import UpgradeScan.Proofs.Settings

set_option autoImplicit false

namespace UpgradeScan

variable {launch : Launcher} {o : Order} {m : Machine} {d : Disk}

/-! ## 1. A stage fails in one way

The engine either answers or gives no report, and for one reason. From that it follows that whatever
is rendered is rendered of one report and on one disk, and so each stage has at most one error. -/

/-- An engine gives one report and leaves one disk. -/
theorem Answers.unique {c : Call} {d₁ d₂ : Disk} {r₁ r₂ : Report}
    (h₁ : Answers launch c d d₁ r₁) (h₂ : Answers launch c d d₂ r₂) : d₁ = d₂ ∧ r₁ = r₂ := by
  obtain ⟨out, hout, -, hread⟩ := h₁.output
  obtain ⟨out', hout', -, hread'⟩ := h₂.output
  rw [hout] at hout'
  cases hout'
  exact ⟨rfl, Except.ok.inj (hread.symm.trans hread')⟩

/-- An engine that gives no report has one reason: the status is asked before the output. -/
theorem GivesNoReport.unique {c : Call} {f₁ f₂ : EngineFault} (h₁ : GivesNoReport launch c d f₁)
    (h₂ : GivesNoReport launch c d f₂) : f₁ = f₂ := by
  -- two different reasons contradict each other: on the texts, the start, the end or the output
  cases h₁ with
  | unclean h =>
    cases h₂ with
    | unclean _ => rfl
    | notStarted hclean _ => exact absurd hclean h
    | ended hclean _ _ => exact absurd hclean h
    | unreadable hclean _ _ _ => exact absurd hclean h
  | notStarted hclean h =>
    cases h₂ with
    | unclean h' => exact absurd hclean h'
    | notStarted _ h' => rw [Except.error.inj (h.symm.trans h')]
    | ended _ h' _ => cases h.symm.trans h'
    | unreadable _ h' _ _ => cases h.symm.trans h'
  | ended hclean h hending =>
    cases h₂ with
    | unclean h' => exact absurd hclean h'
    | notStarted _ h' => cases h.symm.trans h'
    | ended _ h' _ => rw [Except.ok.inj (h.symm.trans h')]
    | unreadable _ h' hending' _ =>
      rw [Except.ok.inj (h.symm.trans h')] at hending
      exact absurd hending' hending
  | unreadable hclean h hending hdefect =>
    cases h₂ with
    | unclean h' => exact absurd hclean h'
    | notStarted _ h' => cases h.symm.trans h'
    | ended _ h' hending' =>
      rw [← Except.ok.inj (h.symm.trans h')] at hending'
      exact absurd hending hending'
    | unreadable _ h' _ hdefect' =>
      rw [← Except.ok.inj (h.symm.trans h'), hdefect] at hdefect'
      rw [Except.error.inj hdefect']

/-- An engine that gives a report does not also fail. -/
theorem Answers.not_givesNoReport {c : Call} {d' : Disk} {all : Report} {f : EngineFault}
    (h : Answers launch c d d' all) : ¬ GivesNoReport launch c d f := by
  obtain ⟨out, hout, hending, hread⟩ := h.output
  have hfst : (launch c.program c.arguments d).1 = .ok out := by rw [hout]
  intro hf
  cases hf with
  | unclean hclean => exact hclean h.clean
  | notStarted _ h' => cases hfst.symm.trans h'
  | ended _ h' hending' =>
    rw [← Except.ok.inj (hfst.symm.trans h')] at hending'
    exact hending' hending
  | unreadable _ h' _ hdefect =>
    rw [← Except.ok.inj (hfst.symm.trans h'), hread] at hdefect
    cases hdefect

/-- What a scan renders, where, and with which result, is given by the machine and the order. -/
theorem Renders.unique {p q : Preparation} {d₁ d₂ : Disk} {r₁ r₂ : Except ScanError String}
    (h₁ : Renders launch o m p d₁ r₁) (h₂ : Renders launch o m q d₂ r₂) :
    p = q ∧ d₁ = d₂ ∧ r₁ = r₂ := by
  obtain rfl := h₁.given.unique h₂.given
  obtain ⟨all, hall, rfl⟩ := h₁.rendered
  obtain ⟨all', hall', rfl⟩ := h₂.rendered
  obtain ⟨rfl, rfl⟩ := hall.unique hall'
  exact ⟨rfl, rfl, rfl⟩

/-- A stage has at most one error. Each kind of failure is given by what the stage looks at, and the
two ways in which the last one fails exclude each other. -/
theorem Fails.unique {k : Stage} {e₁ e₂ : ScanError} (h₁ : Fails launch o m k e₁)
    (h₂ : Fails launch o m k e₂) : e₁ = e₂ := by
  cases h₁ with
  | root _ => cases h₂; rfl
  | configuration hfile h =>
    cases h₂ with
    | configuration hfile' h' =>
      rw [Option.some.inj (hfile.symm.trans hfile')] at h
      exact Except.error.inj (h.symm.trans h')
  | matchers hs _ =>
    cases h₂ with
    | matchers hs' _ => rw [Except.ok.inj (hs.symm.trans hs')]
  | folder hfile hparent _ _ =>
    cases h₂ with
    | folder hfile' hparent' _ _ =>
      rw [Option.some.inj (hfile.symm.trans hfile')] at hparent
      rw [Option.some.inj (hparent.symm.trans hparent')]
  | templates hs h =>
    -- both are what the templates of one directory are refused for
    have hfails : Fails launch o m .templates _ := .templates hs h
    rw [fails_templates_iff hs] at hfails h₂
    exact Except.error.inj (hfails.symm.trans h₂)
  | format hs _ _ =>
    cases h₂ with
    | format hs' _ _ => rw [Except.ok.inj (hs.symm.trans hs')]
  -- from here on the two failures are of one preparation, so of one call with one answer
  | engine hp h =>
    cases h₂ with
    | engine hp' h' =>
      rw [hp.unique hp'] at h
      rw [h.unique h']
  | rendering h _ =>
    cases h₂ with
    | rendering h' _ => exact Except.error.inj (h.unique h').2.2
  | writing htext hfile h =>
    cases h₂ with
    | writing htext' hfile' h' =>
      obtain ⟨-, rfl, htexts⟩ := htext.unique htext'
      rw [Except.ok.inj htexts, Option.some.inj (hfile.symm.trans hfile')] at h
      exact Except.error.inj (h.symm.trans h')
    | printing _ hfile' _ _ => cases hfile.symm.trans hfile'
  | printing _ hfile hroom _ =>
    cases h₂ with
    | writing _ hfile' _ => cases hfile.symm.trans hfile'
    | printing _ _ hroom' _ =>
      cases hroom.symm.trans hroom'
      rfl

/-- A full stack is the only end that nobody is told about. -/
theorem ScanError.isReturned_eq_false_iff {e : ScanError} :
    e.isReturned = false ↔ e = .render (i := .exhausted) := by
  constructor
  · intro h
    unfold isReturned at h
    split at h
    · rfl
    · cases h
  · rintro rfl
    rfl

/-- What a stage fails with is told to whoever asked for the scan. -/
theorem Fails.isReturned {k : Stage} {e : ScanError} (h : Fails launch o m k e) :
    e.isReturned = true := by
  cases h with
  | configuration _ h =>
    obtain ⟨file, why, rfl⟩ := Configuration.load_eq_error h
    rfl
  | rendering _ hreturned => exact hreturned
  | writing _ _ h =>
    rw [writeReport] at h
    split at h
    · split at h <;> cases h
      rfl
    · cases h
      rfl
  | _ => rfl

/-! ## 2. The first stage that fails

A stage is the first to fail when it fails and every stage before it is clear. Two of them cannot be
different: the earlier one would stand in the way of the later one. -/

/-- No stage before the `n`-th fails. -/
def Clear (launch : Launcher) (o : Order) (m : Machine) (n : Nat) : Prop :=
  ∀ j : Stage, j.number < n → ∀ e, ¬ Fails launch o m j e

/-- The stage fails, and no stage before it does. -/
structure FirstFailure (launch : Launcher) (o : Order) (m : Machine) (k : Stage) (e : ScanError) :
    Prop where
  fails : Fails launch o m k e
  clear : Clear launch o m k.number

/-- Before the first stage nothing can have failed. -/
theorem clear_one : Clear launch o m 1 := by
  intro j hj
  cases j <;> exact absurd hj (by decide)

/-- The step of the proof: a stage that does not fail lets what is clear reach past it. -/
theorem Clear.next (k : Stage) (h : Clear launch o m k.number)
    (hk : ∀ e, ¬ Fails launch o m k e) : Clear launch o m (k.number + 1) := by
  intro j hj
  by_cases hlt : j.number < k.number
  · exact h j hlt
  · have hjk : j = k := Stage.eq_of_number_eq (by omega)
    subst hjk
    exact hk

/-- What is clear up to a stage is clear up to every stage before it. -/
theorem Clear.mono {n n' : Nat} (h : Clear launch o m n) (hn : n' ≤ n) : Clear launch o m n' :=
  fun j hj => h j (Nat.lt_of_lt_of_le hj hn)

/-- Where all stages are clear there is no first failure. -/
theorem Clear.not_firstFailure (h : Clear launch o m 10) {k : Stage} {e : ScanError} :
    ¬ FirstFailure launch o m k e := by
  intro hfirst
  exact h k (by cases k <;> decide) e hfirst.fails

/-- There is one first failure, with one error. This is about the stages alone. -/
theorem FirstFailure.unique {j k : Stage} {e₁ e₂ : ScanError}
    (h₁ : FirstFailure launch o m j e₁) (h₂ : FirstFailure launch o m k e₂) :
    j = k ∧ e₁ = e₂ := by
  -- each of two first failures would forbid the other one before it
  have hnumber : j.number = k.number := by
    rcases Nat.lt_trichotomy j.number k.number with hlt | heq | hgt
    · exact absurd h₁.fails (h₂.clear j hlt e₁)
    · exact heq
    · exact absurd h₂.fails (h₁.clear k hgt e₂)
  obtain rfl := Stage.eq_of_number_eq hnumber
  exact ⟨rfl, h₁.fails.unique h₂.fails⟩

/-- Where the rendering has no result, neither it nor a later stage fails. -/
theorem Exhausts.clear (h : Exhausts launch o m) (hclear : Clear launch o m 8) :
    Clear launch o m 10 := by
  obtain ⟨p, d', hfull⟩ := h
  refine (hclear.next .rendering fun e he => ?_).next .writing fun e he => ?_
  · cases he with
    | rendering h' hreturned =>
      rw [← Except.error.inj (hfull.unique h').2.2] at hreturned
      cases hreturned
  · cases he with
    | writing h' _ _ => cases (hfull.unique h').2.2
    | printing h' _ _ _ => cases (hfull.unique h').2.2

/-! ## 3. Before the engine

Six checks in a row, each of them a function that returns an error or lets the scan go on. -/

theorem error_bind {ε α β : Type} (e : ε) (f : α → Except ε β) :
    (Except.error e >>= f) = .error e := rfl

theorem ok_bind {ε α β : Type} (a : α) (f : α → Except ε β) : (Except.ok a >>= f) = f a := rfl

/-- A result that is there is the result. -/
theorem eq_ok_of_toOption {ε α : Type} {r : Except ε α} {a : α} (h : r.toOption = some a) :
    r = .ok a := by
  cases r with
  | error e => cases h
  | ok b => rw [Option.some.inj h]

/-- A check that fails exactly as its stage does. Either the stage is the first to fail, or one more
stage is clear. -/
theorem Clear.check {α : Type} {k : Stage} {check : Except ScanError α}
    (h : Clear launch o m k.number) (hcheck : ∀ e, Fails launch o m k e ↔ check = .error e) :
    (∃ e, check = .error e ∧ FirstFailure launch o m k e) ∨
    ∃ a, check = .ok a ∧ Clear launch o m (k.number + 1) := by
  cases check with
  | error e => exact .inl ⟨e, rfl, (hcheck e).mpr rfl, h⟩
  | ok a =>
    refine .inr ⟨a, rfl, h.next k fun e he => ?_⟩
    cases (hcheck e).mp he

/-- All that is asked before the engine runs either fails at the first stage that does, or gives
what the scan works with. -/
theorem prepare_cases (launch : Launcher) (m : Machine) (o : Order) :
    (∃ k e, k.number ≤ 6 ∧ FirstFailure launch o m k e ∧ prepare m.disk o = .error e) ∨
    (∃ p, Given m.disk o p ∧ Clear launch o m 7 ∧ prepare m.disk o = .ok p) := by
  -- The six checks in the order of the program. Each of them is either the first failure or
  -- gives what the next one needs, with one more stage that is clear.
  unfold prepare
  rcases clear_one.check (k := .root) fun _ => fails_root_iff with
    ⟨e, he, hfirst⟩ | ⟨root, hroot, hclear⟩
  · exact .inl ⟨_, e, by decide, hfirst, by rw [he, error_bind]⟩
  rw [hroot, ok_bind]
  rcases hclear.check (k := .configuration) fun _ => fails_configuration_iff with
    ⟨e, he, hfirst⟩ | ⟨s, hs, hclear⟩
  · exact .inl ⟨_, e, by decide, hfirst, by rw [he, error_bind]⟩
  rw [hs, ok_bind]
  rcases hclear.check (k := .matchers) fun _ => fails_matchers_iff hs with
    ⟨e, he, hfirst⟩ | ⟨base, hbase, hclear⟩
  · exact .inl ⟨_, e, by decide, hfirst, by rw [he, error_bind]⟩
  rw [hbase, ok_bind]
  rcases hclear.check (k := .folder) fun _ => fails_folder_iff with
    ⟨e, he, hfirst⟩ | ⟨u, hfolder, hclear⟩
  · exact .inl ⟨_, e, by decide, hfirst, by rw [he, error_bind]⟩
  rw [hfolder, ok_bind]
  rcases hclear.check (k := .templates) fun _ => fails_templates_iff hs with
    ⟨e, he, hfirst⟩ | ⟨r, hload, hclear⟩
  · exact .inl ⟨_, e, by decide, hfirst, by rw [he, error_bind]⟩
  rw [hload, ok_bind]
  rcases hclear.check (k := .format) fun _ => fails_format_iff hs hload with
    ⟨e, he, hfirst⟩ | ⟨v, hformat, hclear⟩
  · exact .inl ⟨_, e, by decide, hfirst, by rw [he, error_bind]⟩
  rw [hformat, ok_bind]
  obtain ⟨hcanonical, hisFolder⟩ := scanRoot_eq_ok hroot
  exact .inr ⟨⟨root, s, base, r⟩,
    ⟨hcanonical, hisFolder, hs, locateMatchers_eq_ok hbase, hload⟩, hclear, rfl⟩

/-- A listed format passes the check. -/
theorem checkFormat_of_mem_formats {r : Renderer} {format : String}
    (h : Renderer.formatName format ∈ r.formats) : checkFormat r format = .ok () := by
  rw [checkFormat, if_pos (Renderer.knows_iff.mpr h)]

/-- Where a scan has all that it works with, and its report a folder, only the format is left to
be asked about. -/
theorem prepare_of_given {d : Disk} {o : Order} {p : Preparation} (hp : Given d o p)
    (hfolder : checkFolder d o.reportFile = .ok ()) :
    prepare d o = (checkFormat p.renderer p.settings.format).map fun _ => p := by
  have hroot : scanRoot d o.path = .ok p.root := by
    simp only [scanRoot, hp.root, hp.folder, if_true]
  have hmatchers : locateMatchers d p.settings.matchers = .ok p.matchers := by
    simp only [locateMatchers, hp.matchers]
  rw [prepare, hroot, ok_bind, hp.settings, ok_bind, hmatchers, ok_bind, hfolder, ok_bind,
    hp.renderer, ok_bind]
  cases checkFormat p.renderer p.settings.format with
  | error e => rfl
  | ok u => rfl

/-- Where the format is known as well, no stage before the engine fails. -/
theorem clear_of_given {p : Preparation} (hp : Given m.disk o p)
    (hfolder : checkFolder m.disk o.reportFile = .ok ())
    (hformat : Renderer.formatName p.settings.format ∈ p.renderer.formats) :
    Clear launch o m 7 := by
  have hok : prepare m.disk o = .ok p := by
    rw [prepare_of_given hp hfolder, checkFormat_of_mem_formats hformat]
    rfl
  rcases prepare_cases launch m o with ⟨k, e, -, -, herror⟩ | ⟨-, -, hclear, -⟩
  · cases hok.symm.trans herror
  · exact hclear

/-- Without a configuration file the settings are those of the command line and the fixed ones. -/
theorem given_of_no_file {root base : Path} {r : Renderer}
    (hfile : Settings.fileFor d o.start o.overrides = none)
    (hroot : (d.canonical o.path).toOption = some root) (hfolder : d.isFolder root = true)
    (hbase : (Settings.merge o.home o.start o.overrides none .empty).matchers.find? d.isFolder =
      some base)
    (hload : Renderer.load d
      (Settings.merge o.home o.start o.overrides none .empty).templates = .ok r) :
    Given d o ⟨root, .merge o.home o.start o.overrides none .empty, base, r⟩ := by
  refine ⟨eq_ok_of_toOption hroot, hfolder, ?_, hbase, hload⟩
  rw [Settings.resolve, hfile]

/-! ## 4. How a scan ends

A scan is refused by one of the checks, fails later, finds the stack full, or delivers its report.
`Ends` has a constructor for each of them, which says what is known of the stages and of the machine
that is left. Everything about a whole scan is read off it, and the scan itself is not looked at
again. -/

/-- How a scan ends, and with which machine. -/
inductive Ends (launch : Launcher) (o : Order) (m : Machine) :
    Except ScanError Nat × Machine → Prop
  /-- A check fails, and the machine is the one that was given. -/
  | refused {k : Stage} {e : ScanError} (hfirst : FirstFailure launch o m k e)
      (hk : k.number ≤ 6) : Ends launch o m (.error e, m)
  /-- The engine gives no report, or the report is not rendered. The engine was called. -/
  | failed {p : Preparation} {k : Stage} {e : ScanError} (hp : Given m.disk o p)
      (hfirst : FirstFailure launch o m k e) (hk : 6 < k.number) :
      Ends launch o m (.error e, p.called launch m)
  /-- The rendered report is not delivered. A part of it may have been printed. -/
  | undelivered {p : Preparation} {e : ScanError} {done : Machine} (hp : Given m.disk o p)
      (hfirst : FirstFailure launch o m .writing e)
      (hstarted : done.started = (p.called launch m).started) : Ends launch o m (.error e, done)
  /-- The stack is full before the report is rendered. -/
  | exhausted {p : Preparation} (hp : Given m.disk o p) (hclear : Clear launch o m 8)
      (hfull : Exhausts launch o m) :
      Ends launch o m (.error (.render (i := .exhausted)), p.called launch m)
  /-- The rendered report is delivered. -/
  | delivered {p : Preparation} {all : Report} {text : String} {done : Machine}
      (hp : Given m.disk o p) (hclear : Clear launch o m 10)
      (hall : Answers launch p.call m.disk (p.called launch m).disk all)
      (htext : p.render (p.called launch m).disk o.chance (p.request.context all o.seconds) =
        .ok text)
      (hdeliver : deliver text o.reportFile (p.called launch m) = (.ok (), done)) :
      Ends launch o m (.ok (p.request.context all o.seconds).total, done)

/-- An engine that answers does not fail. -/
theorem Clear.of_answers (h : Clear launch o m 7) {p : Preparation} (hp : Given m.disk o p)
    {d : Disk} {all : Report} (hall : Answers launch p.call m.disk d all) : Clear launch o m 8 :=
  h.next .engine fun e he => by
    cases he with
    | engine hp' hf =>
      rw [hp'.unique hp] at hf
      exact hall.not_givesNoReport hf

/-- Neither does a rendering that gives a text. -/
theorem Clear.of_renders (h : Clear launch o m 8) {p : Preparation} {d : Disk} {text : String}
    (htext : Renders launch o m p d (.ok text)) : Clear launch o m 9 :=
  h.next .rendering fun e he => by
    cases he with
    | rendering h' _ => cases (htext.unique h').2.2

/-- Where a text is rendered the stack was not full. -/
theorem Renders.not_exhausts {p : Preparation} {d : Disk} {text : String}
    (htext : Renders launch o m p d (.ok text)) : ¬ Exhausts launch o m := by
  rintro ⟨q, d', hfull⟩
  cases (htext.unique hfull).2.2

/-- What the delivery of a rendered text fails with is what the last stage fails with. -/
theorem Renders.deliver_eq_error_iff {p : Preparation} {text : String} {e : ScanError}
    (htext : Renders launch o m p (p.called launch m).disk (.ok text)) :
    (deliver text o.reportFile (p.called launch m)).1 = .error e ↔
      Fails launch o m .writing e := by
  rw [UpgradeScan.deliver_eq_error_iff, Preparation.output_called]
  constructor
  · rintro (⟨file, hfile, hwrite⟩ | ⟨hfile, n, f, hn, hlt, rfl⟩)
    · exact .writing htext hfile hwrite
    · exact .printing htext hfile hn hlt
  · intro h
    cases h with
    | writing htext' hfile hwrite =>
      obtain ⟨-, rfl, htexts⟩ := htext.unique htext'
      obtain rfl := Except.ok.inj htexts
      exact .inl ⟨_, hfile, hwrite⟩
    | printing htext' hfile hn hlt =>
      obtain ⟨-, -, htexts⟩ := htext.unique htext'
      obtain rfl := Except.ok.inj htexts
      exact .inr ⟨hfile, _, _, hn, hlt, rfl⟩

section

variable {p : Preparation} {all : Report}

/-- A report that is not rendered: the stage fails, unless it was the stack that was full. -/
theorem Renders.ends_error {e : ScanError}
    (h : Renders launch o m p (p.called launch m).disk (.error e)) (hclear : Clear launch o m 8) :
    Ends launch o m (.error e, p.called launch m) := by
  cases hreturned : e.isReturned with
  | true => exact .failed h.given ⟨.rendering h hreturned, hclear⟩ (by decide)
  | false =>
    obtain rfl := ScanError.isReturned_eq_false_iff.mp hreturned
    exact .exhausted h.given hclear ⟨p, _, h⟩

/-- A rendered report: it is delivered, or the last stage fails. -/
theorem ends_deliver (hp : Given m.disk o p)
    (hall : Answers launch p.call m.disk (p.called launch m).disk all) {text : String}
    (htext : p.render (p.called launch m).disk o.chance (p.request.context all o.seconds) =
      .ok text) (hclear : Clear launch o m 8) :
    Ends launch o m
      ((deliver text o.reportFile (p.called launch m)).1.map fun _ =>
        (p.request.context all o.seconds).total,
        (deliver text o.reportFile (p.called launch m)).2) := by
  have hrenders : Renders launch o m p (p.called launch m).disk (.ok text) := ⟨hp, all, hall, htext⟩
  replace hclear : Clear launch o m 9 := hclear.of_renders hrenders
  have hfails := fun e => hrenders.deliver_eq_error_iff (e := e)
  have hstarted := started_deliver text o.reportFile (p.called launch m)
  rcases hdone : deliver text o.reportFile (p.called launch m) with ⟨outcome, done⟩
  rw [hdone] at hfails hstarted
  cases outcome with
  | error e => exact .undelivered hp ⟨(hfails e).mp rfl, hclear⟩ hstarted
  | ok u =>
    refine .delivered hp (hclear.next .writing fun e he => ?_) hall htext hdone
    cases (hfails e).mpr he

/-- A prepared scan asks the engine once, and what becomes of the answer is one of these. -/
theorem Preparation.ends_run (hp : Given m.disk o p) (hclear : Clear launch o m 7) :
    Ends launch o m (p.run launch o m) := by
  -- The engine, the rendering and the delivery, each with its own way to end the run.
  rcases scan_cases launch p o.seconds m with ⟨f, hf, hscan⟩ | ⟨all, hall, hscan⟩
  · have hrun : p.run launch o m = (.error (.engine f), p.called launch m) := by
      simp only [run, hscan]
    rw [hrun]
    exact .failed hp ⟨.engine hp hf, hclear⟩ (by decide)
  replace hclear : Clear launch o m 8 := hclear.of_answers hp hall
  cases hresult : p.render (p.called launch m).disk o.chance
      (p.request.context all o.seconds) with
  | error e =>
    have hrun : p.run launch o m = (.error e, p.called launch m) := by
      simp only [run, hscan]
      rw [hresult]
    rw [hrun]
    exact Renders.ends_error ⟨hp, all, hall, hresult⟩ hclear
  | ok text =>
    have hrun : p.run launch o m =
        ((deliver text o.reportFile (p.called launch m)).1.map fun _ =>
          (p.request.context all o.seconds).total,
          (deliver text o.reportFile (p.called launch m)).2) := by
      simp only [run, hscan]
      rw [hresult]
      simp only
      generalize deliver text o.reportFile (p.called launch m) = delivered
      obtain ⟨_ | _, done⟩ := delivered <;> rfl
    rw [hrun]
    exact ends_deliver hp hall hresult hclear

end

/-- **A scan ends in one of these ways.** -/
theorem ends_runScan (launch : Launcher) (o : Order) (m : Machine) :
    Ends launch o m (runScan launch o m) := by
  rcases prepare_cases launch m o with ⟨k, e, hk, hfirst, hprepare⟩ | ⟨p, hp, hclear, hprepare⟩
  · rw [show runScan launch o m = (.error e, m) by simp only [runScan, hprepare]]
    exact .refused hfirst hk
  · rw [show runScan launch o m = p.run launch o m by simp only [runScan, hprepare]]
    exact p.ends_run hp hclear

/-! ## 5. What is known from the end

Each fact about a scan is a look at the five ways to end. The stages decide which of them it is: a
first failure excludes all ends that have none, and there is no other first failure. -/

section

variable {ended : Except ScanError Nat × Machine}

/-- The first failure is what the scan ends with. -/
theorem Ends.eq_error (h : Ends launch o m ended) {k : Stage} {e : ScanError}
    (hfirst : FirstFailure launch o m k e) : ended.1 = .error e := by
  cases h with
  | refused hfirst' _ => rw [(hfirst.unique hfirst').2]
  | failed _ hfirst' _ => rw [(hfirst.unique hfirst').2]
  | undelivered _ hfirst' _ => rw [(hfirst.unique hfirst').2]
  | exhausted _ hclear hfull => exact absurd hfirst (hfull.clear hclear).not_firstFailure
  | delivered _ hclear _ _ _ => exact absurd hfirst hclear.not_firstFailure

/-- An error that is told to someone is that of a first failure. -/
theorem Ends.exists_firstFailure (h : Ends launch o m ended) {e : ScanError}
    (he : ended.1 = .error e) (hreturned : e.isReturned = true) :
    ∃ k, FirstFailure launch o m k e := by
  cases h with
  | refused hfirst _ => exact ⟨_, Except.error.inj he ▸ hfirst⟩
  | failed _ hfirst _ => exact ⟨_, Except.error.inj he ▸ hfirst⟩
  | undelivered _ hfirst _ => exact ⟨_, Except.error.inj he ▸ hfirst⟩
  | exhausted _ _ _ =>
    rw [← Except.error.inj he] at hreturned
    cases hreturned
  | delivered _ _ _ _ _ => cases he

/-- The scan has no result exactly when no stage before the rendering failed and the stack was full
then. -/
theorem Ends.eq_exhausted_iff (h : Ends launch o m ended) :
    ended.1 = .error (.render (i := .exhausted)) ↔
      Clear launch o m 8 ∧ Exhausts launch o m := by
  constructor
  · intro he
    cases h with
    | refused hfirst _ => cases Except.error.inj he ▸ hfirst.fails.isReturned
    | failed _ hfirst _ => cases Except.error.inj he ▸ hfirst.fails.isReturned
    | undelivered _ hfirst _ => cases Except.error.inj he ▸ hfirst.fails.isReturned
    | exhausted _ hclear hfull => exact ⟨hclear, hfull⟩
    | delivered _ _ _ _ _ => cases he
  · rintro ⟨hclear, hfull⟩
    have hnone {k : Stage} {e : ScanError} : ¬ FirstFailure launch o m k e :=
      (hfull.clear hclear).not_firstFailure
    cases h with
    | refused hfirst _ => exact absurd hfirst hnone
    | failed _ hfirst _ => exact absurd hfirst hnone
    | undelivered _ hfirst _ => exact absurd hfirst hnone
    | exhausted _ _ _ => rfl
    | delivered hp _ hall htext _ =>
      exact absurd hfull (Renders.not_exhausts ⟨hp, _, hall, htext⟩)

/-- After an early failure no program was started. -/
theorem Ends.started_eq (h : Ends launch o m ended) {k : Stage} {e : ScanError}
    (hfirst : FirstFailure launch o m k e) (hk : k.number ≤ 6) :
    ended.2.started = m.started := by
  cases h with
  | refused _ _ => rfl
  | failed _ hfirst' hk' => exact absurd hk (Nat.not_le.mpr ((hfirst.unique hfirst').1 ▸ hk'))
  | undelivered _ hfirst' _ => exact absurd ((hfirst.unique hfirst').1 ▸ hk) (by decide)
  | exhausted _ hclear hfull => exact absurd hfirst (hfull.clear hclear).not_firstFailure
  | delivered _ hclear _ _ _ => exact absurd hfirst hclear.not_firstFailure

/-- Without an early failure one was, by the call of the scan. -/
theorem Ends.exists_call (h : Ends launch o m ended)
    (hlate : ∀ k e, FirstFailure launch o m k e → 6 < k.number) :
    ∃ p, Given m.disk o p ∧
      ended.2.started = (p.call.program, p.call.arguments) :: m.started := by
  cases h with
  | refused hfirst hk => exact absurd (hlate _ _ hfirst) (Nat.not_lt.mpr hk)
  | failed hp _ _ => exact ⟨_, hp, Preparation.started_called _ _ _⟩
  | undelivered hp _ hstarted => exact ⟨_, hp, hstarted.trans (Preparation.started_called _ _ _)⟩
  | exhausted hp _ _ => exact ⟨_, hp, Preparation.started_called _ _ _⟩
  | @delivered p _ text done hp _ _ _ hdeliver =>
    have hstarted := started_deliver text o.reportFile (p.called launch m)
    rw [hdeliver] at hstarted
    exact ⟨p, hp, hstarted.trans (Preparation.started_called _ _ _)⟩

/-- Until a report is rendered the scan changes no file by itself, and prints nothing. -/
theorem Ends.quiet (h : Ends launch o m ended)
    (hengine : ∀ program args, m.disk.SameFiles (launch program args m.disk).2)
    (hnot : ¬ Clear launch o m 9 ∨ Exhausts launch o m) :
    m.disk.SameFiles ended.2.disk ∧ ended.2.output = m.output := by
  cases h with
  | refused _ _ => exact ⟨.refl _, rfl⟩
  | failed _ _ _ =>
    exact ⟨Preparation.sameFiles_called hengine, Preparation.output_called _ _ _⟩
  | undelivered _ hfirst _ =>
    rcases hnot with hnot | hfull
    · exact absurd hfirst.clear hnot
    · have hclear : Clear launch o m 8 := hfirst.clear.mono (by decide)
      exact absurd hfirst (hfull.clear hclear).not_firstFailure
  | exhausted _ _ _ =>
    exact ⟨Preparation.sameFiles_called hengine, Preparation.output_called _ _ _⟩
  | delivered hp hclear hall htext _ =>
    rcases hnot with hnot | hfull
    · exact absurd (hclear.mono (by decide)) hnot
    · exact absurd hfull (Renders.not_exhausts ⟨hp, _, hall, htext⟩)

end

/-- **The first stage that fails decides.** A scan returns an error exactly when that is the error
of the first stage that fails. If this is one of the first six, no program is started; in every
other run one is, once, by the call of the scan. And if the engine changes no file, then up to a
failed rendering no file has changed and nothing was printed. The one way to have no result at all
is a stack that is full while the report of the engine is rendered. No stage before has failed then,
and here too no file has changed and nothing was printed. -/
theorem runScan_error_iff_firstFailure (launch : Launcher) (o : Order) (m : Machine) :
    (∀ e, (runScan launch o m).1 = .error e ∧ e.isReturned = true ↔
      ∃ k, FirstFailure launch o m k e) ∧
    (∀ k e, FirstFailure launch o m k e → k.number ≤ 6 →
      (runScan launch o m).2.started = m.started) ∧
    ((∀ k e, FirstFailure launch o m k e → 6 < k.number) → ∃ p, Given m.disk o p ∧
      (runScan launch o m).2.started = (p.call.program, p.call.arguments) :: m.started) ∧
    ((∀ program args, m.disk.SameFiles (launch program args m.disk).2) →
      ∀ k e, FirstFailure launch o m k e → k.number ≤ 8 →
        m.disk.SameFiles (runScan launch o m).2.disk ∧
        (runScan launch o m).2.output = m.output) ∧
    ((runScan launch o m).1 = .error (.render (i := .exhausted)) ↔
      Clear launch o m 8 ∧ Exhausts launch o m) ∧
    ((∀ program args, m.disk.SameFiles (launch program args m.disk).2) →
      Clear launch o m 8 → Exhausts launch o m →
        m.disk.SameFiles (runScan launch o m).2.disk ∧
        (runScan launch o m).2.output = m.output) := by
  have hends := ends_runScan launch o m
  refine ⟨fun e => ⟨fun h => hends.exists_firstFailure h.1 h.2, fun ⟨k, h⟩ => ?_⟩,
    fun k e h hk => hends.started_eq h hk, hends.exists_call, fun hengine k e h hk => ?_,
    hends.eq_exhausted_iff, fun hengine _ hfull => hends.quiet hengine (.inr hfull)⟩
  · exact ⟨hends.eq_error h, h.fails.isReturned⟩
  · exact hends.quiet hengine (.inl fun hclear => hclear k (Nat.lt_succ_of_le hk) e h.fails)

/-! ## 6. A scan to look at

A disk on which a scan has all that it works with, and an engine that reports one finding. What is
scanned, where the report goes, and what the report looks like is left open, so that the scans that
are looked at, here and elsewhere, are a few orders on this one disk. -/

namespace Sample

/-- A file with a text. -/
def content (s : String) : Node := .file (Text.Utf8.encode s.toList)

/-- The template in the directory `bad` asks for a helper that there is not. -/
def disk : Disk :=
  ⟨.folder [("src", .folder []), ("out", .folder []),
    ("opt", .folder [("vendor", .folder [("typo3", .folder [("cms-scanner", .folder
      [("config", .folder [("Matcher", .folder [])])])])])]),
    ("bad", .folder [("own.hbs", content "\x7b\x7bnope total\x7d\x7d")]),
    ("good", .folder [("own.hbs", content "found \x7b\x7btotal\x7d\x7d")])], []⟩

/-- A report of one finding. -/
def report : Report :=
  ⟨⟨"/src"⟩, [⟨⟨"/src/a.php"⟩, [⟨.breaking, .strong, "A.rst", ⟨"/src/a.php"⟩, 3, ""⟩]⟩]⟩

/-- The engine writes this report and changes nothing. -/
def engine : Launcher := fun _ _ d =>
  (.ok ⟨.status 0, JsonText.printed 0 report.toJson, []⟩, d)

/-- The template directories. -/
def directories : List Path := [⟨"/bad"⟩, ⟨"/good"⟩]

/-- A scan of the folder `src` by a program in the folder `opt`. -/
def order (templates : Path) (only : Option String) (format : String) (file : Option Path) :
    Order :=
  ⟨⟨"/opt"⟩, ⟨"/"⟩, ⟨"/src"⟩, ⟨none, none, only, none, some format, some templates⟩, file,
    default, {}⟩

/-- The renderer with the templates of a directory. -/
def renderer (templates : Path) : Renderer :=
  ⟨(Renderer.builtIn ++ Renderer.sources disk (some templates)).foldl
    (fun ts s => Renderer.register s.1 (Renderer.elementsOf s.2) ts) []⟩

/-- What such a scan works with. -/
def prepared (templates : Path) (only : Option String) (format : String) : Preparation :=
  ⟨⟨"/src"⟩, .merge ⟨"/opt"⟩ ⟨"/"⟩ (order templates only format none).overrides none .empty,
    ⟨"/opt/vendor/typo3/cms-scanner/config/Matcher/"⟩, renderer templates⟩

section

variable {templates : Path} (htemplates : templates ∈ directories) (only : Option String)
  (format : String) (file : Option Path) (room : Option (Nat × Fault))

include htemplates in
/-- Either template directory can be loaded; both templates are well formed, and the bad one fails
only when it is rendered. -/
theorem load_eq : Renderer.load disk (some templates) = .ok (renderer templates) := by
  have hsources : ∀ dir ∈ directories, ∀ s ∈ Renderer.sources disk (some dir),
      (s.2.toOption.bind Template.parse?).isSome = true := by decide +kernel
  exact Renderer.load_eq_ok_of_isSome (hsources templates htemplates)

include htemplates in
/-- The disk has all that these scans work with. -/
theorem given : Given disk (order templates only format file) (prepared templates only format) := by
  have hfind : Configuration.find? disk ⟨"/"⟩ = none := by decide +kernel
  have hfile : Settings.fileFor disk ⟨"/"⟩
    ⟨none, none, only, none, some format, some templates⟩ = none := hfind
  have hroot : (disk.canonical ⟨"/src"⟩).toOption = some ⟨"/src"⟩ := by decide +kernel
  have hfolder : disk.isFolder ⟨"/src"⟩ = true := by decide +kernel
  have hbase : (Settings.standardMatchers ⟨"/opt"⟩).find? disk.isFolder =
      some ⟨"/opt/vendor/typo3/cms-scanner/config/Matcher/"⟩ := by decide +kernel
  exact given_of_no_file hfile hroot hfolder hbase (load_eq htemplates)

/-- The call depends on neither of what is left open. -/
theorem answers (m : Machine) :
    Answers engine (prepared templates only format).call m.disk m.disk report := by
  have hclean : (prepared ⟨"/good"⟩ none "own").call.Clean := by
    unfold Call.Clean
    decide +kernel
  have hlines : report.LinesFit := by
    unfold Report.LinesFit
    decide
  exact ⟨hclean, _, rfl, rfl, Report.ofBytes_printed hlines 0⟩

include htemplates in
/-- With the format of the template nothing fails up to the engine. -/
theorem clear (hfile : checkFolder disk file = .ok ()) :
    Clear engine (order templates only "own" file) (.fresh disk room) 8 := by
  have hlisted : ∀ dir ∈ directories, ((renderer dir).templates.lookup "own").isSome = true := by
    decide +kernel
  have hown : Renderer.formatName "own" = "own" := by decide
  have hformat : Renderer.formatName "own" ∈ (renderer templates).formats := by
    rw [hown, Renderer.mem_formats_iff]
    exact .inr (Option.isSome_iff_exists.mp (hlisted templates htemplates))
  have hp := given htemplates only "own" file
  exact (clear_of_given (m := .fresh disk room) hp hfile hformat).of_answers hp
    (answers only "own" (.fresh disk room))

include htemplates in
/-- What is rendered is the report of the engine. -/
theorem renders {result : Except ScanError String}
    (h : (prepared templates only format).render disk {}
      ((prepared templates only format).request.context report default) = result) :
    Renders engine (order templates only format file) (.fresh disk room)
      (prepared templates only format) disk result :=
  ⟨given htemplates only format file, report, answers only format (.fresh disk room), h⟩

/-- The good template shows the one finding. -/
theorem render_good : (prepared ⟨"/good"⟩ none "own").render disk {}
    ((prepared ⟨"/good"⟩ none "own").request.context report default) = .ok "found 1" := by
  decide +kernel

end

end Sample

/-- Three scans that fail after the engine has given its report. The template of the first one asks
for a helper that there is not, the report of the second one is to take the place of a folder, and
the output of the third one is closed after two bytes. Each of them started the engine once. -/
theorem runScan_firstFailure_after_engine :
    let refused := Sample.order ⟨"/bad"⟩ none "own" none
    let toFolder := Sample.order ⟨"/good"⟩ none "own" (some ⟨"/out"⟩)
    let printed := Sample.order ⟨"/good"⟩ none "own" none
    let m : Machine := .fresh Sample.disk
    let closed : Machine := .fresh Sample.disk (some (2, .other 32 "Broken pipe"))
    ((runScan Sample.engine refused m).1 = .error (.render (i := .fault (.unknownHelper "nope"))) ∧
      (runScan Sample.engine refused m).2.started.length = 1 ∧
      m.disk.SameFiles (runScan Sample.engine refused m).2.disk ∧
      (runScan Sample.engine refused m).2.output = m.output) ∧
    ((runScan Sample.engine toFolder m).1 = .error (.io .isFolder) ∧
      (runScan Sample.engine toFolder m).2.started.length = 1) ∧
    (runScan Sample.engine printed closed).1 = .error (.io (.other 32 "Broken pipe")) ∧
      (runScan Sample.engine printed closed).2.started.length = 1 := by
  intro refused toFolder printed m closed
  have hbad : (⟨"/bad"⟩ : Path) ∈ Sample.directories := by decide
  have hgood : (⟨"/good"⟩ : Path) ∈ Sample.directories := by decide
  have hrefused : (Sample.prepared ⟨"/bad"⟩ none "own").render Sample.disk {}
      ((Sample.prepared ⟨"/bad"⟩ none "own").request.context Sample.report default) =
      .error (.render (i := .fault (.unknownHelper "nope"))) := by decide +kernel
  have hwrite : writeReport Sample.disk "found 1" ⟨"/out"⟩ = .error (.io .isFolder) := by rfl
  have hfirst : FirstFailure Sample.engine refused m .rendering
      (.render (i := .fault (.unknownHelper "nope"))) :=
    ⟨.rendering (Sample.renders hbad none "own" none none hrefused) rfl,
      Sample.clear hbad none none none rfl⟩
  -- a good template gives a text, for the file and for the output
  have hrenders := fun file room => Sample.renders hgood none "own" file room Sample.render_good
  have hclear := fun file room (hfile : checkFolder Sample.disk file = .ok ()) =>
    (Sample.clear hgood none file room hfile).of_renders (hrenders file room)
  have hsecond : FirstFailure Sample.engine toFolder m .writing (.io .isFolder) :=
    ⟨.writing (hrenders _ none) rfl hwrite, hclear _ none rfl⟩
  have hthird : FirstFailure Sample.engine printed closed .writing
      (.io (.other 32 "Broken pipe")) :=
    ⟨.printing (hrenders _ _) rfl rfl (by decide), hclear _ _ rfl⟩
  obtain ⟨herror, -, hstarted, hquiet, -⟩ :=
    runScan_error_iff_firstFailure Sample.engine refused m
  obtain ⟨herror', -, hstarted', -⟩ := runScan_error_iff_firstFailure Sample.engine toFolder m
  obtain ⟨herror'', -, hstarted'', -⟩ := runScan_error_iff_firstFailure Sample.engine printed closed
  obtain ⟨_, -, hone⟩ := hstarted fun k e h => (hfirst.unique h).1 ▸ (by decide)
  obtain ⟨_, -, htwo⟩ := hstarted' fun k e h => (hsecond.unique h).1 ▸ (by decide)
  obtain ⟨_, -, hthree⟩ := hstarted'' fun k e h => (hthird.unique h).1 ▸ (by decide)
  obtain ⟨hfiles, houtput⟩ := hquiet (fun _ _ => .refl _) _ _ hfirst (by decide)
  refine ⟨⟨((herror _).mpr ⟨_, hfirst⟩).1, ?_, hfiles, houtput⟩,
    ⟨((herror' _).mpr ⟨_, hsecond⟩).1, ?_⟩, ((herror'' _).mpr ⟨_, hthird⟩).1, ?_⟩
  · rw [hone]
    rfl
  · rw [htwo]
    rfl
  · rw [hthree]
    rfl

end UpgradeScan
