/-
`Proofs/Scan/Context.lean` -- what a scan makes of the report of its engine.

The engine reports everything it finds. A request asks for some categories and some confidences, and
what is shown in the end is the context: the selected report with a total, statistics, a title and a
base. These parts are computed from the report in different ways and at different times, so they
could disagree. The total could count what was filtered out, a share could be one of another total.

They do not. The context is described by what the request asks for (`Context.Shows`), and every
number in it is a number of the same findings: the total, the two counts by confidence, and the
counts by category, each added up. That the shares can be read back as counts is part of the
statement (`Statistics.countAt?`), because a share that hides its count would make it empty.

The engine is an arbitrary function with an arbitrary state. It is called once, and an error of it
is the error of the scan; both can be read off the definition, and are stated with a recording
engine that keeps a list of its calls.
-/
import UpgradeScan.Scan.Basic
import UpgradeScan.Proofs.Report.Passes
import UpgradeScan.Proofs.Report.Statistics

set_option autoImplicit false

namespace UpgradeScan

/-! ## 1. Selected reports

A selection is made file by file. Seen from the report, it filters findings and drops files. -/

namespace Report

/-- A file is kept when it has a finding that passes. -/
theorem findings_ne_nil_keepIn_iff (t : Finding → Bool) (f : FileReport) :
    (keepIn t f).findings ≠ [] ↔ ∃ g ∈ f.findings, t g = true := by
  simp [keepIn, List.filter_eq_nil_iff]

/-- The files of a selection are those with a finding that passes. -/
theorem files_keep (t : Finding → Bool) (r : Report) :
    (r.keep t).files = (r.files.filter fun f => f.findings.any t).map (keepIn t) := by
  rw [keep, List.filter_map]
  refine congrArg (List.map _) (List.filter_congr fun f _ => ?_)
  rw [Bool.eq_iff_iff, Function.comp_apply, bne_iff_ne, findings_ne_nil_keepIn_iff,
    List.any_eq_true]

/-- A selection has as many findings as pass the test. -/
theorem count_keep (t : Finding → Bool) (r : Report) : (r.keep t).count = r.findings.countP t := by
  rw [count, findings_keep, List.countP_eq_length_filter]

/-! ## 2. Statistics of a report

The statistics are the shares of the tally, written with the number of all findings as the total. No
count is greater than that, so each share shows its count. -/

/-- What the statistics of a report show. -/
def shares (r : Report) : Statistics := r.tally.shares r.count

/-- No test counts more findings than there are. -/
theorem countP_le_count (p : Finding → Bool) (r : Report) : r.findings.countP p ≤ r.count :=
  List.countP_le_length

/-- A count of the tally can be read off the statistics. -/
theorem countAt?_shares (r : Report) {name : String} {n : Nat} (h : r.tally.get? name = some n)
    (hle : n ≤ r.count) : r.shares.countAt? name = some n := by
  rw [Statistics.countAt?, shares, Tally.lookup_shares, h, Option.map_some, Option.bind_some,
    Tally.shownCount?_share hle]

/-- Under the name of a confidence the statistics show how many findings have it. -/
theorem countAt?_shares_confidence (r : Report) (k : Confidence) :
    r.shares.countAt? k.name = some (r.findings.countP fun g => g.confidence = k) :=
  r.countAt?_shares (Tally.get?_ofFindings_confidence _ k) (r.countP_le_count _)

/-- Under the name of a category they show how many findings are of it, and show nothing if none is.
-/
theorem countAt?_shares_category (r : Report) (k : Category) :
    (r.shares.countAt? k.name).getD 0 = r.findings.countP fun g => g.category = k := by
  have hcount := Tally.getD_get?_ofFindings_category r.findings k
  cases h : r.tally.get? k.name with
  | none =>
    rw [← hcount, ← Report.tally, h, Statistics.countAt?, shares, Tally.lookup_shares, h]
    rfl
  | some n =>
    rw [← Report.tally, h, Option.getD_some] at hcount
    rw [r.countAt?_shares h (hcount ▸ r.countP_le_count _), Option.getD_some, hcount]

theorem names_shares_nodup (r : Report) : (r.shares.map (·.1)).Nodup := by
  rw [shares, Tally.names_shares]
  exact Tally.nodup_names_ofFindings r.findings

/-- What is shown is zero when nothing was found, and is not otherwise. -/
theorem share_eq_zero_iff (r : Report) {e : String × Json} (he : e ∈ r.shares) :
    e.2 = Json.ofNat 0 ↔ r.count = 0 := by
  obtain ⟨entry, -, rfl⟩ := List.mem_map.mp he
  exact Tally.share_eq_zero_iff

end Report

/-! ## 3. Requests

What a request asks for is a test on findings. Everything in the context is said by that test. -/

/-- The request asks for findings like this one. -/
def Request.AsksFor (q : Request) (g : Finding) : Prop :=
  g.category ∈ q.categories ∧ g.confidence ∈ q.confidences

instance (q : Request) (g : Finding) : Decidable (q.AsksFor g) :=
  inferInstanceAs (Decidable (_ ∧ _))

/-- A request selects the findings that it asks for. -/
theorem Request.select_eq_keep (q : Request) (r : Report) :
    q.select r = r.keep fun g => decide (q.AsksFor g) := by
  rw [select, Report.keepCategories, Report.keepConfidences, Report.keep_keep]
  refine Report.keep_congr (fun g => ?_) r
  rw [Bool.eq_iff_iff, Bool.and_eq_true, List.contains_iff_mem, List.contains_iff_mem,
    decide_eq_true_iff]
  exact Iff.rfl

/-- The context shows of a report what the request asks for, and its parts agree with each
other. -/
structure Context.Shows (c : Context) (q : Request) (all : Report) : Prop where
  total : c.total = all.findings.countP fun g => q.AsksFor g
  path : c.report.path = all.path
  files : c.report.files = (all.files.filter fun f => ∃ g ∈ f.findings, q.AsksFor g).map fun f =>
    { f with findings := f.findings.filter fun g => q.AsksFor g }
  names : (c.statistics.map (·.1)).Nodup
  confidences : ∃ strong weak, c.statistics.countAt? "STRONG" = some strong ∧
    c.statistics.countAt? "WEAK" = some weak ∧ strong + weak = c.total
  categories : (Category.all.map fun k => (c.statistics.countAt? k.name).getD 0).sum = c.total
  zero : ∀ e ∈ c.statistics, e.2 = Json.ofNat 0 ↔ c.total = 0
  target : c.target = q.target
  title : c.title = (Site.ofPath q.root).key.getD q.root.text
  base : c.base = (Site.ofPath q.root).base

/-- The context of a report shows what was asked for, and nothing else. -/
theorem Request.context_shows (q : Request) (all : Report) (seconds : Number.Binary64) :
    (q.context all seconds).Shows q all := by
  -- The context is that of the selection, so each part is a fact about a selection.
  have htotal : (q.context all seconds).total = (q.select all).count := rfl
  have hstatistics : (q.context all seconds).statistics = (q.select all).shares := rfl
  have hreport : (q.context all seconds).report = q.select all := rfl
  constructor
  case total => rw [htotal, select_eq_keep, Report.count_keep]
  case path => rw [hreport, select_eq_keep, Report.path_keep]
  case files =>
    rw [hreport, select_eq_keep, Report.files_keep]
    refine congrArg (List.map _) (List.filter_congr fun f _ => ?_)
    rw [Bool.eq_iff_iff, List.any_eq_true, decide_eq_true_iff]
    simp only [decide_eq_true_iff]
  case names => rw [hstatistics]; exact Report.names_shares_nodup _
  case confidences =>
    rw [hstatistics, htotal]
    exact ⟨_, _, Report.countAt?_shares_confidence _ .strong,
      Report.countAt?_shares_confidence _ .weak, Tally.sum_confidences _⟩
  case categories =>
    rw [hstatistics, htotal]
    simp only [Report.countAt?_shares_category]
    exact Tally.sum_countP_eq_length (fun k => by cases k <;> rfl) Finding.category _
  case zero => exact fun e he => Report.share_eq_zero_iff (q.select all) he
  case target => rfl
  case title => rfl
  case base => rfl

/-! ## 4. Scans

A scan passes an error of its engine on and makes a context of a report. To say that the engine is
called once, its calls are recorded. -/

/-- The engine, with a list of its calls beside its state. -/
def Engine.recorded {σ : Type} (engine : Engine σ) : Engine (σ × List (Path × Ruleset)) :=
  fun root rules s =>
    let (answer, state) := engine root rules s.1
    (answer, state, s.2 ++ [(root, rules)])

section

variable {σ : Type} {engine : Engine σ} {base : Path} {q : Request} {seconds : Number.Binary64}
  {s s' : σ}

/-- An engine that fails ends the scan with its own error. -/
theorem scan_of_error {e : EngineFault}
    (h : engine q.root (Ruleset.select q.target base) s = (.error e, s')) :
    scan engine base q seconds s = (.error e, s') := by
  rw [scan, h]

/-- Of a report the scan makes its context, and the engine is not asked again. -/
theorem scan_of_ok {all : Report}
    (h : engine q.root (Ruleset.select q.target base) s = (.ok all, s')) :
    scan engine base q seconds s = (.ok (q.context all seconds), s') := by
  rw [scan, h]

end

/-- **What a scan makes of its engine.** The engine is called once, with the directory of the
request and the matchers of its version. Its error is the error of the scan. Of a report that it
gives, the context shows what the request asks for. -/
theorem scan_shows {σ : Type} (engine : Engine σ) (base : Path) (q : Request)
    (seconds : Number.Binary64) (s : σ) :
    let rules := Ruleset.select q.target base
    let asked := engine q.root rules s
    let done := scan engine base q seconds s
    scan engine.recorded base q seconds (s, []) = (done.1, done.2, [(q.root, rules)]) ∧
    done.2 = asked.2 ∧
    (∀ e, asked.1 = .error e → done.1 = .error e) ∧
    ∀ all, asked.1 = .ok all → ∃ c, done.1 = .ok c ∧ c.Shows q all := by
  intro rules asked done
  rcases hasked : engine q.root rules s with ⟨answer, state⟩
  have hrecorded : engine.recorded q.root rules (s, []) = (answer, state, [(q.root, rules)]) := by
    simp only [Engine.recorded, hasked, List.nil_append]
  cases answer with
  | error e =>
    have hdone : done = (.error e, state) := scan_of_error hasked
    rw [hdone, scan_of_error hrecorded, show asked = (.error e, state) from hasked]
    exact ⟨rfl, rfl, fun e' h => congrArg _ (Except.error.inj h), nofun⟩
  | ok all =>
    have hdone : done = (.ok (q.context all seconds), state) := scan_of_ok hasked
    rw [hdone, scan_of_ok hrecorded, show asked = (.ok all, state) from hasked]
    refine ⟨rfl, rfl, nofun, fun all' h => ⟨_, rfl, ?_⟩⟩
    cases h
    exact q.context_shows all seconds

/-- A scan of an extension for a version that is not known: one of the three findings is wanted,
and the file that has none of them is left out. -/
theorem scan_shows_extension :
    let g : Category → Confidence → Finding := fun k l => ⟨k, l, "R.rst", ⟨"/a.php"⟩, 3, ""⟩
    let all : Report := ⟨⟨"/site/ext/news"⟩,
      [⟨⟨"/a.php"⟩, [g .breaking .strong, g .feature .weak]⟩, ⟨⟨"/b.php"⟩, [g .feature .strong]⟩]⟩
    let engine : Engine Nat := fun _ _ n => (.ok all, n + 1)
    let q : Request := ⟨⟨"/site/ext/news"⟩, "bogus", [.breaking, .important], [.strong]⟩
    (engine q.root (Ruleset.select q.target ⟨"/m/"⟩) 0).1 = .ok all ∧
    ∃ c, (scan engine ⟨"/m/"⟩ q default 0).1 = .ok c ∧ c.Shows q all ∧ c.total = 1 ∧
      c.title = "news" ∧ c.report.files = [⟨⟨"/a.php"⟩, [g .breaking .strong]⟩] := by
  intro g all engine q
  obtain ⟨c, hc, hshows⟩ := (scan_shows engine ⟨"/m/"⟩ q default 0).2.2.2 all rfl
  refine ⟨rfl, c, hc, hshows, hshows.total.trans (by decide), hshows.title.trans ?_,
    hshows.files.trans (by decide)⟩
  decide +kernel

end UpgradeScan
