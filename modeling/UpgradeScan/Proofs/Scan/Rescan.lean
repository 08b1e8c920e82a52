/-
`Proofs/Scan/Rescan.lean` -- a scan of what a scan has reported.

The JSON format of a context holds the selected report, and it is in the form in which an engine
writes its own. So the output of a scan can be given to a scan as the output of its engine. What
comes of that should be the same again: the selection has been made, and making it once more should
change nothing.

Selecting from a selected report takes nothing away, as long as the second request asks for no less
(`Request.Within`). Then the findings, the files and their order are the same, and so are all
counts, which are computed from them. Everything else in the context comes from the request, which
has the same directory and version. Only the time is that of the second scan.

The way through the text is settled elsewhere. That the member for the report reads back as the
report is `Context.ShownBy`; here it is applied to any member of that name that somebody may find in
the document (`Context.ofBytes_of_hasMember`), since the reader of a document does not know at which
place it was written. The condition on the numbers is that of the format: lines, counts and the time
are those of a machine.
-/
import UpgradeScan.Proofs.Json.Members
import UpgradeScan.Proofs.Report.Document
import UpgradeScan.Proofs.Scan.Context

set_option autoImplicit false

namespace UpgradeScan

open UpgradeScan.JsonText

/-! ## 1. Selecting again

A test that implies another one, and what follows for requests. -/

namespace Report

/-- A test that accepts what is there takes nothing away. -/
theorem keep_keep_of_imp {s t : Finding → Bool} (h : ∀ g, s g = true → t g = true) (r : Report) :
    (r.keep s).keep t = r.keep s := by
  rw [keep_keep]
  refine keep_congr (fun g => ?_) r
  cases hs : s g with
  | false => rfl
  | true => rw [h g hs, Bool.and_self]

/-- The lines of a selection are lines of the report. -/
theorem linesFit_keep {r : Report} (h : r.LinesFit) (t : Finding → Bool) : (r.keep t).LinesFit := by
  intro f hf g hg
  rw [files_keep] at hf
  obtain ⟨f', hf', rfl⟩ := List.mem_map.mp hf
  exact h f' (List.mem_of_mem_filter hf') g (List.mem_of_mem_filter hg)

theorem count_keep_le (t : Finding → Bool) (r : Report) : (r.keep t).count ≤ r.count := by
  rw [count_keep]
  exact r.countP_le_count t

/-- What the statistics of a report show is a text or the number zero. -/
theorem isStatistic_of_mem_shares (r : Report) {e : String × Json} (he : e ∈ r.shares) :
    IsStatistic e.2 := by
  obtain ⟨entry, -, rfl⟩ := List.mem_map.mp he
  change IsStatistic (Tally.share entry.2 r.count)
  rw [Tally.share]
  split
  · exact .natural (by decide)
  · exact .string _

end Report

namespace Request

/-- The second request asks for the same directory and version, and for no less. -/
structure Within (q q' : Request) : Prop where
  root : q'.root = q.root
  target : q'.target = q.target
  categories : q.categories ⊆ q'.categories
  confidences : q.confidences ⊆ q'.confidences

variable {q q' : Request}

/-- A request that asks for no less selects everything that was selected. -/
theorem Within.select (h : q.Within q') (all : Report) :
    q'.select (q.select all) = q.select all := by
  rw [select_eq_keep, select_eq_keep]
  refine Report.keep_keep_of_imp (fun g hg => ?_) all
  obtain ⟨hcategory, hconfidence⟩ := of_decide_eq_true hg
  exact decide_eq_true ⟨h.categories hcategory, h.confidences hconfidence⟩

/-- Of what a request has selected, a request that asks for no less makes the same context. -/
theorem Within.context (h : q.Within q') (all : Report) (seconds seconds' : Number.Binary64) :
    q'.context (q.select all) seconds' = { q.context all seconds with seconds := seconds' } := by
  simp only [Request.context, h.select, h.root, h.target]

/-! ## 2. What is rendered of a context

From the context to its text, and from a member of the text back to the report. -/

/-- The context of a report with numbers of the machine has no others. -/
theorem context_wellFormed (q : Request) {all : Report} (hlines : all.LinesFit)
    (hcount : all.count < Nat.pow 2 64) {seconds : Number.Binary64}
    (hseconds : seconds.significand < Nat.pow 2 53) : (q.context all seconds).WellFormed where
  total := by
    change (q.select all).count < _
    rw [select_eq_keep]
    exact (Report.count_keep_le _ all).trans_lt hcount
  names := (q.select all).names_shares_nodup
  values _ he := (q.select all).isStatistic_of_mem_shares he
  lines := by
    change (q.select all).LinesFit
    rw [select_eq_keep]
    exact Report.linesFit_keep hlines _
  seconds := hseconds

end Request

namespace Context

/-- In the text of a context, the member for the report reads back as the report. -/
theorem ofBytes_of_hasMember {c : Context} (h : c.WellFormed) {member : Bytes}
    (hmember : HasMember (printed 0 c.toJson) "directoryMatches" member) :
    Report.ofBytes member = .ok c.report := by
  have hfits := fits_toJson h
  rw [toJson] at hfits hmember
  cases hfits with
  | object hfits =>
    obtain ⟨j, hj, rfl⟩ := (hasMember_printed_iff hfits 0).mp hmember
    simp only [List.mem_cons, Prod.mk.injEq, String.reduceEq, false_and, true_and, false_or,
      or_false, List.not_mem_nil] at hj
    rw [hj]
    exact Report.ofBytes_printed h.lines 1

/-- The document has a member for the report. -/
theorem exists_hasMember {c : Context} (h : c.WellFormed) :
    ∃ member, HasMember (printed 0 c.toJson) "directoryMatches" member := by
  have hfits := fits_toJson h
  rw [toJson] at hfits ⊢
  cases hfits with
  | object hfits => exact ⟨_, (hasMember_printed_iff hfits 0).mpr ⟨c.report.toJson, by simp, rfl⟩⟩

end Context

/-- The JSON format is the printed context and a line end, whatever templates there are. -/
theorem Renderer.exists_render_json (r : Renderer) (d : Disk) (log : Changelog) (c : Context) :
    ∃ text, (r.render d log "json" c).1 = .ok text ∧
      Text.Utf8.bytes text = printed 0 c.toJson ++ [0x0A] := by
  have hname : formatName "json" = "json" := by decide
  refine ⟨String.ofList (c.toJson.pretty 0 ++ ['\n']), ?_, ?_⟩
  · rw [render, hname, if_pos rfl]
  · rw [Text.Utf8.bytes, String.toList_ofList, Text.Utf8.encode_append]
    rfl

/-! ## 3. The scan of a reported scan

The second scan may have another engine, another state and other matchers. What its engine gives is
what was read from the document of the first one. -/

/-- **A scan of its own report.** The report that a scan shows in the JSON format is one member of
a document, and reads back. An engine that gives it to a request for the same directory and
version that asks for no less makes a context that differs in the time only. -/
theorem scan_own_report {σ : Type} (engine : Engine σ) (base : Path) (q : Request)
    (seconds : Number.Binary64) (s : σ) {s' : σ} {all : Report}
    (hengine : engine q.root (Ruleset.select q.target base) s = (.ok all, s'))
    (hlines : all.LinesFit) (hcount : all.count < Nat.pow 2 64)
    (hseconds : seconds.significand < Nat.pow 2 53) (r : Renderer) (d : Disk) (log : Changelog) :
    ∃ c text document, (scan engine base q seconds s).1 = .ok c ∧
      (r.render d log "json" c).1 = .ok text ∧ Text.Utf8.bytes text = document ++ [0x0A] ∧
      (∃ member, HasMember document "directoryMatches" member) ∧
      ∀ member, HasMember document "directoryMatches" member →
        ∃ again, Report.ofBytes member = .ok again ∧
          ∀ (τ : Type) (engine' : Engine τ) (base' : Path) (q' : Request)
            (seconds' : Number.Binary64) (t t' : τ), q.Within q' →
            engine' q'.root (Ruleset.select q'.target base') t = (.ok again, t') →
            (scan engine' base' q' seconds' t).1 = .ok { c with seconds := seconds' } := by
  have hc : (q.context all seconds).WellFormed := q.context_wellFormed hlines hcount hseconds
  obtain ⟨text, htext, hbytes⟩ := r.exists_render_json d log (q.context all seconds)
  refine ⟨q.context all seconds, text, _, ?_, htext, hbytes, Context.exists_hasMember hc,
    fun member hmember => ⟨_, Context.ofBytes_of_hasMember hc hmember, ?_⟩⟩
  · rw [scan_of_ok hengine]
  · intro τ engine' base' q' seconds' t t' hwithin hengine'
    rw [scan_of_ok hengine']
    exact congrArg Except.ok (hwithin.context all seconds seconds')

/-- Of three findings in two files one is asked for. The report of that scan, given to a request
for everything, again shows one finding as all that there is. -/
theorem scan_own_report_of_three :
    let g : Category → Confidence → Finding := fun k l => ⟨k, l, "R.rst", ⟨"/a.php"⟩, 3, "\"x\""⟩
    let all : Report := ⟨⟨"/site/ext/news"⟩,
      [⟨⟨"/a.php"⟩, [g .breaking .strong, g .feature .weak]⟩, ⟨⟨"/b.php"⟩, [g .feature .strong]⟩]⟩
    let q : Request := ⟨⟨"/site/ext/news"⟩, "11", [.breaking], [.strong]⟩
    let q' : Request := ⟨⟨"/site/ext/news"⟩, "11", Category.all, Confidence.all⟩
    let first : Number.Binary64 := ⟨false, 1, -1⟩
    let second : Number.Binary64 := ⟨false, 3, 0⟩
    q.Within q' ∧ all.LinesFit ∧ all.count < Nat.pow 2 64 ∧
    ∃ c text document member again,
      (scan (fun _ _ n => (.ok all, n + 1)) ⟨"/m/"⟩ q first (0 : Nat)).1 = .ok c ∧
      c.statistics.map (·.1) = ["STRONG", "WEAK", "BREAKING"] ∧
      ((Renderer.mk []).render ⟨.folder [], []⟩ default "json" c).1 = .ok text ∧
      Text.Utf8.bytes text = document ++ [0x0A] ∧
      HasMember document "directoryMatches" member ∧ Report.ofBytes member = .ok again ∧
      (scan (fun _ _ n => (.ok again, n)) ⟨"/other/"⟩ q' second (0 : Nat)).1 =
        .ok { c with seconds := second } := by
  intro g all q q' first second
  have hwithin : q.Within q' := ⟨rfl, rfl, by decide, by decide⟩
  have hlines : all.LinesFit := by
    change ∀ f ∈ all.files, ∀ x ∈ f.findings, x.line < Nat.pow 2 64
    decide
  have hcount : all.count < Nat.pow 2 64 := by decide
  obtain ⟨c, text, document, hscan, htext, hbytes, ⟨member, hmember⟩, hagain⟩ :=
    scan_own_report (fun _ _ n => (.ok all, n + 1)) ⟨"/m/"⟩ q first (0 : Nat) rfl hlines hcount
      (by decide) (Renderer.mk []) ⟨.folder [], []⟩ default
  obtain ⟨again, hread, hrescan⟩ := hagain member hmember
  have hc : c = q.context all first := (Except.ok.inj hscan).symm
  refine ⟨hwithin, hlines, hcount, c, text, document, member, again, hscan, ?_, htext, hbytes,
    hmember, hread, hrescan Nat _ ⟨"/other/"⟩ q' second 0 0 hwithin rfl⟩
  rw [hc]
  decide

end UpgradeScan
