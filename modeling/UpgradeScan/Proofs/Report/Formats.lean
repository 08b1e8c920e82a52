/-
`Proofs/Report/Formats.lean` -- when the list of formats is exact.

The list of formats is what a user is offered, so a name should be on it exactly when a report can
be had under that name, and once. It is made of the names of the templates and `json`, in the order
of their bytes. A format is looked up in another way: the name that was given is trimmed and put
into lower case, and `json` is taken before any template. Whether the two agree depends on the names
of the templates, and those come from the names of files in a directory that anybody may fill.

Most of what could go wrong does not. The name of a template is put into lower case when it is
registered, and a second template of a name replaces the first (`nodup_names_load`). Two things are
left. A template that is itself called `json` puts that name into the list a second time, and it is
never used. A template whose name has a blank at an end is listed by a name that no lookup comes to,
since a lookup trims. Without such a template the list is exact, and with one it is not
(`formats_exact_iff`); that the condition can fail is shown by `not_formats_exact`.

What can be said for every directory is said first and has no condition: the order, the three names
that are always there, and that among names without blanks at their ends the list has exactly those
that are not refused.
-/
import UpgradeScan.Proofs.Report.Override

set_option autoImplicit false

namespace UpgradeScan

open UpgradeScan.Template
open Text.Utf8 (bytes)

/-! ## 1. Names in lower case

A name is put into lower case twice on its way, once when a template is registered and once when a
format is looked up. The second time changes nothing. -/

namespace Text

/-- A small letter is its own small letter. -/
theorem toLower_toLower (c : Char) : c.toLower.toLower = c.toLower := by
  by_cases h : c.val ≥ 'A'.val ∧ c.val ≤ 'Z'.val
  · have hval : c.toLower.val = c.val + ('a'.val - 'A'.val) := congrArg Char.val (dif_pos h)
    have hnot : ¬ (c.toLower.val ≥ 'A'.val ∧ c.toLower.val ≤ 'Z'.val) := by
      rw [hval]
      simp only [ge_iff_le, UInt32.le_iff_toNat_le, UInt32.toNat_add, Char.reduceVal,
        UInt32.reduceSub, UInt32.reduceToNat] at h ⊢
      omega
    exact dif_neg hnot
  · have hsame : c.toLower = c := dif_neg h
    rw [hsame, hsame]

theorem lowered_lowered (s : String) : lowered (lowered s) = lowered s := by
  simp only [lowered, lower, String.toList_ofList, List.map_map, Function.comp_def, toLower_toLower]

end Text

namespace Renderer

/-- The format of a template file is in lower case. -/
theorem IsTemplateOf.lowered {format file : String} (h : IsTemplateOf format file) :
    Text.lowered format = format := by
  cases h with
  | named hne h => rw [← h, Text.lowered_lowered]
  | bare h => rw [h]; decide

/-! ## 2. Names of templates

Registering a template either replaces one or adds one at the end, so names stay distinct. That is
carried through the whole directory. -/

/-- A new name comes last, and a name that is there stays where it is. -/
theorem names_register (name : String) (es : List Element) (ts : List (String × List Element)) :
    (register name es ts).map (·.1) =
      if name ∈ ts.map (·.1) then ts.map (·.1) else ts.map (·.1) ++ [name] := by
  have hany : ts.any (·.1 == name) = true ↔ name ∈ ts.map (·.1) := by
    simp only [List.any_eq_true, beq_iff_eq, List.mem_map]
  rw [register]
  by_cases h : name ∈ ts.map (·.1)
  · rw [if_pos (hany.mpr h), if_pos h, List.map_map]
    refine List.map_congr_left fun t _ => ?_
    by_cases ht : t.1 = name <;> simp [ht]
  · rw [if_neg (mt hany.mp h), if_neg h, List.map_append]
    rfl

/-- No name is registered twice. -/
theorem nodup_register {ts : List (String × List Element)} (h : (ts.map (·.1)).Nodup)
    (name : String) (es : List Element) : ((register name es ts).map (·.1)).Nodup := by
  rw [names_register]
  split
  · exact h
  · next hname =>
    rw [← List.concat_eq_append]
    exact h.concat hname

/-- Neither is it when a list of sources is registered. -/
theorem nodup_registerAll {sources : List (String × Except Fault String)}
    {ts ts' : List (String × List Element)} (h : (ts.map (·.1)).Nodup)
    (hall : registerAll sources ts = .ok ts') : (ts'.map (·.1)).Nodup := by
  induction sources generalizing ts with
  | nil =>
    cases hall
    exact h
  | cons s rest ih =>
    obtain ⟨name, source⟩ := s
    cases source with
    | error f => cases hall
    | ok text =>
      rw [registerAll] at hall
      split at hall
      · next es _ => exact ih (nodup_register h name es) hall
      · cases hall

section

variable {d : Disk} {dir : Option Path} {r : Renderer}

/-- The templates of a renderer have distinct names. -/
theorem nodup_names_load (h : load d dir = .ok r) : (r.templates.map (·.1)).Nodup := by
  rw [load] at h
  generalize hloaded : registerAll (builtIn ++ sources d dir) [] = loaded at h
  cases loaded with
  | error e => cases h
  | ok ts =>
    cases h
    have hnil : (([] : List (String × List Element)).map (·.1)).Nodup := List.nodup_nil
    exact nodup_registerAll hnil hloaded

/-- A name has a template when the directory has one for it, or a built-in layout is called so. -/
theorem exists_lookup_iff (hproper : (Node.folder (entries d dir)).Proper) (h : load d dir = .ok r)
    {name : String} : (∃ es, r.templates.lookup name = some es) ↔
      (∃ e ∈ entries d dir, IsTemplateOf name e.1) ∨ name = "plain" ∨ name = "markdown" := by
  have huses := uses_lookup hproper h name
  generalize r.templates.lookup name = found at huses
  cases huses with
  | own hlast _ _ => exact iff_of_true ⟨_, rfl⟩ (.inl ⟨_, hlast.mem, hlast.isTemplate⟩)
  | builtIn _ hlayout _ =>
    refine iff_of_true ⟨_, rfl⟩ (.inr ?_)
    simp only [List.mem_cons, Prod.mk.injEq, List.not_mem_nil, or_false] at hlayout
    exact hlayout.imp And.left And.left
  | nothing hno hplain hmarkdown =>
    refine iff_of_false (by simp) ?_
    rintro (⟨e, he, hformat⟩ | hname | hname)
    · exact hno e he hformat
    · exact hplain hname
    · exact hmarkdown hname

/-! ## 3. The list

Exactness is a structure with one field for each thing that is expected of the list. The first
lemmas are about what holds in any case; the last ones say what the two kinds of names do to it. -/

/-- Names in the order of their bytes, which may be there more than once. -/
theorem pairwise_formats (r : Renderer) : r.formats.Pairwise fun a b => bytes a ≤ bytes b := by
  have htrans : ∀ a b c : String, decide (bytes a ≤ bytes b) = true →
      decide (bytes b ≤ bytes c) = true → decide (bytes a ≤ bytes c) = true := by
    intro a b c hab hbc
    exact decide_eq_true (List.le_trans (of_decide_eq_true hab) (of_decide_eq_true hbc))
  have htotal : ∀ a b : String,
      (decide (bytes a ≤ bytes b) || decide (bytes b ≤ bytes a)) = true := by
    intro a b
    rw [Bool.or_eq_true, decide_eq_true_eq, decide_eq_true_eq]
    exact List.le_total (bytes a) (bytes b)
  exact (List.pairwise_mergeSort htrans htotal _).imp of_decide_eq_true

/-- Each name is there once, unless a template is called `json`. -/
theorem increasing_iff (h : load d dir = .ok r) :
    (r.formats.Pairwise fun a b => bytes a < bytes b) ↔
      ¬ ∃ es, r.templates.lookup "json" = some es := by
  have hperm : r.formats.Perm (r.templates.map (·.1) ++ ["json"]) := List.mergeSort_perm _ _
  have hnodup : r.formats.Nodup ↔ ¬ ∃ es, r.templates.lookup "json" = some es := by
    rw [hperm.nodup_iff, ← List.concat_eq_append, List.nodup_concat,
      and_iff_left (nodup_names_load h), mem_names_iff]
  rw [← hnodup]
  constructor
  · intro hlt
    refine hlt.imp ?_
    rintro a b hab rfl
    exact List.lt_irrefl _ hab
  · intro hne
    refine ((pairwise_formats r).and hne).imp ?_
    rintro a b ⟨hle, hne⟩
    exact Std.lt_of_le_of_ne hle fun heq => hne (Node.bytes_inj heq)

/-- The list of formats is exact. -/
structure ListsExactly (r : Renderer) : Prop where
  /-- No name is there twice. -/
  increasing : r.formats.Pairwise fun a b => bytes a < bytes b
  json : "json" ∈ r.formats
  plain : "plain" ∈ r.formats
  markdown : "markdown" ∈ r.formats
  /-- The names are those, trimmed and in lower case, that are not refused as unknown. -/
  known : ∀ (d : Disk) (log : Changelog) (c : Context) (chance : Chance) (name : String),
    name ∈ r.formats ↔ Text.trimmed name = name ∧ Text.lowered name = name ∧
      ∀ given, (r.render d log name c chance).1 ≠ .error (.unknownFormat given)
  /-- What is rendered by a listed name is what it stands for: the context itself, or the template
  of that very name. -/
  reached : ∀ (d : Disk) (log : Changelog) (c : Context) (chance : Chance), ∀ name ∈ r.formats,
    name = "json" ∧
        r.render d log name c chance = (.ok (String.ofList (c.toJson.pretty 0 ++ ['\n'])), log) ∨
      ∃ es, r.templates.lookup name = some es ∧ r.render d log name c chance =
        ((run (r.setting d c) chance name es log).1.mapError fun i => .render (i := i),
          (run (r.setting d c) chance name es log).2)

/-- A name without blanks at its ends is looked up in lower case. -/
theorem formatName_of_trimmed {name : String} (h : Text.trimmed name = name) :
    formatName name = Text.lowered name := by
  rw [formatName, h]

/-- Of names without blanks at their ends the list has those that are not refused as unknown. -/
theorem mem_formats_of_trimmed (hproper : (Node.folder (entries d dir)).Proper)
    (h : load d dir = .ok r) (d' : Disk) (log : Changelog) (c : Context) (chance : Chance)
    {name : String} (hname : Text.trimmed name = name) :
    name ∈ r.formats ↔ Text.lowered name = name ∧
      ∀ given, (r.render d' log name c chance).1 ≠ .error (.unknownFormat given) := by
  -- The renderer looks up the name in lower case, and listed names are in lower case.
  have hunknown : (∀ given, (r.render d' log name c chance).1 ≠ .error (.unknownFormat given)) ↔
      Text.lowered name ∈ r.formats := by
    simp only [Ne, render_eq_unknownFormat_iff, formatName_of_trimmed hname, not_and', forall_eq,
      not_not]
  have hlowered : name ∈ r.formats → Text.lowered name = name := by
    rw [mem_formats_iff, exists_lookup_iff hproper h]
    rintro (rfl | ⟨e, -, hformat⟩ | rfl | rfl)
    · decide
    · exact hformat.lowered
    · decide
    · decide
  rw [hunknown]
  constructor
  · intro hmem
    rw [hlowered hmem]
    exact ⟨rfl, hmem⟩
  · rintro ⟨heq, hmem⟩
    rwa [heq] at hmem

/-- What is rendered by a listed name that a lookup comes to is what the name stands for. -/
theorem render_reaches {name : String} (hmem : name ∈ r.formats)
    (hname : formatName name = name) (d' : Disk) (log : Changelog) (c : Context)
    (chance : Chance) :
    name = "json" ∧
        r.render d' log name c chance = (.ok (String.ofList (c.toJson.pretty 0 ++ ['\n'])), log) ∨
      ∃ es, r.templates.lookup name = some es ∧ r.render d' log name c chance =
        ((run (r.setting d' c) chance name es log).1.mapError fun i => .render (i := i),
          (run (r.setting d' c) chance name es log).2) := by
  by_cases hjson : name = "json"
  · refine .inl ⟨hjson, ?_⟩
    rw [render, hname, if_pos hjson]
  · obtain ⟨es, hes⟩ := (mem_formats_iff.mp hmem).resolve_left hjson
    refine .inr ⟨es, hes, ?_⟩
    have hrender := render_of_lookup d' log c chance (by rwa [hname]) (hname.symm ▸ hes)
    rwa [hname] at hrender

/-- The names that are always there. -/
theorem mem_formats_always (hproper : (Node.folder (entries d dir)).Proper)
    (h : load d dir = .ok r) :
    "json" ∈ r.formats ∧ "plain" ∈ r.formats ∧ "markdown" ∈ r.formats := by
  simp only [mem_formats_iff, exists_lookup_iff hproper h]
  simp

/-- An exact list has no template called `json` and none with a blank at an end of its name. -/
theorem ListsExactly.ne_json_and_trimmed (hexact : r.ListsExactly)
    (hproper : (Node.folder (entries d dir)).Proper) (h : load d dir = .ok r) :
    ∀ e ∈ entries d dir, ∀ format, IsTemplateOf format e.1 →
      format ≠ "json" ∧ Text.trimmed format = format := by
  intro e he format hformat
  have hfound : ∃ es, r.templates.lookup format = some es :=
    (exists_lookup_iff hproper h).mpr (.inl ⟨e, he, hformat⟩)
  refine ⟨?_, ((hexact.known d default default {} format).mp (mem_formats_iff.mpr (.inr hfound))).1⟩
  rintro rfl
  exact (increasing_iff h).mp hexact.increasing hfound

/-- Without a template called `json`, and none with a blank at an end of its name, the list is
exact. -/
theorem listsExactly_of_names (hproper : (Node.folder (entries d dir)).Proper)
    (h : load d dir = .ok r)
    (hnames : ∀ e ∈ entries d dir, ∀ format, IsTemplateOf format e.1 →
      format ≠ "json" ∧ Text.trimmed format = format) : r.ListsExactly := by
  have htrimmed : ∀ name ∈ r.formats, Text.trimmed name = name := by
    intro name hname
    rw [mem_formats_iff, exists_lookup_iff hproper h] at hname
    rcases hname with rfl | ⟨e, he, hformat⟩ | rfl | rfl
    · decide
    · exact (hnames e he name hformat).2
    · decide
    · decide
  -- For a trimmed name being listed and being accepted are the same; the hypothesis says that
  -- only trimmed names are listed.
  have hknown : ∀ (d' : Disk) (log : Changelog) (c : Context) (chance : Chance) (name : String),
      name ∈ r.formats ↔ Text.trimmed name = name ∧ Text.lowered name = name ∧
        ∀ given, (r.render d' log name c chance).1 ≠ .error (.unknownFormat given) := by
    intro d' log c chance name
    rw [← and_congr_right fun hname => mem_formats_of_trimmed hproper h d' log c chance hname]
    exact ⟨fun hmem => ⟨htrimmed name hmem, hmem⟩, And.right⟩
  obtain ⟨hjson, hplain, hmarkdown⟩ := mem_formats_always hproper h
  refine ⟨(increasing_iff h).mpr ?_, hjson, hplain, hmarkdown, hknown, ?_⟩
  · rw [exists_lookup_iff hproper h]
    rintro (⟨e, he, hformat⟩ | hname | hname)
    · exact (hnames e he "json" hformat).1 rfl
    · exact absurd hname (by decide)
    · exact absurd hname (by decide)
  · intro d' log c chance name hmem
    obtain ⟨htrim, hlower, -⟩ := (hknown d' log c chance name).mp hmem
    exact render_reaches hmem ((formatName_of_trimmed htrim).trans hlower) d' log c chance

/-- **When the list of formats is exact.** The list is in the order of bytes and has `json` and both
built-in layouts, and of names without blanks at their ends it has those that are rendered. So it is
exact as long as no template is called `json` and none has a name with a blank at an end. A template
called `json` is listed beside the `json` that is always there; a name with a blank is listed, but
what is rendered for it is another name. -/
theorem formats_exact_iff (hproper : (Node.folder (entries d dir)).Proper)
    (h : load d dir = .ok r) :
    (r.formats.Pairwise fun a b => bytes a ≤ bytes b) ∧
    "json" ∈ r.formats ∧ "plain" ∈ r.formats ∧ "markdown" ∈ r.formats ∧
    (∀ (d' : Disk) (log : Changelog) (c : Context) (chance : Chance) (name : String),
      Text.trimmed name = name → (name ∈ r.formats ↔ Text.lowered name = name ∧
        ∀ given, (r.render d' log name c chance).1 ≠ .error (.unknownFormat given))) ∧
    (r.ListsExactly ↔ ∀ e ∈ entries d dir, ∀ format, IsTemplateOf format e.1 →
      format ≠ "json" ∧ Text.trimmed format = format) := by
  obtain ⟨hjson, hplain, hmarkdown⟩ := mem_formats_always hproper h
  refine ⟨pairwise_formats r, hjson, hplain, hmarkdown,
    fun d' log c chance name => mem_formats_of_trimmed hproper h d' log c chance, ?_⟩
  exact ⟨fun hexact => hexact.ne_json_and_trimmed hproper h, listsExactly_of_names hproper h⟩

/-- The list is exact where the directory has a template in place of a built-in one and another of
a new name. -/
theorem formats_exact_of_new_name :
    let content (s : String) : Node := .file (Text.Utf8.encode s.toList)
    let es : List (String × Node) := [("Own.hbs", content "own"), ("PLAIN.hbs", content "short")]
    let disk : Disk := ⟨.folder [("t", .folder es)], []⟩
    (Node.folder (entries disk (some ⟨"/t"⟩))).Proper ∧
    ∃ r, load disk (some ⟨"/t"⟩) = .ok r ∧ r.ListsExactly := by
  intro content es disk
  have hproper : (Node.folder (entries disk (some ⟨"/t"⟩))).Proper := by
    change (Node.folder es).Proper
    refine Node.proper_folder (by decide) (by decide +kernel) ?_
    simp [es, content, Node.proper_file]
  have husable : ∀ e ∈ es, ".hbs".toList <:+ e.1.toList →
      (e.2.text?.bind parse?).isSome = true := by decide +kernel
  obtain ⟨r, hr⟩ := exists_load hproper husable
  obtain ⟨-, -, -, -, -, hexact⟩ := formats_exact_iff hproper hr
  refine ⟨hproper, r, hr, hexact.mpr ?_⟩
  have hnames : ∀ e ∈ es, formatOf e.1 ≠ "json" ∧ Text.trimmed (formatOf e.1) = formatOf e.1 := by
    decide +kernel
  intro e he format hformat
  obtain ⟨-, rfl⟩ := isTemplateOf_iff.mp hformat
  exact hnames e he

/-- The list is not exact for every directory. With a template called `json` that name is there
twice, and of a template whose name begins with a blank the list has a name that is refused as
unknown. -/
theorem not_formats_exact :
    let content (s : String) : Node := .file (Text.Utf8.encode s.toList)
    let twice : List (String × Node) := [("json.hbs", content "own")]
    let blank : List (String × Node) := [(" x.hbs", content "own")]
    let disk : Disk := ⟨.folder [("a", .folder twice), ("b", .folder blank)], []⟩
    (∃ r, load disk (some ⟨"/a"⟩) = .ok r ∧ ¬ r.ListsExactly ∧
      ¬ r.formats.Pairwise fun a b => bytes a < bytes b) ∧
    ∃ r, load disk (some ⟨"/b"⟩) = .ok r ∧ ¬ r.ListsExactly ∧ " x" ∈ r.formats ∧
      ∀ (log : Changelog) (c : Context) (chance : Chance),
        r.render disk log " x" c chance = (.error (.unknownFormat " x"), log) := by
  intro content twice blank disk
  have hproper : ∀ name : String, Node.IsFileName name →
      (Node.folder [(name, content "own")]).Proper := by
    intro name hname
    refine Node.proper_folder (by simp) (by simpa using hname) ?_
    simp [content, Node.proper_file]
  have hproperTwice : (Node.folder (entries disk (some ⟨"/a"⟩))).Proper :=
    hproper "json.hbs" (by decide +kernel)
  have hproperBlank : (Node.folder (entries disk (some ⟨"/b"⟩))).Proper :=
    hproper " x.hbs" (by decide +kernel)
  have husableTwice : ∀ e ∈ twice, ".hbs".toList <:+ e.1.toList →
      (e.2.text?.bind parse?).isSome = true := by decide +kernel
  have husableBlank : ∀ e ∈ blank, ".hbs".toList <:+ e.1.toList →
      (e.2.text?.bind parse?).isSome = true := by decide +kernel
  obtain ⟨r, hr⟩ := exists_load hproperTwice husableTwice
  obtain ⟨r', hr'⟩ := exists_load hproperBlank husableBlank
  -- In the first folder a name is listed twice, in the second one is listed that no request
  -- can reach, since a request is trimmed.
  have hnotIncreasing : ¬ r.formats.Pairwise fun a b => bytes a < bytes b := by
    rw [increasing_iff hr, not_not, exists_lookup_iff hproperTwice hr]
    exact .inl ⟨_, List.mem_cons_self, isTemplateOf_iff.mpr (by decide)⟩
  have hlisted : " x" ∈ r'.formats := by
    rw [mem_formats_iff, exists_lookup_iff hproperBlank hr']
    exact .inr (.inl ⟨_, List.mem_cons_self, isTemplateOf_iff.mpr (by decide)⟩)
  refine ⟨⟨r, hr, fun hexact => hnotIncreasing hexact.increasing, hnotIncreasing⟩,
    r', hr', fun hexact => ?_, hlisted, fun log c chance => ?_⟩
  · have htrimmed := ((hexact.known disk default default {} " x").mp hlisted).1
    exact absurd htrimmed (by decide)
  · have hformat : formatName " x" = "x" := by decide
    refine render_of_not_mem_formats disk log c chance ?_
    rw [hformat, mem_formats_iff, exists_lookup_iff hproperBlank hr']
    rintro (hname | ⟨e, he, htemplate⟩ | hname | hname)
    · exact absurd hname (by decide)
    · obtain rfl := List.mem_singleton.mp he
      exact absurd htemplate (by decide)
    · exact absurd hname (by decide)
    · exact absurd hname (by decide)

end

end Renderer

end UpgradeScan
