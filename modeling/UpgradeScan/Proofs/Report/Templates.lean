/-
`Proofs/Report/Templates.lean` -- which templates can be loaded, and which formats there are then.

Templates are loaded one after the other, and the first one that cannot be used ends the loading. So
there are two questions. When does loading fail, and with what? It fails exactly when some source
cannot be used, with what is wrong with the first of them (`registerAll_eq_error_iff`). The built-in
layouts come first and are templates, so what is refused is always a file of the template directory
(`load_eq_error_iff`); that they are templates is computed, on their texts.

When it does not fail, what is there afterwards? All sources, each under its name, registered in
their order (`registerAll_eq_ok`). What a name stands for then is a matter of who came last, and is
settled in `Proofs/Report/Layout.lean`.

The formats are `json` and the names of the templates. The renderer decides twice whether it knows a
format, once when it is asked for its list and once when it is asked to render, and both decisions
agree (`render_eq_unknownFormat_iff`). A failed rendering says what the caller asked for, in the
caller's words, while the lookup was made with the trimmed name in lower case.
-/
import UpgradeScan.Proofs.Text.Utf8
import UpgradeScan.Report.Renderer

set_option autoImplicit false

namespace UpgradeScan.Renderer

open UpgradeScan.Template

/-! ## 1. One source after the other

The induction follows the list of sources. What is carried is only whether any of them was refused,
since the table of templates does not decide that. -/

/-- The source cannot be read or is no template. -/
def Unusable (source : Except Fault String) : Prop := ∀ text, source = .ok text → parse? text = none

/-- A text that is parsed can be used. -/
theorem not_unusable_of_isSome {text : String} (h : (parse? text).isSome = true) :
    ¬ Unusable (.ok text) := by
  intro hbad
  rw [hbad text rfl] at h
  cases h

/-- What is wrong with a source that cannot be used. -/
def faultOf (s : String × Except Fault String) : LoadFault :=
  match s.2 with
  | .error f => .unreadable s.1 f
  | .ok _ => .malformed s.1

/-- What is wrong with the first source that cannot be used. -/
inductive FirstUnusable : List (String × Except Fault String) → LoadFault → Prop
  | here {s : String × Except Fault String} {rest : List (String × Except Fault String)}
      (h : Unusable s.2) : FirstUnusable (s :: rest) (faultOf s)
  | later {s : String × Except Fault String} {rest : List (String × Except Fault String)}
      {f : LoadFault} (hs : ¬ Unusable s.2) (h : FirstUnusable rest f) : FirstUnusable (s :: rest) f

/-- The first source that cannot be used is the one at hand, or is among the rest when that one can
be used. -/
theorem firstUnusable_cons_iff {s : String × Except Fault String}
    {rest : List (String × Except Fault String)} {f : LoadFault} :
    FirstUnusable (s :: rest) f ↔
      Unusable s.2 ∧ f = faultOf s ∨ ¬ Unusable s.2 ∧ FirstUnusable rest f := by
  constructor
  · intro h
    cases h with
    | here h => exact .inl ⟨h, rfl⟩
    | later hs h => exact .inr ⟨hs, h⟩
  · rintro (⟨h, rfl⟩ | ⟨hs, h⟩)
    · exact .here h
    · exact .later hs h

/-- Sources that can be used are passed over. -/
theorem firstUnusable_append_iff {before rest : List (String × Except Fault String)}
    {f : LoadFault} (h : ∀ s ∈ before, ¬ Unusable s.2) :
    FirstUnusable (before ++ rest) f ↔ FirstUnusable rest f := by
  induction before with
  | nil => exact Iff.rfl
  | cons s before ih =>
    have hs := h s (List.mem_cons_self ..)
    rw [List.cons_append, firstUnusable_cons_iff, ih fun t ht => h t (List.mem_cons_of_mem s ht)]
    exact ⟨fun h' => (h'.resolve_left fun hbad => hs hbad.1).2, fun h' => .inr ⟨hs, h'⟩⟩

/-- There is a first one exactly when there is one. -/
theorem exists_firstUnusable_iff {sources : List (String × Except Fault String)} :
    (∃ f, FirstUnusable sources f) ↔ ∃ s ∈ sources, Unusable s.2 := by
  induction sources with
  | nil => exact ⟨fun ⟨f, h⟩ => (nomatch h), fun ⟨s, hs, _⟩ => absurd hs List.not_mem_nil⟩
  | cons s rest ih =>
    simp only [firstUnusable_cons_iff, List.mem_cons, exists_eq_or_imp, ← ih]
    by_cases hs : Unusable s.2
    · simp [hs]
    · simp [hs]

/-- Registering stops at the first source that cannot be used, with what is wrong with that one. -/
theorem registerAll_eq_error_iff {sources : List (String × Except Fault String)}
    {ts : List (String × List Element)} {e : ScanError} :
    registerAll sources ts = .error e ↔ ∃ f, FirstUnusable sources f ∧ e = .template (f := f) := by
  induction sources generalizing ts with
  | nil => exact ⟨nofun, fun ⟨f, h, _⟩ => (nomatch h)⟩
  | cons s rest ih =>
    obtain ⟨name, source⟩ := s
    -- one source that cannot be used decides the error
    have hstop {f : LoadFault} (hbad : Unusable source) (hf : faultOf (name, source) = f) :
        (Except.error (.template (f := f)) : Except ScanError (List (String × List Element))) =
          .error e ↔ ∃ f, FirstUnusable ((name, source) :: rest) f ∧ e = .template (f := f) := by
      subst hf
      constructor
      · intro h
        cases h
        exact ⟨_, .here hbad, rfl⟩
      · rintro ⟨f, h, rfl⟩
        rcases firstUnusable_cons_iff.mp h with ⟨-, rfl⟩ | ⟨hgood, -⟩
        · rfl
        · exact absurd hbad hgood
    cases source with
    | error f =>
      have hbad : Unusable (.error f) := by
        intro text h
        cases h
      exact hstop hbad rfl
    | ok text =>
      cases hp : parse? text with
      | none =>
        have hbad : Unusable (.ok text) := by
          intro t h
          cases h
          exact hp
        simp only [registerAll, hp]
        exact hstop hbad rfl
      | some es =>
        have hgood : ¬ Unusable (.ok text) := not_unusable_of_isSome (by rw [hp]; rfl)
        simp only [registerAll, hp, ih, firstUnusable_cons_iff, hgood, false_and, false_or,
          not_false_eq_true, true_and]

/-- The elements of a source; none when it cannot be used. -/
def elementsOf (source : Except Fault String) : List Element :=
  (source.toOption.bind parse?).getD []

/-- A source that cannot be used has no elements. -/
theorem unusable_iff {source : Except Fault String} :
    Unusable source ↔ source.toOption.bind parse? = none := by
  cases source <;> simp [Unusable, Except.toOption]

/-- Where every source can be used, all of them are registered, in their order. -/
theorem registerAll_eq_ok {sources : List (String × Except Fault String)}
    (h : ∀ s ∈ sources, ¬ Unusable s.2) (ts : List (String × List Element)) :
    registerAll sources ts =
      .ok (sources.foldl (fun ts s => register s.1 (elementsOf s.2) ts) ts) := by
  induction sources generalizing ts with
  | nil => rfl
  | cons s rest ih =>
    obtain ⟨name, source⟩ := s
    have hsource : source.toOption.bind parse? ≠ none :=
      mt unusable_iff.mpr (h (name, source) (List.mem_cons_self ..))
    have hrest := ih fun s hs => h s (List.mem_cons_of_mem _ hs)
    cases source with
    | error f => exact absurd rfl hsource
    | ok text =>
      cases hp : parse? text with
      | none => exact absurd hp hsource
      | some es =>
        have helements : elementsOf (.ok text) = es := congrArg (·.getD []) hp
        rw [List.foldl_cons, ← hrest, registerAll, hp, helements]

/-! ## 2. The built-in layouts

That the layouts are templates is decided by running the parser on them. It is run on their letters,
since the kernel is slow on texts and their positions. -/

/-- The elements of a template given by its characters. -/
def parseLetters? (letters : List Char) : Option (List Element) :=
  match cut (letters.length + 1) [] letters with
  | .error _ => none
  | .ok parts =>
    match build (2 * parts.length + 2) (settle false false parts) with
    | .ok (es, []) => some es
    | _ => none

/-- The parser looks at nothing but the characters. -/
theorem parse?_eq (s : String) :
    parse? s = parseLetters? ((Text.Utf8.decode? s.toByteArray.data.toList).getD []) := by
  rw [parse?, ← String.length_toList, Text.Utf8.toList_eq]
  rfl

theorem plain_isTemplate : (parse? Layout.plain).isSome = true := by
  -- the characters come from the bytes, which the kernel has at hand
  rw [parse?_eq]
  decide +kernel

theorem markdown_isTemplate : (parse? Layout.markdown).isSome = true := by
  rw [parse?_eq]
  decide +kernel

/-- No built-in layout is refused. -/
theorem not_unusable_builtIn {s : String × Except Fault String} (hs : s ∈ builtIn) :
    ¬ Unusable s.2 := by
  rw [builtIn, List.mem_cons, List.mem_singleton] at hs
  rcases hs with rfl | rfl
  · exact not_unusable_of_isSome plain_isTemplate
  · exact not_unusable_of_isSome markdown_isTemplate

/-! ## 3. The template directory

The same with the sources of a directory behind the built-in layouts. -/

/-- The templates are refused for the first one of the directory that cannot be used. -/
theorem load_eq_error_iff {d : Disk} {dir : Option Path} {e : ScanError} :
    load d dir = .error e ↔ ∃ f, FirstUnusable (sources d dir) f ∧ e = .template (f := f) := by
  have hload : load d dir = .error e ↔ registerAll (builtIn ++ sources d dir) [] = .error e := by
    unfold load
    -- The layouts stay closed: to look at them would be to parse them.
    generalize registerAll (builtIn ++ sources d dir) [] = r
    cases r <;> simp [Except.map]
  rw [hload, registerAll_eq_error_iff]
  simp only [firstUnusable_append_iff fun s hs => not_unusable_builtIn hs]

/-- The templates are refused exactly when one of the directory cannot be used. -/
theorem exists_load_eq_error_iff {d : Disk} {dir : Option Path} :
    (∃ f, load d dir = .error (.template (f := f))) ↔ ∃ s ∈ sources d dir, Unusable s.2 := by
  rw [← exists_firstUnusable_iff]
  constructor
  · rintro ⟨f, h⟩
    obtain ⟨f, hf, -⟩ := load_eq_error_iff.mp h
    exact ⟨f, hf⟩
  · rintro ⟨f, hf⟩
    exact ⟨f, load_eq_error_iff.mpr ⟨f, hf, rfl⟩⟩

/-- Where no template is refused, all of them are there. -/
theorem load_eq_ok {d : Disk} {dir : Option Path} (h : ∀ s ∈ sources d dir, ¬ Unusable s.2) :
    load d dir = .ok ⟨(builtIn ++ sources d dir).foldl
      (fun ts s => register s.1 (elementsOf s.2) ts) []⟩ := by
  have hall : ∀ s ∈ builtIn ++ sources d dir, ¬ Unusable s.2 := by
    intro s hs
    rcases List.mem_append.mp hs with hs | hs
    · exact not_unusable_builtIn hs
    · exact h s hs
  rw [load, registerAll_eq_ok hall, Except.map]

/-- The same, where it can be computed that no template is refused. -/
theorem load_eq_ok_of_isSome {d : Disk} {dir : Option Path}
    (h : ∀ s ∈ sources d dir, (s.2.toOption.bind parse?).isSome = true) :
    load d dir = .ok ⟨(builtIn ++ sources d dir).foldl
      (fun ts s => register s.1 (elementsOf s.2) ts) []⟩ :=
  load_eq_ok fun s hs hbad => by
    have hsome := h s hs
    rw [unusable_iff.mp hbad] at hsome
    cases hsome

/-- Without a template directory nothing is refused. -/
theorem exists_load_none (d : Disk) : ∃ r, load d none = .ok r := by
  cases h : load d none with
  | error e =>
    obtain ⟨f, hf, -⟩ := load_eq_error_iff.mp h
    cases hf
  | ok r => exact ⟨r, rfl⟩

/-! ## 4. Formats

A format is listed by its name and looked up by its name, trimmed and in lower case. -/

section

variable {r : Renderer} {format : String} (d : Disk) (log : Changelog) (c : Context)
  (chance : Chance)

/-- A name is listed when something is found under it. -/
theorem mem_names_iff {name : String} :
    name ∈ r.templates.map (·.1) ↔ ∃ es, r.templates.lookup name = some es := by
  rw [← Option.isSome_iff_exists, Option.isSome_iff_ne_none, Ne, List.lookup_eq_none_iff]
  simp

/-- A format is listed when it is `json` or a template has its name. -/
theorem mem_formats_iff {name : String} :
    name ∈ r.formats ↔ name = "json" ∨ ∃ es, r.templates.lookup name = some es := by
  rw [formats, List.mem_mergeSort, List.mem_append, List.mem_singleton, mem_names_iff, or_comm]

/-- A format that is not `json` is rendered by the template of its name. -/
theorem render_of_lookup (hjson : formatName format ≠ "json") {es : List Element}
    (hes : r.templates.lookup (formatName format) = some es) :
    r.render d log format c chance =
      ((run (r.setting d c) chance (formatName format) es log).1.mapError fun i => .render (i := i),
        (run (r.setting d c) chance (formatName format) es log).2) := by
  simp only [render, if_neg hjson, hes]
  rcases run (r.setting d c) chance (formatName format) es log with ⟨_ | text, after⟩
  · rfl
  · rfl

/-- A format is accepted when the name that it is looked up by is listed. -/
theorem knows_iff : r.knows format = true ↔ formatName format ∈ r.formats :=
  List.contains_iff_mem

/-- What is rendered in a listed format either succeeds or fails in its template. -/
theorem render_of_mem_formats (h : formatName format ∈ r.formats) :
    (∃ text, (r.render d log format c chance).1 = .ok text) ∨
      ∃ i, (r.render d log format c chance).1 = .error (.render (i := i)) := by
  by_cases hjson : formatName format = "json"
  · rw [render, if_pos hjson]
    exact .inl ⟨_, rfl⟩
  · obtain ⟨es, hes⟩ := (mem_formats_iff.mp h).resolve_left hjson
    rw [render_of_lookup d log c chance hjson hes]
    cases (run (r.setting d c) chance (formatName format) es log).1 with
    | error i => exact .inr ⟨i, rfl⟩
    | ok text => exact .inl ⟨text, rfl⟩

/-- A format that is not listed is refused before anything is looked up in the changelog. -/
theorem render_of_not_mem_formats (h : formatName format ∉ r.formats) :
    r.render d log format c chance = (.error (.unknownFormat format), log) := by
  rw [mem_formats_iff, not_or, not_exists] at h
  rw [render, if_neg h.1, Option.eq_none_iff_forall_ne_some.mpr h.2]

/-- No format is unknown but one that is not listed, and then it is named as it was given. -/
theorem render_eq_unknownFormat_iff {d : Disk} {log : Changelog} {c : Context} {chance : Chance}
    {name : String} :
    (r.render d log format c chance).1 = .error (.unknownFormat name) ↔
      formatName format ∉ r.formats ∧ name = format := by
  constructor
  · intro h
    by_cases hmem : formatName format ∈ r.formats
    · rcases render_of_mem_formats d log c chance hmem with ⟨text, hok⟩ | ⟨i, herror⟩
      · rw [hok] at h
        cases h
      · rw [herror] at h
        cases h
    · rw [render_of_not_mem_formats d log c chance hmem] at h
      cases h
      exact ⟨hmem, rfl⟩
  · rintro ⟨hmem, rfl⟩
    rw [render_of_not_mem_formats d log c chance hmem]

end

end UpgradeScan.Renderer
