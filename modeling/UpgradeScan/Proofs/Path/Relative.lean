/-
`Proofs/Path/Relative.lean` -- a relative path leads back to where it was taken from.

Two paths are walked together as long as they agree. What is left of the base is climbed with one
`..` for each component, and what is left of the path is written after that. Joined to the base, the
climb takes back exactly what was left of it (`foldl_climb_ups`), so the walk ends at the path.
Below the base nothing is left to climb. Only two equal paths leave nothing to write: then the path
stays as it is, and it is absolute, so the base does not matter.

That a relative path is right is not said by computing it a second time. It is joined to the base,
and the result is resolved: every `..` takes back the name before it. `resolved` is defined for that
purpose, by one step for each component (`climb`), and it knows nothing of the walk.

The walk works on components, but what is printed is a text, which is read again as a path. In
between lies the third section: components that can be written without becoming something else
(`Component.IsStep`), a path that is joined from them one after the other, and its text, with one
slash between two of them. A name that is empty, has a slash or is a dot would be read differently;
the names of a path are none of these, so no condition on the two paths is added for it.
-/
import UpgradeScan.Proofs.Path.Parent
import UpgradeScan.Report.Function

set_option autoImplicit false

namespace UpgradeScan.Path

/-! ## 1. Taking names back

Resolving a path from its front on. A name is added, a `..` takes the name before it away, and at
the root it has no effect. Since a row of names followed by as many `..` cancels, the detour over a
common folder ends in that folder. -/

/-- One component further: a `..` takes back the name before it, and at the root it stays there. -/
def climb (cs : List Component) (c : Component) : List Component :=
  match c, cs.getLast? with
  | .up, some (.name _) => cs.dropLast
  | .up, some .root => cs
  | _, _ => cs ++ [c]

/-- The components of a path, with every `..` resolved from the front on. -/
def resolved (p : Path) : List Component := p.components.foldl climb []

/-- Names are added as they come. -/
theorem foldl_climb_names (cs : List Component) (names : List String) :
    (names.map .name).foldl climb cs = cs ++ names.map .name := by
  induction names generalizing cs with
  | nil => rw [List.map_nil, List.foldl_nil, List.append_nil]
  | cons s names ih =>
    have hstep : climb cs (.name s) = cs ++ [.name s] := rfl
    rw [List.map_cons, List.foldl_cons, hstep, ih, List.append_assoc, List.singleton_append]

/-- As many `..` as there are names take all of them back. -/
theorem foldl_climb_ups (cs : List Component) (names : List String) :
    (List.replicate names.length .up).foldl climb (cs ++ names.map .name) = cs := by
  -- the last name is the first to be taken back
  induction names using List.reverseRecOn with
  | nil => exact List.append_nil cs
  | append_singleton names s ih =>
    have hstep : climb (cs ++ names.map .name ++ [.name s]) .up = cs ++ names.map .name := by
      simp only [climb, List.getLast?_concat]
      exact List.dropLast_concat
    rw [List.length_append, List.length_singleton, List.replicate_succ, List.foldl_cons,
      List.map_append, List.map_singleton, ← List.append_assoc, hstep]
    exact ih

/-- A path of names has nothing to take back. -/
theorem resolved_of_names {p : Path} {names : List String}
    (h : p.components = .root :: names.map .name) : p.resolved = p.components := by
  rw [resolved, h]
  exact foldl_climb_names [.root] names

/-! ## 2. The walk along both paths

What the walk along two rows of names returns. They have a longest common front, and behind it they
differ in the first name or one of them has ended. -/

/-- What both rows begin with is passed over. -/
theorem relative_common (common as bs : List Component) :
    relative true (common ++ as) (common ++ bs) = relative true as bs := by
  induction common with
  | nil => rfl
  | cons c common ih => simp [relative, ih]

/-- Where the path has ended, each name that is left of the base is climbed. -/
theorem relative_nil (fresh : Bool) (bs : List Component) :
    relative fresh [] bs = some (List.replicate bs.length .up) := by
  induction bs generalizing fresh with
  | nil => rfl
  | cons b bs ih =>
    rw [relative, ih, Option.map_some]
    rfl

/-- Up over as many names as the second row has, and down along the first. -/
def detour (as bs : List String) : List Component :=
  List.replicate bs.length .up ++ as.map .name

/-- Two rows of names part somewhere, and the way between them is the detour over that place. -/
theorem exists_relative (as bs : List String) :
    ∃ common as' bs', as = common ++ as' ∧ bs = common ++ bs' ∧
      relative true (as.map .name) (bs.map .name) = some (detour as' bs') := by
  induction as generalizing bs with
  | nil =>
    refine ⟨[], [], bs, rfl, rfl, ?_⟩
    rw [List.map_nil, relative_nil, List.length_map, detour, List.map_nil, List.append_nil]
  | cons a as ih =>
    cases bs with
    | nil => exact ⟨[], a :: as, [], rfl, rfl, rfl⟩
    | cons b bs =>
      by_cases hab : a = b
      · subst hab
        obtain ⟨common, as', bs', has, hbs, hrelative⟩ := ih bs
        refine ⟨a :: common, as', bs', by rw [has]; rfl, by rw [hbs]; rfl, ?_⟩
        rw [← hrelative]
        exact relative_common [.name a] _ _
      · refine ⟨[], a :: as, b :: bs, rfl, rfl, ?_⟩
        simp [relative, detour, hab]

/-! ## 3. The path of a row of components

From components to a text and back. Each component of the kind `..` or name is a text whose only
component it is, and joining such texts adds them up, so the path of a row has that row as its
components (`components_ofComponents`). -/

/-- The component can be written without standing for the root or a lone dot. -/
def Component.IsStep (c : Component) : Prop := c = .up ∨ ∃ s, c = .name s ∧ IsName s.toList

/-- A name can be written. -/
theorem isStep_name {s : String} (h : IsName s.toList) : (Component.name s).IsStep :=
  .inr ⟨s, rfl, h⟩

/-- Before a name nothing is read. -/
theorem lead_of_isName {s : List Char} (h : IsName s) : lead s = (.plain, s) := by
  fun_cases lead s with
  | case1 r => exact absurd List.mem_cons_self h.no_slash
  | case2 => exact absurd rfl h.ne_here
  | case3 r => exact absurd (List.mem_cons_of_mem _ List.mem_cons_self) h.no_slash
  | case4 => rfl

section IsStep

variable {c : Component} {cs : List Component}

/-- A written component is a plain text. -/
theorem Component.IsStep.isPlain (h : c.IsStep) : IsPlain ⟨c.text⟩ := by
  rcases h with rfl | ⟨s, rfl, hs⟩
  · rfl
  · rw [IsPlain]
    exact congrArg Prod.fst (lead_of_isName hs)

/-- A written component is read as itself. -/
theorem Component.IsStep.components (h : c.IsStep) : (Path.mk c.text).components = [c] := by
  rcases h with rfl | ⟨s, rfl, hs⟩
  · decide
  · rw [IsPlain.components_eq (isStep_name hs).isPlain]
    exact within_of_isName hs

theorem Component.IsStep.no_slash (h : c.IsStep) : '/' ∉ c.text.toList := by
  rcases h with rfl | ⟨s, rfl, hs⟩
  · decide
  · exact hs.no_slash

theorem Component.IsStep.ne_nil (h : c.IsStep) : c.text.toList ≠ [] := by
  rcases h with rfl | ⟨s, rfl, hs⟩
  · decide
  · exact hs.ne_nil

/-- The path of a row is joined from its front. -/
theorem ofComponents_concat (cs : List Component) (c : Component) :
    ofComponents (cs ++ [c]) = (ofComponents cs).join ⟨c.text⟩ := by
  rw [ofComponents, List.foldl_append]
  rfl

/-- **Written and read.** The path of a row of components has these components. -/
theorem components_ofComponents (h : ∀ c ∈ cs, c.IsStep) :
    (ofComponents cs).components = cs := by
  induction cs using List.reverseRecOn with
  | nil => decide
  | append_singleton cs c ih =>
    have hc : c.IsStep := h c (by simp)
    rw [ofComponents_concat, components_join _ hc.isPlain, hc.components,
      ih fun x hx => h x (List.mem_append_left _ hx)]

/-- Behind a component another one is written with a slash before it. -/
theorem join_of_ends {p q : Path} (hq : IsPlain q) {front : List Char} (hc : c.IsStep)
    (hp : p.text.toList = front ++ c.text.toList) : (p.join q).text = p.text ++ "/" ++ q.text := by
  obtain ⟨init, x, hx⟩ := (List.eq_nil_or_concat' c.text.toList).resolve_left hc.ne_nil
  have hlast : p.text.toList.getLast? = some x := by
    rw [hp, hx, ← List.append_assoc]
    exact List.getLast?_concat
  have hslash : x ≠ '/' := by
    intro h
    apply hc.no_slash
    rw [hx, h]
    exact List.mem_append_right _ List.mem_cons_self
  have hne : p.text ≠ "" := by
    intro h
    rw [h] at hlast
    cases hlast
  rw [join, if_neg hq.not_isAbsolute, if_neg]
  simp [hlast, hslash, hne]

/-- The text of the path has one slash between two components. -/
theorem text_ofComponents (h : ∀ c ∈ cs, c.IsStep) :
    (ofComponents cs).text.toList = Text.join ['/'] (cs.map fun c => c.text.toList) := by
  -- A path grows at its end, so the induction takes the last component off.
  induction cs using List.reverseRecOn with
  | nil => rfl
  | append_singleton cs c ih =>
    have hc : c.IsStep := h c (by simp)
    have hcs : ∀ x ∈ cs, x.IsStep := fun x hx => h x (List.mem_append_left _ hx)
    rcases List.eq_nil_or_concat' cs with rfl | ⟨init, last, rfl⟩
    · rw [ofComponents_concat, join, if_neg hc.isPlain.not_isAbsolute]
      exact congrArg String.toList (String.empty_append)
    · have hlast : last.IsStep := hcs last (by simp)
      obtain ⟨front, hfront⟩ :=
        Text.exists_join_concat ['/'] (init.map fun c => c.text.toList) last.text.toList
      have hends : (ofComponents (init ++ [last])).text.toList = front ++ last.text.toList := by
        rw [ih hcs, List.map_append, ← hfront]
        rfl
      have hmap : (init ++ [last] ++ [c]).map (fun c => c.text.toList) =
          (init ++ [last]).map (fun c => c.text.toList) ++ [c.text.toList] := List.map_append
      rw [ofComponents_concat, join_of_ends hc.isPlain hlast hends, String.toList_append,
        String.toList_append, ih hcs, hmap, Text.join_append _ (by simp) (by simp)]
      rfl

/-- A path of components is seen from where it is joined. -/
theorem isPlain_ofComponents (h : ∀ c ∈ cs, c.IsStep) : IsPlain (ofComponents cs) := by
  rw [IsPlain, text_ofComponents h]
  cases cs with
  | nil => rfl
  | cons c cs =>
    have hc : c.IsStep := h c List.mem_cons_self
    cases cs with
    | nil => exact hc.isPlain
    | cons c' cs =>
      rw [List.map_cons, List.map_cons, Text.join, List.append_assoc, List.singleton_append,
        lead_append_slash hc.ne_nil]
      exact hc.isPlain

/-- A row with a component has a text. -/
theorem text_ofComponents_ne (h : ∀ c ∈ cs, c.IsStep) (hne : cs ≠ []) :
    (ofComponents cs).text ≠ "" := by
  intro htext
  have hcomponents := components_ofComponents h
  rw [components_eq, htext] at hcomponents
  exact hne hcomponents.symm

end IsStep

/-! ## 4. Relative paths

The text that is printed for a path, as seen from a base. Both paths are written from the root with
names only; where the walk leaves nothing, the path is the base and stays as it is. -/

/-- A path whose components begin with the root is absolute. -/
theorem isAbsolute_of_components {p : Path} {cs : List Component}
    (h : p.components = .root :: cs) : p.isAbsolute = true := by
  have htext := lead_text p.text.toList
  rw [components_eq, componentsOf] at h
  cases hl : (lead p.text.toList).1 with
  | root =>
    rw [hl] at htext
    rw [isAbsolute, ← htext]
    rfl
  | here =>
    rw [hl] at h
    cases h
  | plain =>
    -- no segment is the root
    rw [hl] at h
    have hmem : Component.root ∈ within (lead p.text.toList).2 := by
      rw [show within (lead p.text.toList).2 = .root :: cs from h]
      exact List.mem_cons_self
    obtain ⟨seg, -, hseg⟩ := List.mem_map.mp hmem
    rw [Component.ofSegment] at hseg
    split at hseg
    · cases hseg
    · cases hseg

section Relative

variable {path base : Path} {names baseNames : List String}

/-- The names of a path are names. -/
theorem isStep_of_names (hpath : path.components = .root :: names.map .name) :
    ∀ c ∈ names.map Component.name, c.IsStep := by
  intro c hc
  obtain ⟨s, -, rfl⟩ := List.mem_map.mp hc
  apply isStep_name
  apply isName_of_mem (p := path)
  rw [hpath]
  exact List.mem_cons_of_mem _ hc

/-- What the walk leaves is written, unless it leaves nothing. -/
theorem relativeText_of_relative (hpath : path.components = .root :: names.map .name)
    (hbase : base.components = .root :: baseNames.map .name) {cs : List Component}
    (hcs : relative true (names.map .name) (baseNames.map .name) = some cs)
    (hsteps : ∀ c ∈ cs, c.IsStep) :
    relativeText path.text base.text = if cs = [] then path.text else (ofComponents cs).text := by
  have hpathRoot := isAbsolute_of_components hpath
  have hbaseRoot := isAbsolute_of_components hbase
  have hne : base.text ≠ "" := by
    intro h
    rw [isAbsolute, h] at hbaseRoot
    cases hbaseRoot
  have hrelative : path.relativeTo? base = some (ofComponents cs) := by
    have hwalk := relative_common [.root] (names.map .name) (baseNames.map .name)
    rw [List.singleton_append, List.singleton_append, hcs] at hwalk
    rw [relativeTo?, hpathRoot, hbaseRoot, hpath, hbase, hwalk]
    rfl
  rw [relativeText, if_neg (by simpa using hne)]
  simp only [hrelative]
  by_cases h : cs = []
  · subst h
    rfl
  · have htext := text_ofComponents_ne hsteps h
    rw [if_neg h, if_neg (by simpa using htext)]

/-- Everything in a detour can be written. -/
theorem isStep_detour {as : List String} (h : ∀ c ∈ as.map Component.name, c.IsStep)
    (bs : List String) : ∀ c ∈ detour as bs, c.IsStep := by
  intro c hc
  rcases List.mem_append.mp hc with hc | hc
  · exact .inl (List.eq_of_mem_replicate hc)
  · exact h c hc

/-- A detour takes back what the base has of its own, and then the names of the path follow. -/
theorem resolved_join_detour {common as bs : List String}
    (hbase : base.components = .root :: (common ++ bs).map .name)
    (has : ∀ c ∈ as.map Component.name, c.IsStep) :
    (base.join (ofComponents (detour as bs))).resolved = .root :: (common ++ as).map .name := by
  have hsteps := isStep_detour has bs
  have hall := foldl_climb_names [.root] (common ++ bs)
  rw [resolved, components_join base (isPlain_ofComponents hsteps), components_ofComponents hsteps,
    hbase, List.foldl_append, detour, List.foldl_append]
  change List.foldl climb
    (List.foldl climb (((common ++ bs).map .name).foldl climb [.root]) _) _ = _
  rw [hall, List.map_append, ← List.append_assoc, foldl_climb_ups, foldl_climb_names,
    List.append_assoc, ← List.map_append]
  rfl

/-- **Back from the base.** Of a path and a base that are written from the root with names only,
the relative path is a text that leads from the base to the path, once every `..` is resolved. Where
the path lies below the base it is the names that are left, and no `..` is among them. -/
theorem relativeText_leads_back (hpath : path.components = .root :: names.map .name)
    (hbase : base.components = .root :: baseNames.map .name) :
    let r := relativeText path.text base.text
    (∀ (d : Disk) (log : Changelog), (reportHelper? d "relative_path").map
      (fun helper => (helper [.string path.text, .string base.text]).run log) = some (r, log)) ∧
    r ≠ "" ∧ (base.join ⟨r⟩).resolved = path.components ∧
    ∀ below : List String, below ≠ [] → names = baseNames ++ below →
      r = "/".intercalate below ∧ .up ∉ (Path.mk r).components := by
  intro r
  have hnames := isStep_of_names hpath
  have hpart : ∀ front rest : List String, names = front ++ rest →
      ∀ c ∈ rest.map Component.name, c.IsStep := by
    intro front rest hrest c hc
    apply hnames
    rw [hrest, List.map_append]
    exact List.mem_append_right _ hc
  obtain ⟨common, as, bs, has, hbs, hwalk⟩ := exists_relative names baseNames
  have hsteps := isStep_detour (hpart common as has) bs
  have hr : r = if detour as bs = [] then path.text else (ofComponents (detour as bs)).text :=
    relativeText_of_relative hpath hbase hwalk hsteps
  refine ⟨fun d log => rfl, ?_, ?_, ?_⟩
  · by_cases h : detour as bs = []
    · rw [hr, if_pos h]
      intro htext
      have hroot := isAbsolute_of_components hpath
      rw [isAbsolute, htext] at hroot
      cases hroot
    · rw [hr, if_neg h]
      exact text_ofComponents_ne hsteps h
  · by_cases h : detour as bs = []
    -- the path itself is absolute, so the base does not matter
    · rw [hr, if_pos h, join, if_pos (isAbsolute_of_components hpath)]
      exact resolved_of_names hpath
    · rw [hr, if_neg h, hpath, has]
      rw [hbs] at hbase
      exact resolved_join_detour hbase (hpart common as has)
  · intro below hne hbelow
    have hsteps := hpart baseNames below hbelow
    have hwalk : relative true (names.map .name) (baseNames.map .name) =
        some (below.map .name) := by
      have h := relative_common (baseNames.map .name) (below.map .name) []
      rw [List.append_nil] at h
      rw [hbelow, List.map_append, h]
      cases below with
      | nil => exact absurd rfl hne
      | cons s below => rfl
    have hr : r = (ofComponents (below.map .name)).text := by
      have h := relativeText_of_relative hpath hbase hwalk hsteps
      rwa [if_neg (by simpa using hne)] at h
    rw [hr]
    constructor
    · rw [← String.toList_inj, text_ofComponents hsteps, String.toList_intercalate,
        Text.join_eq_intercalate, List.map_map]
      rfl
    · rw [components_ofComponents hsteps]
      simp

/-- Seen from a base with a doubled slash and one at its end: a path beside it, a path below it, and
the base itself. -/
theorem relativeText_leads_back_beside :
    let beside : Path := ⟨"/site/ext/other/a b.php"⟩
    let below : Path := ⟨"/site/ext/news/Classes/A.php"⟩
    let base : Path := ⟨"/site//ext/news/"⟩
    (beside.components = .root :: ["site", "ext", "other", "a b.php"].map .name ∧
      below.components = .root :: ["site", "ext", "news", "Classes", "A.php"].map .name ∧
      base.components = .root :: ["site", "ext", "news"].map .name) ∧
    (relativeText beside.text base.text = "../other/a b.php" ∧
      (base.join ⟨relativeText beside.text base.text⟩).resolved = beside.components) ∧
    relativeText below.text base.text = "/".intercalate ["Classes", "A.php"] ∧
    (relativeText base.text base.text = base.text ∧
      (base.join ⟨relativeText base.text base.text⟩).resolved = base.components) := by
  intro beside below base
  have hbeside : beside.components = .root :: ["site", "ext", "other", "a b.php"].map .name := by
    decide +kernel
  have hbelow : below.components =
      .root :: ["site", "ext", "news", "Classes", "A.php"].map .name := by
    decide +kernel
  have hbase : base.components = .root :: ["site", "ext", "news"].map .name := by
    decide +kernel
  obtain ⟨-, -, hback, -⟩ := relativeText_leads_back hbeside hbase
  obtain ⟨-, -, -, hnames⟩ := relativeText_leads_back hbelow hbase
  obtain ⟨-, -, hsame, -⟩ := relativeText_leads_back hbase hbase
  exact ⟨⟨hbeside, hbelow, hbase⟩, ⟨by decide +kernel, hback⟩,
    (hnames ["Classes", "A.php"] (by decide) rfl).1, by decide +kernel, hsame⟩

end Relative

end UpgradeScan.Path
