/-
`Proofs/Path/Parent.lean` -- paths that are cut at a slash.

What the text of a path means is read off its front: a slash, a dot, or neither. So a text that
something stands before is simply a row of segments (`within`), and a path that is cut at any slash
falls into the components of its front and those of the row behind it (`componentsOf_append_slash`).
Both joining and taking the parent are such a cut. The parent also keeps the text of its front, up
to the end of a name; `EndsAt` says which text that is, and there is only one (`EndsAt.unique`),
however many slashes and dots stand behind the name.

Two views of a path have to be kept together. Its components say where it leads, and they forget
doubled slashes, lone dots and a slash at the end. Its text is what is printed and what later paths
are joined to, and it keeps all of them. A parent is defined on the text, by cutting the segments
that do not count off its end and then one that does; that this takes away one component and nothing
else is `exists_parent`, where most of the work of this module is. The two points to look after are
the empty front, where a first segment may turn into a root or a dot, and the row that is left with
nothing but segments that do not count.

`EndsAt p s rest t` connects the two views: `t` is the front of the text of `p` that ends with the
name `s`, and `rest` are the components behind it. It is a structure rather than an equation between
texts, because it is carried along joins and parents, whose texts differ in the slashes.
-/
import UpgradeScan.Path
import Mathlib.Data.List.DropRight

set_option autoImplicit false

namespace UpgradeScan.Path

/-! ## 1. Components of a text

The components of a text, split into what stands before the segments and the row of segments. With
an empty front a text could turn into another kind of path, so the cut is stated for a front that
has at least one character, and joining for a path that is a plain row of segments. -/

/-- The components that what stands before the segments is. -/
def Lead.components : Lead → List Component
  | .root => [.root]
  | .here => [.here]
  | .plain => []

/-- The components of a text with something before it. -/
def within (s : List Char) : List Component :=
  ((Text.fields '/' s).filter counts).map Component.ofSegment

/-- The components of a text at the front of a path. -/
def componentsOf (s : List Char) : List Component := (lead s).1.components ++ within (lead s).2

/-- The components of a path are those of its text. -/
theorem components_eq (p : Path) : p.components = componentsOf p.text.toList := by
  rw [components, componentsOf, within, segments]
  cases (lead p.text.toList).1 <;> rfl

/-- What is read before the segments is what stands there. -/
theorem lead_text (s : List Char) : (lead s).1.text ++ (lead s).2 = s := by
  fun_cases lead s <;> rfl

/-- More segments at the end do not change what stands before the first one. -/
theorem lead_append_slash {s : List Char} (hs : s ≠ []) (t : List Char) :
    lead (s ++ '/' :: t) = ((lead s).1, (lead s).2 ++ '/' :: t) := by
  fun_cases lead s with
  | case1 r => rfl
  | case2 => rfl
  | case3 r => rfl
  | case4 s hroot hdot hhere =>
    obtain ⟨c, r, rfl⟩ := List.exists_cons_of_ne_nil hs
    -- the first character of a plain text stays the first, and no dot stands alone
    rw [lead.eq_def]
    split
    · next r' h =>
      obtain rfl := (List.cons.inj h).1
      exact absurd rfl (hroot r)
    · next h => simp at h
    · next r' h =>
      obtain ⟨rfl, hr⟩ := List.cons.inj h
      cases r with
      | nil => exact absurd rfl hdot
      | cons d r =>
        obtain rfl := (List.cons.inj hr).1
        exact absurd rfl (hhere r)
    · rfl

/-- A row that is cut at a slash falls into two rows. -/
theorem within_append_slash (s t : List Char) :
    within (s ++ '/' :: t) = within s ++ within t := by
  rw [within, Text.fields_append_cons, List.filter_append, List.map_append]
  rfl

/-- **Cuts.** A text that is cut at a slash falls into the components of its two parts, when
there is a front to decide what the path is seen from. -/
theorem componentsOf_append_slash {s : List Char} (hs : s ≠ []) (t : List Char) :
    componentsOf (s ++ '/' :: t) = componentsOf s ++ within t := by
  rw [componentsOf, lead_append_slash hs, within_append_slash, ← List.append_assoc]
  rfl

/-- A path has at most one component more than its text has characters. -/
theorem length_components_le (p : Path) : p.components.length ≤ p.text.toList.length + 1 := by
  have hlead : (lead p.text.toList).1.components.length ≤ (lead p.text.toList).1.text.length := by
    cases (lead p.text.toList).1 <;> decide
  have hwithin : (within (lead p.text.toList).2).length ≤ (lead p.text.toList).2.length + 1 := by
    rw [within, List.length_map]
    exact (List.length_filter_le _ _).trans (Text.length_fields_le _ _)
  have htext := congrArg List.length (lead_text p.text.toList)
  rw [List.length_append] at htext
  rw [components_eq, componentsOf, List.length_append]
  omega

/-- A text without a root or a dot at its front. -/
def IsPlain (q : Path) : Prop := (lead q.text.toList).1 = .plain

/-- All components of a plain text are in its row. -/
theorem IsPlain.components_eq {q : Path} (h : IsPlain q) :
    q.components = within q.text.toList := by
  have hrow := lead_text q.text.toList
  rw [h, show Lead.plain.text = [] from rfl, List.nil_append] at hrow
  rw [Path.components_eq, componentsOf, h, hrow]
  rfl

/-- A plain text does not begin at the root. -/
theorem IsPlain.not_isAbsolute {q : Path} (h : IsPlain q) : ¬ q.isAbsolute = true := by
  intro habsolute
  obtain ⟨r, hr⟩ := List.head?_eq_some_iff.mp (beq_iff_eq.mp habsolute)
  rw [IsPlain, hr] at h
  cases h

/-- The text of a joined path goes on from the text before it. -/
theorem exists_text_join (p : Path) {q : Path} (hq : IsPlain q) :
    ∃ w, (p.join q).text = p.text ++ w := by
  rw [join, if_neg hq.not_isAbsolute]
  split
  · exact ⟨q.text, rfl⟩
  · exact ⟨"/" ++ q.text, String.append_assoc⟩

/-- **Joining.** A relative path that does not begin with a dot adds its components, whatever
slashes the path before it ends with. -/
theorem components_join (p : Path) {q : Path} (hq : IsPlain q) :
    (p.join q).components = p.components ++ q.components := by
  rw [join, if_neg hq.not_isAbsolute, hq.components_eq, components_eq, components_eq]
  split
  · next h =>
    rw [String.toList_append]
    rcases Bool.or_eq_true_iff.mp h with h | h
    · rw [String.isEmpty_iff.mp h]
      exact (components_eq q).symm.trans hq.components_eq
    · -- the slash that the path ends with is the cut
      obtain ⟨x, hx⟩ := List.getLast?_eq_some_iff.mp (beq_iff_eq.mp h)
      rw [hx, List.append_assoc, List.singleton_append]
      cases x with
      | nil => rfl
      | cons c x =>
        rw [componentsOf_append_slash (List.cons_ne_nil c x),
          componentsOf_append_slash (List.cons_ne_nil c x), show within [] = [] from rfl,
          List.append_nil]
  · next h =>
    have hne : p.text.toList ≠ [] := by
      intro h0
      exact h (by simp [String.toList_eq_nil_iff.mp h0])
    rw [String.toList_append, String.toList_append, List.append_assoc]
    exact componentsOf_append_slash hne q.text.toList

/-! ## 2. Names

A name is a segment that is a component of its own: it has no slash, and it is neither empty nor one
of the two segments of dots. The name of the file that a path leads to is its last component, if
that is a name. -/

/-- A segment gives a name when it is not two dots, and the name is its text. -/
theorem ofSegment_eq_name_iff {seg : List Char} {s : String} :
    Component.ofSegment seg = .name s ↔ seg = s.toList ∧ s.toList ≠ ['.', '.'] := by
  rw [Component.ofSegment]
  split
  · next h =>
    refine ⟨nofun, fun ⟨hs, hne⟩ => absurd (hs ▸ h) hne⟩
  · next h =>
    rw [Component.name.injEq]
    constructor
    · rintro rfl
      exact ⟨String.toList_ofList.symm, by rwa [String.toList_ofList]⟩
    · rintro ⟨rfl, -⟩
      exact String.ofList_toList

/-- What can be the name of a component. -/
structure IsName (s : List Char) : Prop where
  ne_nil : s ≠ []
  ne_here : s ≠ ['.']
  ne_up : s ≠ ['.', '.']
  no_slash : '/' ∉ s

/-- Every name in a row of segments is one. -/
theorem isName_of_mem_within {r : List Char} {s : String} (h : .name s ∈ within r) :
    IsName s.toList := by
  obtain ⟨seg, hseg, hname⟩ := List.mem_map.mp h
  obtain ⟨rfl, hup⟩ := ofSegment_eq_name_iff.mp hname
  obtain ⟨hmem, hcounts⟩ := List.mem_filter.mp hseg
  simp only [counts, Bool.and_eq_true, bne_iff_ne] at hcounts
  exact ⟨hcounts.1, hcounts.2, hup, Text.not_mem_of_mem_fields hmem⟩

/-- Every name among the components of a path is one. -/
theorem isName_of_mem {p : Path} {s : String} (h : .name s ∈ p.components) :
    IsName s.toList := by
  rw [components_eq, componentsOf, List.mem_append] at h
  rcases h with h | h
  · cases hl : (lead p.text.toList).1 <;> simp [hl, Lead.components] at h
  · exact isName_of_mem_within h

/-- A name is a row of one segment. -/
theorem within_of_isName {s : String} (h : IsName s.toList) : within s.toList = [.name s] := by
  have hfields : Text.fields '/' s.toList = [s.toList] := Text.fields_of_not_mem h.no_slash
  have hcounts : counts s.toList = true := by simp [counts, h.ne_nil, h.ne_here]
  rw [within, hfields, List.filter_cons_of_pos hcounts]
  exact congrArg (fun c => [c]) (ofSegment_eq_name_iff.mpr ⟨rfl, h.ne_up⟩)

/-- A row that ends with a name is not empty, whatever stands before the name. -/
theorem within_append_ne_nil {s : List Char} (h : IsName s) (r : List Char) :
    within (r ++ s) ≠ [] := by
  have hcounts : ∃ f ∈ Text.fields '/' (r ++ s), counts f = true := by
    induction r with
    | nil =>
      have hfields : Text.fields '/' s = [s] := Text.fields_of_not_mem h.no_slash
      refine ⟨s, by simp [hfields], by simp [counts, h.ne_nil, h.ne_here]⟩
    | cons c r ih =>
      obtain ⟨f, hf, hcounts⟩ := ih
      rw [List.cons_append, Text.fields]
      split
      · exact ⟨f, List.mem_cons_of_mem _ hf, hcounts⟩
      · cases hfields : Text.fields '/' (r ++ s) with
        | nil => exact absurd hfields (Text.fields_ne_nil _ _)
        | cons g gs =>
          rw [hfields] at hf
          rcases List.mem_cons.mp hf with rfl | hf
          -- the field that counts gets one character more
          · refine ⟨c :: f, List.mem_cons_self, ?_⟩
            simp only [counts, Bool.and_eq_true, bne_iff_ne] at hcounts ⊢
            exact ⟨List.cons_ne_nil _ _, fun h => hcounts.1 (List.cons.inj h).2⟩
          · exact ⟨f, List.mem_cons_of_mem _ hf, hcounts⟩
  obtain ⟨f, hf, hcounts⟩ := hcounts
  rw [within, Ne, List.map_eq_nil_iff, List.filter_eq_nil_iff]
  exact fun hnil => hnil f hf hcounts

/-- The name at the end of a path is its last component. -/
theorem fileName?_eq (p : Path) : p.fileName? =
    match p.components.getLast? with
    | some (.name s) => some s
    | _ => none := by
  rw [fileName?, components_eq, componentsOf, within, segments, List.getLast?_append,
    List.getLast?_map]
  cases ((Text.fields '/' (lead p.text.toList).2).filter counts).getLast? with
  | none => cases (lead p.text.toList).1 <;> rfl
  | some seg =>
    simp only [Option.map_some, Option.some_or, Component.ofSegment]
    split <;> rfl

/-! ## 3. The text of a front

A path is followed in its text up to the end of one of its names. The text up to there is determined
by the components behind it, so that two ways to the same front, one along the parents and one by a
search through the path, give the same characters. -/

/-- `t` is the text of the path up to the end of the name `s`, and the components `rest` come
after it. -/
structure EndsAt (p : Path) (s : String) (rest : List Component) (t : String) : Prop where
  /-- The name is the last component of the text. -/
  last : (Path.mk t).components.getLast? = some (.name s)
  /-- Nothing stands behind the name. -/
  suffix : ∃ front, t = front ++ s
  components : p.components = (Path.mk t).components ++ rest
  /-- The path goes on with a slash, if it goes on. -/
  next : ∃ u, p.text = t ++ u ∧ (u = "" ∨ ∃ v, u = "/" ++ v)

section EndsAt

variable {p q : Path} {s s' : String} {rest rest' : List Component} {t t' : String}

/-- The name at which a front ends is a name. -/
theorem EndsAt.isName (h : EndsAt p s rest t) : IsName s.toList :=
  isName_of_mem (List.mem_of_getLast? h.last)

theorem EndsAt.ne_nil (h : EndsAt p s rest t) : t.toList ≠ [] := by
  obtain ⟨front, rfl⟩ := h.suffix
  rw [String.toList_append]
  exact List.append_ne_nil_of_right_ne_nil _ h.isName.ne_nil

/-- A text that ends with a name, before a slash and anything else. -/
theorem endsAt_of_slash {v : String} (hp : p.text = t ++ "/" ++ v)
    (hlast : (Path.mk t).components.getLast? = some (.name s)) (hsuffix : ∃ front, t = front ++ s) :
    EndsAt p s (within v.toList) t where
  last := hlast
  suffix := hsuffix
  components := by
    have hne : t.toList ≠ [] := by
      obtain ⟨front, rfl⟩ := hsuffix
      rw [String.toList_append]
      exact List.append_ne_nil_of_right_ne_nil _ (isName_of_mem (List.mem_of_getLast? hlast)).ne_nil
    rw [components_eq, hp, String.toList_append, String.toList_append, List.append_assoc,
      components_eq ⟨t⟩]
    exact componentsOf_append_slash hne v.toList
  next := ⟨"/" ++ v, by rw [hp, String.append_assoc], .inr ⟨v, rfl⟩⟩

/-- A part of a part. -/
theorem EndsAt.trans (h : EndsAt p s rest q.text) (h' : EndsAt q s' rest' t) :
    EndsAt p s' (rest' ++ rest) t where
  last := h'.last
  suffix := h'.suffix
  components := by
    rw [h.components, ← List.append_assoc, ← h'.components]
  next := by
    obtain ⟨u, hu, hnext⟩ := h.next
    obtain ⟨u', hu', hnext'⟩ := h'.next
    refine ⟨u' ++ u, by rw [hu, hu', String.append_assoc], ?_⟩
    rcases hnext' with rfl | ⟨v, rfl⟩
    · rwa [String.empty_append]
    · exact .inr ⟨v ++ u, String.append_assoc⟩

/-- More components at the end of a path leave its front as it was. -/
theorem EndsAt.join (h : EndsAt p s rest t) (hrest : rest ≠ [])
    (hq : IsPlain q) : EndsAt (p.join q) s (rest ++ q.components) t where
  last := h.last
  suffix := h.suffix
  components := by
    rw [components_join p hq, h.components, List.append_assoc]
  next := by
    obtain ⟨u, hu, hnext⟩ := h.next
    rcases hnext with rfl | ⟨v, rfl⟩
    · have hcomponents := h.components
      rw [String.append_empty] at hu
      rw [← hu, List.self_eq_append_right] at hcomponents
      exact absurd hcomponents hrest
    · obtain ⟨w, hw⟩ := exists_text_join p hq
      exact ⟨"/" ++ v ++ w, by rw [hw, hu, String.append_assoc], .inr ⟨v ++ w, String.append_assoc⟩⟩

/-- Behind the name no further slash or dot is taken along. -/
theorem EndsAt.eq_of_append (h : EndsAt p s rest t) (h' : EndsAt p s' rest t') {x : String}
    (hx : t' = t ++ x) : t' = t := by
  obtain ⟨u, hu, hnext⟩ := h.next
  obtain ⟨u', hu', -⟩ := h'.next
  have hxu : u = x ++ u' := by
    rw [hu, hx, String.append_assoc, String.append_right_inj] at hu'
    exact hu'
  cases hlist : x.toList with
  | nil => rw [hx, String.toList_eq_nil_iff.mp hlist, String.append_empty]
  | cons c y =>
    -- the longer text goes on with a slash, and it has no further component
    have hslash : c = '/' := by
      rcases hnext with rfl | ⟨v, rfl⟩
      · have := congrArg String.toList hxu
        rw [String.toList_append, hlist] at this
        cases this
      · have := congrArg String.toList hxu
        rw [String.toList_append, String.toList_append, hlist] at this
        exact (List.cons.inj this).1.symm
    subst hslash
    have htext : t'.toList = t.toList ++ '/' :: y := by rw [hx, String.toList_append, hlist]
    have hnone : within y = [] := by
      have hcomponents := h.components.symm.trans h'.components
      rw [List.append_left_inj, components_eq ⟨t'⟩, htext, componentsOf_append_slash h.ne_nil,
        ← components_eq ⟨t⟩, List.self_eq_append_right] at hcomponents
      exact hcomponents
    -- but it ends with a name
    obtain ⟨front, hfront⟩ := h'.suffix
    have hends : front.toList ++ s'.toList = (t.toList ++ ['/']) ++ y := by
      rw [← String.toList_append, ← hfront, htext, List.append_assoc, List.singleton_append]
    rcases List.append_eq_append_iff.mp hends with ⟨r, hslash, hr⟩ | ⟨r, -, hr⟩
    · rcases List.eq_nil_or_concat' r with rfl | ⟨r, c, rfl⟩
      · rw [List.nil_append] at hr
        exact absurd hnone (hr ▸ within_append_ne_nil h'.isName [])
      · rw [← List.append_assoc] at hslash
        obtain rfl := (List.cons.inj (List.append_inj' hslash rfl).2).1
        exact absurd (by simp [hr]) h'.isName.no_slash
    · exact absurd hnone (hr ▸ within_append_ne_nil h'.isName r)

/-- **One front.** The text up to the end of a name is determined by what comes after it. -/
theorem EndsAt.unique (h : EndsAt p s rest t) (h' : EndsAt p s' rest t') : t = t' := by
  obtain ⟨u, hu, -⟩ := h.next
  obtain ⟨u', hu', -⟩ := h'.next
  have htexts : t.toList ++ u.toList = t'.toList ++ u'.toList := by
    rw [← String.toList_append, ← String.toList_append, ← hu, ← hu']
  -- one of the two is the longer one
  rcases List.append_eq_append_iff.mp htexts with ⟨x, hx, -⟩ | ⟨x, hx, -⟩
  · refine (h.eq_of_append h' (x := String.ofList x) ?_).symm
    rw [← String.toList_inj, hx, String.toList_append, String.toList_ofList]
  · refine h'.eq_of_append h (x := String.ofList x) ?_
    rw [← String.toList_inj, hx, String.toList_append, String.toList_ofList]

end EndsAt

/-! ## 4. The parent

The parent is cut off the segments from behind. The lemmas follow the cut: where the last segment
that counts is, what the text looks like around it, and that the row in between has no component. -/

/-- The segment does not count. -/
def idle (seg : List Char) : Bool := !counts seg

/-- What stands before the last segment that counts. -/
theorem parent?_of_segments {p : Path} {before after : List (List Char)} {x : List Char}
    (h : p.segments = before ++ x :: after) (hx : counts x = true)
    (hafter : ∀ f ∈ after, idle f = true) :
    p.parent? = some ⟨String.ofList ((lead p.text.toList).1.text ++
      Text.join ['/'] (before.rdropWhile idle))⟩ := by
  have hdrop : p.segments.reverse.dropWhile idle = x :: before.reverse := by
    rw [h, List.reverse_append, List.reverse_cons, List.append_assoc, List.singleton_append,
      List.dropWhile_append_of_pos fun f hf => hafter f (List.mem_reverse.mp hf),
      List.dropWhile_cons_of_neg (by simp [idle, hx])]
  unfold idle at hdrop
  rw [parent?, hdrop]
  rfl

/-- The segment that the last component is. -/
theorem exists_last_segment {p : Path} {cs : List Component} {c : Component}
    (h : p.components = cs ++ [c]) (hroot : c ≠ .root) (hhere : c ≠ .here) :
    ∃ before x after, p.segments = before ++ x :: after ∧ counts x = true ∧
      (∀ f ∈ after, idle f = true) ∧ Component.ofSegment x = c ∧
      cs = (lead p.text.toList).1.components ++ (before.filter counts).map .ofSegment := by
  rw [components_eq, componentsOf] at h
  rcases List.eq_nil_or_concat' ((p.segments).filter counts) with hnil | ⟨xs, x, hxs⟩
  -- without a segment the last component would be what stands before them
  · rw [within, show Text.fields '/' (lead p.text.toList).2 = p.segments from rfl, hnil,
      List.map_nil, List.append_nil] at h
    have hlast : (lead p.text.toList).1.components.getLast? = some c := by
      rw [h]
      exact List.getLast?_concat
    cases hl : (lead p.text.toList).1 with
    | root =>
      rw [hl] at hlast
      exact absurd (Option.some.inj hlast).symm hroot
    | here =>
      rw [hl] at hlast
      exact absurd (Option.some.inj hlast).symm hhere
    | plain =>
      rw [hl] at hlast
      cases hlast
  · rw [within, show Text.fields '/' (lead p.text.toList).2 = p.segments from rfl, hxs,
      List.map_append, ← List.append_assoc] at h
    obtain ⟨hcs, hc⟩ := List.append_inj' h rfl
    obtain ⟨before, tail, hsegs, hbefore, htail⟩ := List.filter_eq_append_iff.mp hxs
    obtain ⟨idles, after, rfl, hidles, hx, hafter⟩ := List.filter_eq_cons_iff.mp htail
    refine ⟨before ++ idles, x, after, by rw [hsegs, List.append_assoc], hx, ?_,
      (List.cons.inj hc).1, ?_⟩
    · intro f hf
      have hno := List.filter_eq_nil_iff.mp hafter f hf
      simpa [idle] using hno
    · rw [List.filter_append, List.filter_eq_nil_iff.mpr hidles, List.append_nil, hbefore, hcs]

/-- Where a row of segments is cut after one that counts. -/
theorem text_eq_of_segments {p : Path} {init tail : List (List Char)} {y : List Char}
    (h : p.segments = (init ++ [y]) ++ tail) (htail : tail ≠ []) :
    p.text.toList = ((lead p.text.toList).1.text ++ Text.join ['/'] (init ++ [y])) ++
      '/' :: Text.join ['/'] tail := by
  have hrow : (lead p.text.toList).2 = Text.join ['/'] p.segments :=
    (Text.join_fields '/' _).symm
  conv_lhs => rw [← lead_text p.text.toList]
  rw [hrow, h, Text.join_append _ (by simp) htail]
  simp only [List.append_assoc, List.singleton_append]

/-- A row with one segment that counts is one component. -/
theorem within_of_segments {p : Path} {before tail : List (List Char)} {x : List Char}
    (h : p.segments = before ++ tail) (htail : tail.filter counts = [x]) :
    within (Text.join ['/'] tail) = [.ofSegment x] := by
  have hne : tail ≠ [] := by
    rintro rfl
    cases htail
  rw [within, Text.fields_join hne, htail]
  · rfl
  · intro f hf
    refine Text.not_mem_of_mem_fields (s := (lead p.text.toList).2) ?_
    rw [show Text.fields '/' (lead p.text.toList).2 = before ++ tail from h]
    exact List.mem_append_right _ hf

/-- The row that is kept of another ends with a segment that counts, and it loses none. -/
theorem rdropWhile_idle (before : List (List Char)) :
    ∃ kept between, before.rdropWhile idle = kept ∧ before = kept ++ between ∧
      between.filter counts = [] ∧
      (kept = [] ∨ ∃ init y, kept = init ++ [y] ∧ counts y = true) := by
  refine ⟨_, before.rtakeWhile idle, rfl, List.rdropWhile_append_rtakeWhile.symm, ?_, ?_⟩
  · rw [List.filter_eq_nil_iff]
    intro f hf
    have hidle := List.mem_rtakeWhile_imp hf
    simpa [idle] using hidle
  · rcases List.eq_nil_or_concat' (before.rdropWhile idle) with hnil | ⟨init, y, hkept⟩
    · exact .inl hnil
    · have hlast := List.rdropWhile_last_not idle before (by rw [hkept]; simp)
      exact .inr ⟨init, y, hkept, by simpa [hkept, idle] using hlast⟩

/-- **Parents.** The parent of a path has the components before the last, and its text ends with
the name that comes last then. -/
theorem exists_parent {p : Path} {cs : List Component} {c : Component}
    (h : p.components = cs ++ [c]) (hroot : c ≠ .root) (hhere : c ≠ .here) :
    ∃ q, p.parent? = some q ∧ q.components = cs ∧
      ∀ s, cs.getLast? = some (.name s) → EndsAt p s [c] q.text := by
  obtain ⟨before, x, after, hsegs, hx, hafter, hc, hcs⟩ := exists_last_segment h hroot hhere
  refine ⟨_, parent?_of_segments hsegs hx hafter, ?_⟩
  obtain ⟨kept, between, hkept, rfl, hidle, hlast⟩ := rdropWhile_idle before
  rw [hkept]
  rw [List.filter_append, hidle, List.append_nil] at hcs
  rcases hlast with rfl | ⟨init, y, rfl, hy⟩
  -- nothing is left but what stands before the segments
  · rw [List.filter_nil, List.map_nil, List.append_nil] at hcs
    rw [hcs]
    cases (lead p.text.toList).1 with
    | root => exact ⟨by decide, nofun⟩
    | here => exact ⟨by decide, nofun⟩
    | plain => exact ⟨by decide, nofun⟩
  · have htail : (between ++ x :: after).filter counts = [x] := by
      rw [List.filter_append, hidle, List.filter_cons_of_pos hx, List.nil_append,
        List.filter_eq_nil_iff.mpr]
      intro f hf
      simpa [idle] using hafter f hf
    rw [List.append_assoc] at hsegs
    have htext := text_eq_of_segments hsegs (by simp)
    obtain ⟨front, hfront⟩ := Text.exists_join_concat ['/'] init y
    generalize hq : (lead p.text.toList).1.text ++ Text.join ['/'] (init ++ [y]) = t at htext ⊢
    have hends : t = ((lead p.text.toList).1.text ++ front) ++ y := by
      rw [← hq, hfront, List.append_assoc]
    have hne : t ≠ [] := by
      rw [hends]
      refine List.append_ne_nil_of_right_ne_nil _ ?_
      rintro rfl
      cases hy
    -- the cut leaves the last component alone behind the slash
    have hparent : (Path.mk (String.ofList t)).components = cs := by
      have hall := components_eq p
      rw [htext, componentsOf_append_slash hne, within_of_segments hsegs htail, hc, h] at hall
      rw [components_eq, String.toList_ofList]
      exact (List.append_inj' hall rfl).1.symm
    refine ⟨hparent, fun s hs => ?_⟩
    have hp : p.text = String.ofList t ++ "/" ++
        String.ofList (Text.join ['/'] (between ++ x :: after)) := by
      rw [← String.toList_inj, htext]
      simp only [String.toList_append, String.toList_ofList, List.append_assoc]
      rfl
    have hname := hs
    rw [hcs, List.filter_append, List.filter_cons_of_pos hy, List.filter_nil, List.map_append,
      ← List.append_assoc, List.map_singleton, List.getLast?_concat, Option.some.injEq] at hname
    have hpart := endsAt_of_slash hp (hparent ▸ hs)
      ⟨String.ofList ((lead p.text.toList).1.text ++ front), by
        rw [hends, (ofSegment_eq_name_iff.mp hname).1, String.ofList_append, String.ofList_toList]⟩
    rwa [String.toList_ofList, within_of_segments hsegs htail, hc] at hpart

end UpgradeScan.Path
