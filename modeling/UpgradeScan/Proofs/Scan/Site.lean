/-
`Proofs/Scan/Site.lean` -- the extension that a path belongs to.

A path inside an extension looks like `…/ext/key/…`, and a scan of it should be titled with the key
and show paths from the root of the extension. The search for it goes up from the path, one parent
at a time, and looks at names only: at each directory that is not called `ext` it remembers the
name, and at one that is called so it stops, with the name that it remembered last.

So it is decided by the names that the path ends with: by the last of them that is `ext`, and by the
name after that (`Nearest`). A component that is no name, such as `..`, ends the search from below,
and what stands above it does not count. That is what the code does, not what one might expect of
it: `/a/ext/key/..` is in no extension.

The root of the extension is put together from the text of the parent that the search stopped at and
the key. Text matters here, since the site is shown and compared as text. The front of the text up
to that `ext` is all that the search keeps of the path (`Path.EndsAt`), and it is the same front for
every path below the extension and for the extension's own root. That is why all of them have one
site (`ofPath_eq_of_endsAt`), and why asking again with the answer gives the answer
(`ofPath_stable`).
-/
import UpgradeScan.Proofs.Path.Parent
import UpgradeScan.Proofs.Scan.Context

set_option autoImplicit false

namespace UpgradeScan

namespace Path

/-! ## 1. The names at the end of a path

A path is a text, and its components are read off it. The names at its end are the longest run of
ordinary names; the search never leaves them. -/

/-- The component is an ordinary name. -/
def Component.isName : Component → Bool
  | .name _ => true
  | _ => false

/-- The names that a path ends with: all that follow its root, its leading dot, and its last
`..`. -/
def trailingNames (p : Path) : List String :=
  (p.components.rtakeWhile Component.isName).map Component.text

/-- Ordinary names are given by their texts. -/
theorem map_name_map_text {cs : List Component} (h : ∀ c ∈ cs, c.isName = true) :
    (cs.map Component.text).map .name = cs := by
  rw [List.map_map]
  refine (List.map_congr_left fun c hc => ?_).trans (List.map_id cs)
  cases c with
  | name s => rfl
  | root => cases h _ hc
  | here => cases h _ hc
  | up => cases h _ hc

/-- What stands before the names does not end with one. -/
theorem exists_components (p : Path) :
    ∃ cs, p.components = cs ++ p.trailingNames.map .name ∧
      ∀ s, cs.getLast? ≠ some (.name s) := by
  refine ⟨p.components.rdropWhile Component.isName, ?_, fun s hs => ?_⟩
  · rw [trailingNames, map_name_map_text fun c hc => List.mem_rtakeWhile_imp hc,
      List.rdropWhile_append_rtakeWhile]
  · obtain ⟨cs, hcs⟩ := List.getLast?_eq_some_iff.mp hs
    have hlast := List.rdropWhile_last_not Component.isName p.components (by rw [hcs]; simp)
    simp [hcs, Component.isName] at hlast

/-- A path that ends with a name has that as its file name. -/
theorem fileName?_of_name {p : Path} {cs : List Component} {s : String}
    (h : p.components = cs ++ [.name s]) : p.fileName? = some s := by
  rw [fileName?_eq, h, List.getLast?_concat]

/-- A path that ends with anything else has no file name. -/
theorem fileName?_of_no_name {p : Path} (h : ∀ s, p.components.getLast? ≠ some (.name s)) :
    p.fileName? = none := by
  rw [fileName?_eq]
  split
  · next s hs => exact absurd hs (h s)
  · rfl

end Path

namespace Site

open UpgradeScan.Path

/-! ## 2. The search

Going up is taking the last name off. Induction on the names, from the last one, follows the search
step by step; the number of steps that are left is always enough, since a path has no more names
than characters. -/

section Search

variable {p : Path} {cs : List Component} {s : String} {b : Option String} {n : Nat}

/-- At a name that is not `ext` the search goes on at the parent. -/
theorem search_name (h : p.components = cs ++ [.name s]) (hs : s ≠ "ext") :
    ∃ q, q.components = cs ∧ (∀ s', cs.getLast? = some (.name s') → EndsAt p s' [.name s] q.text) ∧
      search (upward (n + 1) p) b = search (upward n q) (some s) := by
  obtain ⟨q, hq, hcomponents, hends⟩ := exists_parent h nofun nofun
  refine ⟨q, hcomponents, hends, ?_⟩
  rw [upward, hq, search, fileName?_of_name h]
  exact if_neg hs

/-- At `ext` the search ends, and the name below is the key. -/
theorem search_ext (h : p.components = cs ++ [.name "ext"]) :
    search (upward (n + 1) p) b = b.map fun key => (p, key) := by
  rw [upward, search, fileName?_of_name h]
  exact if_pos rfl

/-- Above all names the search ends with nothing. -/
theorem search_no_name (h : ∀ s, p.components.getLast? ≠ some (.name s)) :
    search (upward n p) b = none := by
  cases n with
  | zero => rfl
  | succ n => rw [upward, search, fileName?_of_no_name h]

/-- **Found.** The search ends at the last `ext`, when names follow it. -/
theorem search_of_ext {names : List String}
    (h : p.components = (cs ++ [.name "ext"]) ++ names.map .name) (hnames : "ext" ∉ names)
    (hn : names.length < n) {key : String} (hkey : names.head? = some key) :
    ∃ q, EndsAt p "ext" (names.map .name) q.text ∧
      search (upward n p) b = some (q, key) := by
  -- Induction on the names from the last one, which is where the search begins.
  induction names using List.reverseRecOn generalizing p n b with
  | nil => cases hkey
  | append_singleton names s ih =>
    obtain ⟨n, rfl⟩ := Nat.exists_eq_add_one.mpr (Nat.zero_lt_of_lt hn)
    rw [List.length_append, List.length_singleton, Nat.add_lt_add_iff_right] at hn
    rw [List.mem_append, not_or, List.mem_singleton] at hnames
    rw [List.map_append, List.map_singleton, ← List.append_assoc] at h
    obtain ⟨q, hq, hends, hsearch⟩ := search_name (n := n) (b := b) h (Ne.symm hnames.2)
    rw [hsearch, List.map_append, List.map_singleton]
    cases names with
    | nil =>
      rw [List.map_nil, List.append_nil] at hq hends
      obtain ⟨n, rfl⟩ := Nat.exists_eq_add_one.mpr hn
      obtain rfl : s = key := Option.some.inj hkey
      exact ⟨q, hends "ext" List.getLast?_concat, search_ext hq⟩
    | cons name names =>
      obtain ⟨q', hends', hfound⟩ := ih hq hnames.1 hn hkey
      obtain ⟨last, hlast⟩ : ∃ last, (name :: names).getLast? = some last :=
        ⟨_, List.getLast?_eq_some_getLast (List.cons_ne_nil _ _)⟩
      refine ⟨q', (hends last ?_).trans hends', hfound⟩
      rw [List.getLast?_append, List.getLast?_map, hlast]
      rfl

/-- **Not found.** Among names without `ext` the search finds nothing. -/
theorem search_of_no_ext {names : List String} (h : p.components = cs ++ names.map .name)
    (hcs : ∀ s, cs.getLast? ≠ some (.name s)) (hnames : "ext" ∉ names) :
    search (upward n p) b = none := by
  induction names using List.reverseRecOn generalizing p n b with
  | nil =>
    rw [List.map_nil, List.append_nil] at h
    exact search_no_name (h ▸ hcs)
  | append_singleton names s ih =>
    rw [List.mem_append, not_or, List.mem_singleton] at hnames
    rw [List.map_append, List.map_singleton, ← List.append_assoc] at h
    cases n with
    | zero => rfl
    | succ n =>
      obtain ⟨q, hq, -, hsearch⟩ := search_name (n := n) (b := b) h (Ne.symm hnames.2)
      rw [hsearch]
      exact ih hq hnames.1

end Search

/-! ## 3. The nearest extension

What the search finds, said of the names alone. -/

/-- The names lead from a directory that is called `ext` through `key` and `below`, and no
directory after it is called so again. -/
def Nearest (names : List String) (key : String) (below : List String) : Prop :=
  ∃ above, names = above ++ "ext" :: key :: below ∧ "ext" ∉ key :: below

/-- A name at the end of a directory's text. -/
theorem text_join_name {t s key : String} (hs : IsName s.toList) (hsuffix : ∃ front, t = front ++ s)
    (hkey : IsName key.toList) : ((Path.mk t).join ⟨key⟩).text = t ++ "/" ++ key := by
  obtain ⟨front, rfl⟩ := hsuffix
  have hrelative : ¬ (Path.mk key).isAbsolute = true := by
    intro h
    exact hkey.no_slash (List.mem_of_head? (beq_iff_eq.mp h))
  have hopen : ¬ ((front ++ s).isEmpty || (front ++ s).toList.getLast? == some '/') = true := by
    rw [Bool.or_eq_true, not_or, String.isEmpty_iff, String.append_eq_empty_iff, beq_iff_eq,
      String.toList_append, List.getLast?_append_of_ne_nil _ hs.ne_nil]
    exact ⟨fun h => hs.ne_nil (String.toList_eq_nil_iff.mpr h.2),
      fun h => hs.no_slash (List.mem_of_getLast? h)⟩
  rw [join, if_neg hrelative, if_neg hopen]

/-- **One front, one site.** The text up to the last `ext` and the name below it are all that a
site depends on. -/
theorem ofPath_eq_of_endsAt {p : Path} {key t : String} {below : List String}
    (h : EndsAt p "ext" ((key :: below).map .name) t) (hnames : "ext" ∉ key :: below) :
    ofPath p = ⟨some key, ⟨t ++ "/" ++ key ++ "/"⟩⟩ := by
  obtain ⟨cs, hcs⟩ := List.getLast?_eq_some_iff.mp h.last
  have hcomponents := h.components
  rw [hcs] at hcomponents
  have hlength : (key :: below).length < p.text.length + 2 := by
    have hle := p.length_components_le
    rw [hcomponents, List.length_append, List.length_append, List.length_map,
      String.length_toList] at hle
    omega
  obtain ⟨q, hends, hfound⟩ := search_of_ext hcomponents hnames hlength (b := none) rfl
  obtain rfl := h.unique hends
  have hkey : IsName key.toList := by
    refine isName_of_mem (p := p) ?_
    rw [hcomponents]
    exact List.mem_append_right _ List.mem_cons_self
  rw [ofPath, ancestors, hfound]
  dsimp only
  rw [text_join_name h.isName h.suffix hkey]

/-- Where an extension is near, the text of the path has a front that ends with its `ext`. -/
theorem exists_endsAt {p : Path} {key : String} {below : List String}
    (h : Nearest p.trailingNames key below) :
    ∃ t, EndsAt p "ext" ((key :: below).map .name) t := by
  obtain ⟨above, hnames, hext⟩ := h
  obtain ⟨cs, hcs, -⟩ := p.exists_components
  rw [hnames, List.map_append, List.map_cons, ← List.singleton_append, ← List.append_assoc,
    ← List.append_assoc] at hcs
  obtain ⟨q, hq, -⟩ := search_of_ext (b := none) hcs hext (Nat.lt_succ_self _) rfl
  exact ⟨q.text, hq⟩

/-- Where none is near, there is no key and the path is its own base. -/
theorem ofPath_of_not_nearest {p : Path} (h : ¬ ∃ key below, Nearest p.trailingNames key below) :
    ofPath p = ⟨none, p⟩ := by
  obtain ⟨cs, hcs, hlast⟩ := p.exists_components
  suffices hsearch : search p.ancestors none = none by rw [ofPath, hsearch]
  rw [ancestors]
  by_cases hext : "ext" ∈ p.trailingNames
  · -- the last `ext` is the last name, so nothing is below it
    obtain ⟨below, above, hnames, hbelow⟩ :=
      List.eq_append_cons_of_mem (List.mem_reverse.mpr hext)
    rw [List.reverse_eq_iff, List.reverse_append, List.reverse_cons, List.append_assoc] at hnames
    cases hb : below.reverse with
    | nil =>
      rw [hb] at hnames
      rw [hnames, List.map_append, ← List.append_assoc] at hcs
      exact search_ext hcs
    | cons key rest =>
      rw [hb] at hnames
      exact absurd ⟨key, rest, above.reverse, hnames, by
        rwa [← hb, List.mem_reverse]⟩ h
  · exact search_of_no_ext hcs hlast hext

/-- **The nearest extension.** When one of the names that a path ends with is `ext`, and a name
follows the last that is, the path is inside an extension: that name is its key, and its root is
spelled as the path itself up to the end of that `ext`, and then with the key between slashes.
In every other case there is no extension, no key, and the base is the path as it is written. -/
theorem ofPath_nearest (p : Path) :
    (∀ key below, Nearest p.trailingNames key below →
      (ofPath p).isExtension = true ∧ (ofPath p).keyText = key ∧ key ≠ "ext" ∧
      ∃ t, EndsAt p "ext" ((key :: below).map .name) t ∧
        (ofPath p).base.text = t ++ "/" ++ key ++ "/") ∧
    ((¬ ∃ key below, Nearest p.trailingNames key below) →
      (ofPath p).isExtension = false ∧ (ofPath p).keyText = "" ∧ (ofPath p).base = p) := by
  constructor
  · intro key below h
    obtain ⟨t, ht⟩ := exists_endsAt h
    obtain ⟨above, -, hnames⟩ := h
    rw [ofPath_eq_of_endsAt ht hnames]
    exact ⟨rfl, rfl, fun hkey => hnames (hkey ▸ List.mem_cons_self), t, ht, rfl⟩
  · intro h
    rw [ofPath_of_not_nearest h]
    exact ⟨rfl, rfl, rfl⟩

/-- Of two directories called `ext` the nearer one counts, and the dot and the slashes behind it
are left out. An `ext` above a `..` does not count. -/
theorem ofPath_nearest_repeated :
    let p : Path := ⟨"/a/ext/outer//ext/./inner/x.php/"⟩
    Nearest p.trailingNames "inner" ["x.php"] ∧ (ofPath p).isExtension = true ∧
    (ofPath p).keyText = "inner" ∧ (ofPath p).base.text = "/a/ext/outer//ext/inner/" ∧
    (¬ ∃ key below, Nearest (Path.mk "ext/a/../b").trailingNames key below) ∧
    (ofPath ⟨"ext/a/../b"⟩).base = ⟨"ext/a/../b"⟩ := by
  intro p
  have hnearest : Nearest p.trailingNames "inner" ["x.php"] :=
    ⟨["a", "ext", "outer"], by decide +kernel, by decide⟩
  have hfront : EndsAt p "ext" (["inner", "x.php"].map .name) "/a/ext/outer//ext" :=
    ⟨by decide +kernel, ⟨"/a/ext/outer//", rfl⟩, by decide +kernel,
      ⟨"/./inner/x.php/", rfl, .inr ⟨"./inner/x.php/", rfl⟩⟩⟩
  obtain ⟨hextension, hkey, -, t, ht, hbase⟩ := (ofPath_nearest p).1 "inner" ["x.php"] hnearest
  have hnone : ¬ ∃ key below, Nearest (Path.mk "ext/a/../b").trailingNames key below := by
    rintro ⟨key, below, above, hnames, -⟩
    have hb : (Path.mk "ext/a/../b").trailingNames = ["b"] := by decide +kernel
    have hmem : "ext" ∈ ["b"] := by
      rw [← hb, hnames]
      simp
    revert hmem
    decide
  refine ⟨hnearest, hextension, hkey, ?_, hnone, ((ofPath_nearest ⟨"ext/a/../b"⟩).2 hnone).2.2⟩
  rw [hbase, ht.unique hfront]
  rfl

/-! ## 4. Paths below an extension

Going down from an extension along ordinary names changes neither the last `ext` nor the name after
it. -/

/-- A path of ordinary names, none of which is `ext`. -/
def Ordinary (q : Path) : Prop := ∀ c ∈ q.components, ∃ s, c = .name s ∧ s ≠ "ext"

/-- An ordinary path is not absolute and has no dots to follow, so that joining it appends it. -/
theorem Ordinary.isPlain {q : Path} (h : Ordinary q) : IsPlain q := by
  rw [Ordinary, components_eq, componentsOf] at h
  rw [IsPlain]
  cases hl : (lead q.text.toList).1 with
  | plain => rfl
  | root =>
    obtain ⟨s, hs, -⟩ := h .root (by simp [hl, Lead.components])
    cases hs
  | here =>
    obtain ⟨s, hs, -⟩ := h .here (by simp [hl, Lead.components])
    cases hs

/-- The components of an ordinary path are names, and `ext` is not among them. -/
theorem Ordinary.exists_names {q : Path} (h : Ordinary q) :
    ∃ names : List String, q.components = names.map .name ∧ "ext" ∉ names := by
  have hnames : ∀ c ∈ q.components, c.isName = true := by
    intro c hc
    obtain ⟨s, rfl, -⟩ := h c hc
    rfl
  refine ⟨q.components.map Component.text, (map_name_map_text hnames).symm, fun hmem => ?_⟩
  obtain ⟨c, hc, htext⟩ := List.mem_map.mp hmem
  obtain ⟨s, rfl, hs⟩ := h c hc
  exact hs htext

/-- A path that is found to be in an extension has the front that the search keeps. -/
theorem exists_endsAt_of_isExtension {p : Path} (h : (ofPath p).isExtension = true) :
    ∃ key below t, EndsAt p "ext" ((key :: below).map .name) t ∧ "ext" ∉ key :: below := by
  by_cases hnearest : ∃ key below, Nearest p.trailingNames key below
  · obtain ⟨key, below, hnearest⟩ := hnearest
    obtain ⟨t, ht⟩ := exists_endsAt hnearest
    obtain ⟨above, -, hnames⟩ := hnearest
    exact ⟨key, below, t, ht, hnames⟩
  · rw [ofPath_of_not_nearest hnearest] at h
    cases h

/-- The root of an extension has the site that it is the root of. -/
theorem ofPath_base {p : Path} (h : (ofPath p).isExtension = true) :
    ofPath (ofPath p).base = ofPath p := by
  obtain ⟨key, below, t, ht, hnames⟩ := exists_endsAt_of_isExtension h
  have hkey : IsName key.toList := isName_of_mem (p := p) (by
    rw [ht.components]
    exact List.mem_append_right _ List.mem_cons_self)
  rw [ofPath_eq_of_endsAt ht hnames]
  -- behind the front of the base stands the key alone
  have hrow : within (key ++ "/").toList = [key].map .name := by
    rw [String.toList_append]
    exact (within_append_slash key.toList []).trans (by rw [within_of_isName hkey]; rfl)
  have hbase : EndsAt ⟨t ++ "/" ++ key ++ "/"⟩ "ext" ([key].map .name) t :=
    hrow ▸ endsAt_of_slash (v := key ++ "/") String.append_assoc ht.last ht.suffix
  refine ofPath_eq_of_endsAt hbase ?_
  rw [List.mem_cons, not_or] at hnames ⊢
  exact ⟨hnames.1, List.not_mem_nil⟩

/-- A path below one in an extension has the same site. -/
theorem ofPath_join {p q : Path} (h : (ofPath p).isExtension = true) (hq : Ordinary q) :
    ofPath (p.join q) = ofPath p := by
  obtain ⟨key, below, t, ht, hnames⟩ := exists_endsAt_of_isExtension h
  obtain ⟨names, hcomponents, hext⟩ := hq.exists_names
  have hjoin := ht.join (by simp) hq.isPlain
  rw [hcomponents, ← List.map_append, List.cons_append] at hjoin
  rw [ofPath_eq_of_endsAt ht hnames]
  refine ofPath_eq_of_endsAt hjoin ?_
  rw [← List.cons_append, List.mem_append, not_or]
  exact ⟨hnames, hext⟩

/-- A scan takes its title and its base from the site of the directory that it scans. -/
theorem scan_site {σ : Type} {engine : Engine σ} {matchers : Path} {r : Request}
    {seconds : Number.Binary64} {s : σ} {c : Context}
    (h : (scan engine matchers r seconds s).1 = .ok c) :
    c.title = (ofPath r.root).key.getD r.root.text ∧ c.base = (ofPath r.root).base := by
  rcases hengine : engine r.root (Ruleset.select r.target matchers) s with ⟨e | all, s'⟩
  · rw [scan_of_error hengine] at h
    cases h
  · rw [scan_of_ok hengine] at h
    obtain rfl := Except.ok.inj h
    exact ⟨rfl, rfl⟩

/-- **One site for an extension.** The root of an extension and every directory below a path in
it, along ordinary names without another `ext`, have the site that the path has. So every scan
of them is titled with its key and shows paths from its root. -/
theorem ofPath_stable {p : Path} (h : (ofPath p).isExtension = true) :
    ofPath (ofPath p).base = ofPath p ∧ (∀ q, Ordinary q → ofPath (p.join q) = ofPath p) ∧
    ∀ root, (root = (ofPath p).base ∨ root = p ∨ ∃ q, Ordinary q ∧ root = p.join q) →
      ∀ {σ : Type} (engine : Engine σ) (matchers : Path) (r : Request)
        (seconds : Number.Binary64) (s : σ) (c : Context), r.root = root →
        (scan engine matchers r seconds s).1 = .ok c →
        c.title = (ofPath p).keyText ∧ c.base = (ofPath p).base := by
  refine ⟨ofPath_base h, fun q hq => ofPath_join h hq, ?_⟩
  rintro root hroot σ engine matchers r seconds s c rfl hscan
  have hsite : ofPath r.root = ofPath p := by
    rcases hroot with hroot | hroot | ⟨q, hq, hroot⟩
    · rw [hroot, ofPath_base h]
    · rw [hroot]
    · rw [hroot, ofPath_join h hq]
  obtain ⟨htitle, hbase⟩ := scan_site hscan
  rw [hsite] at htitle hbase
  obtain ⟨key, hkey⟩ := Option.isSome_iff_exists.mp h
  refine ⟨?_, hbase⟩
  rw [htitle, keyText, hkey]
  rfl

/-- A file below an extension, reached with doubled slashes and a dot, and the root of the
extension. -/
theorem ofPath_stable_nested :
    let p : Path := ⟨"./ext//news/Classes/"⟩
    (ofPath p).isExtension = true ∧ Ordinary ⟨"Domain//./Model"⟩ ∧
    (ofPath p).base = ⟨"./ext/news/"⟩ ∧ ofPath ⟨"./ext/news/"⟩ = ofPath p ∧
    ofPath ⟨"./ext//news/Classes/Domain//./Model"⟩ = ofPath p := by
  intro p
  have hbase : (ofPath p).base = ⟨"./ext/news/"⟩ := by decide +kernel
  have hordinary : Ordinary ⟨"Domain//./Model"⟩ := by
    have hcomponents : (Path.mk "Domain//./Model").components =
        [.name "Domain", .name "Model"] := by decide +kernel
    rw [Ordinary, hcomponents]
    exact List.forall_mem_cons.mpr ⟨⟨"Domain", rfl, by decide⟩,
      List.forall_mem_singleton.mpr ⟨"Model", rfl, by decide⟩⟩
  have hextension : (ofPath p).isExtension = true := by decide +kernel
  have hjoin : p.join ⟨"Domain//./Model"⟩ = ⟨"./ext//news/Classes/Domain//./Model"⟩ := by
    decide +kernel
  obtain ⟨hroot, hbelow, -⟩ := ofPath_stable hextension
  rw [hbase] at hroot
  exact ⟨hextension, hordinary, hbase, hroot, hjoin ▸ hbelow _ hordinary⟩

end Site

end UpgradeScan
