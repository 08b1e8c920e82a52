/-
`Proofs/Files/Address.lean` -- an address is the first listed page that fits.

The addresses of documents are kept in a links file, one page in a line, and a rule gets the first
page that ends with its own name. The file is edited by hand, and whoever adds a page or tidies up
the blanks should not change the addresses that are given already. That is the question of this
module: which edits leave an address as it is?

The entries of a links file do not show how its lines end. A newline cuts the text into the entries
before it and those after it (`linksIn_append`), and blanks at the end of a line do not count, nor
does a carriage return (`linksIn_append_blank`). Both are proved line by line. An edit of the file
that touches blanks only therefore keeps the entries, and one that adds lines at the end adds
entries at the end. In both cases the entries before the edit begin the entries after it
(`Edit.linksIn_prefix`), and the first entry that fits is still the first. By induction the same
holds of any number of edits.

Only an address that was found is kept. A page that was not listed may be added, so nothing is said
about rules without an address; and an entry put in front, or blanks put in front of one, can change
what is given, which is why they are not among the edits.
-/
import UpgradeScan.Proofs.Files.Changelog
import UpgradeScan.Proofs.Text.Split
import UpgradeScan.Proofs.Text.Utf8

set_option autoImplicit false

namespace UpgradeScan.Document

open Text (isBlank trimRight)
open Text.Utf8 (encode)

/-! ## 1. Entries of a links file

The entries of a text that is cut at newlines, and what blanks do to them. -/

variable {s t l : List Char}

/-- A blank at the end is cut off. -/
theorem trimRight_append_blank {c : Char} (hc : isBlank c = true) (s : List Char) :
    trimRight (s ++ [c]) = trimRight s := by
  rw [trimRight, trimRight, List.reverse_append, List.reverse_singleton, List.singleton_append,
    List.dropWhile_cons_of_pos hc]

/-- A carriage return at the end is a blank. -/
theorem trimRight_withoutReturn (l : List Char) :
    trimRight (Text.withoutReturn '\r' l) = trimRight l := by
  rw [Text.withoutReturn]
  by_cases h : l.getLast? = some '\r'
  · obtain ⟨init, rfl⟩ := List.getLast?_eq_some_iff.mp h
    rw [if_pos h, List.dropLast_concat, trimRight_append_blank (by decide)]
  · rw [if_neg h]

/-- A text without newlines is one entry, or none if it is blank. -/
theorem linksIn_of_not_mem (hl : '\n' ∉ l) : linksIn l = [trimRight l].filter (· != []) := by
  by_cases hne : l = []
  · subst hne
    rfl
  · rw [linksIn, Text.lines_of_not_mem hl hne]
    rfl

/-- A first line and the rest have their own entries. -/
theorem linksIn_cons_line (hl : '\n' ∉ l) (s : List Char) :
    linksIn (l ++ '\n' :: s) = linksIn l ++ linksIn s := by
  rw [linksIn_of_not_mem hl, linksIn, Text.lines_append_newline (by decide) hl, List.map_cons,
    trimRight_withoutReturn, ← List.singleton_append, List.filter_append, linksIn]

/-- The entries before a newline and those after it. -/
theorem linksIn_append (s t : List Char) : linksIn (s ++ '\n' :: t) = linksIn s ++ linksIn t := by
  induction s using Text.lineInduction '\n' with
  | last l hl => exact linksIn_cons_line hl t
  | line l s hl ih =>
    rw [List.append_assoc, List.cons_append, linksIn_cons_line hl, linksIn_cons_line hl, ih,
      List.append_assoc]

/-- A blank at the end of a text is no part of an entry. -/
theorem linksIn_append_blank {c : Char} (hc : isBlank c = true) (s : List Char) :
    linksIn (s ++ [c]) = linksIn s := by
  by_cases hnewline : c = '\n'
  · subst hnewline
    rw [linksIn_append]
    exact List.append_nil _
  · induction s using Text.lineInduction '\n' with
    | last l hl =>
      have hmem : '\n' ∉ l ++ [c] := by
        rw [List.mem_append, not_or, List.mem_singleton]
        exact ⟨hl, Ne.symm hnewline⟩
      rw [linksIn_of_not_mem hmem, linksIn_of_not_mem hl, trimRight_append_blank hc]
    | line l s hl ih =>
      rw [List.append_assoc, List.cons_append, linksIn_append, linksIn_append, ih]

/-- Neither are blanks there. -/
theorem linksIn_append_blanks {blanks : List Char} (h : ∀ c ∈ blanks, isBlank c = true)
    (s : List Char) : linksIn (s ++ blanks) = linksIn s := by
  induction blanks generalizing s with
  | nil => rw [List.append_nil]
  | cons c blanks ih =>
    have hc : isBlank c = true := h c List.mem_cons_self
    have hblanks : ∀ x ∈ blanks, isBlank x = true := fun x hx => h x (List.mem_cons_of_mem c hx)
    rw [List.append_cons, ih hblanks, linksIn_append_blank hc]

/-- The entries of the rows between newlines. -/
theorem linksIn_join (rows : List (List Char)) :
    linksIn (Text.join ['\n'] rows) = rows.flatMap linksIn := by
  induction rows with
  | nil => rfl
  | cons row rows ih =>
    cases rows with
    | nil => exact (List.append_nil _).symm
    | cons next rows =>
      rw [Text.join, List.append_assoc, List.singleton_append, linksIn_append, ih]
      rfl

/-! ## 2. Edits of a links file

Three kinds of edits, each in terms of the rows that stand between newlines. A row that ends with a
carriage return has its blanks put in before it. -/

/-- The first text becomes the second when a row of blanks goes, when blanks are put in at the end
of a row, or when a newline and more text follow. Rows are what stands between newlines. -/
inductive Edit : List Char → List Char → Prop
  | dropRow (before after : List (List Char)) {blanks : List Char}
      (h : ∀ c ∈ blanks, isBlank c = true) :
      Edit (Text.join ['\n'] (before ++ blanks :: after)) (Text.join ['\n'] (before ++ after))
  | padRow (before after : List (List Char)) (row : List Char) {blanks ending : List Char}
      (h : ∀ c ∈ blanks, isBlank c = true) (hending : ∀ c ∈ ending, isBlank c = true) :
      Edit (Text.join ['\n'] (before ++ (row ++ ending) :: after))
        (Text.join ['\n'] (before ++ (row ++ blanks ++ ending) :: after))
  | extend (text more : List Char) : Edit text (text ++ '\n' :: more)

/-- No edit takes an entry away, and new entries come last. -/
theorem Edit.linksIn_prefix (h : Edit s t) : linksIn s <+: linksIn t := by
  cases h with
  | dropRow before after h =>
    have hnone : linksIn _ = [] := linksIn_append_blanks h []
    rw [linksIn_join, linksIn_join, List.flatMap_append, List.flatMap_append, List.flatMap_cons]
    rw [List.nil_append] at hnone
    rw [hnone, List.nil_append]
  | padRow before after row h hending =>
    rw [linksIn_join, linksIn_join, List.flatMap_append, List.flatMap_append, List.flatMap_cons,
      List.flatMap_cons, linksIn_append_blanks hending, linksIn_append_blanks hending,
      linksIn_append_blanks h]
  | extend text more =>
    rw [linksIn_append]
    exact List.prefix_append _ _

/-- Neither does any number of edits. -/
theorem linksIn_prefix_of_edits (h : Relation.ReflTransGen Edit s t) : linksIn s <+: linksIn t := by
  induction h with
  | refl => exact List.prefix_rfl
  | tail _ hedit ih => exact ih.trans hedit.linksIn_prefix

/-- An address that is found among some entries is found among more of them. -/
theorem urlAmong_of_prefix {links more : List (List Char)} {name : String} (h : links <+: more)
    (hfound : urlAmong links name ≠ "") : urlAmong more name = urlAmong links name := by
  obtain ⟨rest, rfl⟩ := h
  rw [urlAmong] at hfound
  rw [urlAmong, urlAmong, List.find?_append]
  cases hlink : links.find? (Text.endsWith (pageOf name)) with
  | none =>
    rw [hlink] at hfound
    exact absurd rfl hfound
  | some link => rfl

/-! ## 3. The first line that fits

Which line of a file is found, in terms of lines. -/

/-- A line fits when it is not blank and ends with the page, except for blanks. -/
def Fits (page l : List Char) : Prop := trimRight l ≠ [] ∧ page <:+ trimRight l

/-- What a line that is no entry or does not end with the page adds to a search: nothing. -/
theorem find?_links_of_not_fits {page : List Char} {ls : List (List Char)}
    (h : ∀ l ∈ ls, ¬ Fits page l) :
    ((ls.map trimRight).filter (· != [])).find? (Text.endsWith page) = none := by
  rw [List.find?_eq_none]
  intro entry hentry hends
  obtain ⟨hmem, hne⟩ := List.mem_filter.mp hentry
  obtain ⟨l, hl, rfl⟩ := List.mem_map.mp hmem
  exact h l hl ⟨bne_iff_ne.mp hne, Text.endsWith_iff.mp hends⟩

/-- The first line that fits is found, whatever comes after it. -/
theorem find?_links_of_fits {page l : List Char} {before after : List (List Char)}
    (hbefore : ∀ l' ∈ before, ¬ Fits page l') (hl : Fits page l) :
    (((before ++ l :: after).map trimRight).filter (· != [])).find? (Text.endsWith page) =
      some (trimRight l) := by
  have hentry : (trimRight l != []) = true := bne_iff_ne.mpr hl.1
  rw [List.map_append, List.filter_append, List.find?_append, find?_links_of_not_fits hbefore,
    Option.none_or, List.map_cons, List.filter_cons, if_pos hentry,
    List.find?_cons_of_pos (Text.endsWith_iff.mpr hl.2)]

/-! ## 4. Addresses

What a new changelog gives. That a changelog which has been in use gives the same is shown in
`Proofs/Files/Changelog.lean`. -/

section

variable {d : Disk} {directory linksFile : Path} {rule : String}

/-- A links file that is text has the entries of that text. -/
theorem readLinks_of_text {text : List Char} (h : d.read linksFile = .ok (encode text)) :
    readLinks d linksFile = linksIn text := by
  have hstring : Text.Utf8.string? (encode text) = some (String.ofList text) := by
    rw [Text.Utf8.string?, Text.Utf8.decode?_encode]
    rfl
  have hread : d.readText linksFile = .ok (String.ofList text) := by
    rw [Disk.readText, h]
    simp only [hstring]
  rw [readLinks, hread]
  exact congrArg linksIn String.toList_ofList

/-- One that is not, or is not there, has none. -/
theorem readLinks_of_no_text (h : ∀ text, d.read linksFile ≠ .ok (encode text)) :
    readLinks d linksFile = [] := by
  rw [readLinks]
  cases hread : d.readText linksFile with
  | error e => rfl
  | ok s =>
    exfalso
    rw [Disk.readText] at hread
    cases hbytes : d.read linksFile with
    | error e =>
      rw [hbytes] at hread
      cases hread
    | ok c =>
      rw [hbytes] at hread
      cases hstring : Text.Utf8.string? c with
      | none =>
        simp only [hstring] at hread
        cases hread
      | some s' =>
        apply h s'.toList
        rw [hbytes, Text.Utf8.string?_eq_some_iff.mp hstring]
        rfl

/-- The address that a new changelog gives is looked up in the file as it is then. -/
theorem url_fresh (hlegacy : legacy? (nameOf rule) = none) (hname : nameOf rule ≠ "") :
    ((Changelog.fresh directory linksFile).url d rule).1 =
      urlAmong (readLinks d linksFile) (nameOf rule) := Changelog.url_fst hlegacy hname

/-- Edits of the links file do not change an address that was found. -/
theorem url_of_edits {d' : Disk} {text text' : List Char}
    (h : d.read linksFile = .ok (encode text)) (h' : d'.read linksFile = .ok (encode text'))
    (hedits : Relation.ReflTransGen Edit text text')
    (hfound : ((Changelog.fresh directory linksFile).url d rule).1 ≠ "") :
    ((Changelog.fresh directory linksFile).url d' rule).1 =
      ((Changelog.fresh directory linksFile).url d rule).1 := by
  cases hlegacy : legacy? (nameOf rule) with
  | some l => rw [Changelog.url_of_legacy hlegacy, Changelog.url_of_legacy hlegacy]
  | none =>
    by_cases hname : nameOf rule = ""
    · rw [Changelog.url_of_no_name hlegacy hname, Changelog.url_of_no_name hlegacy hname]
    · rw [url_fresh hlegacy hname, readLinks_of_text h] at hfound
      rw [url_fresh hlegacy hname, url_fresh hlegacy hname, readLinks_of_text h,
        readLinks_of_text h']
      exact urlAmong_of_prefix (linksIn_prefix_of_edits hedits) hfound

/-- **The first page that fits.** A legacy rule has its own address. For any other the page is the
name of the rule with every `.rst` replaced, and a new changelog gives the first line of the links
file that fits that page, or nothing: without a name, without a text to read, and without such a
line. Edits of the file do not change an address that was found, and only the name of the rule
matters. -/
theorem url_first_fitting (d : Disk) (directory linksFile : Path) (rule : String) :
    let log := Changelog.fresh directory linksFile
    let name := nameOf rule
    (∀ l ∈ legacies, l.name = name → (log.url d rule).1 = l.url) ∧
    ((∀ l ∈ legacies, l.name ≠ name) →
      Text.InPlaceOf ".rst".toList ".html".toList name.toList (pageOf name) ∧
      (name = "" → (log.url d rule).1 = "") ∧
      ((∀ text, d.read linksFile ≠ .ok (encode text)) → (log.url d rule).1 = "") ∧
      ∀ text, d.read linksFile = .ok (encode text) → name ≠ "" →
        ∃ ls, Text.HasLines '\n' '\r' text ls ∧
        ((∀ l ∈ ls, ¬ Fits (pageOf name) l) → (log.url d rule).1 = "") ∧
        ∀ before l after, ls = before ++ l :: after → (∀ l' ∈ before, ¬ Fits (pageOf name) l') →
          Fits (pageOf name) l → (log.url d rule).1 = pagesUrl ++ String.ofList (trimRight l)) ∧
    (∀ (d' : Disk) (text text' : List Char), d.read linksFile = .ok (encode text) →
      d'.read linksFile = .ok (encode text') → Relation.ReflTransGen Edit text text' →
      (log.url d rule).1 ≠ "" → (log.url d' rule).1 = (log.url d rule).1) ∧
    ∀ rule', nameOf rule' = name → (log.url d rule').1 = (log.url d rule).1 := by
  intro log name
  refine ⟨?_, ?_, fun d' text text' => url_of_edits, ?_⟩
  · intro l hl hname
    rw [Changelog.url_of_legacy (hname ▸ legacy?_of_mem hl)]
  · intro hno
    have hlegacy : legacy? name = none := legacy?_eq_none hno
    refine ⟨Text.inPlaceOf_replace (by decide) _ _, ?_, ?_, ?_⟩
    · intro hname
      rw [Changelog.url_of_no_name hlegacy hname]
    · -- A links file that is missing or no text is read as one without lines.
      intro htext
      by_cases hname : name = ""
      · rw [Changelog.url_of_no_name hlegacy hname]
      · rw [url_fresh hlegacy hname, readLinks_of_no_text htext]
        rfl
    · intro text htext hname
      refine ⟨Text.lines '\n' '\r' text, Text.hasLines_lines (by decide) text, ?_, ?_⟩
      · intro hnone
        rw [url_fresh hlegacy hname, readLinks_of_text htext, urlAmong, linksIn,
          find?_links_of_not_fits hnone]
      · intro before l after hlines hbefore hl
        rw [url_fresh hlegacy hname, readLinks_of_text htext, urlAmong, linksIn, hlines,
          find?_links_of_fits hbefore hl]
  · intro rule' hsame
    have halike : (Changelog.Question.url rule').Alike (.url rule) := hsame
    exact congrArg Prod.fst (Changelog.ask_eq_of_alike halike log d)

end

/-- A links file with two pages that fit, behind an entry that nearly does and a blank line. Then
the blank line goes, blanks are put in behind the last page, and a third page is added. The address
stays that of the first page. It needs the file, which a legacy rule does not. -/
theorem url_first_fitting_of_two_pages :
    let near := "a/Bxhtml\r".toList
    let page := "x/B.html \r".toList
    let text := Text.join ['\n'] [near, " ".toList, page, "y/B.html".toList]
    let text' := Text.join ['\n'] [near, page, "y/B.html".toList ++ "\t\r".toList ++ []] ++
      '\n' :: "z/B.html\n".toList
    let disk : List Char → Disk := fun t => ⟨.folder [("links", .file (encode t))], []⟩
    let log := Changelog.fresh ⟨"/docs"⟩ ⟨"/links"⟩
    (∀ l ∈ legacies, l.name ≠ nameOf "rules/B.rst") ∧ nameOf "rules/B.rst" ≠ "" ∧
    (disk text).read ⟨"/links"⟩ = .ok (encode text) ∧
    (disk text').read ⟨"/links"⟩ = .ok (encode text') ∧ Relation.ReflTransGen Edit text text' ∧
    (log.url (disk text) "rules/B.rst").1 = pagesUrl ++ "x/B.html" ∧
    (log.url (disk text') "rules/B.rst").1 = pagesUrl ++ "x/B.html" ∧
    (log.url (disk text') "other/B.rst").1 = pagesUrl ++ "x/B.html" ∧
    ((Changelog.fresh ⟨"/docs"⟩ ⟨"/none"⟩).url (disk text) "rules/B.rst").1 = "" ∧
    ((Changelog.fresh ⟨"/docs"⟩ ⟨"/none"⟩).url (disk text) "x/Deprecation-legacy-files.md").1 =
      "https://gist.github.com/Tuurlijk/f857bf41e559ce3908290fb96d98b5e4" := by
  intro near page text text' disk log
  have hno : ∀ l ∈ legacies, l.name ≠ nameOf "rules/B.rst" := by decide +kernel
  have hname : nameOf "rules/B.rst" ≠ "" := by decide +kernel
  have hread : (disk text).read ⟨"/links"⟩ = .ok (encode text) := by decide +kernel
  have hread' : (disk text').read ⟨"/links"⟩ = .ok (encode text') := by decide +kernel
  have hedits : Relation.ReflTransGen Edit text text' := by
    have hdrop : Edit text (Text.join ['\n'] [near, page, "y/B.html".toList]) :=
      .dropRow [near] [page, "y/B.html".toList] (List.all_eq_true.mp (by decide +kernel))
    have hblanks : ∀ c ∈ "\t\r".toList, isBlank c = true :=
      List.all_eq_true.mp (by decide +kernel)
    have hpad := Edit.padRow [near, page] [] "y/B.html".toList hblanks
      (fun c hc => absurd hc List.not_mem_nil)
    rw [List.append_nil "y/B.html".toList] at hpad
    exact .tail (.tail (.single hdrop) hpad) (.extend _ _)
  obtain ⟨-, hurl, hsame, -⟩ := url_first_fitting (disk text) ⟨"/docs"⟩ ⟨"/links"⟩ "rules/B.rst"
  obtain ⟨-, -, -, hrule⟩ := url_first_fitting (disk text') ⟨"/docs"⟩ ⟨"/links"⟩ "rules/B.rst"
  obtain ⟨-, hmissing, -, -⟩ := url_first_fitting (disk text) ⟨"/docs"⟩ ⟨"/none"⟩ "rules/B.rst"
  obtain ⟨hlegacy, -, -, -⟩ :=
    url_first_fitting (disk text) ⟨"/docs"⟩ ⟨"/none"⟩ "x/Deprecation-legacy-files.md"
  have hfirst : (log.url (disk text) "rules/B.rst").1 = pagesUrl ++ "x/B.html" := by
    obtain ⟨ls, hls, -, hfits⟩ := (hurl hno).2.2.2 text hread hname
    have hlines : ls = ["a/Bxhtml".toList, " ".toList] ++ "x/B.html ".toList ::
        ["y/B.html".toList] := by
      rw [(Text.hasLines_iff (by decide)).mp hls]
      decide +kernel
    have hbefore : ∀ l' ∈ ["a/Bxhtml".toList, " ".toList],
        ¬ (pageOf (nameOf "rules/B.rst") <:+ trimRight l') := by decide +kernel
    rw [hfits _ _ _ hlines (fun l' hl' h => hbefore l' hl' h.2)
      ⟨by decide +kernel, by decide +kernel⟩]
    decide +kernel
  have hedited : (log.url (disk text') "rules/B.rst").1 = pagesUrl ++ "x/B.html" := by
    rw [hsame (disk text') text text' hread hread' hedits (by rw [hfirst]; decide), hfirst]
  refine ⟨hno, hname, hread, hread', hedits, hfirst, hedited, ?_, ?_, ?_⟩
  · rw [hrule "other/B.rst" (by decide +kernel), hedited]
  · apply (hmissing hno).2.2.1
    intro t ht
    have herror : (disk text).read ⟨"/none"⟩ = .error .notFound := by decide +kernel
    rw [herror] at ht
    cases ht
  · exact hlegacy _ List.mem_cons_self (by decide +kernel)

end UpgradeScan.Document
