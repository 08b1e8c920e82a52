/-
`Proofs/Files/Entry.lean` -- a title comes from the first entry of the name.

A changelog directory has many folders, and a document of one name may be in several of them. A
title comes from one. Which one that is follows from how the index is made: a walk goes through the
directory, folder by folder and by the names of the entries, and the first document of a name that
it comes to is the one that counts. A name that a walk comes to in a folder called `A.rst` is an
entry like any other, hidden folders are walked through, and a folder that is itself called as a
document is taken for one.

The index keeps paths, and a path is read later, by going through its text from the root. So there
are two things to show. The index lists the documents among the places of a walk in the order of the
walk (`documents_eq`), so the first one of a name in the index is the first one that a walk comes
to. And a path in it is the directory joined with the names of a place below it; reading such a path
leads to that place again (`Disk.node_locate`), so what is read is what the tree has there.

The second needs that the tree is a proper one. A name with a slash in it, or one that is too long,
could be an entry of a tree but not be reached by a path. The first needs nothing: a walk comes to
whatever is there.
-/
import UpgradeScan.Proofs.Files.Title
import UpgradeScan.Proofs.Files.Walk

set_option autoImplicit false

namespace UpgradeScan

/-! ## 1. The path of a place

A path is a text that is cut at slashes and followed from the root or from the current folder.
Behind the path of a folder, one name leads to the entry of that name. -/

namespace Disk

/-- The path of a place below a directory. -/
def locate (p : Path) (place : List String) : Path := place.foldl (fun p name => p.join ⟨name⟩) p

variable {d : Disk} {p : Path} {name : String} {place next : List String}
  {es : List (String × Node)} {n c m : Node}

/-- A path is looked at when it is not empty and has no zero byte. -/
theorem refused?_eq_none_iff : refused? p = none ↔ '\x00' ∉ p.text.toList ∧ p.text ≠ "" := by
  rw [refused?]
  by_cases hnul : '\x00' ∈ p.text.toList
  · simp [hnul]
  · by_cases hempty : p.text = ""
    · simp [hempty]
    · simp [hnul, hempty]

/-- What a path leads to is what the tree has at the place where its segments end. -/
theorem node_eq_ok_iff : d.node p = .ok n ↔ refused? p = none ∧ ∃ place,
    d.walk (d.start p) (Text.fields '/' p.text.toList) = .ok place ∧
      d.root.at? place = some n := by
  rw [node, resolve]
  cases refused? p with
  | some e => simp
  | none =>
    cases d.walk (d.start p) (Text.fields '/' p.text.toList) with
    | error e => simp
    | ok place => cases hat : d.root.at? place <;> simp [hat]

/-- The last segment is followed from where the others end. -/
theorem walk_concat_eq_ok_iff {start : List String} {segs : List (List Char)} {seg : List Char} :
    d.walk start (segs ++ [seg]) = .ok next ↔
      ∃ mid, d.walk start segs = .ok mid ∧ d.step mid seg = .ok next := by
  rw [walk_append]
  cases d.walk start segs with
  | error e => exact ⟨nofun, nofun⟩
  | ok mid => cases hstep : d.step mid seg <;> simp [walk, hstep]

/-- An empty segment stays where it is, and there has to be a folder. -/
theorem step_nil_eq_ok_iff :
    d.step place [] = .ok next ↔ next = place ∧ ∃ es, d.root.at? place = some (.folder es) := by
  rw [step]
  cases d.root.at? place with
  | none => simp
  | some n =>
    cases n with
    | file b => simp
    | folder es =>
      constructor
      · exact fun h => ⟨(Except.ok.inj h).symm, es, rfl⟩
      · rintro ⟨rfl, -⟩
        rfl

/-- A name leads to the entry of that name, which the folder has to have. -/
theorem step_name_eq_ok_iff (hname : Node.IsFileName name) :
    d.step place name.toList = .ok next ↔ next = place ++ [name] ∧
      ∃ es c, d.root.at? place = some (.folder es) ∧ (Node.folder es).child? name = some c := by
  have hdot : ¬ (name.toList = [] ∨ name.toList = ['.']) :=
    not_or.mpr ⟨hname.isName.ne_nil, hname.isName.ne_here⟩
  have hshort : ¬ 255 < (Text.Utf8.encode name.toList).length := Nat.not_lt.mpr hname.short
  rw [step]
  cases d.root.at? place with
  | none => simp
  | some n =>
    cases n with
    | file b => simp
    | folder es =>
      simp only [if_neg hdot, if_neg hname.isName.ne_up, if_neg hshort, String.ofList_toList]
      constructor
      · intro h
        split at h
        · next hany =>
          obtain ⟨c, hc⟩ := Node.exists_child?_of_any hany
          exact ⟨(Except.ok.inj h).symm, es, c, rfl, hc⟩
        · cases h
      · rintro ⟨rfl, es, c, hes, hc⟩
        cases hes
        rw [if_pos (Node.any_of_child? hc)]

/-- A name behind a path comes after a slash, which is the last one of the path if it ends with
one. -/
theorem text_join_name (hp : p.text ≠ "") (hname : Path.IsName name.toList) :
    ∃ x, (p.join ⟨name⟩).text.toList = x ++ '/' :: name.toList ∧
      (p.text.toList = x ++ ['/'] ∨ p.text.toList = x) := by
  have hrelative : ¬ (Path.mk name).isAbsolute = true := by
    intro h
    exact hname.no_slash (List.mem_of_head? (beq_iff_eq.mp h))
  rw [Path.join, if_neg hrelative]
  by_cases hslash : p.text.toList.getLast? = some '/'
  · obtain ⟨x, hx⟩ := List.getLast?_eq_some_iff.mp hslash
    refine ⟨x, ?_, .inl hx⟩
    rw [if_pos (by simp [hslash]), String.toList_append, hx, List.append_assoc]
    rfl
  · refine ⟨p.text.toList, ?_, .inr rfl⟩
    rw [if_neg (by simp [hslash, hp]), String.toList_append, String.toList_append,
      List.append_assoc]
    rfl

/-- A name behind a path makes no difference to whether it is looked at. -/
theorem refused?_join (hp : p.text ≠ "") (hname : Node.IsFileName name) :
    refused? (p.join ⟨name⟩) = none ↔ refused? p = none := by
  obtain ⟨x, hjoin, hx⟩ := text_join_name hp hname.isName
  have hne : (p.join ⟨name⟩).text ≠ "" := by
    intro hempty
    rw [hempty] at hjoin
    exact absurd hjoin.symm (List.append_ne_nil_of_right_ne_nil _ (List.cons_ne_nil _ _))
  have hnul : '\x00' ∈ (p.join ⟨name⟩).text.toList ↔ '\x00' ∈ p.text.toList := by
    have hslash : '\x00' ≠ '/' := by decide
    rw [hjoin, List.mem_append, List.mem_cons]
    rcases hx with hx | hx
    · simp [hx, hname.no_nul]
    · simp [hx, hname.no_nul]
  rw [refused?_eq_none_iff, refused?_eq_none_iff, hnul, and_iff_left hne, and_iff_left hp]

/-- Nor to where it starts. -/
theorem start_join (d : Disk) (hp : p.text ≠ "") (hname : Path.IsName name.toList) :
    d.start (p.join ⟨name⟩) = d.start p := by
  obtain ⟨x, hjoin, hx⟩ := text_join_name hp hname
  have hfront : p.text.toList ≠ [] := fun h0 => hp (String.toList_eq_nil_iff.mp h0)
  rw [start, start, Path.isAbsolute, Path.isAbsolute, hjoin]
  rcases hx with hx | hx
  · rw [hx, List.append_cons, List.head?_append_of_ne_nil _ (by simp)]
  · rw [← hx, List.head?_append_of_ne_nil _ hfront]

/-- A name after the path of a folder leads to the entry of that name, and to nothing else. -/
theorem node_join_eq_ok_iff (hp : p.text ≠ "") (hname : Node.IsFileName name) :
    d.node (p.join ⟨name⟩) = .ok c ↔
      ∃ es, d.node p = .ok (.folder es) ∧ (Node.folder es).child? name = some c := by
  obtain ⟨x, hjoin, hx⟩ := text_join_name hp hname.isName
  -- the slash at the end of the path stands for one more step, which goes nowhere
  have hfolder : ∀ es, d.node p = .ok (.folder es) ↔ refused? p = none ∧ ∃ place,
      d.walk (d.start p) (Text.fields '/' x) = .ok place ∧
        d.root.at? place = some (.folder es) := by
    intro es
    rw [node_eq_ok_iff]
    rcases hx with hx | hx
    · simp only [hx, Text.fields_append_cons, Text.fields_nil, walk_concat_eq_ok_iff,
        step_nil_eq_ok_iff]
      constructor
      · rintro ⟨haccepted, place, ⟨_, hwalk, rfl, -⟩, hat⟩
        exact ⟨haccepted, place, hwalk, hat⟩
      · rintro ⟨haccepted, place, hwalk, hat⟩
        exact ⟨haccepted, place, ⟨place, hwalk, rfl, es, hat⟩, hat⟩
    · rw [hx]
  rw [node_eq_ok_iff, refused?_join hp hname, start_join d hp hname.isName, hjoin,
    Text.fields_append_cons, Text.fields_of_not_mem hname.isName.no_slash]
  simp only [walk_concat_eq_ok_iff, step_name_eq_ok_iff hname, hfolder]
  constructor
  · rintro ⟨haccepted, _, ⟨place, hwalk, rfl, es, m, hat, hm⟩, hc⟩
    rw [Node.at?_append, hat, Option.bind_some, Node.at?_cons, hm, Option.bind_some] at hc
    exact ⟨es, ⟨haccepted, place, hwalk, hat⟩, hm.trans hc⟩
  · rintro ⟨es, ⟨haccepted, place, hwalk, hat⟩, hc⟩
    refine ⟨haccepted, place ++ [name], ⟨place, hwalk, rfl, es, c, hat, hc⟩, ?_⟩
    rw [Node.at?_append, hat, Option.bind_some, Node.at?_cons, hc]
    rfl

/-- The entry of a folder is what its name after the path of the folder leads to. -/
theorem node_join (h : d.node p = .ok (.folder es)) (hname : Node.IsFileName name)
    (hc : (Node.folder es).child? name = some c) : d.node (p.join ⟨name⟩) = .ok c :=
  (node_join_eq_ok_iff (refused?_eq_none_iff.mp (node_eq_ok_iff.mp h).1).2 hname).mpr ⟨es, h, hc⟩

/-- The path of a place leads to what the tree has there. -/
theorem node_locate (h : d.node p = .ok n) (hn : n.Proper) (hat : n.at? place = some m) :
    d.node (locate p place) = .ok m := by
  induction place generalizing p n with
  | nil =>
    obtain rfl := Option.some.inj hat
    exact h
  | cons name rest ih =>
    rw [Node.at?_cons] at hat
    obtain ⟨c, hc, hrest⟩ := Option.bind_eq_some_iff.mp hat
    cases n with
    | file b => cases hc
    | folder es =>
      have hmem : (name, c) ∈ es := (Node.child?_eq_some_iff hn.entries.1).mp hc
      exact ih (node_join h (hn.entries.2 _ hmem) hc) (hn.child hmem) hrest

end Disk

/-! ## 2. The first entry of a name

Which entry is meant, without a walk: an entry of that name that comes before every other one. -/

namespace Node

variable {n : Node} {name : String} {place other : List String}

/-- Below the node there is an entry of that name, at that place. -/
def HasEntry (n : Node) (name : String) (place : List String) : Prop :=
  (n.at? place).isSome = true ∧ place.getLast? = some name

/-- The entry of that name that a walk comes to before every other one. -/
structure FirstEntry (n : Node) (name : String) (place : List String) : Prop where
  entry : n.HasEntry name place
  first : ∀ other, n.HasEntry name other → other ≠ place → Precedes place other

/-- There is one first entry at most. -/
theorem FirstEntry.unique (h : n.FirstEntry name place) (h' : n.FirstEntry name other) :
    other = place := by
  by_contra hne
  exact (h.first other h'.entry hne).asymm (h'.first place h.entry (Ne.symm hne))

/-- Every entry is among the places of a walk. -/
theorem HasEntry.mem_places (h : n.HasEntry name place) (hn : n.Proper) : place ∈ n.places := by
  refine (mem_places_iff hn).mpr ⟨?_, h.1⟩
  rintro rfl
  cases h.2

/-- The first one in the list of places is the first one. -/
theorem firstEntry_of_find? (hn : n.Proper)
    (h : (n.places.find? fun place => place.getLast? == some name) = some place) :
    n.FirstEntry name place := by
  obtain ⟨hname, before, after, hplaces, hbefore⟩ := List.find?_eq_some_iff_append.mp h
  have hmem : place ∈ n.places := List.mem_of_find?_eq_some h
  refine ⟨⟨((mem_places_iff hn).mp hmem).2, beq_iff_eq.mp hname⟩, ?_⟩
  intro other hother hne
  have hlater : other ∈ after := by
    have hmem := hother.mem_places hn
    rw [hplaces, List.mem_append, List.mem_cons] at hmem
    rcases hmem with hmem | rfl | hmem
    · have hdiffers := hbefore other hmem
      rw [hother.2] at hdiffers
      simp at hdiffers
    · exact absurd rfl hne
    · exact hmem
  have horder := pairwise_places hn
  rw [hplaces, List.pairwise_append, List.pairwise_cons] at horder
  exact horder.2.1.1 other hlater

/-- Where there is an entry of the name, there is a first one, and a walk finds it. -/
theorem exists_firstEntry (hn : n.Proper) (h : ∃ place, n.HasEntry name place) :
    ∃ place, (n.places.find? fun place => place.getLast? == some name) = some place ∧
      n.FirstEntry name place := by
  obtain ⟨other, hother⟩ := h
  cases hfind : n.places.find? fun place => place.getLast? == some name with
  | some place => exact ⟨place, rfl, firstEntry_of_find? hn hfind⟩
  | none =>
    rw [List.find?_eq_none] at hfind
    exact absurd (beq_iff_eq.mpr hother.2) (hfind other (hother.mem_places hn))

end Node

/-! ## 3. The index

The index is made along the tree, by a function of its own. It is compared with the places of a walk
by induction on the tree. -/

namespace Document

open Disk (locate)
open Text.Utf8 (encode)

/-- What is found below each entry, beside its name. -/
theorem documentsIn_eq (es : List (String × Node)) (p : Path) :
    documentsIn es p = es.map fun e => (e.1,
      (if isDocument e.1 then [(e.1, p.join ⟨e.1⟩)] else []) ++ documents e.2 (p.join ⟨e.1⟩)) := by
  induction es with
  | nil => rfl
  | cons e es ih => rw [documentsIn, ih, List.map_cons]

/-- The documents of a folder are those of its entries, by their names. -/
theorem documents_folder (es : List (String × Node)) (p : Path) :
    documents (.folder es) p = (Node.sorted es).flatMap fun e =>
      (if isDocument e.1 then [(e.1, p.join ⟨e.1⟩)] else []) ++ documents e.2 (p.join ⟨e.1⟩) := by
  rw [documents, documentsIn_eq, Node.flatMap_sorted]

/-- The name that a place ends with. -/
def lastName (place : List String) : String := place.getLast?.getD ""

/-- A place of one name ends with it. -/
theorem lastName_singleton (name : String) : lastName [name] = name := rfl

theorem lastName_cons {place : List String} (h : place ≠ []) (name : String) :
    lastName (name :: place) = lastName place := by
  rw [lastName, lastName, List.getLast?_cons_of_ne_nil h]

/-- The index has the documents among the places of a walk, in their order. -/
theorem documents_eq (n : Node) (p : Path) :
    documents n p = (n.places.filter fun place => isDocument (lastName place)).map
      fun place => (lastName place, locate p place) := by
  induction n using Node.induct generalizing p with
  | file c => rfl
  | folder es ih =>
    rw [documents_folder, Node.places_folder, List.filter_flatMap, List.map_flatMap]
    refine List.flatMap_congr fun e he => ?_
    rw [Node.sorted, List.mem_mergeSort] at he
    -- the name of the entry comes in front of a place below it, which ends as before
    have hlast : ∀ place ∈ e.2.places, lastName (e.1 :: place) = lastName place :=
      fun place hplace => lastName_cons (Node.ne_nil_of_mem_places hplace) e.1
    have hfilter : e.2.places.filter ((fun place => isDocument (lastName place)) ∘ (e.1 :: ·)) =
        e.2.places.filter fun place => isDocument (lastName place) :=
      List.filter_congr fun place hplace => congrArg isDocument (hlast place hplace)
    have hbelow : (((e.2.places.map (e.1 :: ·)).filter fun place =>
          isDocument (lastName place)).map fun place => (lastName place, locate p place)) =
        documents e.2 (p.join ⟨e.1⟩) := by
      rw [ih e he, List.filter_map, List.map_map, hfilter]
      refine List.map_congr_left fun place hplace => ?_
      exact congrArg (·, locate (p.join ⟨e.1⟩) place) (hlast place (List.mem_filter.mp hplace).1)
    rw [List.filter_cons, lastName_singleton, ← hbelow]
    by_cases hdoc : isDocument e.1 = true
    · rw [if_pos hdoc, if_pos hdoc]
      rfl
    · rw [if_neg hdoc, if_neg hdoc]
      rfl

/-- The document of a name is at the first place that ends with it. -/
theorem find?_documents (n : Node) (p : Path) (name : String) :
    ((documents n p).find? fun e => e.1 == name).map (·.2) =
      (n.places.find? fun place => isDocument name && place.getLast? == some name).map
        (locate p) := by
  have hname : ∀ place : List String, (isDocument (lastName place) && lastName place == name) =
      (isDocument name && place.getLast? == some name) := by
    intro place
    rw [lastName]
    cases place.getLast? with
    | none => cases isDocument name <;> rfl
    | some last =>
      rw [Option.getD_some, Option.some_beq_some]
      by_cases hlast : last = name
      · rw [hlast]
      · rw [beq_eq_false_iff_ne.mpr hlast, Bool.and_false, Bool.and_false]
  rw [documents_eq, List.find?_map, List.find?_filter, Option.map_map]
  simp only [Function.comp_def, ← Bool.and_eq_true, Bool.decide_eq_true, hname]

/-! ## 4. Titles

The title that a new changelog gives, first by the index and then by the tree. -/

section

variable {d : Disk} {directory linksFile : Path} {rule : String} {n : Node}

/-- A new changelog looks for the document in the directory as it is then. -/
theorem title_fresh_eq (h : legacy? (nameOf rule) = none) :
    ((Changelog.fresh directory linksFile).title d rule).1 =
      ((((readIndex d directory).find? fun e => e.1 == nameOf rule).map (·.2)).map
        (readTitle d)).getD "" := by
  rw [Changelog.title_fst h]
  rfl

/-- Without a changelog directory there are no titles. -/
theorem title_fresh_of_no_folder (h : legacy? (nameOf rule) = none)
    (hnode : ∀ es, d.node directory ≠ .ok (.folder es)) :
    ((Changelog.fresh directory linksFile).title d rule).1 = "" := by
  have hindex : readIndex d directory = [] := by
    rw [readIndex]
    cases hdir : d.node directory with
    | error e => rfl
    | ok n =>
      cases n with
      | file c => rfl
      | folder es => exact absurd hdir (hnode es)
  rw [title_fresh_eq h, hindex]
  rfl

/-- The document that is read is at the first place of a walk that ends with its name. -/
theorem title_fresh_of_node (h : legacy? (nameOf rule) = none) (hnode : d.node directory = .ok n) :
    ((Changelog.fresh directory linksFile).title d rule).1 =
      ((n.places.find? fun place =>
        isDocument (nameOf rule) && place.getLast? == some (nameOf rule)).map
          fun place => readTitle d (locate directory place)).getD "" := by
  have hindex : readIndex d directory = documents n directory := by
    rw [readIndex, hnode]
  rw [title_fresh_eq h, hindex, find?_documents, Option.map_map]
  rfl

/-- Without an entry of the name there is no title. -/
theorem title_fresh_of_no_entry (h : legacy? (nameOf rule) = none)
    (hnode : d.node directory = .ok n) (hn : n.Proper)
    (hnone : isDocument (nameOf rule) = true → ∀ place, ¬ n.HasEntry (nameOf rule) place) :
    ((Changelog.fresh directory linksFile).title d rule).1 = "" := by
  have hfind : (n.places.find? fun place =>
      isDocument (nameOf rule) && place.getLast? == some (nameOf rule)) = none := by
    rw [List.find?_eq_none]
    intro place hplace hname
    obtain ⟨hdoc, hlast⟩ := Bool.and_eq_true_iff.mp hname
    exact hnone hdoc place ⟨((Node.mem_places_iff hn).mp hplace).2, beq_iff_eq.mp hlast⟩
  rw [title_fresh_of_node h hnode, hfind]
  rfl

/-- With one, the title is what is found in the first: that of a file, and none of a folder. -/
theorem title_fresh_of_find? {place : List String} {m : Node} (h : legacy? (nameOf rule) = none)
    (hnode : d.node directory = .ok n) (hn : n.Proper) (hdoc : isDocument (nameOf rule) = true)
    (hfind : (n.places.find? fun place => place.getLast? == some (nameOf rule)) = some place)
    (hat : n.at? place = some m) :
    ((Changelog.fresh directory linksFile).title d rule).1 =
      match m with
      | .file content => (extracted? content).elim "" String.ofList
      | .folder _ => "" := by
  rw [title_fresh_of_node h hnode, hdoc]
  simp only [Bool.true_and, hfind, Option.map_some, Option.getD_some]
  rw [readTitle, Disk.read, Disk.node_locate hnode hn hat]
  cases m with
  | file content => exact titleOf_eq content
  | folder es => rfl

/-- **The first entry of the name.** A legacy rule has its own title. Any other has none when there
is no changelog directory, and when its name does not end with `.rst` or no entry below the
directory has it. Otherwise a new changelog reads the entry of that name that a walk comes to first:
the title is what it finds there, and empty if that is no file or cannot be read as far as a title.
Only the name of the rule matters. -/
theorem title_first_entry (d : Disk) (directory linksFile : Path) (rule : String) :
    let log := Changelog.fresh directory linksFile
    let name := nameOf rule
    (∀ l ∈ legacies, l.name = name → (log.title d rule).1 = l.title) ∧
    ((∀ l ∈ legacies, l.name ≠ name) →
      ((∀ es, d.node directory ≠ .ok (.folder es)) → (log.title d rule).1 = "") ∧
      ∀ n, d.node directory = .ok n → n.Proper →
        ((".rst".toList <:+ name.toList → ∀ place, ¬ n.HasEntry name place) →
          (log.title d rule).1 = "") ∧
        (".rst".toList <:+ name.toList → (∃ place, n.HasEntry name place) →
          ∃ place, n.FirstEntry name place ∧
            (∀ content title, n.at? place = some (.file content) →
              extracted? content = some title → (log.title d rule).1 = String.ofList title) ∧
            ((∀ content title, n.at? place = some (.file content) →
              extracted? content ≠ some title) → (log.title d rule).1 = ""))) ∧
    ∀ rule', nameOf rule' = name → (log.title d rule').1 = (log.title d rule).1 := by
  intro log name
  refine ⟨?_, ?_, ?_⟩
  · intro l hl hname
    rw [Changelog.title_of_legacy (hname ▸ legacy?_of_mem hl)]
  · intro hno
    have hlegacy : legacy? name = none := legacy?_eq_none hno
    have hsuffix : isDocument name = true ↔ ".rst".toList <:+ name.toList := Text.endsWith_iff
    refine ⟨title_fresh_of_no_folder hlegacy, ?_⟩
    intro n hnode hn
    constructor
    · intro hnone
      exact title_fresh_of_no_entry hlegacy hnode hn fun hdoc => hnone (hsuffix.mp hdoc)
    · intro hdoc hentry
      -- The index finds the first entry whatever it is; a folder in that place hides the files
      -- behind it and is read as a file without a title.
      obtain ⟨place, hfind, hfirst⟩ := Node.exists_firstEntry hn hentry
      obtain ⟨m, hat⟩ := Option.isSome_iff_exists.mp hfirst.entry.1
      have htitle : (log.title d rule).1 = _ :=
        title_fresh_of_find? hlegacy hnode hn (hsuffix.mpr hdoc) hfind hat
      refine ⟨place, hfirst, ?_, ?_⟩
      · intro content title hcontent hfound
        obtain rfl := Option.some.inj (hat.symm.trans hcontent)
        rw [htitle]
        simp only [hfound, Option.elim_some]
      · intro hunread
        rw [htitle]
        cases m with
        | folder es => rfl
        | file content =>
          have hnothing : extracted? content = none :=
            Option.eq_none_iff_forall_ne_some.mpr fun title => hunread content title hat
          simp only [hnothing, Option.elim_none]
  · intro rule' hsame
    have halike : (Changelog.Question.title rule').Alike (.title rule) := hsame
    exact congrArg Prod.fst (Changelog.ask_eq_of_alike halike log d)

end

/-- A changelog directory with brackets in its name. There `B.rst` is in three folders, and a walk
comes first to the one in a folder that is itself called `A.rst`, below a hidden one. That folder
comes before the file `A.rst` of a later one. Nothing is called `C.rst`, and `B.txt` is no document.
-/
theorem title_first_entry_hidden :
    let tree : Node := .folder [
      ("9.0", .folder [("B.rst", .file (encode "=\nNine".toList)), ("B.txt", .file []),
        ("A.rst", .file (encode "=\nA".toList))]),
      ("8.0", .folder [("B.rst", .file (encode "=\nEight".toList))]),
      (".old", .folder [
        ("A.rst", .folder [("B.rst", .file (encode "==\r\n\n Old \n".toList))])])]
    let d : Disk := ⟨.folder [("[docs]", tree)], []⟩
    let log := Changelog.fresh ⟨"/[docs]/"⟩ ⟨"/links"⟩
    tree.Proper ∧ d.node ⟨"/[docs]/"⟩ = .ok tree ∧
    (tree.FirstEntry "B.rst" [".old", "A.rst", "B.rst"] ∧ (log.title d "rules/B.rst").1 = "Old" ∧
      (log.title d "other/B.rst").1 = "Old") ∧
    (tree.FirstEntry "A.rst" [".old", "A.rst"] ∧ (log.title d "A.rst").1 = "") ∧
    (log.title d "C.rst").1 = "" ∧ (log.title d "B.txt").1 = "" ∧
    ((Changelog.fresh ⟨"/docs"⟩ ⟨"/links"⟩).title d "B.rst").1 = "" ∧
    (log.title d "Deprecation-legacy-files.md").1 = "Renamed TYPO3 core libraries" := by
  intro tree d log
  have hproper : tree.Proper := by
    refine Node.proper_folder (by decide) (by decide +kernel) ?_
    simp only [List.forall_mem_cons, List.not_mem_nil, false_implies, implies_true, and_true]
    refine ⟨Node.proper_folder (by decide) (by decide +kernel) ?_,
      Node.proper_folder (by decide) (by decide +kernel) ?_,
      Node.proper_folder (by decide) (by decide +kernel) ?_⟩
    · simp [Node.proper_file]
    · simp [Node.proper_file]
    · simp only [List.forall_mem_cons, List.not_mem_nil, false_implies, implies_true, and_true]
      exact Node.proper_folder (by decide) (by decide +kernel) (by simp [Node.proper_file])
  have hnode : d.node ⟨"/[docs]/"⟩ = .ok tree := rfl
  let places : List (List String) := [["9.0"], ["8.0"], [".old"], ["9.0", "B.rst"],
    ["9.0", "B.txt"], ["9.0", "A.rst"], ["8.0", "B.rst"], [".old", "A.rst"],
    [".old", "A.rst", "B.rst"]]
  have hplaces : ∀ name place, tree.HasEntry name place → place ∈ places := by
    intro name place h
    have hmem := h.mem_places hproper
    simpa [tree, Node.mem_places_folder, places, and_or_left, exists_or, or_assoc] using hmem
  have hb : tree.FirstEntry "B.rst" [".old", "A.rst", "B.rst"] := by
    have hall : ∀ other ∈ places, other.getLast? = some "B.rst" →
        other ≠ [".old", "A.rst", "B.rst"] → Node.Precedes [".old", "A.rst", "B.rst"] other := by
      decide +kernel
    exact ⟨⟨rfl, rfl⟩, fun other h => hall other (hplaces _ other h) h.2⟩
  have ha : tree.FirstEntry "A.rst" [".old", "A.rst"] := by
    have hall : ∀ other ∈ places, other.getLast? = some "A.rst" →
        other ≠ [".old", "A.rst"] → Node.Precedes [".old", "A.rst"] other := by
      decide +kernel
    exact ⟨⟨rfl, rfl⟩, fun other h => hall other (hplaces _ other h) h.2⟩
  have hc : ∀ place, ¬ tree.HasEntry "C.rst" place := by
    have hall : ∀ other ∈ places, other.getLast? ≠ some "C.rst" := by decide +kernel
    exact fun place h => hall place (hplaces _ place h) h.2
  obtain ⟨-, hfindB, hsame⟩ := title_first_entry d ⟨"/[docs]/"⟩ ⟨"/links"⟩ "rules/B.rst"
  obtain ⟨-, hfindA, -⟩ := title_first_entry d ⟨"/[docs]/"⟩ ⟨"/links"⟩ "A.rst"
  obtain ⟨-, hfindC, -⟩ := title_first_entry d ⟨"/[docs]/"⟩ ⟨"/links"⟩ "C.rst"
  obtain ⟨-, hfindText, -⟩ := title_first_entry d ⟨"/[docs]/"⟩ ⟨"/links"⟩ "B.txt"
  obtain ⟨-, hfindNone, -⟩ := title_first_entry d ⟨"/docs"⟩ ⟨"/links"⟩ "B.rst"
  obtain ⟨hlegacy, -, -⟩ :=
    title_first_entry d ⟨"/[docs]/"⟩ ⟨"/links"⟩ "Deprecation-legacy-files.md"
  have hnameB : nameOf "rules/B.rst" = "B.rst" := by decide +kernel
  have hnameA : nameOf "A.rst" = "A.rst" := by decide +kernel
  have hnameC : nameOf "C.rst" = "C.rst" := by decide +kernel
  have hnameText : nameOf "B.txt" = "B.txt" := by decide +kernel
  have hnameNone : nameOf "B.rst" = "B.rst" := by decide +kernel
  rw [hnameB] at hfindB
  rw [hnameA] at hfindA
  rw [hnameC] at hfindC
  rw [hnameText] at hfindText
  rw [hnameNone] at hfindNone
  have htitleB : (log.title d "rules/B.rst").1 = "Old" := by
    obtain ⟨place, hfirst, htitle, -⟩ :=
      ((hfindB (by decide)).2 tree hnode hproper).2 (by decide) ⟨_, hb.entry⟩
    obtain rfl := hb.unique hfirst
    exact htitle _ "Old".toList rfl (by decide +kernel)
  refine ⟨hproper, hnode, ⟨hb, htitleB, ?_⟩, ⟨ha, ?_⟩, ?_, ?_, ?_, ?_⟩
  · rw [← htitleB]
    exact hsame "other/B.rst" (by decide +kernel)
  · obtain ⟨place, hfirst, -, htitle⟩ :=
      ((hfindA (by decide)).2 tree hnode hproper).2 (by decide) ⟨_, ha.entry⟩
    obtain rfl := ha.unique hfirst
    exact htitle nofun
  · exact ((hfindC (by decide)).2 tree hnode hproper).1 fun _ => hc
  · exact ((hfindText (by decide)).2 tree hnode hproper).1 fun h => absurd h (by decide)
  · exact (hfindNone (by decide)).1 nofun
  · exact hlegacy _ List.mem_cons_self (by decide +kernel)

end Document

end UpgradeScan
