/-
`Proofs/Files/Changelog.lean` -- what is remembered does not show.

A changelog is asked for titles and addresses, and it reads files to answer. It keeps what it read:
the index of its directory, the lines of its links file, the title of each document and the address
for each name, each from the first time that it was needed. So an answer depends on what was asked
before, on what the disk was then, and on what was forgotten since. The question is how much of that
shows.

A lookup only adds to what is remembered, one thing at a time, and each thing as the disk has it
then or as it is remembered already (`Learns`). Two facts follow from that, and each is an invariant
that such a step preserves. What is remembered for a question answers it from then on, whatever
happens to the disk, since nothing but forgetting everything takes it away (`Extends`). And on a
disk that stays the same, remembering changes no answer to any question (`Agrees`).

Both are carried through sessions, in which questions, changes of the disk and clearing come in any
order. In a session the invariants hold between any two events that nothing in between has broken,
so the three statements at the end are about positions in a list of events. Rules with the same name
are one question, since nothing but the name is looked up (`Question.Alike`).
-/
import UpgradeScan.Files.Changelog
import Mathlib.Logic.Relation

set_option autoImplicit false

namespace UpgradeScan.Changelog

/-! ## 1. What is remembered, and what is read otherwise

A changelog has four things to remember. For each of them there is what is remembered and what a
lookup works with, which is the former or else what is read now. -/

/-- The title that is remembered of a document. -/
def titleAt? (c : Changelog) (p : Path) : Option String :=
  (c.titles.find? fun e => e.1 == p).map (·.2)

/-- The address that is remembered for a name. -/
def urlAt? (c : Changelog) (name : String) : Option String :=
  (c.urls.find? fun e => e.1 == name).map (·.2)

/-- A title that is remembered is found under its own document only. -/
theorem titleAt?_of_titles_eq {c c' : Changelog} {p : Path} {t : String}
    (h : c'.titles = (p, t) :: c.titles) (q : Path) :
    c'.titleAt? q = if p = q then some t else c.titleAt? q := by
  rw [titleAt?, h]
  by_cases hq : p = q <;> simp [titleAt?, hq]

/-- An address that is remembered is found under its own name only. -/
theorem urlAt?_of_urls_eq {c c' : Changelog} {name u : String}
    (h : c'.urls = (name, u) :: c.urls) (other : String) :
    c'.urlAt? other = if name = other then some u else c.urlAt? other := by
  rw [urlAt?, h]
  by_cases hother : name = other <;> simp [urlAt?, hother]

/-- The index that a lookup works with. -/
def indexOn (c : Changelog) (d : Disk) : List (String × Path) :=
  c.index.getD (Document.readIndex d c.directory)

/-- The links that a lookup works with. -/
def linksOn (c : Changelog) (d : Disk) : List (List Char) :=
  c.links.getD (Document.readLinks d c.linksFile)

/-- The title of a document, remembered or read. -/
def titleOn (c : Changelog) (d : Disk) (p : Path) : String :=
  (c.titleAt? p).getD (Document.readTitle d p)

/-- The address for a name, remembered or read. -/
def urlOn (c : Changelog) (d : Disk) (name : String) : String :=
  (c.urlAt? name).getD (Document.urlAmong (c.linksOn d) name)

/-- The document of a name. -/
def documentOn? (c : Changelog) (d : Disk) (name : String) : Option Path :=
  ((c.indexOn d).find? fun e => e.1 == name).map (·.2)

/-- A lookup works with the index that is remembered or read, and it is remembered then. -/
theorem withIndex_eq (c : Changelog) (d : Disk) :
    c.withIndex d = (c.indexOn d, { c with index := some (c.indexOn d) }) := by
  obtain ⟨_, _, index, _, _, _⟩ := c
  cases index <;> rfl

/-- The same of the links. -/
theorem withLinks_eq (c : Changelog) (d : Disk) :
    c.withLinks d = (c.linksOn d, { c with links := some (c.linksOn d) }) := by
  obtain ⟨_, _, _, links, _, _⟩ := c
  cases links <;> rfl

/-! ## 2. Lookups

What a lookup gives and what it leaves, by cases: a legacy rule has fixed answers and leaves
nothing, and any other rule is looked up by its name. -/

section

variable {c : Changelog} {d : Disk} {rule : String}

/-- A legacy rule has its own title. -/
theorem title_of_legacy {l : Document.Legacy}
    (h : Document.legacy? (Document.nameOf rule) = some l) : c.title d rule = (l.title, c) := by
  simp only [title, h]

/-- The title of any other rule is that of its document, if the index has one. -/
theorem title_of_no_legacy (h : Document.legacy? (Document.nameOf rule) = none) :
    c.title d rule =
      match c.documentOn? d (Document.nameOf rule) with
      | none => ("", { c with index := some (c.indexOn d) })
      | some p =>
        match c.titleAt? p with
        | some t => (t, { c with index := some (c.indexOn d) })
        | none => (Document.readTitle d p,
          { c with
            index := some (c.indexOn d)
            titles := (p, Document.readTitle d p) :: c.titles }) := by
  simp only [title, h, withIndex_eq, documentOn?]
  cases (c.indexOn d).find? fun e => e.1 == Document.nameOf rule with
  | none => rfl
  | some e =>
    simp only [Option.map_some, titleAt?]
    cases c.titles.find? fun e' => e'.1 == e.2 <;> rfl

/-- A legacy rule has its own address. -/
theorem url_of_legacy {l : Document.Legacy}
    (h : Document.legacy? (Document.nameOf rule) = some l) : c.url d rule = (l.url, c) := by
  simp only [url, h]

/-- A rule without a name has no address, and nothing is read for it. -/
theorem url_of_no_name (h : Document.legacy? (Document.nameOf rule) = none)
    (hname : Document.nameOf rule = "") : c.url d rule = ("", c) := by
  simp only [url, h, if_pos hname]

/-- The address for any other name is the one that is remembered, or is looked up in the links. -/
theorem url_of_no_legacy (h : Document.legacy? (Document.nameOf rule) = none)
    (hname : Document.nameOf rule ≠ "") :
    c.url d rule =
      match c.urlAt? (Document.nameOf rule) with
      | some u => (u, c)
      | none =>
        let u := Document.urlAmong (c.linksOn d) (Document.nameOf rule)
        (u, { c with
          links := some (c.linksOn d)
          urls := (Document.nameOf rule, u) :: c.urls }) := by
  simp only [url, h, if_neg hname, withLinks_eq, urlAt?]
  cases c.urls.find? fun e => e.1 == Document.nameOf rule <;> rfl

/-- The title that is given, whatever is remembered. -/
theorem title_fst (h : Document.legacy? (Document.nameOf rule) = none) :
    (c.title d rule).1 = ((c.documentOn? d (Document.nameOf rule)).map (c.titleOn d)).getD "" := by
  rw [title_of_no_legacy h]
  cases c.documentOn? d (Document.nameOf rule) with
  | none => rfl
  | some p => cases ht : c.titleAt? p <;> simp [titleOn, ht]

/-- The address that is given, whatever is remembered. -/
theorem url_fst (h : Document.legacy? (Document.nameOf rule) = none)
    (hname : Document.nameOf rule ≠ "") :
    (c.url d rule).1 = c.urlOn d (Document.nameOf rule) := by
  rw [url_of_no_legacy h hname]
  cases hu : c.urlAt? (Document.nameOf rule) <;> simp [urlOn, hu]

end

/-- What a changelog is asked for. -/
inductive Question where
  | title (rule : String)
  | url (rule : String)
  deriving DecidableEq, Repr

/-- The answer to a question, and what is remembered after it. -/
def ask (c : Changelog) (d : Disk) : Question → String × Changelog
  | .title rule => c.title d rule
  | .url rule => c.url d rule

/-- Two questions of one kind about rules with the same name. -/
def Question.Alike : Question → Question → Prop
  | .title r, .title s => Document.nameOf r = Document.nameOf s
  | .url r, .url s => Document.nameOf r = Document.nameOf s
  | _, _ => False

/-- Nothing but the name of a rule is looked up. -/
theorem ask_eq_of_alike {q q' : Question} (h : q.Alike q') (c : Changelog) (d : Disk) :
    c.ask d q = c.ask d q' := by
  cases q <;> cases q' <;> simp only [Question.Alike] at h
  · simp only [ask, title, h]
  · simp only [ask, url, h]

/-! ## 3. One thing more is remembered

The step. A question takes several of them, so a question is a chain of steps. -/

/-- One thing more is remembered, as it is on the disk or as it is remembered already. -/
inductive Learns (d : Disk) (c : Changelog) : Changelog → Prop
  | index : Learns d c { c with index := some (c.indexOn d) }
  | links : Learns d c { c with links := some (c.linksOn d) }
  | title (p : Path) : Learns d c { c with titles := (p, c.titleOn d p) :: c.titles }
  | url (name : String) : Learns d c { c with urls := (name, c.urlOn d name) :: c.urls }

/-- A question changes what is remembered by such steps only. -/
theorem learns_ask (c : Changelog) (d : Disk) (q : Question) :
    Relation.ReflTransGen (Learns d) c (c.ask d q).2 := by
  cases q with
  | title rule =>
    cases hl : Document.legacy? (Document.nameOf rule) with
    | some l => rw [ask, title_of_legacy hl]
    | none =>
      rw [ask, title_of_no_legacy hl]
      split
      · exact .single .index
      · next p _ =>
        split
        · exact .single .index
        · next ht =>
          -- The title was not known before, so what is stored is what is read now.
          have hread : titleOn { c with index := some (c.indexOn d) } d p =
              Document.readTitle d p := by
            change (c.titleAt? p).getD _ = _
            rw [ht, Option.getD_none]
          refine .tail (.single .index) ?_
          rw [← hread]
          exact .title p
  | url rule =>
    cases hl : Document.legacy? (Document.nameOf rule) with
    | some l => rw [ask, url_of_legacy hl]
    | none =>
      by_cases hname : Document.nameOf rule = ""
      · rw [ask, url_of_no_name hl hname]
      · rw [ask, url_of_no_legacy hl hname]
        split
        · exact .refl
        · next hu =>
          have hread : urlOn { c with links := some (c.linksOn d) } d (Document.nameOf rule) =
              Document.urlAmong (c.linksOn d) (Document.nameOf rule) := by
            change (c.urlAt? _).getD _ = _
            rw [hu, Option.getD_none]
            rfl
          refine .tail (.single .links) ?_
          simp only [← hread]
          exact .url _

/-! ## 4. What is remembered stays

The first invariant. It does not mention the disk, so the disk may change. -/

/-- Whatever the first remembers, the second remembers too. -/
structure Extends (c c' : Changelog) : Prop where
  directory : c'.directory = c.directory
  linksFile : c'.linksFile = c.linksFile
  index : ∀ ix, c.index = some ix → c'.index = some ix
  links : ∀ ls, c.links = some ls → c'.links = some ls
  titles : ∀ p t, c.titleAt? p = some t → c'.titleAt? p = some t
  urls : ∀ name u, c.urlAt? name = some u → c'.urlAt? name = some u

/-- What is remembered is remembered. -/
theorem Extends.refl (c : Changelog) : Extends c c :=
  ⟨rfl, rfl, fun _ => id, fun _ => id, fun _ _ => id, fun _ _ => id⟩

/-- What stays twice stays. -/
theorem Extends.trans {a b c : Changelog} (h : Extends a b) (h' : Extends b c) : Extends a c where
  directory := h'.directory.trans h.directory
  linksFile := h'.linksFile.trans h.linksFile
  index ix hix := h'.index ix (h.index ix hix)
  links ls hls := h'.links ls (h.links ls hls)
  titles p t ht := h'.titles p t (h.titles p t ht)
  urls name u hu := h'.urls name u (h.urls name u hu)

/-- A step takes nothing away: what it adds under a name that is remembered is what is remembered
there. -/
theorem Learns.extends {d : Disk} {c c' : Changelog} (h : Learns d c c') : Extends c c' := by
  have hrefl := Extends.refl c
  cases h with
  | index => exact { hrefl with index := fun ix hix => by simp [indexOn, hix] }
  | links => exact { hrefl with links := fun ls hls => by simp [linksOn, hls] }
  | title p =>
    refine { hrefl with titles := fun q t ht => ?_ }
    rw [titleAt?_of_titles_eq rfl]
    split
    · next heq => rw [titleOn, heq, ht, Option.getD_some]
    · exact ht
  | url name =>
    refine { hrefl with urls := fun other u hu => ?_ }
    rw [urlAt?_of_urls_eq rfl]
    split
    · next heq => rw [urlOn, heq, hu, Option.getD_some]
    · exact hu

/-- A question takes nothing away. -/
theorem extends_ask (c : Changelog) (d : Disk) (q : Question) : Extends c (c.ask d q).2 := by
  have h := learns_ask c d q
  generalize (c.ask d q).2 = c' at h
  induction h with
  | refl => exact .refl c
  | tail _ h ih => exact ih.trans h.extends

/-- After a title was asked for, the index is remembered. -/
theorem index_title {c : Changelog} {d : Disk} {rule : String}
    (h : Document.legacy? (Document.nameOf rule) = none) :
    (c.title d rule).2.index = some (c.indexOn d) := by
  rw [title_of_no_legacy h]
  split
  · rfl
  · split <;> rfl

/-- After a title was found, it is remembered. -/
theorem titleAt?_title {c : Changelog} {d : Disk} {rule : String} {p : Path}
    (h : Document.legacy? (Document.nameOf rule) = none)
    (hp : c.documentOn? d (Document.nameOf rule) = some p) :
    (c.title d rule).2.titleAt? p = some (c.titleOn d p) := by
  rw [title_of_no_legacy h, hp]
  simp only
  split
  · next t ht =>
    rw [titleOn, ht]
    exact ht
  · next ht =>
    rw [titleOn, ht]
    exact (titleAt?_of_titles_eq (c := c) rfl p).trans (if_pos rfl)

/-- After an address was asked for, it is remembered, also when there is none. -/
theorem urlAt?_url {c : Changelog} {d : Disk} {rule : String}
    (h : Document.legacy? (Document.nameOf rule) = none) (hname : Document.nameOf rule ≠ "") :
    (c.url d rule).2.urlAt? (Document.nameOf rule) = some (c.urlOn d (Document.nameOf rule)) := by
  rw [url_of_no_legacy h hname]
  split
  · next u hu => rw [urlOn, hu, Option.getD_some]
  · next hu =>
    rw [urlOn, hu]
    exact (urlAt?_of_urls_eq (c := c) rfl _).trans (if_pos rfl)

/-- Once answered, a question has the same answer whatever else is remembered and whatever
happens to the disk. -/
theorem ask_of_extends {c c' : Changelog} {d : Disk} {q : Question}
    (h : Extends (c.ask d q).2 c') (d' : Disk) : (c'.ask d' q).1 = (c.ask d q).1 := by
  cases q with
  | title rule =>
    cases hl : Document.legacy? (Document.nameOf rule) with
    | some l => rw [ask, ask, title_of_legacy hl, title_of_legacy hl]
    | none =>
      -- What the first question looked up is still held, so the second disk is not asked.
      have hindex : c'.indexOn d' = c.indexOn d := by
        rw [indexOn, h.index _ (index_title hl), Option.getD_some]
      rw [ask, ask, title_fst hl, title_fst hl, documentOn?, hindex, ← documentOn?]
      cases hp : c.documentOn? d (Document.nameOf rule) with
      | none => rfl
      | some p =>
        simp only [Option.map_some, Option.getD_some]
        rw [titleOn, h.titles _ _ (titleAt?_title hl hp), Option.getD_some]
  | url rule =>
    cases hl : Document.legacy? (Document.nameOf rule) with
    | some l => rw [ask, ask, url_of_legacy hl, url_of_legacy hl]
    | none =>
      by_cases hname : Document.nameOf rule = ""
      · rw [ask, ask, url_of_no_name hl hname, url_of_no_name hl hname]
      · rw [ask, ask, url_fst hl hname, url_fst hl hname, urlOn,
          h.urls _ _ (urlAt?_url hl hname), Option.getD_some]

/-! ## 5. What is remembered does not show

The second invariant. It is about one disk, and compares what lookups work with. -/

/-- On this disk, both answer every question in the same way. -/
structure Agrees (d : Disk) (c c' : Changelog) : Prop where
  index : c'.indexOn d = c.indexOn d
  titles : ∀ p, c'.titleOn d p = c.titleOn d p
  urls : ∀ name, c'.urlOn d name = c.urlOn d name

/-- A changelog agrees with itself. -/
theorem Agrees.refl (d : Disk) (c : Changelog) : Agrees d c c := ⟨rfl, fun _ => rfl, fun _ => rfl⟩

theorem Agrees.trans {d : Disk} {a b c : Changelog} (h : Agrees d a b) (h' : Agrees d b c) :
    Agrees d a c :=
  ⟨h'.index.trans h.index, fun p => (h'.titles p).trans (h.titles p),
    fun name => (h'.urls name).trans (h.urls name)⟩

/-- A step changes no answer, since what it adds is what a lookup would work with. -/
theorem Learns.agrees {d : Disk} {c c' : Changelog} (h : Learns d c c') : Agrees d c c' := by
  have hrefl := Agrees.refl d c
  cases h with
  | index => exact ⟨rfl, hrefl.titles, hrefl.urls⟩
  | links => exact ⟨rfl, hrefl.titles, hrefl.urls⟩
  | title p =>
    refine { hrefl with titles := fun q => ?_ }
    rw [titleOn, titleAt?_of_titles_eq rfl]
    by_cases h : p = q <;> simp [h, titleOn]
  | url name =>
    refine { hrefl with urls := fun other => ?_ }
    rw [urlOn, urlAt?_of_urls_eq rfl]
    by_cases h : name = other <;> simp [h, urlOn, linksOn]

/-- A question changes no answer. -/
theorem agrees_ask (c : Changelog) (d : Disk) (q : Question) : Agrees d c (c.ask d q).2 := by
  have h := learns_ask c d q
  generalize (c.ask d q).2 = c' at h
  induction h with
  | refl => exact .refl d c
  | tail _ h ih => exact ih.trans h.agrees

/-- Changelogs that agree give the same answers. -/
theorem Agrees.ask {d : Disk} {c c' : Changelog} (h : Agrees d c c') (q : Question) :
    (c'.ask d q).1 = (c.ask d q).1 := by
  cases q with
  | title rule =>
    cases hl : Document.legacy? (Document.nameOf rule) with
    | some l => rw [Changelog.ask, Changelog.ask, title_of_legacy hl, title_of_legacy hl]
    | none =>
      rw [Changelog.ask, Changelog.ask, title_fst hl, title_fst hl, documentOn?, h.index,
        ← documentOn?, funext h.titles]
  | url rule =>
    cases hl : Document.legacy? (Document.nameOf rule) with
    | some l => rw [Changelog.ask, Changelog.ask, url_of_legacy hl, url_of_legacy hl]
    | none =>
      by_cases hname : Document.nameOf rule = ""
      · rw [Changelog.ask, Changelog.ask, url_of_no_name hl hname, url_of_no_name hl hname]
      · rw [Changelog.ask, Changelog.ask, url_fst hl hname, url_fst hl hname, h.urls]

/-! ## 6. Sessions

Events in any order. What holds at a position depends on the events before it, so lists of events
are taken apart at positions. -/

/-- What can happen while a changelog is in use. -/
inductive Event where
  | ask (q : Question)
  /-- The disk becomes another one. -/
  | change (d : Disk)
  /-- Everything that is remembered is forgotten. -/
  | clear

/-- A changelog in use, with the disk as it is then. -/
structure Session where
  log : Changelog
  disk : Disk

namespace Session

/-- What an event answers, if it is a question, and how things stand after it. -/
def step (s : Session) : Event → Option String × Session
  | .ask q => (some (s.log.ask s.disk q).1, ⟨(s.log.ask s.disk q).2, s.disk⟩)
  | .change d => (none, ⟨s.log, d⟩)
  | .clear => (none, ⟨s.log.clear, s.disk⟩)

/-- How things stand after some events. -/
def after (s : Session) : List Event → Session
  | [] => s
  | e :: es => (s.step e).2.after es

/-- The answers to some events, in their order. -/
def answers (s : Session) : List Event → List (Option String)
  | [] => []
  | e :: es => (s.step e).1 :: (s.step e).2.answers es

/-- Events after events. -/
theorem after_append (s : Session) (es fs : List Event) :
    s.after (es ++ fs) = (s.after es).after fs := by
  induction es generalizing s with
  | nil => rfl
  | cons e es ih => exact ih _

/-- Their answers come one after the other. -/
theorem answers_append (s : Session) (es fs : List Event) :
    s.answers (es ++ fs) = s.answers es ++ (s.after es).answers fs := by
  induction es generalizing s with
  | nil => rfl
  | cons e es ih => exact congrArg _ (ih _)

/-- An answer depends on the events before it only. -/
theorem getElem?_answers (s : Session) (es : List Event) (i : Nat) :
    (s.answers es)[i]? = es[i]?.map fun e => ((s.after (es.take i)).step e).1 := by
  induction es generalizing s i with
  | nil => rfl
  | cons e es ih =>
    cases i with
    | zero => rfl
    | succ i => exact ih _ i

/-- The answer to a question is given as things stand when it is asked. -/
theorem answer_of_ask (s : Session) {es : List Event} {i : Nat} {q : Question}
    (h : es[i]? = some (.ask q)) : (s.answers es)[i]? =
      some (some ((s.after (es.take i)).log.ask (s.after (es.take i)).disk q).1) := by
  rw [getElem?_answers, h]
  rfl

/-- What stands between an event and a later one. -/
theorem after_take_of_lt (s : Session) {es : List Event} {i j : Nat} {e : Event}
    (h : es[i]? = some e) (hij : i < j) :
    ∃ between, s.after (es.take j) = ((s.after (es.take i)).step e).2.after between ∧
      ∀ e' ∈ between, ∃ k, i < k ∧ k < j ∧ es[k]? = some e' := by
  have hi : i < es.length := (List.getElem?_eq_some_iff.mp h).1
  have htake : es.take j = es.take i ++ e :: (es.take j).drop (i + 1) := by
    have hmin : min (i + 1) j = i + 1 := by omega
    have hcut := (List.take_append_drop (i + 1) (es.take j)).symm
    rw [List.take_take, hmin, List.take_add_one, h] at hcut
    simpa using hcut
  refine ⟨(es.take j).drop (i + 1), ?_, fun e' he' => ?_⟩
  · have hafter := congrArg s.after htake
    rw [after_append] at hafter
    exact hafter
  · obtain ⟨m, hm⟩ := List.mem_iff_getElem?.mp he'
    rw [List.getElem?_drop, List.getElem?_take] at hm
    split at hm
    · exact ⟨i + 1 + m, by omega, by omega, hm⟩
    · cases hm

/-- The two sources are the same ever after. -/
theorem paths_after (s : Session) (es : List Event) :
    (s.after es).log.directory = s.log.directory ∧
      (s.after es).log.linksFile = s.log.linksFile := by
  induction es generalizing s with
  | nil => exact ⟨rfl, rfl⟩
  | cons e es ih =>
    have hstep : (s.step e).2.log.directory = s.log.directory ∧
        (s.step e).2.log.linksFile = s.log.linksFile := by
      cases e with
      | ask q => exact ⟨(extends_ask _ _ q).directory, (extends_ask _ _ q).linksFile⟩
      | change d => exact ⟨rfl, rfl⟩
      | clear => exact ⟨rfl, rfl⟩
    exact ⟨(ih _).1.trans hstep.1, (ih _).2.trans hstep.2⟩

/-- As long as nothing is forgotten, more and more is remembered. -/
theorem extends_after (s : Session) {es : List Event} (h : .clear ∉ es) :
    Extends s.log (s.after es).log := by
  induction es generalizing s with
  | nil => exact .refl _
  | cons e es ih =>
    rw [List.mem_cons, not_or] at h
    have hstep : Extends s.log (s.step e).2.log := by
      cases e with
      | ask q => exact extends_ask _ _ q
      | change d => exact .refl _
      | clear => exact absurd rfl h.1
    exact hstep.trans (ih _ h.2)

/-- As long as the disk stays the same, a changelog answers as a new one does. -/
theorem agrees_after {directory linksFile : Path} {s : Session} {es : List Event}
    (hpaths : s.log.directory = directory ∧ s.log.linksFile = linksFile)
    (hagrees : Agrees s.disk (fresh directory linksFile) s.log) (h : ∀ d, .change d ∉ es) :
    (s.after es).disk = s.disk ∧
      Agrees s.disk (fresh directory linksFile) (s.after es).log := by
  induction es generalizing s with
  | nil => exact ⟨rfl, hagrees⟩
  | cons e es ih =>
    have htail : ∀ d, .change d ∉ es := fun d hd => h d (List.mem_cons_of_mem e hd)
    have hpaths' : (s.step e).2.log.directory = directory ∧
        (s.step e).2.log.linksFile = linksFile := by
      rw [← hpaths.1, ← hpaths.2]
      exact s.paths_after [e]
    cases e with
    | ask q => exact ih hpaths' (hagrees.trans (agrees_ask _ _ q)) htail
    | change d => exact absurd (List.mem_cons_self ..) (h d)
    | clear =>
      refine ih hpaths' ?_ htail
      change Agrees s.disk _ (fresh s.log.directory s.log.linksFile)
      rw [hpaths.1, hpaths.2]
      exact .refl _ _

/-- Alike questions have one answer, unless everything is forgotten between them. -/
theorem answers_of_alike (s : Session) {events : List Event} {i j : Nat} {q q' : Question}
    (hij : i < j) (hi : events[i]? = some (.ask q)) (hj : events[j]? = some (.ask q'))
    (halike : q.Alike q') (hclear : ∀ k, i < k → k < j → events[k]? ≠ some .clear) :
    ∃ t, (s.answers events)[i]? = some (some t) ∧ (s.answers events)[j]? = some (some t) := by
  refine ⟨_, s.answer_of_ask hi, ?_⟩
  obtain ⟨between, hbetween, hmem⟩ := s.after_take_of_lt hi hij
  have hno : .clear ∉ between := by
    intro h
    obtain ⟨k, hik, hkj, hk⟩ := hmem _ h
    exact hclear k hik hkj hk
  have hsame := ask_of_extends
    (extends_after ((s.after (events.take i)).step (.ask q)).2 hno) (s.after (events.take j)).disk
  rw [← hbetween] at hsame
  rw [s.answer_of_ask hj, ← ask_eq_of_alike halike]
  exact congrArg (some ∘ some) hsame

/-- After everything is forgotten, a changelog answers as a new one does. -/
theorem answers_of_clear (s : Session) (before rest : List Event) :
    s.answers (before ++ .clear :: rest) = s.answers before ++ none ::
      (Session.mk (fresh s.log.directory s.log.linksFile) (s.after before).disk).answers rest := by
  have hpaths := s.paths_after before
  rw [← hpaths.1, ← hpaths.2, answers_append]
  rfl

end Session

/-- **What is remembered does not show.** In a session that begins with nothing remembered, two
questions of one kind about rules with one name have the same answer, whatever happens to the disk
between them, unless everything is forgotten there. After that the answers are those of a new
changelog with the same sources on the same disks. And on a disk that stays the same every answer
is that of a new changelog which is asked nothing else. -/
theorem answers_session (directory linksFile : Path) (d : Disk) (events : List Event) :
    let start : Session := ⟨fresh directory linksFile, d⟩
    (∀ (i j : Nat) (q q' : Question), i < j → events[i]? = some (.ask q) →
      events[j]? = some (.ask q') → q.Alike q' →
      (∀ k, i < k → k < j → events[k]? ≠ some .clear) →
      ∃ t, (start.answers events)[i]? = some (some t) ∧
        (start.answers events)[j]? = some (some t)) ∧
    (∀ before rest : List Event, events = before ++ .clear :: rest →
      start.answers events = start.answers before ++ none ::
        (Session.mk (fresh directory linksFile) (start.after before).disk).answers rest) ∧
    ((∀ d', .change d' ∉ events) → ∀ (i : Nat) (q : Question), events[i]? = some (.ask q) →
      (start.answers events)[i]? = some (some ((fresh directory linksFile).ask d q).1)) := by
  intro start
  refine ⟨fun i j q q' hij hi hj halike hclear => start.answers_of_alike hij hi hj halike hclear,
    fun before rest hevents => ?_, fun hchange i q hi => ?_⟩
  · rw [hevents]
    exact start.answers_of_clear before rest
  · have hbefore : ∀ d', .change d' ∉ events.take i :=
      fun d' h => hchange d' (List.mem_of_mem_take h)
    obtain ⟨hdisk, hagrees⟩ := Session.agrees_after (s := start) ⟨rfl, rfl⟩ (.refl _ _) hbefore
    rw [start.answer_of_ask hi, hdisk, hagrees.ask]
    rfl

/-- A document gets another title: the old one is given until everything is forgotten, also for
another rule with that name. -/
theorem answers_session_new_title :
    let disk : Char → Disk := fun c =>
      ⟨.folder [("docs", .folder [("A.rst", .file [0x3D, 0x0A, c.toNat.toUInt8, 0x0A])])], []⟩
    let start : Session := ⟨fresh ⟨"/docs"⟩ ⟨"/links"⟩, disk 'x'⟩
    let events : List Event := [.ask (.title "A.rst"), .change (disk 'y'),
      .ask (.title "rules/A.rst"), .clear, .ask (.title "A.rst")]
    start.answers events = [some "x", none, some "x", none, some "y"] ∧
    (∃ t, (start.answers events)[0]? = some (some t) ∧
      (start.answers events)[2]? = some (some t)) ∧
    start.answers events = start.answers (events.take 3) ++ none ::
      (Session.mk (fresh ⟨"/docs"⟩ ⟨"/links"⟩) (disk 'y')).answers (events.drop 4) ∧
    (start.answers [.ask (.url "A.rst"), .ask (.title "A.rst")])[1]? =
      some (some ((fresh ⟨"/docs"⟩ ⟨"/links"⟩).ask (disk 'x') (.title "A.rst")).1) := by
  intro disk start events
  obtain ⟨hsame, hclear, -⟩ := answers_session ⟨"/docs"⟩ ⟨"/links"⟩ (disk 'x') events
  obtain ⟨-, -, hfresh⟩ := answers_session ⟨"/docs"⟩ ⟨"/links"⟩ (disk 'x')
    [.ask (.url "A.rst"), .ask (.title "A.rst")]
  have halike : Question.Alike (.title "A.rst") (.title "rules/A.rst") := by
    change Document.nameOf _ = Document.nameOf _
    decide +kernel
  refine ⟨by decide +kernel, hsame 0 2 _ _ (by decide) rfl rfl halike ?_, hclear _ _ rfl,
    hfresh (by simp) 1 _ rfl⟩
  intro k hk hk2
  obtain rfl : k = 1 := by omega
  nofun

end UpgradeScan.Changelog
