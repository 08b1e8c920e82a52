/-
`Proofs/Engine/FirstDefect.lean` -- a document is refused for its leftmost defect.

`Proofs/Engine/FirstSighting.lean` proves of every place that holds one value, and of every list,
that the reader stops at the first thing that a judge sees there. What is added here are the members
of an entry, and then the document.

For members the reader and the judge remember different things. The judge knows the names that were
given; the reader has a state with a place for each field. The two agree as long as the fields that
are filled are those whose names were given (`Filled`), and that is what the induction over the
members carries. It decides whether a key comes again, and at the closing brace whether a member is
missing. In either case the reader has looked at nothing behind that place.

A defect of the text itself, such as a string without an end, is not among those that are compared.
The documents here are whole, as trees are; and no entry of them is an array, where a missing member
shows in another way (`DirectoryByName`). Within these limits the number of defects does not matter,
nor how deep they are.
-/
import UpgradeScan.Error
import UpgradeScan.Proofs.Engine.FirstSighting

set_option autoImplicit false

namespace UpgradeScan

namespace EngineText

open UpgradeScan.JsonText

/-! ## 1. One member

One step of the reader and one step of the judge, from states that agree to states that agree. -/

section Entries

variable {σ : Type} {member : String → σ → Bytes → Reading σ} {fs : List (Field σ)}
  {ks : List KnownMember} {D : String → Tree → Prop}

/-- The fields that hold something are those whose names were given. -/
def Filled (fs : List (Field σ)) (st : σ) (given : List String) : Prop :=
  ∀ f ∈ fs, (f.get st).isSome ↔ f.name ∈ given

/-- The members that count are the fields, and their readers heed their judges. -/
structure Judged (fs : List (Field σ)) (ks : List KnownMember) (D : String → Tree → Prop) :
    Prop where
  field : ∀ m ∈ ks, ∃ f ∈ fs, f.name = m.name ∧ Obeys f.read m.judge (D m.name)
  known : ∀ f ∈ fs, f.name ∈ ks.map KnownMember.name

/-- A field whose name was not given is empty. -/
theorem Filled.get_eq_none {st : σ} {given : List String} (h : Filled fs st given) {f : Field σ}
    (hf : f ∈ fs) (hname : f.name ∉ given) : f.get st = none := by
  rw [← Option.not_isSome_iff_eq_none, h f hf]
  exact hname

/-- A field whose name was given holds something. -/
theorem Filled.exists_get {st : σ} {given : List String} (h : Filled fs st given) {f : Field σ}
    (hf : f ∈ fs) (hname : f.name ∈ given) : ∃ a, f.get st = some a :=
  Option.isSome_iff_exists.mp ((h f hf).mpr hname)

/-- A field that is filled adds its name to those that were given. -/
theorem Filled.put (K : Keeps member fs) {st : σ} {given : List String} (h : Filled fs st given)
    {f : Field σ} (hf : f ∈ fs) (a : f.α) : Filled fs (f.put st a) (f.name :: given) := by
  intro g hg
  by_cases hfg : f.name = g.name
  · obtain rfl := List.inj_on_of_nodup_map K.unique hf hg hfg
    simp [K.get_put f hf st a]
  · rw [K.get_put_of_ne f hf g hg hfg, h g hg, List.mem_cons]
    exact ⟨.inr, fun hmem => hmem.resolve_left (Ne.symm hfg)⟩

/-- A name that has no field leaves the fields as they are. -/
theorem Filled.other {st : σ} {given : List String} (h : Filled fs st given) {k : String}
    (hk : ∀ f ∈ fs, f.name ≠ k) : Filled fs st (k :: given) := by
  intro f hf
  rw [h f hf, List.mem_cons]
  exact ⟨.inr, fun hmem => hmem.resolve_left (hk f hf)⟩

/-- **One member.** A key that comes again is refused before its value is looked at; otherwise the
value decides; a member of another name is passed over. -/
theorem heeds_member (K : Keeps member fs) (J : Judged fs ks D) {st : σ} {given : List String}
    (hst : Filled fs st given) (k : String) (key value : Nat) {w w' r : Bytes} {v : Tree}
    (hw : Blanks w) (hw' : Blanks w') (hv : D k v) (hr : Ends r) :
    Heeds (fun st' => Filled fs st' (k :: given)) r
      (member k st (w ++ 0x3A :: (w' ++ (v.text ++ r)))) (keySightings ks given k key value v) := by
  -- A member with an unknown name is passed over; a known one is refused the second time
  -- and read the first time, where the reader of its field takes over.
  unfold keySightings
  split
  · next hnone =>
    have hk : ∀ f ∈ fs, f.name ≠ k := by
      rintro f hf rfl
      obtain ⟨m, hm, hname⟩ := List.mem_map.mp (J.known f hf)
      exact absurd (beq_iff_eq.mpr hname) (List.find?_eq_none.mp hnone m hm)
    rw [K.other k hk, skipMember_complete hw hw' v.value hr]
    exact .ok (hst.other hk)
  · next m hm =>
    have hfound := List.find?_some hm
    obtain rfl : m.name = k := beq_iff_eq.mp hfound
    obtain ⟨f, hf, hname, O⟩ := J.field m (List.mem_of_find?_eq_some hm)
    rw [← hname, K.known f hf]
    by_cases hgiven : f.name ∈ given
    · obtain ⟨a, ha⟩ := hst.exists_get hf hgiven
      rw [if_pos hgiven, ha]
      exact .error ⟨key, .duplicate f.name⟩ _
    · rw [if_neg hgiven, List.nil_append, hst.get_eq_none hf hgiven]
      simp only [readOnce, readMember, afterColon_append hw]
      refine (O hv value hw' hr).filed (f.put st) (fun a _ ha => ?_) fun d hd => ?_
      · rw [ha]
        exact ⟨rfl, hst.put K hf a⟩
      · rw [hd]
        rfl

/-! ## 2. All members

The induction. A member is a stretch of bytes, so results chain. -/

/-- Induction on the members: the reader stops in the first one or goes on behind it. -/
theorem heeds_members (K : Keeps member fs) (J : Judged fs ks D) :
    ∀ {first : Bool} (u : MemberTrees first) {n : Nat} {st : σ} {given : List String}
      (place : Nat) (r : Bytes), u.text.length ≤ n → Filled fs st given →
      (∀ m ∈ u.entries, D m.1 m.2) →
      Heeds (fun st' => Filled fs st' (u.entries.map Prod.fst ++ given)) r
        (readMembers member n first st (u.text ++ r)) (memberSightings ks given place u)
  | first, .close w hw, n, st, given, _, r, hn, hst, _ => by
    rw [MemberTrees.text, List.length_append, List.length_singleton] at hn
    obtain ⟨n, rfl⟩ := Nat.exists_eq_add_one.mpr (by omega : 0 < n)
    rw [readMembers, MemberTrees.text, List.append_assoc, skipSpace_append _ hw,
      List.singleton_append, skipSpace_cons _ (by decide)]
    exact .ok hst
  | first, .member l hl t k hk w w' hw hw' v rest, n, st, given, place, r, hn, hst, hD => by
    have hpos := rest.length_pos
    have hlen : (MemberTrees.member l hl t k hk w w' hw hw' v rest).text.length =
        l.length + ((t.length + (w.length + (w'.length + v.text.length + 1))) +
          rest.text.length) := by
      simp only [MemberTrees.text, List.length_append, List.length_cons]
    obtain ⟨n, rfl⟩ := Nat.exists_eq_add_one.mpr (by omega : 0 < n)
    rw [MemberTrees.entries, List.forall_mem_cons] at hD
    rw [memberSightings, MemberTrees.text]
    simp only [List.append_assoc, List.cons_append]
    obtain ⟨hok, herr⟩ := readMembers_key member hl hk n st
      (w ++ 0x3A :: (w' ++ (v.text ++ (rest.text ++ r))))
    refine (heeds_member K J hst k _ _ hw hw' hD.1 (rest.ends r)).chain
      (fun st' hst' h => ?_) fun d hd => herr d hd
    rw [hok st' _ h]
    refine (heeds_members K J rest _ r (by omega) hst' hD.2).imp fun st'' hst'' f hf => ?_
    -- the key of this member comes after those of the rest or before them
    rw [hst'' f hf]
    exact List.perm_middle.mem_iff

/-! ## 3. Entries

A reader of entries is put together from its members and from what it does at the closing brace.
Both are stated as properties, which the three kinds of entries have to have. -/

variable {α : Type} {read : Bytes → Reading α} {e : Expected} {start : σ}
  {finish : σ → Except Defect α}

/-- An entry that is not an array is read member by member and then finished. -/
structure ReadsEntry (read : Bytes → Reading α) (e : Expected)
    (member : String → σ → Bytes → Reading σ) (start : σ) (finish : σ → Except Defect α) :
    Prop where
  object : ∀ {s r : Bytes}, skipSpace s = 0x7B :: r → read s =
    match readMembers member (r.length + 1) true start r with
    | .error d => .error d
    | .ok (st, t) =>
      match finish st with
      | .ok a => .ok (a, t)
      | .error d => .error d
  other : ∀ {s r : Bytes} {b : UInt8}, skipSpace s = b :: r → b ≠ 0x7B → b ≠ 0x5B →
    read s = .error (misfit e (b :: r))

/-- An entry is finished when no member is missing. -/
structure Finishes (fs : List (Field σ)) (ks : List KnownMember) (finish : σ → Except Defect α) :
    Prop where
  done : ∀ {st given}, Filled fs st given → missing? ks given = none → ∃ a, finish st = .ok a
  lacks : ∀ {st given k}, Filled fs st given → missing? ks given = some k →
    finish st = .error (.missing k)

/-- **Entries.** An entry is read up to the first thing that is wrong in its members, and at its
closing brace the first missing member is named. -/
theorem obeys_entry (R : ReadsEntry read e member start finish) (K : Keeps member fs)
    (J : Judged fs ks D) (F : Finishes fs ks finish) (hstart : ∀ f ∈ fs, f.get start = none) :
    Obeys read (entry e ks) (fun v => v.found ≠ .list ∧ ∀ m ∈ v.members, D m.1 m.2) := by
  rintro v ⟨hlist, hD⟩ n w r hw hr
  obtain ⟨b, u, hbu, hb⟩ := v.exists_heads
  have hskip := v.opens.skipSpace hw r
  -- Lists are excluded by the hypothesis, so what is no object is a value of a wrong kind.
  by_cases hobject : v.found = .object
  · cases v with
    | object ms =>
      have hempty : Filled fs start [] := by
        intro f hf
        simp [hstart f hf]
      rw [Tree.text, List.cons_append] at hskip
      rw [Tree.text, List.cons_append, R.object hskip, entry]
      have hmembers := heeds_members K J ms (n := (ms.text ++ r).length + 1) (n + 1) r
        (by rw [List.length_append]; omega) hempty hD
      refine hmembers.chain (fun st hst hread => ?_) fun d hd => ?_
      · rw [List.append_nil] at hst
        rw [hread]
        dsimp only
        cases hmissing : missing? ks (ms.entries.map Prod.fst) with
        | none =>
          obtain ⟨a, ha⟩ := F.done hst hmissing
          rw [ha]
          exact .ok trivial
        | some k =>
          rw [F.lacks hst hmissing]
          exact .error ⟨n + ms.text.length, .missing k⟩ []
      · rw [hd]
    | _ => cases hobject
  · have hmisfit := misfit_text e v hr
    rw [hbu, List.cons_append] at hskip hmisfit
    rw [hbu, List.cons_append, R.other hskip (fun h => hobject (hb.object.mp h))
      (fun h => hlist (hb.list.mp h)), hmisfit, entry_of_ne e ks n hobject]
    exact .error ⟨n, _⟩ []

end Entries

/-! ## 4. Findings, files and the directory

The three kinds of entries, each as an instance of `obeys_entry`: which fields there are, that their
readers heed their judges, and when an entry is finished. -/

/-- A finding is finished when the four members that it needs were given, and otherwise the first
that is missing is named. -/
theorem FindingMembers.finishes : Finishes fields findingKnown finish := by
  suffices h : ∀ {m : FindingMembers} {given}, Filled fields m given →
      (missing? findingKnown given = none → ∃ d, m.finish = .ok d) ∧
      ∀ k, missing? findingKnown given = some k → m.finish = .error (.missing k) from
    ⟨fun hm => (h hm).1, fun hm => (h hm).2 _⟩
  intro m given hm
  obtain ⟨hc, hi, hr, -, hl, -⟩ := forall_fields.mp hm
  obtain ⟨c, i, rule, source, l, text⟩ := m
  have htype : "type" ∈ given ↔ c.isSome := hc.symm
  have hindicator : "indicator" ∈ given ↔ i.isSome := hi.symm
  have hrule : "ruleFile" ∈ given ↔ rule.isSome := hr.symm
  have hline : "line" ∈ given ↔ l.isSome := hl.symm
  simp only [findingKnown, missing?_cons, htype, hindicator, hrule, hline, true_and,
    Bool.false_eq_true, false_and, if_false]
  -- in the order of declaration, which is the order in which the members are asked for
  cases c with
  | none => simp [finish]
  | some c =>
    cases i with
    | none => simp [finish]
    | some i =>
      cases rule with
      | none => simp [finish]
      | some rule =>
        cases l with
        | none => simp [finish]
        | some l => simp [finish, missing?]

/-- Each member of a finding is judged as its place is. -/
theorem FindingMembers.judged : Judged fields findingKnown fun _ _ => True where
  field := by
    simp only [findingKnown, List.forall_mem_cons, List.not_mem_nil, false_implies,
      implies_true, and_true]
    exact ⟨⟨categoryField, by simp [fields], rfl, obeys_category⟩,
      ⟨confidenceField, by simp [fields], rfl, obeys_confidence⟩,
      ⟨ruleField, by simp [fields], rfl, obeys_text .text⟩,
      ⟨sourceField, by simp [fields], rfl, obeys_optionalPath⟩,
      ⟨lineField, by simp [fields], rfl, obeys_line⟩,
      ⟨messageField, by simp [fields], rfl, obeys_text .text⟩⟩
  known := by decide

/-- A finding is read member by member. -/
theorem readsEntry_finding :
    ReadsEntry readFinding .finding findingMember {} FindingMembers.finish where
  object := by
    intro s r h
    simp only [readFinding, h]
    cases readMembers findingMember (r.length + 1) true {} r with
    | error d => rfl
    | ok p =>
      dsimp only
      cases p.1.finish <;> rfl
  other := by
    intro s r b h hbrace hbracket
    unfold readFinding
    split
    · next heq => exact absurd (List.cons.inj (h.symm.trans heq)).1 hbrace
    · next heq => exact absurd (List.cons.inj (h.symm.trans heq)).1 hbracket
    · rw [h]

/-- **Findings.** The reader of a finding stops at the first thing that is wrong. -/
theorem obeys_finding : Obeys readFinding (entry .finding findingKnown) FindingByName :=
  Obeys.mono (obeys_entry readsEntry_finding FindingMembers.keeps FindingMembers.judged
    FindingMembers.finishes (FindingMembers.forall_fields.mpr ⟨rfl, rfl, rfl, rfl, rfl, rfl⟩))
    fun _ hv => ⟨hv, fun _ _ => trivial⟩

/-- An entry that needs nothing but its path is finished when it has one. -/
theorem finishes_of_path {σ α : Type} {fs : List (Field σ)} {finish : σ → Except Defect α}
    {other : String} {judge judge' : Judge} {f : Field σ} (hf : f ∈ fs) (hname : f.name = "path")
    (hsome : ∀ st a, f.get st = some a → ∃ b, finish st = .ok b)
    (hnone : ∀ st, f.get st = none → finish st = .error (.missing "path")) :
    Finishes fs [⟨"path", true, judge⟩, ⟨other, false, judge'⟩] finish := by
  -- Of the two fields only the path is required, so only the path can be missing.
  have hmissing : ∀ given,
      missing? [⟨"path", true, judge⟩, ⟨other, false, judge'⟩] given =
        if "path" ∈ given then none else some "path" := by
    intro given
    rw [missing?_cons, missing?_cons]
    by_cases hpath : "path" ∈ given
    · simp [hpath, missing?]
    · simp [hpath]
  constructor
  · intro st given hst hgiven
    rw [hmissing] at hgiven
    split at hgiven
    · next hpath =>
      obtain ⟨a, ha⟩ := hst.exists_get hf (hname ▸ hpath)
      exact hsome st a ha
    · cases hgiven
  · intro st given k hst hgiven
    rw [hmissing] at hgiven
    split at hgiven
    · cases hgiven
    · next hpath =>
      obtain rfl := Option.some.inj hgiven
      exact hnone st (hst.get_eq_none hf (hname ▸ hpath))

/-- A file with its path, or without one. -/
def FileMembers.finish (m : FileMembers) : Except Defect FileReport :=
  match m.path with
  | some path => .ok (fileOf path (m.findings.getD []))
  | none => .error (.missing "path")

/-- A file needs its path and nothing else. -/
theorem FileMembers.finishes : Finishes fields fileKnown finish := by
  refine finishes_of_path (f := pathField) (by simp [fields]) rfl (fun m p hp => ?_) fun m hm => ?_
  · have hpath : m.path = some p := hp
    rw [finish, hpath]
    exact ⟨_, rfl⟩
  · have hpath : m.path = none := hm
    rw [finish, hpath]

/-- The findings of a file are judged as a list. -/
theorem FileMembers.judged : Judged fields fileKnown
    fun k v => k = "matches" → ∀ i ∈ v.items, FindingByName i where
  field := by
    simp only [fileKnown, List.forall_mem_cons, List.not_mem_nil, false_implies,
      implies_true, and_true]
    exact ⟨⟨pathField, by simp [fields], rfl, fun _ => obeys_path trivial⟩,
      ⟨findingsField, by simp [fields], rfl, fun hv => obeys_list obeys_finding (hv trivial)⟩⟩
  known := by decide

/-- A file is read member by member, and settled at its closing brace. -/
theorem readsEntry_file : ReadsEntry readFile .file fileMember {} FileMembers.finish where
  object := by
    intro s r h
    simp only [readFile, h]
    cases readMembers fileMember (r.length + 1) true {} r with
    | error d => rfl
    | ok p =>
      dsimp only [FileMembers.finish]
      cases p.1.path <;> rfl
  other := by
    intro s r b h hbrace hbracket
    unfold readFile
    split
    · next heq => exact absurd (List.cons.inj (h.symm.trans heq)).1 hbrace
    · next heq => exact absurd (List.cons.inj (h.symm.trans heq)).1 hbracket
    · rw [h]

/-- **Files.** The reader of a file stops at the first thing that is wrong, in its findings too. -/
theorem obeys_file : Obeys readFile (entry .file fileKnown) FileByName :=
  obeys_entry readsEntry_file FileMembers.keeps FileMembers.judged FileMembers.finishes
    (FileMembers.forall_fields.mpr ⟨rfl, rfl⟩)

/-- The directory with its path, or without one. -/
def DirectoryMembers.finish (m : DirectoryMembers) : Except Defect Report :=
  match m.path with
  | some path => .ok ⟨path, m.files.getD []⟩
  | none => .error (.missing "path")

/-- The directory needs its path and nothing else. -/
theorem DirectoryMembers.finishes : Finishes fields directoryKnown finish := by
  refine finishes_of_path (f := pathField) (by simp [fields]) rfl (fun m p hp => ?_) fun m hm => ?_
  · have hpath : m.path = some p := hp
    rw [finish, hpath]
    exact ⟨_, rfl⟩
  · have hpath : m.path = none := hm
    rw [finish, hpath]

/-- The files of the directory are judged as a list. -/
theorem DirectoryMembers.judged : Judged fields directoryKnown
    fun k v => k = "files" → ∀ i ∈ v.items, FileByName i where
  field := by
    simp only [directoryKnown, List.forall_mem_cons, List.not_mem_nil, false_implies,
      implies_true, and_true]
    exact ⟨⟨pathField, by simp [fields], rfl, fun _ => obeys_path trivial⟩,
      ⟨filesField, by simp [fields], rfl, fun hv => obeys_list obeys_file (hv trivial)⟩⟩
  known := by decide

/-- The directory is read member by member. -/
theorem readsEntry_directory :
    ReadsEntry readDirectory .directory directoryMember {} DirectoryMembers.finish where
  object := by
    intro s r h
    simp only [readDirectory, h]
    cases readMembers directoryMember (r.length + 1) true {} r with
    | error d => rfl
    | ok p =>
      dsimp only [DirectoryMembers.finish]
      cases p.1.path <;> rfl
  other := by
    intro s r b h hbrace hbracket
    unfold readDirectory
    split
    · next heq => exact absurd (List.cons.inj (h.symm.trans heq)).1 hbrace
    · next heq => exact absurd (List.cons.inj (h.symm.trans heq)).1 hbracket
    · rw [h]

/-- **The directory.** The reader of documents stops at the first thing that is wrong. -/
theorem obeys_directory : Obeys readDirectory documentSightings DirectoryByName :=
  obeys_entry readsEntry_directory DirectoryMembers.keeps DirectoryMembers.judged
    DirectoryMembers.finishes (DirectoryMembers.forall_fields.mpr ⟨rfl, rfl⟩)

end EngineText

/-! ## 5. Documents

Blanks around the directory, and the wording of the defect. -/

open UpgradeScan.JsonText
open UpgradeScan.EngineText

/-- A defect that is not about the text itself has a wording of its own. -/
theorem Defect.exists_wording {d : Defect} (h : d ≠ .malformed) :
    ∃ detail, d.wording? = some detail := by
  cases d with
  | malformed => exact absurd rfl h
  | _ => exact ⟨_, rfl⟩

/-- The blanks around a document change nothing about what is seen first. -/
theorem Report.ofBytes_of_sightings {v : Tree} (hv : DirectoryByName v) {w w' : Bytes}
    (hw : Blanks w) (hw' : Blanks w') :
    (documentSightings w.length v = [] → ∃ r, Report.ofBytes (w ++ (v.text ++ w')) = .ok r) ∧
    ∀ s rest, documentSightings w.length v = s :: rest →
      Report.ofBytes (w ++ (v.text ++ w')) = .error s.defect := by
  have hread := obeys_directory hv w.length hw (ends_of_blanks hw')
  rw [Report.ofBytes]
  generalize readDirectory (w ++ (v.text ++ w')) = x at hread ⊢
  generalize documentSightings w.length v = seen at hread ⊢
  cases hread with
  | @ok r =>
    simp only [if_pos (skipSpace_eq_nil_iff.mpr hw')]
    simp
  | error s seen => simp

/-- **The first defect.** A document of which no entry is an array is read as a report exactly
when nothing is wrong with it. Otherwise, however many defects it has and wherever they are, it is
refused for the leftmost of them. The message about it has the wording of that defect, and after it
only what the reader of the document adds: where the defect was found. -/
theorem Report.ofBytes_first_defect (v : Tree) (hv : DirectoryByName v) {w w' : Bytes}
    (hw : Blanks w) (hw' : Blanks w') :
    let b := w ++ (v.text ++ w')
    let seen := documentSightings w.length v
    ((∃ r, Report.ofBytes b = .ok r) ↔ seen = []) ∧
    (∀ d, Report.ofBytes b = .error d ↔ ∃ s, Leftmost seen s ∧ s.defect = d) ∧
    ∀ s ∈ seen, ∃ detail, s.defect.wording? = some detail ∧
      ∀ voice, (EngineFault.unreadable s.defect).message voice =
        "invalid scanner output: " ++ detail ++ voice.defect s.defect := by
  intro b seen
  have horder : Orderly _ _ seen := orderly_document w.length v
  obtain ⟨hnone, hsome⟩ := Report.ofBytes_of_sightings hv hw hw'
  refine ⟨⟨fun ⟨r, hr⟩ => ?_, hnone⟩, fun d => ⟨fun hd => ?_, ?_⟩, fun s hs => ?_⟩
  · cases hseen : seen with
    | nil => rfl
    | cons s rest =>
      -- what was seen would have refused the document
      rw [hsome s rest hseen] at hr
      cases hr
  · cases hseen : seen with
    | nil =>
      obtain ⟨r, hr⟩ := hnone hseen
      rw [hr] at hd
      cases hd
    | cons s rest =>
      rw [hsome s rest hseen] at hd
      exact ⟨s, hseen ▸ horder.leftmost_iff.mpr ⟨rest, hseen⟩, Except.error.inj hd⟩
  · rintro ⟨s, hs, rfl⟩
    obtain ⟨rest, hseen⟩ := horder.leftmost_iff.mp hs
    exact hsome s rest hseen
  · obtain ⟨detail, hdetail⟩ := Defect.exists_wording (horder.worded s hs)
    refine ⟨detail, hdetail, fun voice => ?_⟩
    simp only [EngineFault.message, Defect.message, hdetail]

/-- A directory without a path, whose one finding lacks three members, whose one file has a number
for its path, and whose files are given again as a number. -/
def fiveDefects : Tree :=
  .ofMembers [
    ("files", .ofItems [.ofMembers [
      ("matches", .ofItems [.ofMembers [("line", .ofNat 1 (by decide))]]),
      ("path", .ofNat 3 (by decide))]]),
    ("files", .ofNat 5 (by decide))]

/-- Of five defects the first is at the brace of the finding, where the first of its missing
members is named. -/
theorem Report.ofBytes_first_defect_of_five :
    fiveDefects.text = Text.Utf8.encode ("\x7b\"files\":[\x7b\"matches\":[\x7b\"line\":1\x7d]," ++
      "\"path\":3\x7d],\"files\":5\x7d").toList ∧
    documentSightings 0 fiveDefects = [⟨31, .missing "type"⟩,
      ⟨41, .wrongKind (.number (.natural 3)) .path⟩, ⟨45, .duplicate "files"⟩,
      ⟨53, .wrongKind (.number (.natural 5)) .list⟩, ⟨54, .missing "path"⟩] ∧
    Report.ofBytes fiveDefects.text = .error (.missing "type") := by
  have hseen : documentSightings 0 fiveDefects = [⟨31, .missing "type"⟩,
      ⟨41, .wrongKind (.number (.natural 3)) .path⟩, ⟨45, .duplicate "files"⟩,
      ⟨53, .wrongKind (.number (.natural 5)) .list⟩, ⟨54, .missing "path"⟩] := by
    decide +kernel
  have hfirst := (Report.ofBytes_first_defect fiveDefects (by decide +kernel) blanks_nil
    blanks_nil).2.1 (.missing "type")
  rw [List.nil_append, List.append_nil, List.length_nil, hseen] at hfirst
  exact ⟨by decide +kernel, hseen, hfirst.mpr ⟨_, ⟨List.mem_cons_self, by decide⟩, rfl⟩⟩

end UpgradeScan
