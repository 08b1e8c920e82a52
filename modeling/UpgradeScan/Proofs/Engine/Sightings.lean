/-
`Proofs/Engine/Sightings.lean` -- what is wrong with a document, and where.

A document can have many defects, and the reader names one. To say which, all of them have to be
listed first, each with its place. A sighting is a defect with the number of bytes before the place
where it shows. A value of the wrong kind and an unknown name show at the value, a member that is
given again at its key, and a member that is missing at the brace that closes its entry, because
only there it is known that it will not come.

Nothing here reads, and nothing stops at the first defect: a judge lists every one of them, and the
list of a document may be long. Judges work on trees, which are documents divided into their parts
with all blanks and spellings kept, so that the length of a part is a number of bytes. They follow
the shape of the entries and do not know about states or steps.

Places are distinct and grow along the list (`Orderly`). So one of the sightings is the leftmost,
and it is the head of the list (`Orderly.leftmost_iff`), which is what the reader will be compared
with. That places grow is proved of each judge from the judges of its parts: what is seen of a part
is on the bytes of that part.
-/
import UpgradeScan.Proofs.Json.Tree

set_option autoImplicit false

namespace UpgradeScan.EngineText

open UpgradeScan.JsonText

/-! ## 1. Places

Places are counted in bytes from the beginning of the document, blanks included. -/

/-- A defect, and the number of bytes before the place where it shows. -/
structure Sighting where
  place : Nat
  defect : Defect
  deriving DecidableEq, Repr

/-- The defects of a value that begins after so many bytes. -/
abbrev Judge := Nat → Tree → List Sighting

/-- A sighting before which there is no other. -/
structure Leftmost (seen : List Sighting) (s : Sighting) : Prop where
  mem : s ∈ seen
  le : ∀ s' ∈ seen, s.place ≤ s'.place

/-! ## 2. Single values

What can be wrong where one value is expected, by what is found there. -/

/-- What is wrong with what was found in the place of a text. -/
def textDefect? (e : Expected) : Found → Option Defect
  | .string _ => none
  | f => some (.wrongKind f e)

/-- What is wrong with what was found in the place of a path that may be left open. -/
def optionalPathDefect? : Found → Option Defect
  | .null => none
  | f => textDefect? .path f

/-- What is wrong with what was found in the place of one of these names. A name is known in any
ASCII case and with blanks around it. -/
def nameDefect? (names : List String) (unknown : String → UnknownName) : Found → Option Defect
  | .string s =>
    if names.any fun a => Text.sameLetters a (Text.trimmed s) then none
    else some (.unknownName (unknown (Text.trimmed s)))
  | f => textDefect? .text f

/-- What is wrong with what was found in the place of a line number. -/
def lineDefect? : Found → Option Defect
  | .number (.natural _) => none
  | .number (.negative n) => some (.negativeLine n)
  | f => some (.wrongKind f .lineNumber)

/-- A value that stands alone is wrong at its first byte, or not at all. -/
def single (defect? : Found → Option Defect) : Judge
  | n, v => (defect? v.found).toList.map fun d => ⟨n, d⟩

/-! ## 3. Lists

A list has the defects of its items, each at the place where the item stands. -/

/-- The defects of the items that are left. -/
def itemSightings (judge : Judge) : {first : Bool} → Nat → ItemTrees first → List Sighting
  | _, _, .close _ _ => []
  | _, n, .item l _ v rest =>
    judge (n + l.length) v ++ itemSightings judge (n + l.length + v.text.length) rest

/-- The defects of a list are those of its items. -/
def listOf (judge : Judge) : Judge
  | n, .list items => itemSightings judge (n + 1) items
  | n, v => [⟨n, .wrongKind v.found .list⟩]

/-- What is no list is wrong at its first byte, and not looked into. -/
theorem listOf_of_ne (judge : Judge) (n : Nat) {v : Tree} (h : v.found ≠ .list) :
    listOf judge n v = [⟨n, .wrongKind v.found .list⟩] := by
  cases v with
  | list items => exact absurd rfl h
  | _ => rfl

/-! ## 4. Entries

An entry is judged member by member, with the names that were given before; that is all the memory
that a judge needs. Defects of a member that is given again are its coming again and those of its
value, in this order. -/

/-- A member that counts: whether an entry needs it, and what can be wrong with its value. -/
structure KnownMember where
  name : String
  needed : Bool
  judge : Judge

/-- The defects of one member after others of the given names: it comes again, or its value is
wrong. What stands under any other name is no defect. -/
def keySightings (ks : List KnownMember) (given : List String) (k : String) (key value : Nat)
    (v : Tree) : List Sighting :=
  match ks.find? fun m => m.name == k with
  | none => []
  | some m => (if k ∈ given then [⟨key, .duplicate k⟩] else []) ++ m.judge value v

/-- The defects of the members that are left, after others of the given names. -/
def memberSightings (ks : List KnownMember) :
    {first : Bool} → List String → Nat → MemberTrees first → List Sighting
  | _, _, _, .close _ _ => []
  | _, given, n, .member l _ t k _ w w' _ _ v rest =>
    let key := n + l.length
    let value := key + t.length + w.length + 1 + w'.length
    keySightings ks given k key value v ++
      memberSightings ks (k :: given) (value + v.text.length) rest

/-- The first of the needed members, in the order of declaration, that was not given. -/
def missing? (ks : List KnownMember) (given : List String) : Option String :=
  (ks.find? fun m => m.needed && !given.contains m.name).map KnownMember.name

/-- The defects of an entry: those of its members from left to right, and at its closing brace the
first member that is missing. -/
def entry (e : Expected) (ks : List KnownMember) : Judge
  | n, .object ms =>
    memberSightings ks [] (n + 1) ms ++
      (missing? ks (ms.entries.map Prod.fst)).toList.map fun k =>
        ⟨n + ms.text.length, .missing k⟩
  | n, v => [⟨n, .wrongKind v.found e⟩]

/-- The first missing member is the first one that is needed and was not given. -/
theorem missing?_cons (m : KnownMember) (ks : List KnownMember) (given : List String) :
    missing? (m :: ks) given =
      if m.needed = true ∧ m.name ∉ given then some m.name else missing? ks given := by
  by_cases h : m.needed = true ∧ m.name ∉ given
  · rw [if_pos h, missing?, List.find?_cons_of_pos (by simpa using h)]
    rfl
  · rw [if_neg h, missing?, List.find?_cons_of_neg (by simpa using h)]
    rfl

/-- What is no object is wrong at its first byte. -/
theorem entry_of_ne (e : Expected) (ks : List KnownMember) (n : Nat) {v : Tree}
    (h : v.found ≠ .object) : entry e ks n v = [⟨n, .wrongKind v.found e⟩] := by
  cases v with
  | object ms => exact absurd rfl h
  | _ => rfl

/-! ## 5. Findings, files and the directory

The three kinds of entries, and the documents that the judges are for: those in which no entry is an
array. In an array members have no names, and what is missing has no place of its own. -/

/-- The members of a finding, in the order of declaration. -/
def findingKnown : List KnownMember :=
  [⟨"type", true, single (nameDefect? (Category.all.map Category.name) .category)⟩,
    ⟨"indicator", true, single (nameDefect? (Confidence.all.map Confidence.name) .confidence)⟩,
    ⟨"ruleFile", true, single (textDefect? .text)⟩,
    ⟨"sourceFile", false, single optionalPathDefect?⟩,
    ⟨"line", true, single lineDefect?⟩,
    ⟨"message", false, single (textDefect? .text)⟩]

/-- The members of a file, in the order of declaration. -/
def fileKnown : List KnownMember :=
  [⟨"path", true, single (textDefect? .path)⟩,
    ⟨"matches", false, listOf (entry .finding findingKnown)⟩]

/-- The members of the directory, in the order of declaration. -/
def directoryKnown : List KnownMember :=
  [⟨"path", true, single (textDefect? .path)⟩,
    ⟨"files", false, listOf (entry .file fileKnown)⟩]

/-- The defects of a document whose value begins after so many blanks. -/
def documentSightings : Judge := entry .directory directoryKnown

/-- The finding is not written as an array. -/
def FindingByName (v : Tree) : Prop := v.found ≠ .list

/-- The file is not written as an array, and none of its findings is. -/
def FileByName (v : Tree) : Prop :=
  v.found ≠ .list ∧ ∀ m ∈ v.members, m.1 = "matches" → ∀ i ∈ m.2.items, FindingByName i

/-- The directory is not written as an array, and none of its files and their findings is. -/
def DirectoryByName (v : Tree) : Prop :=
  v.found ≠ .list ∧ ∀ m ∈ v.members, m.1 = "files" → ∀ i ∈ m.2.items, FileByName i

instance (v : Tree) : Decidable (FindingByName v) := inferInstanceAs (Decidable (_ ≠ _))

instance (v : Tree) : Decidable (FileByName v) := inferInstanceAs (Decidable (_ ∧ _))

instance (v : Tree) : Decidable (DirectoryByName v) := inferInstanceAs (Decidable (_ ∧ _))

/-! ## 6. Order

Sightings of one stretch of bytes come before those of the next, and judges put stretches together.
-/

/-- The sightings stand at distinct places of one stretch, from left to right, and each has a
wording of its own. -/
structure Orderly (lo hi : Nat) (seen : List Sighting) : Prop where
  sorted : seen.Pairwise fun s s' => s.place < s'.place
  within : ∀ s ∈ seen, lo ≤ s.place ∧ s.place < hi
  worded : ∀ s ∈ seen, s.defect ≠ .malformed

namespace Orderly

variable {lo mid hi : Nat} {seen seen' : List Sighting}

/-- Where nothing is seen there is nothing to order. -/
theorem nil : Orderly lo hi [] :=
  ⟨.nil, fun _ h => absurd h List.not_mem_nil, fun _ h => absurd h List.not_mem_nil⟩

/-- A single defect at the beginning of a stretch. -/
theorem one {d : Defect} (hlo : lo < hi) (hd : d ≠ .malformed) : Orderly lo hi [⟨lo, d⟩] := by
  refine ⟨List.pairwise_singleton _ _, fun s hs => ?_, fun s hs => ?_⟩
  · rw [List.mem_singleton.mp hs]
    exact ⟨Nat.le_refl lo, hlo⟩
  · rw [List.mem_singleton.mp hs]
    exact hd

/-- What is seen on a stretch is seen on a longer one. -/
theorem mono {lo' hi' : Nat} (h : Orderly lo hi seen) (hlo : lo' ≤ lo) (hhi : hi ≤ hi') :
    Orderly lo' hi' seen := by
  refine ⟨h.sorted, fun s hs => ?_, h.worded⟩
  obtain ⟨hl, hr⟩ := h.within s hs
  exact ⟨hlo.trans hl, hr.trans_le hhi⟩

/-- What is seen on one stretch comes before what is seen on the next. -/
theorem append (h : Orderly lo mid seen) (h' : Orderly mid hi seen') (hlo : lo ≤ mid)
    (hhi : mid ≤ hi) : Orderly lo hi (seen ++ seen') := by
  refine ⟨List.pairwise_append.mpr ⟨h.sorted, h'.sorted, fun s hs s' hs' => ?_⟩,
    List.forall_mem_append.mpr ⟨(h.mono (Nat.le_refl lo) hhi).within,
      (h'.mono hlo (Nat.le_refl hi)).within⟩,
    List.forall_mem_append.mpr ⟨h.worded, h'.worded⟩⟩
  exact (h.within s hs).2.trans_le (h'.within s' hs').1

/-- The leftmost sighting is the head. -/
theorem leftmost_iff {s : Sighting} (h : Orderly lo hi seen) :
    Leftmost seen s ↔ ∃ rest, seen = s :: rest := by
  constructor
  · rintro ⟨hmem, hle⟩
    cases seen with
    | nil => cases hmem
    | cons s₀ rest =>
      rcases List.mem_cons.mp hmem with rfl | hmem
      · exact ⟨rest, rfl⟩
      -- behind the head every place is greater
      · have hlt := (List.pairwise_cons.mp h.sorted).1 s hmem
        have hge := hle s₀ List.mem_cons_self
        omega
  · rintro ⟨rest, rfl⟩
    refine ⟨List.mem_cons_self, List.forall_mem_cons.mpr ⟨Nat.le_refl _, fun s' hs' => ?_⟩⟩
    exact ((List.pairwise_cons.mp h.sorted).1 s' hs').le

end Orderly

/-- What the judge sees of a value is on the bytes of that value. -/
def Judge.Orderly (judge : Judge) : Prop :=
  ∀ n v, EngineText.Orderly n (n + v.text.length) (judge n v)

/-- A value that stands alone has at most one defect, at its first byte. -/
theorem orderly_single {defect? : Found → Option Defect} (h : ∀ f, defect? f ≠ some .malformed) :
    (single defect?).Orderly := by
  intro n v
  have hpos := v.opens.length_pos
  rw [single]
  cases hd : defect? v.found with
  | none => exact .nil
  | some d => exact .one (by omega) fun hm => h v.found (hm ▸ hd)

/-- What is wrong with a text has a wording. -/
theorem textDefect?_ne (e : Expected) (f : Found) : textDefect? e f ≠ some .malformed := by
  cases f <;> simp [textDefect?]

/-- So has what is wrong with a path that may be left open. -/
theorem optionalPathDefect?_ne (f : Found) : optionalPathDefect? f ≠ some .malformed := by
  cases f <;> simp [optionalPathDefect?, textDefect?]

/-- So has what is wrong with a name. -/
theorem nameDefect?_ne (names : List String) (unknown : String → UnknownName) (f : Found) :
    nameDefect? names unknown f ≠ some .malformed := by
  cases f with
  | string s =>
    rw [nameDefect?]
    split <;> simp
  | _ => simp [nameDefect?, textDefect?]

/-- So has what is wrong with a line. -/
theorem lineDefect?_ne (f : Found) : lineDefect? f ≠ some .malformed := by
  cases f with
  | number n => cases n <;> simp [lineDefect?]
  | _ => simp [lineDefect?]

/-- The items of a list are stretches one after the other. -/
theorem orderly_items {judge : Judge} (J : judge.Orderly) :
    ∀ {first : Bool} (u : ItemTrees first) (n : Nat),
      Orderly n (n + u.text.length) (itemSightings judge n u)
  | _, .close _ _, _ => .nil
  | _, .item l _ v rest, n => by
    have hlen : (ItemTrees.item l ‹_› v rest).text.length =
        l.length + (v.text.length + rest.text.length) := by
      rw [ItemTrees.text, List.length_append, List.length_append]
    rw [itemSightings, hlen]
    have hitem : Orderly n (n + l.length + v.text.length) (judge (n + l.length) v) :=
      (J _ v).mono (by omega) (Nat.le_refl _)
    exact hitem.append ((orderly_items J rest _).mono (Nat.le_refl _) (by omega)) (by omega)
      (by omega)

/-- A list is judged in order when its items are. -/
theorem orderly_listOf {judge : Judge} (J : judge.Orderly) : (listOf judge).Orderly := by
  intro n v
  have hpos := v.opens.length_pos
  cases v with
  | list items =>
    rw [listOf, Tree.text, List.length_cons]
    exact (orderly_items J items (n + 1)).mono (by omega) (by omega)
  | _ => exact .one (by omega) (by simp)

section Entries

variable {ks : List KnownMember}

/-- The key of a member comes before its value. -/
theorem orderly_key (J : ∀ m ∈ ks, m.judge.Orderly) (given : List String) (k : String)
    {key value : Nat} (hkey : key < value) (v : Tree) :
    Orderly key (value + v.text.length) (keySightings ks given k key value v) := by
  unfold keySightings
  split
  · exact .nil
  · next m hm =>
    have hvalue := J m (List.mem_of_find?_eq_some hm) value v
    split
    · exact (Orderly.one hkey (by simp)).append hvalue hkey.le (by omega)
    · exact hvalue.mono hkey.le (Nat.le_refl _)

/-- The sightings of the members come before the closing brace. -/
theorem orderly_members (J : ∀ m ∈ ks, m.judge.Orderly) :
    ∀ {first : Bool} (u : MemberTrees first) (given : List String) {n hi : Nat},
      n + u.text.length = hi + 1 → Orderly n hi (memberSightings ks given n u)
  | _, .close _ _, _, _, _, _ => .nil
  | _, .member l _ t k hk w w' _ _ v rest, given, n, hi, h => by
    have hpos := rest.length_pos
    have ht := (opens_quoted (quotedForm_of_quoted hk)).length_pos
    simp only [MemberTrees.text, List.length_append, List.length_cons] at h
    rw [memberSightings]
    refine ((orderly_key J given k (by omega) v).mono ?_ (Nat.le_refl _)).append
      (orderly_members J rest (k :: given) ?_) ?_ ?_
    all_goals omega

/-- An entry is judged in order when its members are; what is missing shows behind all of them. -/
theorem orderly_entry (e : Expected) (J : ∀ m ∈ ks, m.judge.Orderly) :
    (entry e ks).Orderly := by
  intro n v
  have hpos := v.opens.length_pos
  cases v with
  | object ms =>
    have hms := ms.length_pos
    rw [entry, Tree.text, List.length_cons]
    have hmembers : Orderly (n + 1) (n + ms.text.length) (memberSightings ks [] (n + 1) ms) :=
      orderly_members J ms [] (by omega)
    refine (hmembers.mono (Nat.le_succ n) (Nat.le_refl _)).append ?_ (by omega) (by omega)
    cases missing? ks (ms.entries.map Prod.fst) with
    | none => exact .nil
    | some k => exact .one (by omega) (by simp)
  | _ => exact .one (by omega) (by simp)

end Entries

/-- Findings are judged in order. -/
theorem orderly_finding : (entry .finding findingKnown).Orderly := by
  refine orderly_entry _ ?_
  simp only [findingKnown, List.forall_mem_cons, List.not_mem_nil, false_implies, implies_true,
    and_true]
  exact ⟨orderly_single (nameDefect?_ne _ _), orderly_single (nameDefect?_ne _ _),
    orderly_single (textDefect?_ne _), orderly_single optionalPathDefect?_ne,
    orderly_single lineDefect?_ne, orderly_single (textDefect?_ne _)⟩

/-- Files are judged in order. -/
theorem orderly_file : (entry .file fileKnown).Orderly := by
  refine orderly_entry _ ?_
  simp only [fileKnown, List.forall_mem_cons, List.not_mem_nil, false_implies, implies_true,
    and_true]
  exact ⟨orderly_single (textDefect?_ne _), orderly_listOf orderly_finding⟩

/-- The sightings of a document stand from left to right. -/
theorem orderly_document : documentSightings.Orderly := by
  refine orderly_entry _ ?_
  simp only [directoryKnown, List.forall_mem_cons, List.not_mem_nil, false_implies,
    implies_true, and_true]
  exact ⟨orderly_single (textDefect?_ne _), orderly_listOf orderly_file⟩

end UpgradeScan.EngineText
