/-
`Proofs/Files/Write.lean` -- what writing one file changes on a disk.

A scan writes one file, its report, and everything else on the disk should be as it was. That is a
frame property, and it has an inner and an outer side. Inside, a tree is changed at one place: every
other file stays what it was, and every folder keeps its names (`Node.kept_setAt_file`). Outside,
files are found by paths, and a path is followed through folders: since the folders are kept, each
path that led somewhere still leads to the same place (`FoldersKept.walk`). In particular, the path
that was written to leads to the new file, so what was written can be read back by the same path.

A file is written into a folder that is there, in place of a file or of nothing (`Writable`). It is
never put in place of a folder, since that would take away everything below it, and no folder is
made on the way. Both are refused before anything is changed.

The tree is changed by putting a node at a place and building the way down to it anew. The induction
is on that way. A place that leaves it somewhere is not touched, and a place that goes on along it
comes to a folder with the same names, or with one more.
-/
import UpgradeScan.Files.Disk

set_option autoImplicit false

namespace UpgradeScan

/-! ## 1. Entries and trees

Trees with one entry set. What is compared are nodes at places, before and after. -/

namespace Node

theorem at?_cons (name : String) (rest : List String) (n : Node) :
    n.at? (name :: rest) = (n.child? name).bind (at? rest) := rfl

/-- A place behind a place. -/
theorem at?_append (p q : List String) (n : Node) : n.at? (p ++ q) = (n.at? p).bind (at? q) := by
  induction p generalizing n with
  | nil => rfl
  | cons name p ih =>
    rw [List.cons_append, at?_cons, at?_cons, Option.bind_assoc]
    exact congrArg _ (funext ih)

/-- Set entries: one name has the new node, every other name keeps its own. -/
theorem child?_setEntry (name x : String) (v : Node) (es : List (String × Node)) :
    (folder (setEntry name v es)).child? x = if x = name then some v else (folder es).child? x := by
  rw [child?, child?, setEntry]
  -- the entry is replaced where it stands, or comes after all others
  by_cases hany : (es.any fun e => e.1 == name) = true
  · rw [if_pos hany, List.find?_map]
    have hname : ((fun e : String × Node => e.1 == x) ∘
        fun e => if e.1 == name then (name, v) else e) = fun e => e.1 == x := by
      funext e
      by_cases he : e.1 = name <;> simp [he]
    rw [hname, Option.map_map]
    cases hf : es.find? fun e => e.1 == x with
    | none =>
      by_cases hx : x = name
      · subst hx
        rw [List.find?_eq_none] at hf
        obtain ⟨e, he, hen⟩ := List.any_eq_true.mp hany
        exact absurd hen (hf e he)
      · simp [hx]
    | some e =>
      have hex : e.1 = x := by simpa using List.find?_some hf
      by_cases hx : x = name <;> simp [hex, hx]
  · rw [if_neg hany, List.find?_append]
    by_cases hx : x = name
    · subst hx
      have hnone : (es.find? fun e => e.1 == x) = none := by
        rw [List.find?_eq_none]
        intro e he hex
        exact hany (List.any_eq_true.mpr ⟨e, he, hex⟩)
      simp [hnone]
    · have hne : (name == x) = false := by simpa using fun h => hx h.symm
      simp [hx, hne]

/-- Setting a node below a folder changes the entry on the way to it, and no other. -/
theorem child?_setAt (name x : String) (rest : List String) (v n : Node) :
    (setAt (name :: rest) v n).child? x =
      if x = name then some (setAt rest v ((n.child? name).getD (folder []))) else n.child? x := by
  cases n with
  | file c =>
    rw [setAt, child?_setEntry]
    rfl
  | folder es => rw [setAt, child?_setEntry]

/-- What was set at a place is there. -/
theorem at?_setAt_self (place : List String) (v n : Node) :
    (setAt place v n).at? place = some v := by
  induction place generalizing n with
  | nil => rfl
  | cons name rest ih =>
    rw [at?_cons, child?_setAt, if_pos rfl, Option.bind_some, ih]

/-- If a folder was at a place, then one is still there, with at least its names. -/
def FolderKept (a b : Option Node) : Prop :=
  ∀ es, a = some (.folder es) → ∃ es', b = some (.folder es') ∧
    ∀ name, (es.any fun e => e.1 == name) = true → (es'.any fun e => e.1 == name) = true

/-- What was at a place is still there: a file with its content, a folder with its names. -/
structure Kept (a b : Option Node) : Prop where
  file : ∀ c, a = some (.file c) ↔ b = some (.file c)
  folder : FolderKept a b

/-- What does not change is kept. -/
theorem Kept.refl (a : Option Node) : Kept a a :=
  ⟨fun _ => Iff.rfl, fun es h => ⟨es, h, fun _ h => h⟩⟩

/-- A name with an entry is there. -/
theorem any_of_child? {name : String} {es : List (String × Node)} {v : Node}
    (h : (Node.folder es).child? name = some v) : (es.any fun e => e.1 == name) = true := by
  rw [child?, Option.map_eq_some_iff] at h
  obtain ⟨e, he, -⟩ := h
  exact List.any_eq_true.mpr ⟨e, List.mem_of_find?_eq_some he, by simpa using List.find?_some he⟩

theorem exists_child?_of_any {name : String} {es : List (String × Node)}
    (h : (es.any fun e => e.1 == name) = true) : ∃ v, (Node.folder es).child? name = some v := by
  rw [← Option.isSome_iff_exists, child?, Option.isSome_map, List.find?_isSome]
  exact List.any_eq_true.mp h

/-- Setting an entry takes no name away. -/
theorem any_setEntry {name x : String} {v : Node} {es : List (String × Node)}
    (h : (es.any fun e => e.1 == x) = true) :
    ((setEntry name v es).any fun e => e.1 == x) = true := by
  obtain ⟨e, he, hex⟩ := List.any_eq_true.mp h
  unfold setEntry
  split
  · refine List.any_eq_true.mpr ⟨_, List.mem_map_of_mem he, ?_⟩
    by_cases hn : e.1 = name
    · simpa [hn] using hex
    · simpa [hn] using hex
  · exact List.any_eq_true.mpr ⟨e, List.mem_append_left _ he, hex⟩

/-- A folder with a node set below it is a folder with at least its names. -/
theorem kept_setAt_cons (name : String) (rest : List String) (v : Node)
    (es : List (String × Node)) :
    Kept (some (.folder es)) (some (setAt (name :: rest) v (.folder es))) := by
  refine ⟨fun c => ⟨nofun, nofun⟩, ?_⟩
  rintro es' h
  cases h
  exact ⟨_, rfl, fun x hx => any_setEntry hx⟩

/-- A file is set in a folder where it replaces a file or nothing. Induction on the way to the
folder: a place either leaves the way, and then nothing changes, or goes on along it. -/
theorem kept_setAt_file {parent : List String} {name : String} {n : Node}
    {es : List (String × Node)} (c : Bytes) (hparent : n.at? parent = some (.folder es))
    (hentry : ∀ es', (Node.folder es).child? name ≠ some (.folder es')) {place : List String}
    (hne : place ≠ parent ++ [name]) :
    Kept (n.at? place) ((setAt (parent ++ [name]) (.file c) n).at? place) := by
  induction parent generalizing n place with
  | nil =>
    cases hparent
    cases place with
    | nil => exact kept_setAt_cons _ _ _ _
    | cons x rest =>
      rw [at?_cons, List.nil_append, at?_cons, child?_setAt]
      by_cases hx : x = name
      · subst hx
        rw [if_pos rfl, Option.bind_some]
        -- Below a file there is nothing, and there was nothing below the entry before.
        cases rest with
        | nil => exact absurd rfl hne
        | cons y rest =>
          have hnone : ((Node.folder es).child? x).bind (at? (y :: rest)) = none := by
            cases hc : (Node.folder es).child? x with
            | none => rfl
            | some v =>
              cases v with
              | file b => rfl
              | folder es' => exact absurd hc (hentry es')
          rw [hnone]
          exact Kept.refl none
      · rw [if_neg hx]
        exact Kept.refl _
  | cons a parent ih =>
    rw [at?_cons] at hparent
    obtain ⟨child, hchild, hat⟩ := Option.bind_eq_some_iff.mp hparent
    obtain ⟨fs, rfl⟩ : ∃ fs, n = .folder fs := by
      cases n with
      | file b => cases hchild
      | folder fs => exact ⟨fs, rfl⟩
    -- the folders on the way get no new names, and off the way nothing changes
    cases place with
    | nil => exact kept_setAt_cons _ _ _ _
    | cons x rest =>
      rw [at?_cons, List.cons_append, at?_cons, child?_setAt]
      by_cases hx : x = a
      · subst hx
        rw [if_pos rfl, hchild, Option.bind_some, Option.bind_some, Option.getD_some]
        exact ih hat fun h => hne (by rw [h, List.cons_append])
      · rw [if_neg hx]
        exact Kept.refl _

end Node

/-! ## 2. Paths

Paths are followed by segments. Following one needs a folder and, unless the segment stays or goes
up, a name in it; both are kept. -/

namespace Disk

/-- Segments behind segments. -/
theorem walk_append (d : Disk) (place : List String) (a b : List (List Char)) :
    d.walk place (a ++ b) =
      match d.walk place a with
      | .ok next => d.walk next b
      | .error e => .error e := by
  induction a generalizing place with
  | nil => rfl
  | cons seg a ih =>
    simp only [List.cons_append, walk]
    cases d.step place seg with
    | ok next => exact ih next
    | error e => rfl

/-- Every folder of one disk is a folder of the other, with at least its names. -/
def FoldersKept (d d' : Disk) : Prop :=
  ∀ place, Node.FolderKept (d.root.at? place) (d'.root.at? place)

/-- A segment that leads somewhere still does, and to the same place. -/
theorem FoldersKept.step {d d' : Disk} (h : d.FoldersKept d') {place next : List String}
    {seg : List Char} (hs : d.step place seg = .ok next) : d'.step place seg = .ok next := by
  unfold Disk.step at hs
  cases hat : d.root.at? place with
  | none =>
    rw [hat] at hs
    cases hs
  | some n =>
    rw [hat] at hs
    cases n with
    | file c => cases hs
    | folder es =>
      -- the checks on the name are the same on both disks, and the name is still there
      obtain ⟨es', hat', hnames⟩ := h place es hat
      simp only at hs
      simp only [Disk.step, hat']
      split at hs
      · next hdot => rw [if_pos hdot, hs]
      · next hdot =>
        rw [if_neg hdot]
        split at hs
        · next hup => rw [if_pos hup, hs]
        · next hup =>
          rw [if_neg hup]
          split at hs
          · cases hs
          · next hlong =>
            rw [if_neg hlong]
            split at hs
            · next hany => rw [if_pos (hnames _ hany), hs]
            · cases hs

/-- So do any number of segments. -/
theorem FoldersKept.walk {d d' : Disk} (h : d.FoldersKept d') {place next : List String}
    {segs : List (List Char)} (hw : d.walk place segs = .ok next) :
    d'.walk place segs = .ok next := by
  induction segs generalizing place with
  | nil => exact hw
  | cons seg segs ih =>
    rw [Disk.walk] at hw ⊢
    cases hs : d.step place seg with
    | error e =>
      rw [hs] at hw
      cases hw
    | ok mid =>
      rw [hs] at hw
      rw [h.step hs]
      exact ih hw

/-- A path that ends with a name is what comes before it, and the name. -/
theorem lastSegment_eq {p : Path} {before : List (List Char)} {seg : List Char}
    (h : lastSegment p = (before, seg, false)) :
    Text.fields '/' p.text.toList = before ++ [seg] ∧ seg ≠ [] := by
  rw [lastSegment] at h
  cases hsegs : (Text.fields '/' p.text.toList).reverse with
  | nil => exact absurd (List.reverse_eq_nil_iff.mp hsegs) (Text.fields_ne_nil _ _)
  | cons last front =>
    rw [hsegs] at h
    by_cases hlast : last = []
    · -- The path ends with a slash, which the flag would tell.
      subst hlast
      simp only [List.head?_cons] at h
      split at h <;> simp at h
    · rw [List.dropWhile_cons_of_neg (by simpa using hlast)] at h
      simp only [List.head?_cons, Prod.mk.injEq] at h
      obtain ⟨rfl, rfl, -⟩ := h
      have hfields := congrArg List.reverse hsegs
      rw [List.reverse_reverse, List.reverse_cons] at hfields
      exact ⟨hfields, hlast⟩

/-- What a path names that can be written to: a name in a folder that is there, and in that folder
the name belongs to a file or to nothing. -/
structure Writable (d : Disk) (p : Path) (parent : List String) (seg : List Char)
    (es : List (String × Node)) : Prop where
  accepted : refused? p = none
  segments : ∃ before, Text.fields '/' p.text.toList = before ++ [seg] ∧
    d.walk (d.start p) before = .ok parent
  folder : d.root.at? parent = some (.folder es)
  named : seg ≠ [] ∧ seg ≠ ['.'] ∧ seg ≠ ['.', '.'] ∧ (Text.Utf8.encode seg).length ≤ 255
  entry : ∀ es', (Node.folder es).child? (String.ofList seg) ≠ some (.folder es')

/-- A path that can be written to names a file, or nothing yet, in a folder that is there. -/
theorem writable_of_target {d : Disk} {p : Path} {place : List String}
    (h : d.target p = .ok place) :
    ∃ parent seg es, Writable d p parent seg es ∧ place = parent ++ [String.ofList seg] := by
  unfold target at h
  cases href : refused? p with
  | some e =>
    rw [href] at h
    cases h
  | none =>
    rw [href] at h
    rcases hlast : lastSegment p with ⟨before, seg, slash⟩
    simp only [hlast] at h
    cases hw : d.walk (d.start p) before with
    | error e =>
      rw [hw] at h
      cases h
    | ok parent =>
      rw [hw] at h
      simp only at h
      split at h
      · next es hat =>
        split at h
        · cases h
        · next hname =>
          simp only [Bool.or_eq_true, beq_iff_eq, not_or, Bool.not_eq_true] at hname
          obtain ⟨⟨rfl, hdot⟩, hup⟩ := hname
          split at h
          · cases h
          · next hlong =>
            split at h
            · cases h
            · next hentry =>
              -- no check of the target failed, and each of them is one fact here
              obtain ⟨hfields, hseg⟩ := lastSegment_eq hlast
              refine ⟨parent, seg, es, ⟨href, ⟨before, hfields, hw⟩, hat,
                ⟨hseg, hdot, hup, by omega⟩, ?_⟩, by cases h; rfl⟩
              intro es' hes'
              rw [Node.child?, Option.map_eq_some_iff] at hes'
              obtain ⟨⟨x, v⟩, hf, hv⟩ := hes'
              simp only at hv
              subst hv
              exact hentry _ _ hf
      · cases h
      · cases h

/-! ## 3. Writing

What writing a file does, and what it leaves alone. -/

/-- Two disks have the same files with the same content. -/
def SameFiles (d d' : Disk) : Prop :=
  ∀ place c, d.root.at? place = some (.file c) ↔ d'.root.at? place = some (.file c)

/-- A disk has the files that it has. -/
theorem SameFiles.refl (d : Disk) : d.SameFiles d := fun _ _ => Iff.rfl

/-- The second disk is the first one but for the file at one place. -/
structure DiffersAt (d d' : Disk) (place : List String) (content : Bytes) : Prop where
  file : d'.root.at? place = some (.file content)
  others : ∀ other, other ≠ place →
    ∀ c, d.root.at? other = some (.file c) ↔ d'.root.at? other = some (.file c)
  current : d'.current = d.current

/-- Writing a file keeps all folders with their names. -/
theorem Writable.foldersKept {d : Disk} {p : Path} {parent : List String} {seg : List Char}
    {es : List (String × Node)} (h : Writable d p parent seg es) (c : Bytes) :
    d.FoldersKept
      { d with root := Node.setAt (parent ++ [String.ofList seg]) (.file c) d.root } := by
  intro place fs hat
  -- a folder is not what was written over
  have hne : place ≠ parent ++ [String.ofList seg] := by
    rintro rfl
    rw [Node.at?_append, h.folder, Option.bind_some, Node.at?_cons] at hat
    obtain ⟨v, hv, hnil⟩ := Option.bind_eq_some_iff.mp hat
    cases hnil
    exact h.entry fs hv
  exact (Node.kept_setAt_file c h.folder h.entry hne).folder fs hat

/-- **Writing a file.** The path that was written to reads back as what was written, and no other
file has changed. -/
theorem write_eq_ok {d d' : Disk} {p : Path} {c : Bytes} (h : d.write p c = .ok d') :
    d'.read p = .ok c ∧ ∃ place, d.target p = .ok place ∧ d.DiffersAt d' place c := by
  unfold write at h
  cases ht : d.target p with
  | error e =>
    rw [ht] at h
    cases h
  | ok place =>
    rw [ht] at h
    -- What was written is found again only because the folders on the way are kept.
    obtain ⟨parent, seg, es, hw, rfl⟩ := writable_of_target ht
    simp only [Except.ok.injEq] at h
    have hkept := hw.foldersKept c
    rw [h] at hkept
    have hroot : d'.root = Node.setAt (parent ++ [String.ofList seg]) (.file c) d.root := by
      rw [← h]
    have hcurrent : d'.current = d.current := by
      rw [← h]
    have hfile : d'.root.at? (parent ++ [String.ofList seg]) = some (.file c) := by
      rw [hroot, Node.at?_setAt_self]
    refine ⟨?_, _, rfl, hfile, ?_, hcurrent⟩
    · -- The way to the folder is still there, and its last step now finds the new name.
      obtain ⟨before, hfields, hwalk⟩ := hw.segments
      obtain ⟨es', hat', -⟩ := hkept parent es hw.folder
      have hchild := hfile
      rw [Node.at?_append, hat', Option.bind_some, Node.at?_cons] at hchild
      obtain ⟨v, hv, -⟩ := Option.bind_eq_some_iff.mp hchild
      obtain ⟨hnil, hdot, hup, hlong⟩ := hw.named
      have hstep : d'.step parent seg = .ok (parent ++ [String.ofList seg]) := by
        simp only [step, hat', hnil, hdot, hup, or_self, if_false, if_neg (Nat.not_lt.mpr hlong),
          Node.any_of_child? hv, if_true]
      have hstart : d'.start p = d.start p := by rw [start, start, hcurrent]
      have hresolve : d'.resolve p = .ok (parent ++ [String.ofList seg]) := by
        simp only [resolve, hw.accepted, hfields, walk_append, hstart, hkept.walk hwalk, walk,
          hstep]
      simp only [read, node, hresolve, hfile]
    · intro other hne b
      rw [hroot]
      exact (Node.kept_setAt_file c hw.folder hw.entry hne).file b

end Disk

end UpgradeScan
