/-
`Proofs/Files/Walk.lean` -- the order in which a walk comes to what is below a folder.

A walk goes through the entries of a folder by the bytes of their names, and through what is below
an entry right after the entry itself. Where several entries could count, the first that a walk
comes to does, so its order has to be known, and known without the walk.

It is an order on places alone (`Precedes`). Two places part at some folder, and there either one of
them ends, and then it is a folder that the other is below, or the two go on with different names,
and then the names decide by their bytes. A tree only decides which places there are. So what is
shown is in two parts: the places of a walk are all places below the folder (`mem_places_iff`), and
they are in that order (`pairwise_places`). Both are by induction on the tree, folder by folder.

A folder keeps its entries as a list, in the order in which the file system gives them. The order of
a walk does not depend on that, because the entries are sorted by their names, and no name is there
twice in a proper tree (`Proper`). Sorting by bytes is not sorting by characters of some language;
it is what the system compares.
-/
import UpgradeScan.Proofs.Files.Write
import UpgradeScan.Proofs.Path.Parent
import UpgradeScan.Proofs.Text.Utf8

set_option autoImplicit false

namespace UpgradeScan.Node

open Text.Utf8 (bytes)

/-! ## 1. Trees

Induction on trees, what a name can be, and which trees there are on a disk. -/

/-- What holds of files, and of a folder when it holds of its entries, holds of every node. -/
theorem induct {motive : Node → Prop} (file : ∀ c, motive (.file c))
    (folder : ∀ es, (∀ e ∈ es, motive e.2) → motive (.folder es)) (n : Node) : motive n := by
  refine @Node.rec motive (fun es => ∀ e ∈ es, motive e.2) (fun e => motive e.2) file folder
    ?_ ?_ ?_ n
  · intro e he
    cases he
  · intro e es hhead htail x hx
    rcases List.mem_cons.mp hx with rfl | hx
    · exact hhead
    · exact htail x hx
  · intro name n hn
    exact hn

/-- What a file or a folder can be called. -/
structure IsFileName (name : String) : Prop where
  isName : Path.IsName name.toList
  no_nul : '\x00' ∉ name.toList
  short : (bytes name).length ≤ 255

instance (name : String) : Decidable (IsFileName name) :=
  let s := name.toList
  decidable_of_iff
    ((s ≠ [] ∧ s ≠ ['.'] ∧ s ≠ ['.', '.'] ∧ '/' ∉ s) ∧ '\x00' ∉ s ∧ (bytes name).length ≤ 255)
    ⟨fun h => ⟨⟨h.1.1, h.1.2.1, h.1.2.2.1, h.1.2.2.2⟩, h.2.1, h.2.2⟩,
      fun h => ⟨⟨h.isName.ne_nil, h.isName.ne_here, h.isName.ne_up, h.isName.no_slash⟩, h.no_nul,
        h.short⟩⟩

/-- A tree as file systems have it: in each of its folders no name is there twice, and every name is
one that a file can have. -/
def Proper (n : Node) : Prop :=
  ∀ place es, n.at? place = some (.folder es) → (es.map (·.1)).Nodup ∧ ∀ e ∈ es, IsFileName e.1

variable {n : Node} {es : List (String × Node)} {e : String × Node}

/-- The entry of a name is the one that is there. -/
theorem child?_eq_some_iff (h : (es.map (·.1)).Nodup) {name : String} {c : Node} :
    (Node.folder es).child? name = some c ↔ (name, c) ∈ es := by
  induction es with
  | nil => exact ⟨nofun, nofun⟩
  | cons e es ih =>
    obtain ⟨x, v⟩ := e
    rw [List.map_cons, List.nodup_cons] at h
    rw [child?, List.find?_cons, List.mem_cons]
    by_cases hx : x = name
    · subst hx
      have hnot : (x, c) ∉ es := fun hc => h.1 (List.mem_map.mpr ⟨_, hc, rfl⟩)
      simp [hnot, eq_comm]
    · have hne : ¬ (name, c) = (x, v) := fun heq => hx (Prod.mk.inj heq).1.symm
      rw [beq_eq_false_iff_ne.mpr hx, ← ih h.2, child?]
      simp [hne]

/-- The entries of a proper folder have distinct names that files can have. -/
theorem Proper.entries (h : (Node.folder es).Proper) :
    (es.map (·.1)).Nodup ∧ ∀ e ∈ es, IsFileName e.1 := h [] es rfl

/-- What is below a proper folder is proper. -/
theorem Proper.child (h : (Node.folder es).Proper) (he : e ∈ es) : e.2.Proper := by
  intro place fs hat
  apply h (e.1 :: place) fs
  rw [at?_cons, (child?_eq_some_iff h.entries.1).mpr he]
  exact hat

/-- A file is proper. -/
theorem proper_file (c : Bytes) : (Node.file c).Proper := by
  intro place es hat
  cases place with
  | nil => cases hat
  | cons name rest => cases hat

/-- A folder is proper when its names are and what is below it is. -/
theorem proper_folder (hnames : (es.map (·.1)).Nodup) (hfile : ∀ e ∈ es, IsFileName e.1)
    (hchild : ∀ e ∈ es, e.2.Proper) : (Node.folder es).Proper := by
  intro place fs hat
  cases place with
  | nil =>
    cases hat
    exact ⟨hnames, hfile⟩
  | cons name rest =>
    rw [at?_cons] at hat
    obtain ⟨c, hc, hrest⟩ := Option.bind_eq_some_iff.mp hat
    exact hchild (name, c) ((child?_eq_some_iff hnames).mp hc) rest fs hrest

/-! ## 2. Entries by name

Entries sorted by the bytes of their names. -/

theorem bytes_inj {a b : String} (h : bytes a = bytes b) : a = b :=
  String.toList_inj.mp (Text.Utf8.encode_inj h)

theorem nameLe_trans (a b c : String × Node) (hab : nameLe a b = true) (hbc : nameLe b c = true) :
    nameLe a c = true :=
  decide_eq_true (List.le_trans (of_decide_eq_true hab) (of_decide_eq_true hbc))

/-- Any two names are in order. -/
theorem nameLe_total (a b : String × Node) : (nameLe a b || nameLe b a) = true := by
  rw [Bool.or_eq_true]
  rcases List.le_total (bytes a.1) (bytes b.1) with h | h
  · exact .inl (decide_eq_true h)
  · exact .inr (decide_eq_true h)

/-- Each name once, and by bytes. -/
theorem pairwise_sorted (h : (es.map (·.1)).Nodup) :
    (sorted es).Pairwise fun a b => bytes a.1 < bytes b.1 := by
  have hsorted := List.pairwise_mergeSort nameLe_trans nameLe_total es
  have hnodup : ((sorted es).map (·.1)).Nodup :=
    ((List.mergeSort_perm es nameLe).map (·.1)).nodup_iff.mpr h
  refine (hsorted.and (List.pairwise_map.mp hnodup)).imp ?_
  rintro a b ⟨hle, hne⟩
  exact Std.lt_of_le_of_ne (of_decide_eq_true hle) fun heq => hne (bytes_inj heq)

/-- Going through things that are kept beside names, in the order of the names, is going through the
entries in that order. -/
theorem flatMap_sorted {β : Type} (f : String × Node → List β) (es : List (String × Node)) :
    ((es.map fun e => (e.1, f e)).mergeSort fun a b => bytes a.1 ≤ bytes b.1).flatMap (·.2) =
      (sorted es).flatMap f := by
  have hsort : (sorted es).map (fun e => (e.1, f e)) =
      (es.map fun e => (e.1, f e)).mergeSort fun a b => bytes a.1 ≤ bytes b.1 :=
    List.map_mergeSort fun a _ b _ => rfl
  rw [← hsort, List.flatMap_map]

/-! ## 3. The places of a walk

The list that a walk makes, and which places are on it. -/

mutual

/-- Every place below a node, in the order of a walk: entries by name, and each entry before what is
below it. -/
def places : Node → List (List String)
  | .file _ => []
  | .folder es => ((placesIn es).mergeSort fun a b => bytes a.1 ≤ bytes b.1).flatMap (·.2)
termination_by structural n => n

/-- Beside the name of each entry, its place and those below it. -/
def placesIn : List (String × Node) → List (String × List (List String))
  | [] => []
  | (name, node) :: es => (name, [name] :: (places node).map (name :: ·)) :: placesIn es
termination_by structural es => es

end

/-- There is nothing below a file. -/
@[simp] theorem places_file (c : Bytes) : places (.file c) = [] := rfl

/-- Beside each name, the entry and what is below it. -/
theorem placesIn_eq (es : List (String × Node)) :
    placesIn es = es.map fun e => (e.1, [e.1] :: (places e.2).map (e.1 :: ·)) := by
  induction es with
  | nil => rfl
  | cons e es ih => rw [placesIn, ih, List.map_cons]

/-- The places below a folder are its entries by name, each followed by what is below it. -/
theorem places_folder (es : List (String × Node)) :
    places (.folder es) = (sorted es).flatMap fun e => [e.1] :: (places e.2).map (e.1 :: ·) := by
  rw [places, placesIn_eq, flatMap_sorted]

/-- An entry and what is below it begin with its name. -/
theorem mem_cons_map_iff {name : String} {below : List (List String)} {place : List String} :
    place ∈ [name] :: below.map (name :: ·) ↔
      ∃ rest, place = name :: rest ∧ (rest = [] ∨ rest ∈ below) := by
  rw [List.mem_cons, List.mem_map]
  constructor
  · rintro (rfl | ⟨rest, hrest, rfl⟩)
    · exact ⟨[], rfl, .inl rfl⟩
    · exact ⟨rest, rfl, .inr hrest⟩
  · rintro ⟨rest, rfl, rfl | hrest⟩
    · exact .inl rfl
    · exact .inr ⟨rest, hrest, rfl⟩

/-- A place below a folder is an entry of it or is below one. -/
theorem mem_places_folder {place : List String} : place ∈ (Node.folder es).places ↔
    ∃ e ∈ es, ∃ rest, place = e.1 :: rest ∧ (rest = [] ∨ rest ∈ e.2.places) := by
  rw [places_folder, List.mem_flatMap]
  exact exists_congr fun e => and_congr List.mem_mergeSort mem_cons_map_iff

/-- The folder itself is not among the places below it. -/
theorem ne_nil_of_mem_places {place : List String} (h : place ∈ n.places) : place ≠ [] := by
  cases n with
  | file c => cases h
  | folder es =>
    obtain ⟨e, -, rest, rfl, -⟩ := mem_places_folder.mp h
    exact List.cons_ne_nil _ _

/-- A walk comes to every place below the node, and to no other. -/
theorem mem_places_iff (h : n.Proper) {place : List String} :
    place ∈ n.places ↔ place ≠ [] ∧ (n.at? place).isSome = true := by
  -- Induction over the tree; a place below a folder is a name and a place below the entry.
  induction n using induct generalizing place with
  | file c =>
    cases place with
    | nil => exact ⟨nofun, fun hat => absurd rfl hat.1⟩
    | cons name rest => exact ⟨nofun, nofun⟩
  | folder es ih =>
    have hpart : ∀ e ∈ es, ∀ rest,
        (rest = [] ∨ rest ∈ e.2.places ↔ (e.2.at? rest).isSome = true) := by
      intro e he rest
      rw [ih e he (h.child he)]
      by_cases hrest : rest = []
      · simp [hrest, at?]
      · simp [hrest]
    rw [mem_places_folder]
    constructor
    · rintro ⟨e, he, rest, rfl, hrest⟩
      rw [at?_cons, (child?_eq_some_iff h.entries.1).mpr he, Option.bind_some]
      exact ⟨List.cons_ne_nil _ _, (hpart e he rest).mp hrest⟩
    · rintro ⟨hne, hat⟩
      obtain ⟨name, rest, rfl⟩ := List.exists_cons_of_ne_nil hne
      obtain ⟨m, hm⟩ := Option.isSome_iff_exists.mp hat
      obtain ⟨c, hc, hrest⟩ := Option.bind_eq_some_iff.mp hm
      have hmem : (name, c) ∈ es := (child?_eq_some_iff h.entries.1).mp hc
      refine ⟨(name, c), hmem, rest, rfl, (hpart _ hmem rest).mpr ?_⟩
      rw [hrest]
      rfl

/-! ## 4. The order of a walk

The order on places, and that a walk keeps it. -/

/-- A walk comes to the first place before the second: to a folder before what is below it, and to
one entry of a folder, with all that is below it, before another with a greater name. -/
inductive Precedes : List String → List String → Prop
  | down (name : String) (rest : List String) : Precedes [] (name :: rest)
  | across {a b : String} (p q : List String) (h : bytes a < bytes b) : Precedes (a :: p) (b :: q)
  | along (a : String) {p q : List String} (h : Precedes p q) : Precedes (a :: p) (a :: q)

/-- Places with a first name are compared by that, and then by what follows it. -/
theorem precedes_cons_iff {a b : String} {p q : List String} :
    Precedes (a :: p) (b :: q) ↔ bytes a < bytes b ∨ a = b ∧ Precedes p q := by
  constructor
  · intro h
    cases h with
    | across _ _ h => exact .inl h
    | along _ h => exact .inr ⟨rfl, h⟩
  · rintro (h | ⟨rfl, h⟩)
    · exact .across p q h
    · exact .along a h

instance decidablePrecedes : (p q : List String) → Decidable (Precedes p q)
  | _, [] => isFalse nofun
  | [], name :: rest => isTrue (.down name rest)
  | _ :: p, _ :: q =>
    have := decidablePrecedes p q
    decidable_of_iff _ precedes_cons_iff.symm

/-- Of two places one comes first at most. -/
theorem Precedes.asymm {p q : List String} (h : Precedes p q) : ¬ Precedes q p := by
  induction h with
  | down name rest => nofun
  | across p q h =>
    rw [precedes_cons_iff]
    rintro (h' | ⟨rfl, -⟩)
    · exact List.lt_asymm h h'
    · exact List.lt_irrefl _ h
  | along a _ ih =>
    rw [precedes_cons_iff]
    rintro (h' | ⟨-, h'⟩)
    · exact List.lt_irrefl _ h'
    · exact ih h'

/-- A walk comes to places in their order. -/
theorem pairwise_places (h : n.Proper) : n.places.Pairwise Precedes := by
  -- Induction over the tree: inside one entry the order is that of the entry, between two
  -- entries it is that of their names.
  induction n using induct with
  | file c => exact .nil
  | folder es ih =>
    rw [places_folder, List.pairwise_flatMap]
    constructor
    · intro e he
      rw [sorted, List.mem_mergeSort] at he
      rw [List.pairwise_cons, List.pairwise_map]
      constructor
      · intro place hplace
        obtain ⟨rest, hrest, rfl⟩ := List.mem_map.mp hplace
        obtain ⟨x, xs, rfl⟩ := List.exists_cons_of_ne_nil (ne_nil_of_mem_places hrest)
        exact .along _ (.down x xs)
      · exact (ih e he (h.child he)).imp fun hpq => .along _ hpq
    · refine (pairwise_sorted h.entries.1).imp ?_
      intro a b hab p hp q hq
      obtain ⟨p, rfl, -⟩ := mem_cons_map_iff.mp hp
      obtain ⟨q, rfl, -⟩ := mem_cons_map_iff.mp hq
      exact .across p q hab

end UpgradeScan.Node
