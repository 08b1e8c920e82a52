/-
`Proofs/Json/Tree.lean` -- a document, taken apart.

To say at which place of a document something stands, one has to have the document in parts, with
every byte of it. A tree is one way to take the text of a value apart: the blanks, the spelling of
each key, string and number, and the members in their order, also when a key comes twice. Each part
carries the proof that it is what the grammar says, so a tree is a valid document by construction:
its strings stand for text and its numbers fit the format. The text is read off the tree
(`Tree.text`), and with it the place of every part.

This is more than a value of the data format, which forgets blanks, spellings and places, and it is
other than the grammar, which relates a text to its parts but does not give them. Judges of defects
go through trees by structural recursion, and readers are run on their texts; the lemmas here
connect the two, by saying that the text of a tree is laid out as the grammar wants it.

Trees without any blanks are made from values by a few functions (`Tree.ofMembers`), so that
documents can be written down in examples. Their texts are computed.
-/
import UpgradeScan.Engine.Defect
import UpgradeScan.Proofs.Json.Printed
import UpgradeScan.Proofs.Json.Skip

set_option autoImplicit false

namespace UpgradeScan.JsonText

/-! ## 1. Trees and their texts

Values, items and members are defined together. The flag of the items says that none was given
before, so that a comma stands before each but the first. -/

mutual

/-- A value and its parts. -/
inductive Tree : Type
  | null
  | bool (b : Bool)
  | number (t : Bytes) (x : Numeral) (n : JsonNumber) (ht : NumeralText t x)
      (hn : x.value? = some n)
  | string (t : Bytes) (s : String) (h : Quoted t s)
  | list (items : ItemTrees true)
  | object (members : MemberTrees true)

/-- The items of a list after its bracket. The flag says that none was given yet. -/
inductive ItemTrees : Bool → Type
  | close {first : Bool} (w : Bytes) (hw : Blanks w) : ItemTrees first
  | item {first : Bool} (l : Bytes) (hl : Lead first l) (v : Tree) (rest : ItemTrees false) :
      ItemTrees first

/-- The members of an object after its brace. -/
inductive MemberTrees : Bool → Type
  | close {first : Bool} (w : Bytes) (hw : Blanks w) : MemberTrees first
  | member {first : Bool} (l : Bytes) (hl : Lead first l) (t : Bytes) (k : String)
      (hk : Quoted t k) (w w' : Bytes) (hw : Blanks w) (hw' : Blanks w') (v : Tree)
      (rest : MemberTrees false) : MemberTrees first

end

mutual

/-- The bytes of a value. -/
def Tree.text : Tree → Bytes
  | .null => 0x6E :: restOfNull
  | .bool true => 0x74 :: restOfTrue
  | .bool false => 0x66 :: restOfFalse
  | .number t _ _ _ _ => t
  | .string t _ _ => t
  | .list items => 0x5B :: items.text
  | .object members => 0x7B :: members.text

/-- The bytes of the items, up to and with the closing bracket. -/
def ItemTrees.text : {first : Bool} → ItemTrees first → Bytes
  | _, .close w _ => w ++ [0x5D]
  | _, .item l _ v rest => l ++ (v.text ++ rest.text)

/-- The bytes of the members, up to and with the closing brace. -/
def MemberTrees.text : {first : Bool} → MemberTrees first → Bytes
  | _, .close w _ => w ++ [0x7D]
  | _, .member l _ t _ _ w w' _ _ v rest =>
    l ++ ((t ++ (w ++ 0x3A :: (w' ++ v.text))) ++ rest.text)

end

/-- The items. -/
def ItemTrees.trees : {first : Bool} → ItemTrees first → List Tree
  | _, .close _ _ => []
  | _, .item _ _ v rest => v :: rest.trees

/-- The keys and values of the members. -/
def MemberTrees.entries : {first : Bool} → MemberTrees first → List (String × Tree)
  | _, .close _ _ => []
  | _, .member _ _ _ k _ _ _ _ _ v rest => (k, v) :: rest.entries

/-- The items of a list; no other value has any. -/
def Tree.items : Tree → List Tree
  | .list items => items.trees
  | _ => []

/-- The members of an object; no other value has any. -/
def Tree.members : Tree → List (String × Tree)
  | .object members => members.entries
  | _ => []

/-- What stands at the place of a value. -/
def Tree.found : Tree → Found
  | .null => .null
  | .bool b => .bool b
  | .number _ _ n _ _ => .number n
  | .string _ s _ => .string s
  | .list _ => .list
  | .object _ => .object

/-! ## 2. Trees in the grammar

By induction on the tree. -/

/-- Items are laid out as the grammar wants them. -/
theorem ItemTrees.parts {first : Bool} (u : ItemTrees first) :
    Parts 0x5D Eq first u.text (u.trees.map Tree.text) := by
  cases u with
  | close w hw => exact parts_nil_iff.mpr ⟨w, hw, by rw [text]⟩
  | item l hl v rest =>
    exact parts_cons_iff.mpr ⟨l, v.text, rest.text, hl, rfl, rest.parts, by rw [text]⟩

/-- Members are laid out as the grammar wants them. -/
theorem MemberTrees.parts {first : Bool} (u : MemberTrees first) :
    Parts 0x7D (MemberText Quoted) first u.text (u.entries.map fun m => (m.1, m.2.text)) := by
  cases u with
  | close w hw => exact parts_nil_iff.mpr ⟨w, hw, by rw [text]⟩
  | member l hl t k hk w w' hw hw' v rest =>
    exact parts_cons_iff.mpr ⟨l, _, rest.text, hl, ⟨t, w, w', hk, hw, hw', rfl⟩, rest.parts,
      by rw [text]⟩

mutual

/-- The text of a tree is a value. -/
theorem Tree.value : ∀ v : Tree, Value v.text
  | .null => by rw [Tree.text]; exact .null
  | .bool true => by rw [Tree.text]; exact .yes
  | .bool false => by rw [Tree.text]; exact .no
  | .number t x _ ht _ => by rw [Tree.text]; exact .number ht
  | .string t s h => by rw [Tree.text]; exact .string (quotedForm_of_quoted h)
  | .list items => by
    rw [Tree.text]
    refine .list ⟨_, rfl, items.parts⟩ fun u hu => ?_
    obtain ⟨v, hv, rfl⟩ := List.mem_map.mp hu
    exact items.values v hv
  | .object members => by
    rw [Tree.text]
    refine value_of_objectText ⟨_, rfl, members.parts⟩ fun m hm => ?_
    obtain ⟨e, he, rfl⟩ := List.mem_map.mp hm
    exact members.values e he

/-- The text of each item is a value. -/
theorem ItemTrees.values : ∀ {first : Bool} (u : ItemTrees first), ∀ v ∈ u.trees, Value v.text
  | _, .close _ _ => by
    intro v hv
    cases hv
  | _, .item _ _ v rest => by
    intro v' hv'
    rcases List.mem_cons.mp hv' with hv' | hv'
    · rw [hv']
      exact v.value
    · exact rest.values v' hv'

/-- The text of each value of a member is a value. -/
theorem MemberTrees.values : ∀ {first : Bool} (u : MemberTrees first),
    ∀ m ∈ u.entries, Value m.2.text
  | _, .close _ _ => by
    intro m hm
    cases hm
  | _, .member _ _ _ _ _ _ _ _ _ v rest => by
    intro m hm
    rcases List.mem_cons.mp hm with hm | hm
    · rw [hm]
      exact v.value
    · exact rest.values m hm

end

theorem Tree.opens (v : Tree) : Opens v.text := v.value.opens

theorem ItemTrees.length_pos {first : Bool} (u : ItemTrees first) : 0 < u.text.length :=
  u.parts.length_pos

theorem MemberTrees.length_pos {first : Bool} (u : MemberTrees first) : 0 < u.text.length :=
  u.parts.length_pos

/-- What comes after an item ends it. -/
theorem ItemTrees.ends (u : ItemTrees false) (r : Bytes) : Ends (u.text ++ r) :=
  u.parts.ends (.inl rfl) r

/-- What comes after a member ends it. -/
theorem MemberTrees.ends (u : MemberTrees false) (r : Bytes) : Ends (u.text ++ r) :=
  u.parts.ends (.inr rfl) r

/-! ## 3. First bytes

Readers decide by the first byte, judges by what is found. For a whole value they decide alike. -/

/-- The byte with which a value begins tells what is found there. -/
structure Heads (b : UInt8) (f : Found) : Prop where
  null : b = 0x6E ↔ f = .null
  string : b = 0x22 ↔ ∃ s, f = .string s
  number : b = 0x2D ∨ isDigit b = true ↔ ∃ n, f = .number n
  list : b = 0x5B ↔ f = .list
  object : b = 0x7B ↔ f = .object

/-- The first byte of a tree tells what is found there. -/
theorem Tree.exists_heads (v : Tree) : ∃ b u, v.text = b :: u ∧ Heads b v.found := by
  cases v with
  | null => exact ⟨_, _, rfl, by constructor <;> simp [found, isDigit]⟩
  | bool b =>
    cases b with
    | true => exact ⟨_, _, rfl, by constructor <;> simp [found, isDigit]⟩
    | false => exact ⟨_, _, rfl, by constructor <;> simp [found, isDigit]⟩
  | number t x n ht hn =>
    obtain ⟨b, u, rfl, hb, hne⟩ := ht.exists_first
    refine ⟨b, u, rfl, ?_⟩
    -- a sign or a digit is none of the other bytes
    have hnull := hne 0x6E (by decide) (by decide)
    have hquote := hne 0x22 (by decide) (by decide)
    have hbracket := hne 0x5B (by decide) (by decide)
    have hbrace := hne 0x7B (by decide) (by decide)
    constructor <;> simp [found, hnull, hquote, hbracket, hbrace, hb]
  | string t s h =>
    obtain ⟨u, rfl, -⟩ := h
    exact ⟨_, _, rfl, by constructor <;> simp [found, isDigit]⟩
  | list items => exact ⟨_, _, rfl, by constructor <;> simp [found, isDigit]⟩
  | object members => exact ⟨_, _, rfl, by constructor <;> simp [found, isDigit]⟩

/-! ## 4. Trees without blanks

Documents to look at. -/

/-- What stands before a part when there are no blanks. -/
def tightLead : Bool → Bytes
  | true => []
  | false => [0x2C]

/-- Without blanks, a comma stands before each part but the first. -/
theorem lead_tightLead : ∀ first : Bool, Lead first (tightLead first)
  | true => blanks_nil
  | false => ⟨[], [], blanks_nil, blanks_nil, rfl⟩

/-- These items. -/
def ItemTrees.tight : (first : Bool) → List Tree → ItemTrees first
  | _, [] => .close [] blanks_nil
  | first, v :: vs => .item (tightLead first) (lead_tightLead first) v (tight false vs)

/-- These members, each key printed. -/
def MemberTrees.tight : (first : Bool) → List (String × Tree) → MemberTrees first
  | _, [] => .close [] blanks_nil
  | first, (k, v) :: ms =>
    .member (tightLead first) (lead_tightLead first) _ k (quoted_quote k) [] [] blanks_nil
      blanks_nil v (tight false ms)

namespace Tree

/-- A printed string. -/
def ofString (s : String) : Tree := .string _ s (quoted_quote s)

/-- The digits of a natural number of 64 bits. -/
def ofNat (n : Nat) (h : n < Nat.pow 2 64) : Tree :=
  .number _ _ (.natural n) (numeralText_natural n)
    (value?_eq_natural_iff.mpr ⟨rfl, rfl, rfl, digitsValue_decimal n, h⟩)

/-- A list of these items. -/
def ofItems (vs : List Tree) : Tree := .list (.tight true vs)

/-- An object of these members. -/
def ofMembers (ms : List (String × Tree)) : Tree := .object (.tight true ms)

/-- The items are the given ones. -/
theorem trees_tight (first : Bool) (vs : List Tree) : (ItemTrees.tight first vs).trees = vs := by
  induction vs generalizing first with
  | nil => rw [ItemTrees.tight, ItemTrees.trees]
  | cons v vs ih => rw [ItemTrees.tight, ItemTrees.trees, ih]

/-- The members are the given ones. -/
theorem entries_tight (first : Bool) (ms : List (String × Tree)) :
    (MemberTrees.tight first ms).entries = ms := by
  induction ms generalizing first with
  | nil => rw [MemberTrees.tight, MemberTrees.entries]
  | cons m ms ih => rw [MemberTrees.tight, MemberTrees.entries, ih]

/-- A list that was made has the texts of its items. -/
theorem listText_ofItems (vs : List Tree) : ListText Eq (ofItems vs).text (vs.map Tree.text) := by
  have hparts := (ItemTrees.tight true vs).parts
  rw [trees_tight] at hparts
  exact ⟨_, by rw [ofItems, text], hparts⟩

/-- An object that was made has its members, with the texts of their values. -/
theorem objectText_ofMembers (ms : List (String × Tree)) :
    ObjectText Quoted (ofMembers ms).text (ms.map fun m => (m.1, m.2.text)) := by
  have hparts := (MemberTrees.tight true ms).parts
  rw [entries_tight] at hparts
  exact ⟨_, by rw [ofMembers, text], hparts⟩

end Tree

end UpgradeScan.JsonText
