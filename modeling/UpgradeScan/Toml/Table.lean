/-
`Toml/Table.lean` -- tables while a document is read.

A table comes to be in one of three ways: a header names it, a header names a table below it, or a
dotted key goes through it. The way decides who may add to it. A header may name a table once, and
not one that dotted keys made; a dotted key adds only to a table that dotted keys made, and an
inline table is closed where it ends. Below, `Draft` keeps that knowledge, and `Draft.done` forgets
it.

The values that a document says do not show how their tables came to be. So the rules about it are
here and in no other module, and what follows sees finished values.
-/
import UpgradeScan.Toml.Basic

set_option autoImplicit false

namespace UpgradeScan.TomlText

/-- How a table came to be. -/
inductive Origin where
  /-- A header names it. -/
  | named
  /-- A header names a table below it. -/
  | implied
  /-- A dotted key goes through it. -/
  | dotted
  deriving DecidableEq, Repr

/-- What a key stands for while the document is read. -/
inductive Draft where
  | value (v : Toml)
  | table (o : Origin) (entries : List (String × Draft))
  /-- The tables of a header in double brackets; the last is the one that may grow. -/
  | tables (items : List (List (String × Draft)))
  deriving Inhabited

/-- The entries of a table that is being read. -/
abbrev Entries := List (String × Draft)

/-! ## 1. Going down

Keys lead down through tables. Through a list of tables they lead to the last one. -/

/-- The entries with a key set. -/
def Entries.set (k : String) (d : Draft) (es : Entries) : Entries :=
  if es.any (·.1 == k) then es.map fun e => if e.1 == k then (k, d) else e
  else es ++ [(k, d)]

/-- A change of the last of some tables. -/
def changeLast (f : Entries → Option Entries) (items : List Entries) : Option (List Entries) :=
  match items.getLast? with
  | some es => (f es).map fun es => items.dropLast ++ [es]
  | none => none

/-- A change of the table that header keys lead to. Tables on the way are made where they are
missing; a way through a value leads nowhere. -/
def Entries.within : List String → (Entries → Option Entries) → Entries → Option Entries
  | [], f, es => f es
  | k :: rest, f, es =>
    match es.lookup k with
    | none => (Entries.within rest f []).map fun inner => es ++ [(k, .table .implied inner)]
    | some (.table o inner) =>
      (Entries.within rest f inner).map fun inner => es.set k (.table o inner)
    | some (.tables items) =>
      (changeLast (Entries.within rest f) items).map fun items => es.set k (.tables items)
    | some (.value _) => none

/-! ## 2. What statements do

One function for each kind of statement, each of which gives nothing where the statement may not add
what it says. -/

/-- The entries with a value set at a dotted key. -/
def Entries.assign : List String → Toml → Entries → Option Entries
  | [], _, _ => none
  | [k], v, es => if es.any (·.1 == k) then none else some (es ++ [(k, .value v)])
  | k :: rest, v, es =>
    match es.lookup k with
    | none => (Entries.assign rest v []).map fun inner => es ++ [(k, .table .dotted inner)]
    | some (.table o inner) =>
      if o = .named ∨ (o = .implied ∧ rest.length = 1) then none
      else (Entries.assign rest v inner).map fun inner => es.set k (.table o inner)
    | some (.tables items) =>
      if rest.length = 1 then none
      else (changeLast (Entries.assign rest v) items).map fun items => es.set k (.tables items)
    | some (.value _) => none

/-- The entries after a header in single brackets that names `k`. -/
def Entries.openTable (k : String) (es : Entries) : Option Entries :=
  match es.lookup k with
  | none => some (es ++ [(k, .table .named [])])
  | some (.table .implied inner) => some (es.set k (.table .named inner))
  | _ => none

/-- The entries after a header in double brackets that names `k`. -/
def Entries.openItem (k : String) (es : Entries) : Option Entries :=
  match es.lookup k with
  | none => some (es ++ [(k, .tables [[]])])
  | some (.tables items) => some (es.set k (.tables (items ++ [[]])))
  | _ => none

/-! ## 3. The finished value

What is left when the origins are forgotten. -/

mutual

/-- The value of a draft. -/
def Draft.done : Draft → Toml
  | .value v => v
  | .table _ es => .table (doneEntries es)
  | .tables items => .list (doneTables items)

/-- The values of entries. -/
def doneEntries : List (String × Draft) → List (String × Toml)
  | [] => []
  | (k, d) :: rest => (k, d.done) :: doneEntries rest

/-- The values of the tables of a header in double brackets. -/
def doneTables : List (List (String × Draft)) → List Toml
  | [] => []
  | es :: rest => .table (doneEntries es) :: doneTables rest

end

end UpgradeScan.TomlText
