/-
`Change.lean` -- what kind of change a finding is about, and how sure the finding is.

Both are closed lists of names, and the command line, the configuration and the report of the engine
all read such names by one rule: blanks around a name do not count, nor does the case of its ASCII
letters. A comma list keeps the things that its tokens name and drops the tokens that name nothing;
it is never refused, where a single name that is unknown is.

A closed list is a structure (`Names`), which carries the proofs that make the rule unambiguous:
every thing has one name, no two names differ in case only, and no name has a blank or a comma in
it, so that a name survives being trimmed and being put into a list. The readers are defined over
the structure, once; `Category` and `Confidence` apply them to their own things, names and wording.
A third list of names would add its values and the five proofs, and all that is proved about the
readers would hold of it.
-/
import UpgradeScan.Text.Blank
import UpgradeScan.Text.Split

set_option autoImplicit false

namespace UpgradeScan

/-! ## 1. Closed lists of names

The wording of an unknown name differs between the lists, so it is part of the structure. The order
of `all` is the order of everything that is shown by name. -/

/-- A name outside its list, with the blanks around it cut off. -/
inductive UnknownName where
  | category (name : String)
  | confidence (name : String)
  deriving DecidableEq, Repr

/-- The wording of an unknown name. -/
def UnknownName.message : UnknownName → String
  | .category n => "unknown change type: " ++ n
  | .confidence n => "unknown indicator: " ++ n

/-- The tokens of a comma list. -/
def commaList (s : String) : List String :=
  (Text.fields ',' s.toList).map String.ofList

/-- The things of a closed list, in the order in which they are shown, with their names. -/
structure Names (α : Type) where
  all : List α
  name : α → String
  /-- What a text is called that is none of the names. -/
  unknown : String → UnknownName
  mem_all : ∀ c, c ∈ all
  nodup : all.Nodup
  nonempty : ∀ c, name c ≠ ""
  /-- Nothing that a reader of names cuts off or cuts at is in a name, in either case. -/
  plain : ∀ c, ((name c).toList.all fun x => !Text.isBlank x && x.toLower != ',') = true
  /-- No two names differ only in the case of ASCII letters. -/
  eq_of_lower : ∀ c d, Text.lower (name c).toList = Text.lower (name d).toList → c = d

namespace Names

variable {α : Type} (N : Names α)

/-- The thing of that name. -/
def ofName? (s : String) : Option α :=
  N.all.find? fun c => Text.sameLetters (N.name c) (Text.trimmed s)

/-- The thing of that name, or what is wrong with it. -/
def read (s : String) : Except UnknownName α :=
  match N.ofName? s with
  | some c => .ok c
  | none => .error (N.unknown (Text.trimmed s))

/-- The things that a comma list names, in the order of `all`. -/
def ofList [DecidableEq α] (s : String) : List α :=
  N.all.filter fun c => (commaList s).any fun t => N.ofName? t == some c

end Names

/-! ## 2. Categories

The four kinds of change, in the order in which lists of them are shown. The names are those of
reports, in capital letters. -/

/-- What a change does to code that uses the core. -/
inductive Category where
  | breaking
  | deprecation
  | important
  | feature
  deriving DecidableEq, Repr, Inhabited

namespace Category

/-- Every category, in the order in which lists are shown. -/
def all : List Category := [.breaking, .deprecation, .important, .feature]

/-- The name in reports. -/
def name : Category → String
  | .breaking => "BREAKING"
  | .deprecation => "DEPRECATION"
  | .important => "IMPORTANT"
  | .feature => "FEATURE"

/-- Every category is in the list. -/
theorem mem_all (c : Category) : c ∈ all := by cases c <;> decide

/-- The closed list of categories. -/
def names : Names Category where
  all := all
  name := name
  unknown := .category
  mem_all := mem_all
  nodup := by decide
  nonempty c := by cases c <;> decide
  plain c := by cases c <;> decide
  eq_of_lower c d := by cases c <;> cases d <;> decide

/-- The category of that name. -/
def ofName? : String → Option Category := names.ofName?

/-- The category of that name, or what is wrong with it. -/
def read : String → Except UnknownName Category := names.read

/-- The categories that a comma list names. -/
def ofList : String → List Category := names.ofList

end Category

/-! ## 3. Confidences

How sure a finding is, apart from what it is about. Any category can be found with either. -/

/-- How sure a finding is: a weak one may be a false alarm. -/
inductive Confidence where
  | strong
  | weak
  deriving DecidableEq, Repr, Inhabited

namespace Confidence

/-- Both confidences, the certain one first. -/
def all : List Confidence := [.strong, .weak]

/-- The name in reports. -/
def name : Confidence → String
  | .strong => "STRONG"
  | .weak => "WEAK"

/-- Every confidence is in the list. -/
theorem mem_all (c : Confidence) : c ∈ all := by cases c <;> decide

/-- The closed list of confidences. -/
def names : Names Confidence where
  all := all
  name := name
  unknown := .confidence
  mem_all := mem_all
  nodup := by decide
  nonempty c := by cases c <;> decide
  plain c := by cases c <;> decide
  eq_of_lower c d := by cases c <;> cases d <;> decide

/-- The confidence of that name. -/
def ofName? : String → Option Confidence := names.ofName?

/-- The confidence of that name, or what is wrong with it. -/
def read : String → Except UnknownName Confidence := names.read

/-- The confidences that a comma list names. -/
def ofList : String → List Confidence := names.ofList

end Confidence

end UpgradeScan
