/-
`Template/Render.lean` -- what a template makes of the data.

Rendering walks the elements in order. Blocks add a scope: where paths begin, values that the
block sets for its body, and names for them. Embedded templates are rendered by the same rules
one level deeper, so the walk itself is structural and only the depth of embedding is counted.
Templates may embed one another without end, so that count is what a rendering ends by at the
latest. It is not a limit of the language: how many levels there are is given from outside, having
more of them changes nothing but whether they are enough, and running out of them is no fault of
the template.

What an answer may depend on besides the data is a state that helpers read and change; it is
kept when rendering fails. Named arguments are the one thing that is gone through in no order of
its own: each time, the next order comes from outside as well.
-/
import UpgradeScan.Template.Chance
import UpgradeScan.Template.Fault
import UpgradeScan.Template.Parser
import UpgradeScan.Template.Value

set_option autoImplicit false

namespace UpgradeScan.Template

/-! ## 1. Scopes

What an element finds around it. The setting stays the same for a whole rendering, the place depends
on the blocks and templates around an element, and the progress goes on from element to element. -/

/-- What a name of a block stands for: the place where the scope begins, or a value. -/
inductive Binding where
  | place
  | value (v : Json)
  deriving Inhabited

/-- The surroundings of an element. -/
structure Scope where
  /-- The steps from the data to where paths begin. -/
  base : List String := []
  /-- The value where paths begin, when it is not part of the data. -/
  value : Option Json := none
  /-- Values that the block sets. -/
  own : List (String × Json) := []
  names : List (String × Binding) := []
  deriving Inhabited

/-- A value, and the steps to it when it is part of the data. -/
structure Valued where
  value : Json
  place : Option (List String) := none
  deriving Inhabited

/-- A helper: it takes its arguments, and answers with text, reading and changing the state. -/
abbrev Helper (σ : Type) := List Json → StateM σ String

/-- What stays the same while a template is rendered. -/
structure Setting (σ : Type) where
  data : Json
  /-- The templates that can be embedded. -/
  templates : String → Option (List Element)
  helpers : String → Option (Helper σ)

/-- Where an element stands. -/
structure Place where
  /-- Data that took the place of the first data. -/
  data : Option Json := none
  /-- The scopes, the innermost first. -/
  scopes : List Scope := [{}]
  indent : Option String := none
  /-- Bodies given to the templates around, the innermost first. -/
  bodies : List (List Element) := []
  /-- How many of them are already in use. -/
  bodyDepth : Nat := 0
  deriving Inhabited

/-- What changes while a template is rendered. -/
structure Progress (σ : Type) where
  state : σ
  /-- Templates defined on the way. -/
  defined : List (String × List Element) := []
  /-- The name of the template in work, as long as no block was entered. -/
  current : Option String := none
  /-- The orders of named arguments that are still to come up. -/
  orders : List Nat := []

/-- A rendering step. -/
abbrev Render (σ : Type) (α : Type) := ExceptT Interruption (StateM (Progress σ)) α

variable {σ : Type}

/-! ## 2. Paths

A path is first given an origin: a value that a block has set or named, or some place in the data.
Then its steps are followed. Of a value it is kept where in the data it stands, because a block
through it begins paths there. -/

/-- A natural number as it is written in a path: digits, perhaps after a plus sign. -/
def index? (s : String) : Option Nat :=
  match s.toList with
  | '+' :: ds => Number.natural? ds
  | ds => Number.natural? ds

/-- A step into an array. Where there is no such item there is no value, but a number of more than
64 bits is no index at all. -/
def itemAt (xs : List Json) (s : String) : Except RenderFault (Option Json) :=
  match index? s with
  | none => .error (.notAnIndex s)
  | some i =>
    match xs[i]? with
    | some x => .ok (some x)
    | none => if i < Nat.pow 2 64 then .ok none else .error (.notAnIndex s)

/-- The value at the end of some steps. A step into an array is a number; into anything that is
neither array nor object there is no step. -/
def follow : List String → Option Json → Except RenderFault (Option Json)
  | [], v => .ok v
  | s :: rest, v =>
    match v with
    | some (.array xs) =>
      match itemAt xs s with
      | .ok w => follow rest w
      | .error e => .error e
    | some (.object ms) => follow rest ((ms.find? fun m => m.1 == s).map (·.2))
    | _ => follow rest none

/-- The named steps. -/
def namesOf (steps : List Step) : List String :=
  steps.filterMap fun
    | .name s => some s
    | _ => none

/-- A value that a block set, counted outwards from the current block. -/
def ownOf? : List Step → Option (Nat × String)
  | .own :: rest =>
    let ups := rest.takeWhile (· == .up)
    match rest.drop ups.length with
    | .name s :: _ => some (ups.length, s)
    | _ => none
  | _ => none

/-- The first named step when only steps outwards come before it. -/
def leadingName? : List Step → Option String
  | .up :: rest => leadingName? rest
  | .name s :: _ => some s
  | _ => none

/-- The binding of a name in the nearest scope that has one, with where that scope begins. -/
def binding? (scopes : List Scope) (name : String) : Option (Binding × List String) :=
  scopes.findSome? fun sc => (sc.names.find? fun n => n.1 == name).map fun n => (n.2, sc.base)

/-- Where a path starts: at a value, or some steps into the data; and the steps to follow. -/
def origin (scopes : List Scope) (steps : List Step) : (Option Json × List String) × List String :=
  let names := namesOf steps
  let ups := (steps.takeWhile (· == .up)).length
  match (leadingName? steps).bind (binding? scopes) with
  | some (.value v, _) => ((some v, []), names.drop 1)
  | some (.place, base) => ((none, base), names.drop 1)
  | none =>
    let scope? := if 0 < ups then (scopes[ups]?).or scopes.head?
      else if steps.head? == some .root then none
      else scopes.head?
    match scope? with
    | none => ((none, []), names)
    | some sc =>
      match sc.value with
      | some v => ((some v, []), names)
      | none => ((none, sc.base), names)

/-- The value of a path. -/
def resolve (set : Setting σ) (here : Place) (steps : List Step) : Except RenderFault Valued :=
  match ownOf? steps with
  | some (level, name) =>
    let v := (here.scopes[level]?).bind fun sc => (sc.own.find? fun o => o.1 == name).map (·.2)
    .ok ⟨v.getD .null, none⟩
  | none =>
    match origin here.scopes steps with
    | ((some v, _), names) => do
      let w ← follow names (some v)
      return ⟨w.getD .null, none⟩
    | ((none, base), names) => do
      let path := base ++ names
      let w ← follow path (some (here.data.getD set.data))
      return ⟨w.getD .null, if here.data.isNone ∧ w.isSome then some path else none⟩

/-! ## 3. Helpers that answer with a value

Tests, comparisons and lookups, which any template can use, by their names. They are asked for when
no helper of the setting has the name. -/

/-- The argument at a position, which has to be there. -/
def need (args : List Valued) (i : Nat) : Except RenderFault Json :=
  match args[i]? with
  | some a => .ok a.value
  | none => .error .missingArgument

/-- A test of two values. -/
def ofTwo (f : Json → Json → Bool) (args : List Valued) : Except RenderFault Json := do
  let a ← need args 0
  let b ← need args 1
  return .bool (f a b)

/-- An item or a member, by a value that says which. -/
def lookupIn (v key : Json) : Json :=
  match v, key with
  | .array xs, .number (.natural n) => (xs[n]?).getD .null
  | .object ms, .string k => ((ms.find? fun m => m.1 == k).map (·.2)).getD .null
  | _, _ => .null

/-- The helpers that are always there and answer with a value. -/
def valueHelper? (name : String) : Option (List Valued → Except RenderFault Json) :=
  if name = "lookup" then some fun args => do
    let v ← need args 0
    let key ← need args 1
    return lookupIn v key
  else if name = "eq" then some (ofTwo same)
  else if name = "ne" then some (ofTwo fun a b => !same a b)
  else if name = "gt" then some (ofTwo fun a b => compareValues a b == some .gt)
  else if name = "gte" then
    some (ofTwo fun a b => compareValues a b == some .gt || compareValues a b == some .eq)
  else if name = "lt" then some (ofTwo fun a b => compareValues a b == some .lt)
  else if name = "lte" then
    some (ofTwo fun a b => compareValues a b == some .lt || compareValues a b == some .eq)
  else if name = "and" then some (ofTwo fun a b => holds false a && holds false b)
  else if name = "or" then some (ofTwo fun a b => holds false a || holds false b)
  else if name = "not" then some fun args => do
    let a ← need args 0
    return .bool (!holds false a)
  else if name = "len" then some fun args => do
    let a ← need args 0
    return Json.ofNat (sizeOf a)
  else none

/-- The helpers that are always there and work on a body. -/
def isBlockHelper (name : String) : Bool :=
  ["if", "unless", "each", "with", "raw", "log"].contains name

/-- A name that some helper has. -/
def isHelper (set : Setting σ) (name : String) : Bool :=
  isBlockHelper name || (valueHelper? name).isSome || (set.helpers name).isSome

/-- The levels of a message to the log. -/
def isLevel (v : Json) : Bool :=
  match v with
  | .string s => ["error", "warn", "info", "debug", "trace"].contains (Text.lowered s)
  | _ => true

/-! ## 4. Terms

Terms are evaluated from the left, and what has a name after what has none. Named terms are turned
into steps first, so that the steps can be put into the order of this time. -/

/-- A step that can only fail. -/
def lift {α : Type} (e : Except RenderFault α) : Render σ α := ExceptT.mk (pure (e.mapError .fault))

/-- A list in the order in which its parts are met this time. One part alone has no order. -/
def inSomeOrder {α : Type} (xs : List α) : Render σ (List α) :=
  if xs.length ≤ 1 then return xs
  else modifyGet fun p => (arrange (p.orders.headD 0) xs, { p with orders := p.orders.tail })

/-- A step of a helper. -/
def runHelper (h : Helper σ) (args : List Json) : Render σ String := do
  let p ← get
  let (s, st) := (h args).run p.state
  set { p with state := st }
  return s

/-- Steps one after the other, and what each gives under its name. -/
def runNamed : List (String × Render σ Valued) → Render σ (List (String × Json))
  | [] => return []
  | (k, m) :: ms => do
    let v ← m
    let vs ← runNamed ms
    return (k, v.value) :: vs

/-- The name in the first place of a tag, unless a call answers it. -/
def headText? : Term → Option String
  | .word s => some s
  | .path written _ => some written
  | .literal v => some (shown v)
  | .call _ _ _ => none

mutual

/-- The value of a term. -/
def evalTerm (set : Setting σ) (here : Place) : Term → Render σ Valued
  | .word _ => return ⟨.null, none⟩
  | .literal v => return ⟨v, none⟩
  | .path _ steps => lift (resolve set here steps)
  | .call head args named => do
    let name ← match headText? head with
      | some s => pure s
      | none => do
        let v ← evalTerm set here head
        pure (shown v.value)
    let args ← evalTerms set here args
    let steps ← inSomeOrder (namedSteps set here named)
    let named ← runNamed steps
    match set.helpers name with
    | some h =>
      let s ← runHelper h (args.map (·.value))
      return ⟨.string s, none⟩
    | none =>
      match valueHelper? name with
      | some f =>
        let v ← lift (f args)
        return ⟨v, none⟩
      | none =>
        if isBlockHelper name then do
          if (name != "log" && name != "raw") && args.isEmpty then throw (.fault .missingArgument)
          if name == "log" && !isLevel ((named.lookup "level").getD .null) then
            throw (.fault .unknownLevel)
          return ⟨.string "", none⟩
        else throw (.fault (.unknownHelper name))
termination_by structural t => t

/-- The values of terms, from the left. -/
def evalTerms (set : Setting σ) (here : Place) : List Term → Render σ (List Valued)
  | [] => return []
  | t :: ts => do
    let v ← evalTerm set here t
    let vs ← evalTerms set here ts
    return v :: vs
termination_by structural ts => ts

/-- Named terms, each as the step that gives its value. -/
def namedSteps (set : Setting σ) (here : Place) :
    List (String × Term) → List (String × Render σ Valued)
  | [] => []
  | (k, t) :: ts => (k, evalTerm set here t) :: namedSteps set here ts
termination_by structural ts => ts

end

/-- The values of named terms, in the order in which the terms are met. -/
def evalNamed (set : Setting σ) (here : Place) (ts : List (String × Term)) :
    Render σ (List (String × Json)) := do
  let steps ← inSomeOrder (namedSteps set here ts)
  runNamed steps

/-- The name that a term calls. -/
def calledName (set : Setting σ) (here : Place) (t : Term) : Render σ String :=
  match headText? t with
  | some s => return s
  | none => do
    let v ← evalTerm set here t
    return shown v.value

/-! ## 5. Text

An embedded template that stands indented on a line of its own gives its indentation to every line
of what it writes. -/

/-- Text with an indentation after each line end, except one at the very end. -/
def indented (indent : List Char) : List Char → List Char
  | [] => []
  | [c] => [c]
  | c :: d :: r =>
    if c = '\n' then c :: (indent ++ indented indent (d :: r)) else c :: indented indent (d :: r)

/-- Text as it is written at a place. -/
def write (here : Place) (s : String) : String :=
  match here.indent with
  | none => s
  | some i => String.ofList (indented i.toList s.toList)

/-! ## 6. Blocks

A block decides which of its two bodies is rendered, how often, and with which scope. The bodies are
given as functions of a place, so that blocks are defined before the elements inside of them. -/

/-- The scope that a value opens. -/
def Scope.of (v : Valued) : Scope :=
  match v.place with
  | some p => { base := p }
  | none => { value := some v.value }

/-- What the names of a block stand for: the value, then what it was found under. -/
def bindNames (names : List String) (v : Valued) (key : Json) : List (String × Binding) :=
  let value : Binding := match v.place with
    | some _ => .place
    | none => .value v.value
  match names with
  | [] => []
  | [a] => [(a, value)]
  | a :: b :: _ => [(a, value), (b, .value key)]

/-- The scope of one round through an array or an object of `size` parts. -/
def Scope.round (whole : Valued) (names : List String) (i size : Nat) (step : String) (key : Json)
    (own : List (String × Json)) (part : Json) : Scope :=
  let v : Valued := ⟨part, whole.place.map (· ++ [step])⟩
  { Scope.of v with
    own := [("first", .bool (i == 0)), ("last", .bool (i + 1 == size))] ++ own
    names := bindNames names v key }

/-- The scopes of all rounds through a value. -/
def rounds (whole : Valued) (names : List String) : List Scope :=
  match whole.value with
  | .array xs =>
    xs.zipIdx.map fun (x, i) =>
      Scope.round whole names i xs.length (String.ofList (Number.digits i)) (Json.ofNat i)
        [("index", Json.ofNat i)] x
  | .object ms =>
    ms.zipIdx.map fun ((k, x), i) =>
      Scope.round whole names i ms.length k (.string k) [("key", .string k)] x
  | _ => []

/-- Entering a body ends the work on the named template. -/
def enter : Render σ Unit := modify fun p => { p with current := none }

/-- What comes of a body in each of some scopes, one after the other. -/
def inScopes (body : Place → Render σ String) (here : Place) : List Scope → Render σ String
  | [] => return ""
  | sc :: scs => do
    enter
    let s ← body { here with scopes := sc :: here.scopes }
    let t ← inScopes body here scs
    return s ++ t

/-- A body in the scopes around it. -/
def inPlace (body : Place → Render σ String) (here : Place) (isEmpty : Bool) : Render σ String :=
  if isEmpty then return "" else do
    enter
    body here

/-- A block helper on its argument. -/
def renderBlock (name : String) (args : List Valued) (named : List (String × Json))
    (names : List String) (here : Place) (body otherwise : Place → Render σ String)
    (noBody noOtherwise : Bool) : Render σ String := do
  if name = "raw" then inPlace body here noBody
  else if name = "log" then
    if isLevel ((named.lookup "level").getD .null) then return "" else throw (.fault .unknownLevel)
  else
    match args.head? with
    | none => throw (.fault .missingArgument)
    | some v =>
      if name = "if" ∨ name = "unless" then
        let zero := (named.lookup "includeZero") == some (.bool true)
        if holds zero v.value == (name == "if") then inPlace body here noBody
        else inPlace otherwise here noOtherwise
      else if name = "with" then
        if holds false v.value then
          let sc := { Scope.of v with names := bindNames (names.take 1) v .null }
          if names.length ≤ 1 then inScopes body here [sc]
          else inScopes body here [Scope.of v]
        else inPlace otherwise here noOtherwise
      else
        match rounds v names with
        | [] => inPlace otherwise here noOtherwise
        | scs => if noBody then return "" else inScopes body here scs

/-! ## 7. Elements

Elements one after the other, and what an embedded template is. The step into one is a function that
is given (`deeper`), and `renderUpTo` gives it to itself with one level less. -/

/-- An object with further members; a value that is no object counts as an empty one. -/
def merge (base : Json) (more : List (String × Json)) : Json :=
  let ms := match base with
    | .object ms => ms
    | _ => []
  .object (more.foldl (fun acc m => Json.insertMember m.1 m.2 acc) ms)

/-- The template that an embedding means: one defined on the way, one of the collection, or
the body of the embedding itself. The name of the collection is kept. -/
def embedded? (set : Setting σ) (defined : List (String × List Element)) (here : Place)
    (name : String) (body : Option (List Element)) : Option (List Element × Option String) :=
  let own := if name = "@partial-block" then here.bodies[here.bodyDepth]? else defined.lookup name
  match own with
  | some es => some (es, none)
  | none =>
    match set.templates name with
    | some es => some (es, some name)
    | none => body.map (·, none)

/-- Where an embedded template is rendered. -/
def embedPlace (set : Setting σ) (here : Place) (name : String) (args : List Valued)
    (named : List (String × Json)) (indent : Option String) (body : Option (List Element)) :
    Except RenderFault Place := do
  let depth := if name = "@partial-block" then here.bodyDepth + 1 else here.bodyDepth - 1
  let scopes := match args.head?.bind (·.place) with
    | some p => [{ base := p }]
    | none => here.scopes
  let indent := match here.indent, indent with
    | some a, some b => some (a ++ b)
    | a, none => a
    | none, b => b
  let place :=
    { here with
      scopes := scopes, indent := indent, bodies := body.toList ++ here.bodies, bodyDepth := depth }
  if named.isEmpty then return place
  else
    let base ← match args.head? with
      | some v => pure v
      | none => resolve set here []
    return { place with data := some (merge base.value named), scopes := [{}] }

/-- Definitions of a body, made before the template that the body is given to is rendered. -/
def defineAll (set : Setting σ) (here : Place) : List Element → Render σ Unit
  | [] => return
  | .define c body :: es => do
    define c body
    defineAll set here es
  | _ :: es => defineAll set here es
where
  /-- One definition: its name is the first argument. -/
  define (c : Call) (body : Option (List Element)) : Render σ Unit := do
    let args ← evalTerms set here c.args
    let _ ← evalNamed set here c.named
    let name ← calledName set here c.head
    if name != "inline" then throw (.fault (.unknownDefinition name))
    match args.head? with
    | some ⟨.string n, _⟩ =>
      match body with
      | some es => modify fun p => { p with defined := (n, es) :: p.defined }
      | none => throw (.fault .bodyRequired)
    | _ => throw (.fault .missingArgument)

mutual

/-- What one element makes. `deeper` renders an embedded template. -/
def renderElement (set : Setting σ) (deeper : Place → List Element → Render σ String) :
    Element → Place → Render σ String
  | .text s, here => return write here s
  | .value c, here => do
    let bare := c.args.isEmpty && c.named.isEmpty
    let name ← calledName set here c.head
    if bare && !isHelper set name then
      let v ← evalTerm set here c.head
      return write here (shown v.value)
    else
      let args ← evalTerms set here c.args
      let named ← evalNamed set here c.named
      match set.helpers name with
      | some h => runHelper h (args.map (·.value))
      | none =>
        match valueHelper? name with
        | some f =>
          let v ← lift (f args)
          return write here (shown v)
        | none =>
          if isBlockHelper name then
            renderBlock name args named [] here (fun _ => return "") (fun _ => return "") true true
          else throw (.fault (.unknownHelper name))
  | .block c names body otherwise, here => do
    let name ← calledName set here c.head
    let args ← evalTerms set here c.args
    let named ← evalNamed set here c.named
    match set.helpers name with
    | some h => runHelper h (args.map (·.value))
    | none =>
      match valueHelper? name with
      | some f =>
        let v ← lift (f args)
        return write here (shown v)
      | none =>
        if isBlockHelper name then
          renderBlock name args named names here (renderElements set deeper body)
            (renderElements set deeper otherwise) body.isEmpty otherwise.isEmpty
        else throw (.fault (.unknownHelper name))
  | .embed c indent body, here => do
    let name ← calledName set here c.head
    let args ← evalTerms set here c.args
    let named ← evalNamed set here c.named
    defineAll set here (body.getD [])
    let before := (← get).current
    if before == some name then throw (.fault .embedsItself)
    match embedded? set (← get).defined here name body with
    | none => throw (.fault (.unknownTemplate name))
    | some (es, current) =>
      let met ← inSomeOrder named
      let place ← lift (embedPlace set here name args met indent body)
      modify fun p => { p with current := current }
      let s ← deeper place es
      modify fun p => { p with current := before }
      return s
  | .define c body, here => do
    defineAll.define set here c body
    return ""
termination_by structural e => e

/-- What elements make, one after the other. -/
def renderElements (set : Setting σ) (deeper : Place → List Element → Render σ String) :
    List Element → Place → Render σ String
  | [], _ => return ""
  | e :: es, here => do
    let s ← renderElement set deeper e here
    let t ← renderElements set deeper es here
    return s ++ t
termination_by structural es => es

end

/-- Rendering with room for `n` templates embedded in one another. -/
def renderUpTo (set : Setting σ) : Nat → Place → List Element → Render σ String
  | 0, here, es => renderElements set (fun _ _ => throw .exhausted) es here
  | n + 1, here, es => renderElements set (renderUpTo set n) es here

/-- What a template of that name makes of the data, and the state after it. -/
def run (set : Setting σ) (chance : Chance) (name : String) (es : List Element) (state : σ) :
    Except Interruption String × σ :=
  let start : Progress σ := { state := state, current := some name, orders := chance.orders }
  let (r, p) := (renderUpTo set chance.levels {} es).run start
  (r, p.state)

end UpgradeScan.Template
