/-
`Proofs/Template/Render.lean` -- what elements write, one rule for each kind.

Rendering threads a state that only helpers touch. So a rule says two things at once: what an
element writes, and that a property of the state which the helpers keep is kept by the element.
Where an element stands matters only through the value that paths begin at there. A block that goes
through a list is then a matter of its body at any place that sees one of the items, whatever the
indices and scopes are by which it is found.

A layout that is known is followed by these rules from its outside in, and what it writes is put
together on the way. `Puts` is the statement for one element and `Writes` for several. Both speak of
every way to go on with embedded templates, and a layout without any never asks for it, so neither
the room on the stack nor the order of named arguments comes into a rule.

The renderer follows a path by looking through the scopes around, each with a base path into the
data, local values, and names given to the round. Of all that a rule needs one thing. `Sees` says
that paths begin at a certain value, and that no name has been given a meaning of its own. It holds
where a rendering begins (`Sees.start`), and it holds again in every scope that begins at a part of
the data (`Sees.inner`), so in each round through a list or an object.

The rules cover text, values, answers of helpers, and blocks through arrays and objects. They are
rules for renderings that succeed; what happens when one fails is a matter of whole renderings, and
is looked at where two of them are compared.
-/
import UpgradeScan.Proofs.Number.Natural
import UpgradeScan.Template.Render
import Mathlib.Data.List.Forall2

set_option autoImplicit false

namespace UpgradeScan.Template

variable {σ α β : Type}

/-! ## 1. Steps that succeed

A step gives a value from all states with a property, and keeps the property. Such steps follow one
another, and a helper is one of them when its answer is known for these states. -/

/-- One step after the other: the second one is made if the first one succeeds. -/
theorem run_bind (m : Render σ α) (f : α → Render σ β) (p : Progress σ) :
    (m >>= f).run p = match m.run p with
      | (.ok a, p') => (f a).run p'
      | (.error e, p') => (.error e, p') := by
  have hseq {γ δ : Type} (x : StateM (Progress σ) γ) (g : γ → StateM (Progress σ) δ) :
      (x >>= g) p = g (x p).1 (x p).2 := rfl
  rw [ExceptT.run_bind, hseq]
  rcases m.run p with ⟨_ | a, p'⟩ <;> rfl

/-- From every state with the property, the step gives this, and the property holds again. -/
def Gives (inv : σ → Prop) (m : Render σ α) (a : α) : Prop :=
  ∀ p : Progress σ, inv p.state → ∃ p', m.run p = (.ok a, p') ∧ inv p'.state

/-- From every state with the property, the helper gives this answer to these arguments, and the
property holds again. -/
def Answers (inv : σ → Prop) (h : Helper σ) (args : List Json) (text : String) : Prop :=
  ∀ s, inv s → ((h args).run s).1 = text ∧ inv ((h args).run s).2

section

variable {inv : σ → Prop}

/-- A value at hand. -/
theorem Gives.pure (a : α) : Gives inv (pure a : Render σ α) a := fun p h => ⟨p, rfl, h⟩

/-- One step after the other. -/
theorem Gives.bind {m : Render σ α} {f : α → Render σ β} {a : α} {b : β} (hm : Gives inv m a)
    (hf : Gives inv (f a) b) : Gives inv (m >>= f) b := by
  intro p h
  obtain ⟨p', hp', h'⟩ := hm p h
  obtain ⟨p'', hp'', h''⟩ := hf p' h'
  exact ⟨p'', by rw [run_bind, hp', ← hp''], h''⟩

theorem Gives.lift {e : Except RenderFault α} {a : α} (h : e = .ok a) :
    Gives inv (lift e) a := by
  subst h
  exact .pure a

theorem Gives.enter : Gives inv (enter : Render σ Unit) () := fun _ h => ⟨_, rfl, h⟩

/-- A helper gives its answer. -/
theorem Gives.runHelper {h : Helper σ} {args : List Json} {text : String}
    (ha : Answers inv h args text) : Gives inv (runHelper h args) text := by
  intro p hp
  obtain ⟨htext, hinv⟩ := ha p.state hp
  refine ⟨{ p with state := ((h args).run p.state).2 }, ?_, hinv⟩
  rw [← htext]
  rfl

end

/-! ## 2. Where paths begin

Paths are followed through the data by their names. A path that begins somewhere inside is the path
to that place and then the rest (`follow_append`), so a rule for a path at a place is one for the
value that is seen there. -/

/-- The digits of a number are read as that number where an index is expected. -/
theorem index?_digits (n : Nat) : index? (String.ofList (Number.digits n)) = some n := by
  rw [index?, String.toList_ofList]
  split
  · next hplus =>
    have hmem : '+' ∈ Number.digits n := by simp [hplus]
    exact absurd (Number.isDigit_of_mem_digits hmem) (by decide)
  · exact Number.natural?_digits n

/-- A step by the number of an item leads to the item. -/
theorem itemAt_digits {xs : List Json} {n : Nat} {x : Json} (h : xs[n]? = some x) :
    itemAt xs (String.ofList (Number.digits n)) = .ok (some x) := by
  simp only [itemAt, index?_digits, h]

/-- A path is followed in two parts. -/
theorem follow_append (first rest : List String) (v : Option Json) :
    follow (first ++ rest) v = follow first v >>= follow rest := by
  induction first generalizing v with
  | nil => rfl
  | cons s first ih =>
    rw [List.cons_append]
    match v with
    | some (.array xs) =>
      simp only [follow]
      cases itemAt xs s with
      | error e => rfl
      | ok w => exact ih _
    | some (.object ms) => exact ih _
    | none | some .null | some (.bool _) | some (.number _) | some (.string _) => exact ih none

/-- A path is followed from where its first part leads to. -/
theorem follow_append_of_ok {first : List String} {v w : Option Json}
    (h : follow first v = .ok w) (rest : List String) :
    follow (first ++ rest) v = follow rest w := by
  rw [follow_append, h]
  rfl

/-- Where the names are different, a member is found by its name. -/
theorem find?_of_nodup {ms : List (String × Json)} (h : (ms.map (·.1)).Nodup)
    {m : String × Json} (hm : m ∈ ms) : ms.find? (fun n => n.1 == m.1) = some m := by
  have hpair : ms.Pairwise fun a b => a.1 ≠ b.1 := List.pairwise_map.mp h
  obtain ⟨before, rest, rfl⟩ := List.append_of_mem hm
  refine List.find?_eq_some_iff_append.mpr ⟨beq_self_eq_true _, before, rest, rfl, fun n hn => ?_⟩
  have hne : n.1 ≠ m.1 := (List.pairwise_append.mp hpair).2.2 n hn m (List.mem_cons_self ..)
  simpa using hne

/-- At this place paths begin at this value of the data, no name has a meaning of its own, and
nothing is indented. -/
structure Sees (set : Setting σ) (here : Place) (v : Json) : Prop where
  data : here.data = none
  indent : here.indent = none
  focus : ∃ sc rest, here.scopes = sc :: rest ∧ sc.value = none ∧
    follow sc.base (some set.data) = .ok (some v)
  unnamed : ∀ sc ∈ here.scopes, sc.names = []

/-- A value that the nearest block sets. -/
def Place.own? (here : Place) (name : String) : Option Json :=
  here.scopes.head?.bind fun sc => (sc.own.find? fun o => o.1 == name).map (·.2)

/-- The term is a path to this value. -/
inductive Means (set : Setting σ) (here : Place) : Term → Json → Prop
  | path {written : String} {steps : List Step} {v : Json} {place : Option (List String)}
      (h : resolve set here steps = .ok ⟨v, place⟩) : Means set here (.path written steps) v

section

variable {set : Setting σ} {here : Place} {v w : Json} {names : List String} {written : String}

/-- A rendering begins with the whole data in sight. -/
theorem Sees.start : Sees set {} set.data where
  data := rfl
  indent := rfl
  focus := ⟨{}, [], rfl, rfl, rfl⟩
  unnamed := by simp

/-- No name has a meaning of its own. -/
theorem Sees.no_binding (h : Sees set here v) (name : String) :
    binding? here.scopes name = none := by
  rw [binding?, List.findSome?_eq_none_iff]
  intro sc hsc
  rw [h.unnamed sc hsc]
  rfl

/-- The names of a path that is made of names. -/
theorem namesOf_map (names : List String) : namesOf (names.map .name) = names := by
  induction names with
  | nil => rfl
  | cons s names ih => rw [List.map_cons, namesOf, List.filterMap_cons, ← namesOf, ih]

/-- A path that begins here leads into the data. -/
theorem Sees.resolve (h : Sees set here v) (hw : follow names (some v) = .ok (some w)) :
    ∃ path, resolve set here (names.map .name) = .ok ⟨w, some path⟩ ∧
      follow path (some set.data) = .ok (some w) := by
  obtain ⟨sc, rest, hscopes, hvalue, hbase⟩ := h.focus
  have howed : ownOf? (names.map .name) = none := by cases names <;> rfl
  have hleading : (leadingName? (names.map .name)).bind (binding? here.scopes) = none := by
    cases names with
    | nil => rfl
    | cons s names => exact h.no_binding s
  have hups : ((names.map Step.name).takeWhile (· == .up)).length = 0 := by
    cases names <;> rfl
  have hroot : ((names.map Step.name).head? == some .root) = false := by
    cases names <;> rfl
  have horigin : origin here.scopes (names.map .name) = ((none, sc.base), names) := by
    rw [hscopes] at hleading ⊢
    simp only [origin, hleading, hups, hroot, namesOf_map, hvalue, Nat.lt_irrefl, if_false,
      List.head?_cons, Bool.false_eq_true]
  have hfollow : follow (sc.base ++ names) (some set.data) = .ok (some w) :=
    (follow_append_of_ok hbase names).trans hw
  refine ⟨sc.base ++ names, ?_, hfollow⟩
  simp only [Template.resolve, howed, horigin, h.data, Option.getD_none, hfollow]
  rfl

/-- A path of names means the value at its end. -/
theorem Sees.means (h : Sees set here v) (hw : follow names (some v) = .ok (some w)) :
    Means set here (.path written (names.map .name)) w := by
  obtain ⟨path, hpath, -⟩ := h.resolve hw
  exact .path hpath

/-- A path from the root leads into the data from everywhere. -/
theorem Sees.means_root (h : Sees set here v)
    (hw : follow names (some set.data) = .ok (some w)) :
    Means set here (.path written (.root :: names.map .name)) w := by
  have hnames : namesOf (.root :: names.map .name) = names := namesOf_map names
  have horigin : origin here.scopes (.root :: names.map .name) = ((none, []), names) := by
    simp only [origin, hnames]
    rfl
  have howed : ownOf? (.root :: names.map .name) = none := rfl
  have hresolve : Template.resolve set here (.root :: names.map .name) = .ok ⟨w, some names⟩ := by
    simp only [Template.resolve, howed, horigin, h.data, Option.getD_none, List.nil_append, hw]
    rfl
  exact .path hresolve

/-- A name that the block sets means the value that it sets. -/
theorem Means.own {name : String} (h : here.own? name = some v) :
    Means set here (.path written [.own, .name name]) v := by
  have howed : ownOf? [.own, .name name] = some (0, name) := rfl
  have hvalue : ((here.scopes[0]?).bind fun sc =>
      (sc.own.find? fun o => o.1 == name).map (·.2)) = some v := by
    rw [← List.head?_eq_getElem?]
    exact h
  have hresolve : resolve set here [.own, .name name] = .ok ⟨v, none⟩ := by
    simp only [resolve, howed, hvalue, Option.getD_some]
  exact .path hresolve

/-- In a scope that begins at a part of the data, paths begin at that part. -/
theorem Sees.inner (h : Sees set here v) {sc : Scope} (hvalue : sc.value = none)
    (hnames : sc.names = []) (hbase : follow sc.base (some set.data) = .ok (some w)) :
    Sees set { here with scopes := sc :: here.scopes } w where
  data := h.data
  indent := h.indent
  focus := ⟨sc, here.scopes, rfl, hvalue, hbase⟩
  unnamed := by
    intro sc' hsc'
    rcases List.mem_cons.mp hsc' with rfl | hsc'
    · exact hnames
    · exact h.unnamed sc' hsc'

end

/-! ## 3. Tags

The forms of tags that the rules are about, with a name for each, so that a layout can be compared
with them as a whole. -/

/-- A path to a member of the value at hand. -/
def Term.member (name : String) : Term := .path name [.name name]

/-- A tag for a member of the value at hand. -/
def Element.member (name : String) : Element := .value ⟨.member name, [], []⟩

/-- A tag for what a helper answers. -/
def Element.answer (helper : String) (args : List Term) : Element :=
  .value ⟨.word helper, args, []⟩

/-- A block through the value at the end of some names. -/
def Element.each (written : String) (names : List String) (body : List Element) : Element :=
  .block ⟨.word "each", [.path written (names.map .name)], []⟩ [] body []

/-- The name of a member means the member. -/
theorem Sees.means_member {set : Setting σ} {here : Place} {v w : Json} (h : Sees set here v)
    {name : String} (hw : v.member? name = some w) : Means set here (.member name) w := by
  have hfollow : follow [name] (some v) = .ok (some w) := by
    cases v with
    | object ms => exact congrArg Except.ok hw
    | null | bool _ | number _ | string _ | array _ => cases hw
  exact h.means hfollow

/-! ## 4. What an element writes

One rule for each kind of element. Rules for blocks have a premise about the body at every place
that sees a part of the value, and the text they write is put together from the parts in order. -/

/-- At this place the element writes this text, whatever embedded templates do. -/
def Puts (set : Setting σ) (inv : σ → Prop) (here : Place) (e : Element) (text : String) : Prop :=
  ∀ deeper, Gives inv (renderElement set deeper e here) text

/-- At this place the elements write this text, one after the other. -/
def Writes (set : Setting σ) (inv : σ → Prop) (here : Place) (es : List Element)
    (text : String) : Prop :=
  ∀ deeper, Gives inv (renderElements set deeper es here) text

section

variable {set : Setting σ} {inv : σ → Prop} {here : Place} {v w : Json}

/-- Nothing writes nothing. -/
theorem Writes.nil : Writes set inv here [] "" := fun _ => .pure ""

/-- One element and the elements after it. -/
theorem Writes.cons {e : Element} {es : List Element} {s t : String}
    (he : Puts set inv here e s) (hes : Writes set inv here es t) :
    Writes set inv here (e :: es) (s ++ t) := by
  intro deeper
  rw [renderElements]
  exact (he deeper).bind ((hes deeper).bind (.pure _))

/-- Where nothing is indented a text is written as it is. -/
theorem Sees.write (h : Sees set here v) (s : String) : write here s = s := by
  rw [Template.write, h.indent]

/-- Text is written as it is. -/
theorem Sees.puts_text (h : Sees set here v) (s : String) : Puts set inv here (.text s) s := by
  intro deeper
  rw [renderElement, h.write]
  exact .pure s

/-- A term gives the value that it means. -/
theorem Means.gives (inv : σ → Prop) {t : Term} (h : Means set here t v) :
    ∃ place, Gives inv (evalTerm set here t) ⟨v, place⟩ := by
  cases h with
  | path h => exact ⟨_, .lift h⟩

/-- Terms give the values that they mean, one after the other. -/
theorem Means.givesTerms (inv : σ → Prop) {ts : List Term} {vs : List Json}
    (h : List.Forall₂ (Means set here) ts vs) :
    ∃ ws : List Valued, Gives inv (evalTerms set here ts) ws ∧ ws.map (·.value) = vs := by
  induction h with
  | nil => exact ⟨[], .pure [], rfl⟩
  | @cons t v ts vs ht _ ih =>
    obtain ⟨place, hplace⟩ := ht.gives inv
    obtain ⟨ws, hws, rfl⟩ := ih
    refine ⟨⟨v, place⟩ :: ws, ?_, rfl⟩
    rw [evalTerms]
    exact hplace.bind (hws.bind (.pure _))

/-- A path whose text is no helper shows its value. -/
theorem Sees.puts_value (h : Sees set here v) {written : String} {steps : List Step}
    (hname : isHelper set written = false) (hw : Means set here (.path written steps) w) :
    Puts set inv here (.value ⟨.path written steps, [], []⟩) (shown w) := by
  intro deeper
  obtain ⟨place, hplace⟩ := hw.gives inv
  have hbare : (([] : List Term).isEmpty && ([] : List (String × Term)).isEmpty &&
      !isHelper set written) = true := by
    rw [hname]
    rfl
  rw [renderElement]
  refine (Gives.pure written).bind ?_
  simp only [hbare, if_true]
  refine hplace.bind ?_
  rw [h.write]
  exact .pure _

/-- A tag for a member shows it. -/
theorem Sees.puts_member (h : Sees set here v) {name : String} (hname : isHelper set name = false)
    (hw : v.member? name = some w) : Puts set inv here (.member name) (shown w) :=
  h.puts_value hname (h.means_member hw)

/-- A tag for a member that is a text writes the text. -/
theorem Sees.puts_string (h : Sees set here v) {name s : String}
    (hname : isHelper set name = false) (hw : v.member? name = some (.string s)) :
    Puts set inv here (.member name) s :=
  h.puts_member hname hw

/-- A tag for a member that is a number writes its digits. -/
theorem Sees.puts_number (h : Sees set here v) {name : String} {n : JsonNumber}
    (hname : isHelper set name = false) (hw : v.member? name = some (.number n)) :
    Puts set inv here (.member name) (String.ofList n.text) :=
  h.puts_member hname hw

/-- A helper with arguments puts its answer. -/
theorem Puts.answer {name : String} {f : Helper σ} {args : List Term} {vs : List Json}
    {text : String} (hf : set.helpers name = some f) (hne : args ≠ [])
    (hargs : List.Forall₂ (Means set here) args vs) (htext : Answers inv f vs text) :
    Puts set inv here (.answer name args) text := by
  intro deeper
  obtain ⟨ws, hws, rfl⟩ := Means.givesTerms inv hargs
  have hbare : (args.isEmpty && ([] : List (String × Term)).isEmpty && !isHelper set name) =
      false := by
    cases args with
    | nil => exact absurd rfl hne
    | cons t ts => rfl
  rw [Element.answer, renderElement]
  refine (Gives.pure name).bind ?_
  simp only [hbare, Bool.false_eq_true, if_false]
  refine hws.bind ((Gives.pure []).bind ?_)
  simp only [hf]
  exact .runHelper htext

/-- A body in one scope after the other. -/
theorem Gives.inScopes {body : Place → Render σ String} {parts : List α} {scope : α → Scope}
    {f : α → String}
    (h : ∀ x ∈ parts, Gives inv (body { here with scopes := scope x :: here.scopes }) (f x)) :
    Gives inv (inScopes body here (parts.map scope)) (String.join (parts.map f)) := by
  induction parts with
  | nil => exact .pure ""
  | cons x parts ih =>
    rw [List.map_cons, List.map_cons, String.join_cons]
    refine Gives.enter.bind ((h x (List.mem_cons_self ..)).bind ?_)
    exact (ih fun y hy => h y (List.mem_cons_of_mem x hy)).bind (.pure _)

/-- A block without rounds writes nothing. -/
theorem renderBlock_each_nil {v : Valued} {names : List String} {noBody : Bool}
    {body otherwise : Place → Render σ String} (h : rounds v names = []) :
    renderBlock "each" [v] [] names here body otherwise noBody true = pure "" := by
  unfold renderBlock
  simp [h, inPlace]

/-- A block with rounds goes through them. -/
theorem renderBlock_each_cons {v : Valued} {names : List String} {noOtherwise : Bool}
    {body otherwise : Place → Render σ String} {sc : Scope} {scs : List Scope}
    (h : rounds v names = sc :: scs) :
    renderBlock "each" [v] [] names here body otherwise false noOtherwise =
      inScopes body here (sc :: scs) := by
  unfold renderBlock
  simp [h]

/-- A block through the parts of a value puts what its body writes in the scope of each. -/
theorem Puts.each {written : String} {names : List String} {whole : Valued} {body : List Element}
    {parts : List α} {scope : α → Scope} {f : α → String}
    (hhelpers : set.helpers "each" = none) (hbody : body ≠ [])
    (hwhole : resolve set here (names.map .name) = .ok whole)
    (hrounds : rounds whole [] = parts.map scope)
    (h : ∀ x ∈ parts,
      Writes set inv { here with scopes := scope x :: here.scopes } body (f x)) :
    Puts set inv here (.each written names body) (String.join (parts.map f)) := by
  intro deeper
  have hargs : Gives inv (evalTerms set here [.path written (names.map .name)]) [whole] := by
    rw [evalTerms]
    exact (Gives.lift hwhole).bind (.pure _)
  have hnobody : body.isEmpty = false := by
    cases body with
    | nil => exact absurd rfl hbody
    | cons e es => rfl
  rw [Element.each, renderElement]
  refine (Gives.pure "each").bind (hargs.bind ((Gives.pure []).bind ?_))
  have hvalue : valueHelper? "each" = none := rfl
  have hblock : isBlockHelper "each" = true := rfl
  simp only [hhelpers, hvalue, hblock, if_true]
  have hscopes := Gives.inScopes fun x hx => h x hx deeper
  cases parts with
  | nil =>
    rw [List.isEmpty_nil, renderBlock_each_nil hrounds]
    exact .pure ""
  | cons x parts =>
    rw [hnobody, renderBlock_each_cons hrounds]
    exact hscopes

theorem map_zipIdx_fst (f : α → β) (xs : List α) : (xs.zipIdx.map fun e => f e.1) = xs.map f := by
  rw [← Function.comp_def, ← List.map_map, List.zipIdx_map_fst]

/-- A block through an array: its body at each place that sees an item. -/
theorem Sees.puts_each_array (h : Sees set here v) {written : String} {names : List String}
    {items : List α} {toJson : α → Json} {body : List Element} {f : α → String}
    (hhelpers : set.helpers "each" = none) (hbody : body ≠ [])
    (hitems : follow names (some v) = .ok (some (.array (items.map toJson))))
    (hwrites : ∀ x ∈ items, ∀ there, Sees set there (toJson x) →
      Writes set inv there body (f x)) :
    Puts set inv here (.each written names body) (String.join (items.map f)) := by
  obtain ⟨path, hpath, hfollow⟩ := h.resolve hitems
  have hrounds : rounds ⟨.array (items.map toJson), some path⟩ [] = items.zipIdx.map fun e =>
      Scope.round ⟨.array (items.map toJson), some path⟩ [] e.2 (items.map toJson).length
        (String.ofList (Number.digits e.2)) (Json.ofNat e.2) [("index", Json.ofNat e.2)]
        (toJson e.1) := by
    simp only [rounds, List.zipIdx_map, List.map_map]
    rfl
  rw [← map_zipIdx_fst]
  refine .each hhelpers hbody hpath hrounds ?_
  rintro ⟨x, i⟩ hx
  have hitem : items[i]? = some x := List.mem_zipIdx_iff_getElem?.mp hx
  refine hwrites x (List.mem_of_getElem? hitem) _ (h.inner rfl rfl ?_)
  refine (follow_append_of_ok hfollow [String.ofList (Number.digits i)]).trans ?_
  have hjson : (items.map toJson)[i]? = some (toJson x) := by rw [List.getElem?_map, hitem]; rfl
  simp only [follow, itemAt_digits hjson]

/-- A block through an object whose names are different: its body at each place that sees a value
and the name of it. -/
theorem Sees.puts_each_object (h : Sees set here v) {written : String} {names : List String}
    {ms : List (String × Json)} {body : List Element} {f : String × Json → String}
    (hhelpers : set.helpers "each" = none) (hbody : body ≠ [])
    (hms : follow names (some v) = .ok (some (.object ms))) (hnodup : (ms.map (·.1)).Nodup)
    (hwrites : ∀ m ∈ ms, ∀ there : Place, Sees set there m.2 →
      there.own? "key" = some (.string m.1) → Writes set inv there body (f m)) :
    Puts set inv here (.each written names body) (String.join (ms.map f)) := by
  obtain ⟨path, hpath, hfollow⟩ := h.resolve hms
  have hrounds : rounds ⟨.object ms, some path⟩ [] = ms.zipIdx.map fun e =>
      Scope.round ⟨.object ms, some path⟩ [] e.2 ms.length e.1.1 (.string e.1.1)
        [("key", .string e.1.1)] e.1.2 := rfl
  rw [← map_zipIdx_fst]
  refine .each hhelpers hbody hpath hrounds ?_
  rintro ⟨m, i⟩ hx
  have hm : m ∈ ms := List.mem_of_getElem? (List.mem_zipIdx_iff_getElem?.mp hx)
  refine hwrites m hm _ (h.inner rfl rfl ?_) rfl
  refine (follow_append_of_ok hfollow [m.1]).trans ?_
  simp only [follow, find?_of_nodup hnodup hm, Option.map_some]

/-- Elements that write a text make a template that gives the text, whatever comes up. -/
theorem Writes.run {es : List Element} {text : String} (h : Writes set inv {} es text)
    (chance : Chance) (name : String) {state : σ} (hstate : inv state) :
    ∃ after, run set chance name es state = (.ok text, after) ∧ inv after := by
  let start : Progress σ := { state := state, current := some name, orders := chance.orders }
  -- the elements embed nothing, so they write their text with whatever room there is below them
  have hlevel : ∃ deeper, renderUpTo set chance.levels {} es = renderElements set deeper es {} := by
    cases chance.levels with
    | zero => exact ⟨_, rfl⟩
    | succ n => exact ⟨_, rfl⟩
  obtain ⟨deeper, hdeeper⟩ := hlevel
  obtain ⟨p, hp, hinv⟩ := h deeper start hstate
  refine ⟨p.state, ?_, hinv⟩
  rw [Template.run, hdeeper, hp]

end

end UpgradeScan.Template
