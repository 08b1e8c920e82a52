/-
`Proofs/Template/Alike.lean` -- two renderings side by side.

Three things that a rendering depends on are not in its template or its data: the state that helpers
look at, the room that the stack has, and the orders in which named arguments are met. Here a
template is rendered twice, with some of these three different, and the question is what shows.

* States may differ in what no helper can tell apart. That shows nowhere.
* The first rendering may have less room. It can run out of it, and that is all that shows.
* The orders may differ. Where the template is settled, that shows nowhere.

All three are one argument. A step of one rendering and the step of the other respect the difference
when they give the same and leave the two equally far again, or when the first one ran out of room
and was allowed to. Steps that do make steps that do, also where one of them fails. So it comes down
to one case for each kind of term and of element, for templates of any shape, and to an induction on
the room for the templates that they embed.
-/
import UpgradeScan.Proofs.Template.Order
import UpgradeScan.Proofs.Template.Render

set_option autoImplicit false

namespace UpgradeScan.Template

variable {σ α β : Type}

/-! ## 1. Steps that respect a difference

What two renderings may differ in is fixed once. What they have in common at each point is the rest:
how far they have come, and, where orders may differ, that nothing is left for an order to decide.
-/

/-- What two renderings may differ in. -/
structure Difference (σ : Type) where
  /-- States that no helper may tell apart. -/
  states : σ → σ → Prop
  /-- The first rendering may have less room. -/
  room : Prop
  /-- Named arguments may be met in other orders. -/
  orders : Prop

/-- Two renderings have come equally far. -/
structure Progress.Alike (D : Difference σ) (p q : Progress σ) : Prop where
  state : D.states p.state q.state
  defined : p.defined = q.defined
  current : p.current = q.current
  orders : p.orders = q.orders ∨ D.orders
  settled : D.orders → ∀ t ∈ p.defined, elementsSettled t.2 = true

/-- From where two renderings have come equally far, both steps give the same or fail for the same
reason, and have come equally far again. Where this is part of the difference, the first one may run
out of room instead. -/
def Respects (D : Difference σ) (m m' : Render σ α) : Prop :=
  ∀ p q : Progress σ, p.Alike D q →
    (D.room ∧ (m.run p).1 = .error .exhausted) ∨
    ((m.run p).1 = (m'.run q).1 ∧ (m.run p).2.Alike D (m'.run q).2)

/-- In states that are related the helper answers the same to the same arguments, and leaves states
that are related. -/
def Helper.Respects (R : σ → σ → Prop) (h : Helper σ) : Prop :=
  ∀ args s t, R s t → ((h args).run s).1 = ((h args).run t).1 ∧
    R ((h args).run s).2 ((h args).run t).2

/-- No helper can tell apart what may differ, and templates leave nothing to orders that may. -/
structure Setting.Respects (D : Difference σ) (set : Setting σ) : Prop where
  helpers : ∀ name h, set.helpers name = some h → h.Respects D.states
  templates : D.orders → ∀ name es, set.templates name = some es → elementsSettled es = true

/-- The bodies given to the templates around leave nothing to an order. -/
def Place.isSettled (here : Place) : Bool := here.bodies.all elementsSettled

section

variable {D : Difference σ} {m m' : Render σ α}

/-- A value at hand. -/
theorem Respects.pure (a : α) : Respects D (pure a : Render σ α) (pure a) :=
  fun _ _ h => .inr ⟨rfl, h⟩

theorem Respects.throw (i : Interruption) : Respects D (throw i : Render σ α) (throw i) :=
  fun _ _ h => .inr ⟨rfl, h⟩

/-- Running out of room respects every difference that allows it. -/
theorem Respects.exhausted (h : D.room) : Respects D (MonadExcept.throw .exhausted) m :=
  fun _ _ _ => .inl ⟨h, rfl⟩

theorem Respects.lift (e : Except RenderFault α) : Respects D (lift e : Render σ α) (lift e) := by
  cases e with
  | error e => exact .throw _
  | ok a => exact .pure a

/-- One step after the other, where something is known of what the first one gives. -/
theorem Respects.bind_of {P : α → Prop} {f f' : α → Render σ β} (hm : Respects D m m')
    (hP : ∀ p a, (m.run p).1 = .ok a → P a) (hf : ∀ a, P a → Respects D (f a) (f' a)) :
    Respects D (m >>= f) (m' >>= f') := by
  intro p q h
  have hstep := hm p q h
  have hgives := hP p
  rw [run_bind, run_bind]
  rcases hp : m.run p with ⟨r, p'⟩
  rcases hq : m'.run q with ⟨r', q'⟩
  rw [hp] at hgives
  rw [hp, hq] at hstep
  rcases hstep with ⟨hroom, hfull⟩ | ⟨hresult, hafter⟩
  · obtain rfl : r = .error .exhausted := hfull
    exact .inl ⟨hroom, rfl⟩
  · obtain rfl : r = r' := hresult
    cases r with
    | error e => exact .inr ⟨rfl, hafter⟩
    | ok a => exact hf a (hgives a rfl) p' q' hafter

theorem Respects.bind {f f' : α → Render σ β} (hm : Respects D m m')
    (hf : ∀ a, Respects D (f a) (f' a)) : Respects D (m >>= f) (m' >>= f') :=
  hm.bind_of (P := fun _ => True) (fun _ _ _ => trivial) fun a _ => hf a

/-- A choice that both renderings make alike. -/
theorem Respects.ite {c : Prop} [Decidable c] {n n' : Render σ α} (hm : Respects D m m')
    (hn : Respects D n n') : Respects D (if c then m else n) (if c then m' else n') := by
  split
  · exact hm
  · exact hn

/-- A check that may end the rendering, and what follows. -/
theorem Respects.unless {c : Prop} [Decidable c] {i : Interruption}
    {next next' : PUnit → Render σ α} (hnext : ∀ u, Respects D (next u) (next' u)) :
    Respects D (if c then MonadExcept.throw i >>= next else next ())
      (if c then MonadExcept.throw i >>= next' else next' ()) :=
  .ite ((Respects.throw i).bind hnext) (hnext ())

/-- A look at how far the rendering has come, and what follows. -/
theorem Respects.get_bind {f f' : Progress σ → Render σ α}
    (hf : ∀ p q, p.Alike D q → Respects D (f p) (f' q)) :
    Respects D (get >>= f) (get >>= f') :=
  fun p q h => hf p q h p q h

theorem Respects.modify {f : Progress σ → Progress σ}
    (hf : ∀ p q, p.Alike D q → (f p).Alike D (f q)) :
    Respects D (modify f : Render σ Unit) (modify f) :=
  fun p q h => .inr ⟨rfl, hf p q h⟩

theorem respects_setCurrent (current : Option String) :
    Respects D (modify fun p => { p with current := current } : Render σ Unit)
      (modify fun p => { p with current := current }) :=
  .modify fun _ _ h => ⟨h.state, h.defined, rfl, h.orders, h.settled⟩

theorem respects_enter : Respects D (enter : Render σ Unit) enter := respects_setCurrent none

/-- A helper of the setting. -/
theorem Respects.runHelper {h : Helper σ} (hh : h.Respects D.states) (args : List Json) :
    Respects D (runHelper h args) (runHelper h args) := by
  intro p q hpq
  obtain ⟨hanswer, hstate⟩ := hh args p.state q.state hpq.state
  exact .inr ⟨congrArg Except.ok hanswer, hstate, hpq.defined, hpq.current, hpq.orders,
    hpq.settled⟩

/-- What is computed without the state is what was computed. -/
theorem ok_of_lift {e : Except RenderFault α} {a : α} {p : Progress σ}
    (h : ((lift e : Render σ α).run p).1 = .ok a) : e = .ok a := by
  cases e with
  | error e => cases h
  | ok b =>
    cases h
    rfl

/-- What is met in some order has the parts of the list. -/
theorem perm_of_inSomeOrder {xs ys : List α} {p : Progress σ}
    (h : ((inSomeOrder xs).run p).1 = .ok ys) : ys.Perm xs := by
  rw [inSomeOrder] at h
  split at h
  · cases h
    exact .refl xs
  · cases h
    exact arrange_perm _ xs

/-- The same parts are met in the same order, or there is no more than one. -/
theorem respects_inSomeOrder {xs : List α} (hxs : D.orders → xs.length ≤ 1) :
    Respects D (inSomeOrder xs) (inSomeOrder xs) := by
  rw [inSomeOrder]
  split
  · exact .pure xs
  · next hmany =>
    intro p q h
    rcases h.orders with horders | hfree
    · refine .inr ⟨?_, h.state, h.defined, h.current, .inl (congrArg List.tail horders), h.settled⟩
      exact congrArg (fun ks : List Nat => Except.ok (arrange (ks.headD 0) xs)) horders
    · exact absurd (hxs hfree) hmany

/-- The name in the first place of a call, as it is written or as it is found, and what follows. -/
theorem Respects.name {written : Option String} {head : Render σ Valued}
    {next next' : String → Render σ α} (hhead : Respects D head head)
    (hnext : ∀ name, Respects D (next name) (next' name)) :
    Respects D
      (match written with
        | some s => Pure.pure s >>= next
        | none => head >>= fun v => Pure.pure (shown v.value) >>= next)
      (match written with
        | some s => Pure.pure s >>= next'
        | none => head >>= fun v => Pure.pure (shown v.value) >>= next') := by
  cases written with
  | some s => exact (Respects.pure s).bind hnext
  | none => exact hhead.bind fun v => (Respects.pure _).bind hnext

/-- What a name stands for: a helper of the setting, one that is always there, or nothing. -/
theorem Respects.call {set : Setting σ} (hset : set.Respects D) {name : String}
    {onHelper onHelper' : Helper σ → Render σ α}
    {onValue onValue' : (List Valued → Except RenderFault Json) → Render σ α}
    {onBlock onBlock' : Render σ α}
    (hhelper : ∀ h : Helper σ, h.Respects D.states → Respects D (onHelper h) (onHelper' h))
    (hvalue : ∀ f, Respects D (onValue f) (onValue' f)) (hblock : Respects D onBlock onBlock') :
    Respects D
      (match set.helpers name with
        | some h => onHelper h
        | none =>
          match valueHelper? name with
          | some f => onValue f
          | none =>
            if isBlockHelper name then onBlock
            else MonadExcept.throw (.fault (.unknownHelper name)))
      (match set.helpers name with
        | some h => onHelper' h
        | none =>
          match valueHelper? name with
          | some f => onValue' f
          | none =>
            if isBlockHelper name then onBlock'
            else MonadExcept.throw (.fault (.unknownHelper name))) := by
  cases h : set.helpers name with
  | some f => exact hhelper f (hset.helpers name f h)
  | none =>
    cases valueHelper? name with
    | some f => exact hvalue f
    | none => exact .ite hblock (.throw _)

end

/-! ## 2. Terms

Terms embed nothing, so the same step stands on both sides. The steps of named arguments are put in
an order first, and since each of them respects the difference, they do so in every order. -/

section

variable {D : Difference σ} {set : Setting σ}

/-- Steps for named values that each respect the difference do so one after the other. -/
theorem respects_runNamed {steps : List (String × Render σ Valued)}
    (h : ∀ s ∈ steps, Respects D s.2 s.2) : Respects D (runNamed steps) (runNamed steps) := by
  induction steps with
  | nil => exact .pure []
  | cons s steps ih =>
    rw [runNamed]
    refine (h s (List.mem_cons_self ..)).bind fun v => ?_
    exact (ih fun t ht => h t (List.mem_cons_of_mem s ht)).bind fun vs => .pure _

/-- As many steps as named terms. -/
theorem length_namedSteps (set : Setting σ) (here : Place) (ts : List (String × Term)) :
    (namedSteps set here ts).length = ts.length := by
  induction ts with
  | nil => rfl
  | cons t ts ih => rw [namedSteps, List.length_cons, List.length_cons, ih]

/-- Steps for named values, in the order in which they are met. -/
theorem respects_inSomeOrder_runNamed {steps : List (String × Render σ Valued)}
    {next next' : List (String × Json) → Render σ α} (hlength : D.orders → steps.length ≤ 1)
    (h : ∀ s ∈ steps, Respects D s.2 s.2)
    (hnext : ∀ named, Respects D (next named) (next' named)) :
    Respects D (inSomeOrder steps >>= fun met => runNamed met >>= next)
      (inSomeOrder steps >>= fun met => runNamed met >>= next') := by
  refine (respects_inSomeOrder hlength).bind_of (fun _ _ => perm_of_inSomeOrder) fun met hmet => ?_
  exact (respects_runNamed fun s hs => h s (hmet.mem_iff.mp hs)).bind hnext

mutual

/-- A term. -/
theorem respects_evalTerm (hset : set.Respects D) (here : Place) :
    (t : Term) → (D.orders → t.isSettled = true) →
      Respects D (evalTerm set here t) (evalTerm set here t)
  | .word _, _ => by
    rw [evalTerm]
    exact .pure _
  | .literal v, _ => by
    rw [evalTerm]
    exact .pure _
  | .path _ steps, _ => by
    rw [evalTerm]
    exact .lift _
  | .call head args named, ht => by
    rw [evalTerm]
    simp only [Term.isSettled, Bool.and_eq_true, decide_eq_true_eq] at ht
    refine .name (respects_evalTerm hset here head fun h => (ht h).1.1.1) fun name => ?_
    refine (respects_evalTerms hset here args fun h => (ht h).1.1.2).bind fun args => ?_
    refine respects_inSomeOrder_runNamed (fun h => ?_)
      (respects_namedSteps hset here named fun h => (ht h).1.2) fun named => ?_
    · rw [length_namedSteps]
      exact (ht h).2
    refine .call hset (fun h hh => ?_) (fun f => ?_) ?_
    · exact (Respects.runHelper hh _).bind fun s => .pure _
    · exact (Respects.lift _).bind fun v => .pure _
    · exact .unless fun _ => .unless fun _ => .pure _
termination_by structural t => t

/-- Terms, one after the other. -/
theorem respects_evalTerms (hset : set.Respects D) (here : Place) :
    (ts : List Term) → (D.orders → termsSettled ts = true) →
      Respects D (evalTerms set here ts) (evalTerms set here ts)
  | [], _ => by
    rw [evalTerms]
    exact .pure []
  | t :: ts, hts => by
    rw [evalTerms]
    simp only [termsSettled, Bool.and_eq_true] at hts
    refine (respects_evalTerm hset here t fun h => (hts h).1).bind fun v => ?_
    exact (respects_evalTerms hset here ts fun h => (hts h).2).bind fun vs => .pure _
termination_by structural ts => ts

/-- The step of each named term. -/
theorem respects_namedSteps (hset : set.Respects D) (here : Place) :
    (ts : List (String × Term)) → (D.orders → namedSettled ts = true) →
      ∀ s ∈ namedSteps set here ts, Respects D s.2 s.2
  | [], _ => by
    rw [namedSteps]
    exact fun s hs => absurd hs List.not_mem_nil
  | (k, t) :: ts, hts => by
    rw [namedSteps]
    simp only [namedSettled, Bool.and_eq_true] at hts
    intro s hs
    rcases List.mem_cons.mp hs with rfl | hs
    · exact respects_evalTerm hset here t fun h => (hts h).1
    · exact respects_namedSteps hset here ts (fun h => (hts h).2) s hs
termination_by structural ts => ts

end

/-- The name in the first place of a call. -/
theorem respects_calledName (hset : set.Respects D) (here : Place) {t : Term}
    (ht : D.orders → t.isSettled = true) :
    Respects D (calledName set here t) (calledName set here t) := by
  rw [calledName]
  cases headText? t with
  | some s => exact .pure s
  | none => exact (respects_evalTerm hset here t ht).bind fun v => .pure _

/-- As many values as terms. -/
theorem length_of_runNamed {steps : List (String × Render σ Valued)} {named : List (String × Json)}
    {p : Progress σ} (h : ((runNamed steps).run p).1 = .ok named) :
    named.length = steps.length := by
  induction steps generalizing p named with
  | nil =>
    cases h
    rfl
  | cons s steps ih =>
    rw [runNamed, run_bind] at h
    rcases hs : s.2.run p with ⟨_ | v, p'⟩
    · rw [hs] at h
      cases h
    rw [hs] at h
    simp only [run_bind] at h
    rcases hrest : (runNamed steps).run p' with ⟨_ | vs, p''⟩
    · rw [hrest] at h
      cases h
    rw [hrest] at h
    cases h
    have hlength : vs.length = steps.length := ih (congrArg Prod.fst hrest)
    rw [List.length_cons, List.length_cons, hlength]

/-- As many named values as named terms. -/
theorem length_of_evalNamed {here : Place} {ts : List (String × Term)}
    {named : List (String × Json)} {p : Progress σ}
    (h : ((evalNamed set here ts).run p).1 = .ok named) : named.length = ts.length := by
  rw [evalNamed, run_bind] at h
  rcases hmet : (inSomeOrder (namedSteps set here ts)).run p with ⟨_ | met, p'⟩
  · rw [hmet] at h
    cases h
  rw [hmet] at h
  rw [length_of_runNamed h, (perm_of_inSomeOrder (congrArg Prod.fst hmet)).length_eq,
    length_namedSteps]

/-- The arguments of a tag, then the named ones, and what follows. -/
theorem respects_arguments (hset : set.Respects D) (here : Place) {c : Call}
    (hc : D.orders → c.isSettled = true)
    {next next' : List Valued → List (String × Json) → Render σ α}
    (hnext : ∀ args named, (D.orders → named.length ≤ 1) →
      Respects D (next args named) (next' args named)) :
    Respects D
      (do
        let args ← evalTerms set here c.args
        let named ← evalNamed set here c.named
        next args named)
      (do
        let args ← evalTerms set here c.args
        let named ← evalNamed set here c.named
        next' args named) := by
  simp only [Call.isSettled, Bool.and_eq_true, decide_eq_true_eq] at hc
  refine (respects_evalTerms hset here c.args fun h => (hc h).1.1.2).bind fun args => ?_
  have hnamed : Respects D (evalNamed set here c.named) (evalNamed set here c.named) := by
    rw [evalNamed]
    refine (respects_inSomeOrder fun h => ?_).bind_of (fun _ _ => perm_of_inSomeOrder)
      fun met hmet => respects_runNamed fun s hs => ?_
    · rw [length_namedSteps]
      exact (hc h).2
    · exact respects_namedSteps hset here c.named (fun h => (hc h).1.2) s (hmet.mem_iff.mp hs)
  refine hnamed.bind_of (fun _ _ => length_of_evalNamed) fun named hlength => ?_
  exact hnext args named fun h => hlength ▸ (hc h).2

end

/-! ## 3. Blocks

A block goes to other places, but the templates around and the bodies given to them stay the same
there. That is all that its own bodies have to know. -/

section

variable {D : Difference σ} {here : Place}
  {body body' otherwise otherwise' : Place → Render σ String}

/-- A body in one scope after the other. -/
theorem respects_inScopes
    (hbody : ∀ there, there.bodies = here.bodies → Respects D (body there) (body' there))
    (scs : List Scope) : Respects D (inScopes body here scs) (inScopes body' here scs) := by
  induction scs with
  | nil => exact .pure ""
  | cons sc scs ih =>
    refine respects_enter.bind fun _ => ?_
    refine (hbody { here with scopes := sc :: here.scopes } rfl).bind fun s => ?_
    exact ih.bind fun t => .pure _

/-- A body in the scopes around it. -/
theorem respects_inPlace
    (hbody : ∀ there, there.bodies = here.bodies → Respects D (body there) (body' there))
    (isEmpty : Bool) : Respects D (inPlace body here isEmpty) (inPlace body' here isEmpty) := by
  rw [inPlace, inPlace]
  exact .ite (.pure "") (respects_enter.bind fun _ => hbody here rfl)

/-- Every block, with both of its bodies. -/
theorem respects_renderBlock
    (hbody : ∀ there, there.bodies = here.bodies → Respects D (body there) (body' there))
    (hotherwise : ∀ there, there.bodies = here.bodies →
      Respects D (otherwise there) (otherwise' there))
    (name : String) (args : List Valued) (named : List (String × Json)) (names : List String)
    (noBody noOtherwise : Bool) :
    Respects D (renderBlock name args named names here body otherwise noBody noOtherwise)
      (renderBlock name args named names here body' otherwise' noBody noOtherwise) := by
  have hyes := respects_inPlace hbody noBody
  have hno := respects_inPlace hotherwise noOtherwise
  rw [renderBlock, renderBlock]
  refine .ite hyes (.ite (.ite (.pure "") (.throw _)) ?_)
  cases args.head? with
  | none => exact .throw _
  | some v =>
    refine .ite (.ite hyes hno) (.ite (.ite ?enters hno) ?goesThrough)
    case enters => exact .ite (respects_inScopes hbody _) (respects_inScopes hbody _)
    case goesThrough =>
      cases rounds v names with
      | nil => exact hno
      | cons sc scs => exact .ite (.pure "") (respects_inScopes hbody _)

end

/-! ## 4. Elements

One case for each kind of element. An embedded template is the only one that goes deeper, and the
only one that meets templates from elsewhere: those of the collection, those defined on the way, and
the bodies given to the templates around. -/

section

variable {D : Difference σ} {set : Setting σ}

/-- The definition of a template. -/
theorem respects_define (hset : set.Respects D) (here : Place) {c : Call}
    {body : Option (List Element)} (hc : D.orders → c.isSettled = true)
    (hbody : D.orders → bodySettled body = true) :
    Respects D (defineAll.define set here c body) (defineAll.define set here c body) := by
  rw [defineAll.define]
  refine respects_arguments hset here hc fun args _ _ => ?_
  have hhead : D.orders → c.head.isSettled = true := fun h => by
    have := hc h
    simp only [Call.isSettled, Bool.and_eq_true] at this
    exact this.1.1.1
  refine (respects_calledName hset here hhead).bind fun name => ?_
  refine .unless fun _ => ?_
  split
  · cases body with
    | none => exact .throw _
    | some es =>
      refine .modify fun p q h => ⟨h.state, by rw [h.defined], h.current, h.orders, ?_⟩
      intro hfree t ht
      rcases List.mem_cons.mp ht with rfl | ht
      · exact hbody hfree
      · exact h.settled hfree t ht
  · exact .throw _

/-- All definitions among some elements. -/
theorem respects_defineAll (hset : set.Respects D) (here : Place) {es : List Element}
    (hes : D.orders → elementsSettled es = true) :
    Respects D (defineAll set here es) (defineAll set here es) := by
  induction es with
  | nil => exact .pure ()
  | cons e es ih =>
    simp only [elementsSettled, Bool.and_eq_true] at hes
    have hrest := ih fun h => (hes h).2
    cases e with
    | define c body =>
      simp only [Element.isSettled, Bool.and_eq_true] at hes
      exact (respects_define hset here (fun h => (hes h).1.1) fun h => (hes h).1.2).bind
        fun _ => hrest
    | text _ | value _ | block _ _ _ _ | embed _ _ _ => exact hrest

/-- Where an embedded template stands, its own body has joined the bodies around. -/
theorem bodies_of_embedPlace {here there : Place} {name : String} {args : List Valued}
    {named : List (String × Json)} {indent : Option String} {body : Option (List Element)}
    (h : embedPlace set here name args named indent body = .ok there) :
    there.bodies = body.toList ++ here.bodies := by
  unfold embedPlace at h
  simp only at h
  split at h
  · cases h
    rfl
  · -- with named arguments the data changes, and the bodies are the same
    cases hfirst : args.head? with
    | some v =>
      rw [hfirst] at h
      cases h
      rfl
    | none =>
      rw [hfirst] at h
      cases hbase : resolve set here [] with
      | error e =>
        rw [hbase] at h
        cases h
      | ok base =>
        rw [hbase] at h
        cases h
        rfl

/-- What an embedding means is settled where everything that it may mean is. -/
theorem settled_of_embedded? (hset : set.Respects D) {defined : List (String × List Element)}
    {here : Place} {name : String} {body : Option (List Element)} {es : List Element}
    {current : Option String} (hfree : D.orders)
    (hdefined : ∀ t ∈ defined, elementsSettled t.2 = true) (hhere : here.isSettled = true)
    (hbody : bodySettled body = true)
    (h : embedded? set defined here name body = some (es, current)) :
    elementsSettled es = true := by
  rw [embedded?] at h
  split at h
  · next own hown =>
    cases h
    split at hown
    · exact List.all_eq_true.mp hhere _ (List.mem_of_getElem? hown)
    · obtain ⟨before, after, rfl, -⟩ := List.lookup_eq_some_iff.mp hown
      exact hdefined (name, es) (List.mem_append_right before (List.mem_cons_self ..))
  · split at h
    · next es' hes' =>
      cases h
      exact hset.templates hfree name _ hes'
    · obtain ⟨b, rfl, hb⟩ := Option.map_eq_some_iff.mp h
      cases hb
      exact hbody

/-- A body that is missing counts as an empty one. -/
theorem settled_getD {body : Option (List Element)} (h : bodySettled body = true) :
    elementsSettled (body.getD []) = true := by
  cases body with
  | none => rfl
  | some es => exact h

/-- With a settled body the bodies around are settled as before. -/
theorem all_settled_append {body : Option (List Element)} {bodies : List (List Element)}
    (h : bodySettled body = true) (hbodies : bodies.all elementsSettled = true) :
    (body.toList ++ bodies).all elementsSettled = true := by
  rw [List.all_append, Bool.and_eq_true]
  refine ⟨?_, hbodies⟩
  cases body with
  | none => rfl
  | some es => simpa [bodySettled] using h

/-- An embedded template. What it means is looked up in both renderings alike, and where it is
rendered it is left to `deeper`. -/
theorem respects_embed (hset : set.Respects D)
    {deeper deeper' : Place → List Element → Render σ String}
    (hdeeper : ∀ there es, (D.orders → there.isSettled = true ∧ elementsSettled es = true) →
      Respects D (deeper there es) (deeper' there es))
    {c : Call} (indent : Option String) {body : Option (List Element)}
    (hc : D.orders → c.isSettled = true) (hbody : D.orders → bodySettled body = true)
    {here : Place} (hhere : D.orders → here.isSettled = true) :
    Respects D (renderElement set deeper (.embed c indent body) here)
      (renderElement set deeper' (.embed c indent body) here) := by
  rw [renderElement, renderElement]
  refine (respects_calledName hset here fun h => (Call.settled_iff.mp (hc h)).1).bind fun name => ?_
  refine respects_arguments hset here hc fun args named hnamed => ?_
  refine (respects_defineAll hset here fun h => settled_getD (hbody h)).bind fun _ => ?_
  -- only the template in work and the definitions so far are looked at
  refine .get_bind fun p q h => ?_
  simp only [h.current]
  refine .unless fun _ => ?_
  refine .get_bind fun p q h => ?_
  rw [h.defined]
  cases hfound : embedded? set q.defined here name body with
  | none => exact .throw _
  | some found =>
    obtain ⟨es, current⟩ := found
    refine (respects_inSomeOrder hnamed).bind fun met => ?_
    refine (Respects.lift _).bind_of (P := fun there => there.bodies = body.toList ++ here.bodies)
      (fun _ _ hplace => bodies_of_embedPlace (ok_of_lift hplace)) fun there hthere => ?_
    refine (respects_setCurrent _).bind fun _ => ?_
    refine (hdeeper there es fun hfree => ⟨?_, ?_⟩).bind fun s => ?_
    · rw [Place.isSettled, hthere]
      exact all_settled_append (hbody hfree) (hhere hfree)
    · exact settled_of_embedded? hset hfree (h.defined ▸ h.settled hfree) (hhere hfree)
        (hbody hfree) hfound
    · exact (respects_setCurrent _).bind fun _ => .pure s

mutual

/-- **One element.** It respects the difference if the templates that it embeds do. -/
theorem respects_renderElement (hset : set.Respects D)
    {deeper deeper' : Place → List Element → Render σ String}
    (hdeeper : ∀ there es, (D.orders → there.isSettled = true ∧ elementsSettled es = true) →
      Respects D (deeper there es) (deeper' there es)) :
    (e : Element) → (D.orders → e.isSettled = true) →
      (here : Place) → (D.orders → here.isSettled = true) →
      Respects D (renderElement set deeper e here) (renderElement set deeper' e here)
  | .text s, _, here, _ => by
    rw [renderElement, renderElement]
    exact .pure _
  | .value c, he, here, _ => by
    rw [renderElement, renderElement]
    simp only [Element.isSettled] at he
    have hhead := fun h => (Call.settled_iff.mp (he h)).1
    refine (respects_calledName hset here hhead).bind fun name => ?_
    refine .ite ((respects_evalTerm hset here c.head hhead).bind fun v => .pure _) ?_
    refine respects_arguments hset here he fun args named _ => ?_
    refine .call hset (fun h hh => .runHelper hh _) (fun f => ?_) ?_
    · exact (Respects.lift _).bind fun v => .pure _
    · exact respects_renderBlock (fun _ _ => .pure "") (fun _ _ => .pure "") _ _ _ _ _ _
  | .block c names body otherwise, he, here, hhere => by
    rw [renderElement, renderElement]
    simp only [Element.isSettled, Bool.and_eq_true] at he
    have hcall := fun h => (he h).1.1
    refine (respects_calledName hset here fun h => (Call.settled_iff.mp (hcall h)).1).bind
      fun name => ?_
    refine respects_arguments hset here hcall fun args named _ => ?_
    refine .call hset (fun h hh => .runHelper hh _) (fun f => ?_) ?_
    · exact (Respects.lift _).bind fun v => .pure _
    · refine respects_renderBlock (fun there hthere => ?_) (fun there hthere => ?_) _ _ _ _ _ _
      · exact respects_renderElements hset hdeeper body (fun h => (he h).1.2) there
          fun h => by rw [Place.isSettled, hthere]; exact hhere h
      · exact respects_renderElements hset hdeeper otherwise (fun h => (he h).2) there
          fun h => by rw [Place.isSettled, hthere]; exact hhere h
  | .embed c indent body, he, here, hhere => by
    simp only [Element.isSettled, Bool.and_eq_true] at he
    exact respects_embed hset hdeeper indent (fun h => (he h).1) (fun h => (he h).2) hhere
  | .define c body, he, here, _ => by
    rw [renderElement, renderElement]
    simp only [Element.isSettled, Bool.and_eq_true] at he
    exact (respects_define hset here (fun h => (he h).1) fun h => (he h).2).bind fun _ => .pure _
termination_by structural e => e

/-- Elements, one after the other. -/
theorem respects_renderElements (hset : set.Respects D)
    {deeper deeper' : Place → List Element → Render σ String}
    (hdeeper : ∀ there es, (D.orders → there.isSettled = true ∧ elementsSettled es = true) →
      Respects D (deeper there es) (deeper' there es)) :
    (es : List Element) → (D.orders → elementsSettled es = true) →
      (here : Place) → (D.orders → here.isSettled = true) →
      Respects D (renderElements set deeper es here) (renderElements set deeper' es here)
  | [], _, here, _ => by
    rw [renderElements, renderElements]
    exact .pure ""
  | e :: es, hes, here, hhere => by
    rw [renderElements, renderElements]
    simp only [elementsSettled, Bool.and_eq_true] at hes
    refine (respects_renderElement hset hdeeper e (fun h => (hes h).1) here hhere).bind fun s => ?_
    exact (respects_renderElements hset hdeeper es (fun h => (hes h).2) here hhere).bind
      fun t => .pure _
termination_by structural es => es

end

/-! ## 5. Whole renderings

A rendering begins at the place where nothing is around, with room for some number of templates. The
induction over elements leaves the embedded ones open, and here they are closed by one on the room.
The last theorem is the case in which both renderings are the same but for the room. -/

/-- With the same room, or with less room where that may be, for any number of templates embedded in
one another. -/
theorem respects_renderUpTo (hset : set.Respects D) {n n' : Nat} (hn : n = n' ∨ D.room ∧ n ≤ n')
    (here : Place) (es : List Element) (hhere : D.orders → here.isSettled = true)
    (hes : D.orders → elementsSettled es = true) :
    Respects D (renderUpTo set n here es) (renderUpTo set n' here es) := by
  induction n generalizing n' here es with
  | zero =>
    rw [renderUpTo]
    cases n' with
    | zero =>
      exact respects_renderElements hset (fun _ _ _ => .throw _) es hes here hhere
    | succ n' =>
      obtain ⟨hroom, -⟩ := hn.resolve_left (Nat.succ_ne_zero n').symm
      exact respects_renderElements hset (fun _ _ _ => .exhausted hroom) es hes here hhere
  | succ n ih =>
    cases n' with
    | zero => exact absurd hn (by simp)
    | succ n' =>
      have hn' : n = n' ∨ D.room ∧ n ≤ n' :=
        hn.imp Nat.succ.inj fun h => ⟨h.1, Nat.le_of_succ_le_succ h.2⟩
      exact respects_renderElements hset
        (fun there es' h => ih hn' there es' (fun hf => (h hf).1) fun hf => (h hf).2) es hes here
        hhere

/-- From states that are related a template makes the same of the data, or fails for the same
reason, and leaves states that are related. -/
theorem run_of_respects (hset : set.Respects D) {c c' : Chance} (name : String) (es : List Element)
    {s t : σ} (h : D.states s t) (hlevels : c.levels = c'.levels ∨ D.room ∧ c.levels ≤ c'.levels)
    (horders : c.orders = c'.orders ∨ D.orders) (hes : D.orders → elementsSettled es = true) :
    (D.room ∧ (run set c name es s).1 = .error .exhausted) ∨
    ((run set c name es s).1 = (run set c' name es t).1 ∧
      D.states (run set c name es s).2 (run set c' name es t).2) := by
  have hstart : Progress.Alike D { state := s, current := some name, orders := c.orders }
      { state := t, current := some name, orders := c'.orders } :=
    ⟨h, rfl, rfl, horders, fun _ t ht => absurd ht List.not_mem_nil⟩
  rcases respects_renderUpTo hset hlevels {} es (fun _ => rfl) hes _ _ hstart with
    hfull | ⟨hresult, hafter⟩
  · exact .inl hfull
  · exact .inr ⟨hresult, hafter.state⟩

/-- **More room changes nothing** but whether there is enough of it. A rendering that did not run
out of room has the same result, and leaves the same state, with as much room as one likes. -/
theorem run_of_more_levels (set : Setting σ) {c : Chance} {n : Nat} (hn : c.levels ≤ n)
    (name : String) (es : List Element) (state : σ)
    (h : (run set c name es state).1 ≠ .error .exhausted) :
    run set { c with levels := n } name es state = run set c name es state := by
  have hset : set.Respects ⟨Eq, True, False⟩ :=
    ⟨fun _ _ _ _ s t hst => by subst hst; exact ⟨rfl, rfl⟩, fun hfree => hfree.elim⟩
  rcases @run_of_respects σ _ set hset c { c with levels := n } name es state state rfl
    (.inr ⟨trivial, hn⟩) (.inl rfl) (fun hfree => hfree.elim) with ⟨-, hfull⟩ | ⟨hresult, hafter⟩
  · exact absurd hfull h
  · exact (Prod.ext hresult hafter).symm

end

end UpgradeScan.Template
