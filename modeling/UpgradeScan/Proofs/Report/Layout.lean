/-
`Proofs/Report/Layout.lean` -- what the elements of a layout write in a report.

The built-in layouts are templates like any other, and what a report looks like in them is what the
renderer makes of their elements. Here is what the two layouts have in common, so that the modules
about them can go through their elements one by one.

First, whether a layout is in use at all. A format is rendered by the last template of its name, and
the built-in ones are registered first, so a layout is in use exactly as long as the template
directory has none of that name (`lookup_load`).

Second, what the helpers answer. Two of them ask the changelog, which remembers what it was asked.
Its answers depend on what it remembers only in a way that no lookup changes, so each answer is that
of the changelog as it was before the report (`Changelog.Agrees`). That is why the lines of a report
can be written down without saying in which order its titles were looked up.

Third, the elements. They are few in kind: a member of the value at hand, a helper on such members,
and a block through one of them. Each writes a text that is known, and a list of elements writes
these texts one after the other (`Writes`). Neither built-in layout embeds a template or has named
arguments, so nothing that comes up by chance shows in them.
-/
import UpgradeScan.Proofs.Files.Changelog
import UpgradeScan.Proofs.Report.Document
import UpgradeScan.Proofs.Report.Templates
import UpgradeScan.Proofs.Template.Render

set_option autoImplicit false

namespace UpgradeScan

open UpgradeScan.Template

namespace Renderer

/-! ## 1. The last template of a name

Templates are kept in a list, and registering goes through it. What is found under a name afterwards
is the last source of that name, or what was there before. -/

/-- Replacing the template of one name leaves those of the others. -/
theorem lookup_map_of_ne {name other : String} (h : other ≠ name) (es : List Element)
    (ts : List (String × List Element)) :
    (ts.map fun t => if t.1 == name then (name, es) else t).lookup other = ts.lookup other := by
  induction ts with
  | nil => rfl
  | cons t ts ih =>
    obtain ⟨k, old⟩ := t
    by_cases hk : k = name
    · subst hk
      simp only [List.map_cons, beq_self_eq_true, if_true, List.lookup_cons, beq_false_of_ne h, ih]
    · simp only [List.map_cons, beq_false_of_ne hk, Bool.false_eq_true, if_false, List.lookup_cons,
        ih]

/-- Where a name is there, replacing its template makes it the new one. -/
theorem lookup_map_self {name : String} {ts : List (String × List Element)}
    (h : ts.any (·.1 == name) = true) (es : List Element) :
    (ts.map fun t => if t.1 == name then (name, es) else t).lookup name = some es := by
  induction ts with
  | nil => cases h
  | cons t ts ih =>
    obtain ⟨k, old⟩ := t
    by_cases hk : k = name
    · simp [hk]
    · have hrest : ts.any (·.1 == name) = true := by simpa [hk] using h
      simp only [List.map_cons, beq_false_of_ne hk, Bool.false_eq_true, if_false, List.lookup_cons,
        beq_false_of_ne (Ne.symm hk), ih hrest]

/-- After registering, a name stands for the new template and every other name for what it stood
for. -/
theorem lookup_register (name other : String) (es : List Element)
    (ts : List (String × List Element)) :
    (register name es ts).lookup other = if other = name then some es else ts.lookup other := by
  rw [register]
  by_cases hother : other = name
  · subst hother
    rw [if_pos rfl]
    split
    · next h => exact lookup_map_self h es
    · next h =>
      have hnone : ts.lookup other = none := by
        rw [List.lookup_eq_none_iff]
        intro t ht
        have hne : other ≠ t.1 := fun heq => h (List.any_eq_true.mpr ⟨t, ht, by simp [heq]⟩)
        simpa using hne
      rw [List.lookup_append, hnone, List.lookup_cons_self, Option.none_or]
  · rw [if_neg hother]
    split
    · exact lookup_map_of_ne hother es ts
    · rw [List.lookup_append, List.lookup_cons, beq_false_of_ne hother]
      exact Option.or_none

/-- A template stays as long as no other one has its name. -/
theorem lookup_registerAll {sources : List (String × Except Fault String)}
    {ts ts' : List (String × List Element)} {name : String} (h : registerAll sources ts = .ok ts')
    (hne : ∀ s ∈ sources, s.1 ≠ name) : ts'.lookup name = ts.lookup name := by
  induction sources generalizing ts with
  | nil =>
    cases h
    rfl
  | cons s rest ih =>
    obtain ⟨k, source⟩ := s
    have hk : name ≠ k := fun h => hne (k, source) (List.mem_cons_self ..) h.symm
    have hrest : ∀ s ∈ rest, s.1 ≠ name := fun s hs => hne s (List.mem_cons_of_mem _ hs)
    cases source with
    | error f => cases h
    | ok text =>
      rw [registerAll] at h
      split at h
      · rw [ih h hrest, lookup_register, if_neg hk]
      · cases h

/-- The last source of a name is the template of that name. -/
theorem lookup_registerAll_last {before rest : List (String × Except Fault String)}
    {ts ts' : List (String × List Element)} {name text : String} {es : List Element}
    (h : registerAll (before ++ (name, .ok text) :: rest) ts = .ok ts')
    (htext : parse? text = some es) (hne : ∀ s ∈ rest, s.1 ≠ name) :
    ts'.lookup name = some es := by
  induction before generalizing ts with
  | nil =>
    rw [List.nil_append, registerAll, htext] at h
    rw [lookup_registerAll h hne, lookup_register, if_pos rfl]
  | cons s before ih =>
    obtain ⟨k, source⟩ := s
    cases source with
    | error f => cases h
    | ok text' =>
      rw [List.cons_append, registerAll] at h
      split at h
      · exact ih h
      · cases h

/-- A built-in layout is in use unless the template directory has a template of its name. -/
theorem lookup_load {r : Renderer} {d : Disk} {dir : Option Path} {name text : String}
    {es : List Element} {before rest : List (String × Except Fault String)}
    (h : load d dir = .ok r) (hbuiltIn : builtIn = before ++ (name, .ok text) :: rest)
    (htext : parse? text = some es) (hrest : ∀ s ∈ rest, s.1 ≠ name)
    (hdir : ∀ s ∈ sources d dir, s.1 ≠ name) : r.templates.lookup name = some es := by
  rw [load, hbuiltIn, List.append_assoc, List.cons_append] at h
  generalize hloaded : registerAll (before ++ (name, .ok text) :: (rest ++ sources d dir)) [] =
    loaded at h
  cases loaded with
  | error e => cases h
  | ok ts =>
    cases h
    refine lookup_registerAll_last hloaded htext fun s hs => ?_
    rcases List.mem_append.mp hs with hs | hs
    · exact hrest s hs
    · exact hdir s hs

/-- No template has a name that no source has. -/
theorem lookup_load_eq_none {r : Renderer} {d : Disk} {dir : Option Path} {name : String}
    (h : load d dir = .ok r) (hne : ∀ s ∈ builtIn ++ sources d dir, s.1 ≠ name) :
    r.templates.lookup name = none := by
  rw [load] at h
  generalize hloaded : registerAll (builtIn ++ sources d dir) [] = loaded at h
  cases loaded with
  | error e => cases h
  | ok ts =>
    cases h
    exact lookup_registerAll hloaded hne

end Renderer

/-! ## 2. What helpers answer

An answer is stated for every changelog that agrees with the one at the beginning, and after it the
changelog still agrees; so answers can be put one after the other in any number. -/

namespace Changelog

variable (log : Changelog) (d : Disk)

/-- The title of a rule, whatever was looked up before it. -/
theorem answers_title (rule : String) :
    Answers (Agrees d log) (fun args => modifyGet fun c => c.title d (HelperArg.text args 0))
      [.string rule] (log.title d rule).1 :=
  fun c h => ⟨h.ask (.title rule), h.trans (agrees_ask c d (.title rule))⟩

/-- The address for a rule, whatever was looked up before it. -/
theorem answers_url (rule : String) :
    Answers (Agrees d log) (fun args => modifyGet fun c => c.url d (HelperArg.text args 0))
      [.string rule] (log.url d rule).1 :=
  fun c h => ⟨h.ask (.url rule), h.trans (agrees_ask c d (.url rule))⟩

end Changelog

/-- A helper that only looks at its arguments leaves the changelog alone. -/
theorem answers_pureHelper (inv : Changelog → Prop) (f : List Json → String) (args : List Json) :
    Answers inv (pureHelper f) args (f args) :=
  fun _ h => ⟨rfl, h⟩

/-! ## 3. Lines and values

A line is a text with a line end. The lines of a list of things are the lines of each, one after the
other. -/

/-- The text of a value that statistics may show. -/
def statisticText : Json → String
  | .string s => s
  | .number n => String.ofList n.text
  | _ => ""

/-- A natural number as it is written. -/
def decimal (n : Nat) : String := String.ofList (Number.digits n)

/-- What statistics show in a report for a reader is their text or their number. -/
theorem shown_statistic {v : Json} (h : IsStatistic v) : shown v = statisticText v := by
  cases h <;> rfl

namespace Layout

theorem ofLines_append (a b : List String) : ofLines (a ++ b) = ofLines a ++ ofLines b := by
  rw [ofLines, List.map_append, String.join_append, ← ofLines, ← ofLines]

/-- The lines for some things are those for each, one after the other. -/
theorem ofLines_flatMap {α : Type} (f : α → List String) (xs : List α) :
    ofLines (xs.flatMap f) = String.join (xs.map fun x => ofLines (f x)) := by
  induction xs with
  | nil => rfl
  | cons x xs ih =>
    rw [List.flatMap_cons, ofLines_append, ih, List.map_cons, String.join_cons]

end Layout

/-! ## 4. The template of a format

From the elements of a template to the result of the renderer. -/

/-- A layout that is not replaced renders its format. Neither what was looked up before nor what
comes up meanwhile shows. -/
theorem Renderer.render_of_writes {r : Renderer} {d : Disk} {log : Changelog} {c : Context}
    {format text : String} {es : List Element} (hjson : formatName format ≠ "json")
    (hes : r.templates.lookup (formatName format) = some es)
    (hwrites : Writes (r.setting d c) (log.Agrees d) {} es text) (chance : Chance) :
    (r.render d log format c chance).1 = .ok text := by
  obtain ⟨after, hrun, -⟩ := hwrites.run chance (formatName format) (.refl d log)
  rw [render_of_lookup d log c chance hjson hes, hrun]
  rfl

end UpgradeScan
