/-
`Proofs/CommandLine/Spelling.lean` -- the arguments of a scan read back as they were written.

A value can be written down in several ways: as an argument behind the long name of its option,
behind its letter, in one argument with the long name and `=`, or, for the path, by itself. And the
arguments can come in any order. What they mean should depend on neither. This is stated from the
side of the writer: `Writes` relates values to the lines of arguments that write them down, and
whatever such a line is, it is read as these values.

A line is read from left to right, and the reader keeps what it has taken in and what it waits for.
The proof is about that state. After some values it stands for the arguments that they make up
(`Stands`), and one more value either extends them, when its slot is free (`step_of_free`), or is
refused, when there is one in its slot already (`step_of_taken`). Refusing is not immediate in every
case: an option whose value stands apart is complete only when the next argument begins, so a second
value for it is noticed one argument later, or at the end of the line. That is why it has to be
shown that a state with a value that cannot be taken stays refused whatever comes behind it
(`Stuck`).

Values are asked not to be empty and not to begin with a dash (`FreeStanding`), since an argument
that begins so is read as an option. Behind `=` more would be possible, but not in every spelling.
-/
import Mathlib.Data.List.TakeWhile
import UpgradeScan.CommandLine.Reader

set_option autoImplicit false

namespace UpgradeScan

/-! ## 1. Slots

The path and each option is a slot for one value, and arguments are a table from slots to values. -/

/-- What a value can be given for. -/
inductive Slot where
  | path
  | option (o : ScanOption)
  deriving DecidableEq, Repr

namespace ScanArguments

/-- The value in a slot. -/
def value? (a : ScanArguments) : Slot → Option String
  | .path => a.path
  | .option o => a.get? o

/-- The arguments with a value in a slot. -/
def put (a : ScanArguments) (slot : Slot) (v : String) : ScanArguments :=
  match slot with
  | .path => { a with path := some v }
  | .option o => a.set o v

/-- The arguments with values put in one after the other. -/
def putAll (a : ScanArguments) (given : List (Slot × String)) : ScanArguments :=
  given.foldl (fun a g => a.put g.1 g.2) a

/-- An option leaves the path alone. -/
@[simp] theorem path_set (a : ScanArguments) (o : ScanOption) (v : String) :
    (a.set o v).path = a.path := by
  cases o <;> rfl

@[simp] theorem get?_path (a : ScanArguments) (p : Option String) (o : ScanOption) :
    { a with path := p }.get? o = a.get? o := by
  cases o <;> rfl

@[simp] theorem value?_none (slot : Slot) : none.value? slot = .none := by
  rcases slot with _ | o
  · rfl
  · cases o <;> rfl

/-- What is put in a slot is there. -/
@[simp] theorem value?_put_self (a : ScanArguments) (slot : Slot) (v : String) :
    (a.put slot v).value? slot = some v := by
  cases slot with
  | path => rfl
  | option o => exact a.get?_set_self o v

/-- It changes no other slot. -/
theorem value?_put_of_ne (a : ScanArguments) {slot other : Slot} (v : String) (h : other ≠ slot) :
    (a.put slot v).value? other = a.value? other := by
  cases slot with
  | path =>
    cases other with
    | path => exact absurd rfl h
    | option p => exact a.get?_path (some v) p
  | option o =>
    cases other with
    | path => exact a.path_set o v
    | option p => exact a.get?_set_of_ne v fun he => h (congrArg Slot.option he)

/-- A slot that nothing is given for stays as it was. -/
theorem value?_putAll_of_not_mem {given : List (Slot × String)} (a : ScanArguments) {slot : Slot}
    (h : slot ∉ given.map Prod.fst) : (a.putAll given).value? slot = a.value? slot := by
  induction given generalizing a with
  | nil => rfl
  | cons g given ih =>
    obtain ⟨hg, hrest⟩ := not_or.mp (mt List.mem_cons.mpr h)
    exact (ih (a.put g.1 g.2) hrest).trans (a.value?_put_of_ne g.2 hg)

/-- A value is there at the end when nothing else was given for its slot. -/
theorem value?_putAll_of_mem {given : List (Slot × String)} (a : ScanArguments) {slot : Slot}
    {v : String} (h : (given.map Prod.fst).Nodup) (hmem : (slot, v) ∈ given) :
    (a.putAll given).value? slot = some v := by
  induction given generalizing a with
  | nil => cases hmem
  | cons g given ih =>
    obtain ⟨hg, hrest⟩ := List.nodup_cons.mp h
    rcases List.mem_cons.mp hmem with rfl | hin
    · exact (value?_putAll_of_not_mem _ hg).trans (a.value?_put_self slot v)
    · exact ih (a.put g.1 g.2) hrest hin

/-- Values for different slots are all kept, and there are no others. -/
theorem value?_putAll_iff {given : List (Slot × String)} (h : (given.map Prod.fst).Nodup)
    (slot : Slot) (v : String) : (none.putAll given).value? slot = some v ↔ (slot, v) ∈ given := by
  refine ⟨fun hv => ?_, value?_putAll_of_mem none h⟩
  by_cases hslot : slot ∈ given.map Prod.fst
  · obtain ⟨⟨s, w⟩, hmem, rfl⟩ := List.mem_map.mp hslot
    have hw : some w = some v := (value?_putAll_of_mem none h hmem).symm.trans hv
    cases hw
    exact hmem
  · rw [value?_putAll_of_not_mem none hslot, value?_none] at hv
    cases hv

end ScanArguments

namespace CommandLine

/-! ## 2. Values and how they are written

Names of options are listed as they are typed. Two of them have a second long name, in camel case.
-/

/-- The long names of an option, as they are typed. -/
def longFlags : ScanOption → List String
  | .target => ["--target"]
  | .only => ["--only"]
  | .indicators => ["--indicators"]
  | .format => ["--format"]
  | .reportFile => ["--report-file", "--reportFile"]
  | .templates => ["--template-path", "--templatePath"]
  | .config => ["--config"]

/-- The letters of an option, as they are typed. -/
def shortFlags : ScanOption → List String
  | .target => ["-t"]
  | .only => ["-o"]
  | .indicators => ["-i"]
  | .format => ["-f"]
  | .reportFile => ["-r"]
  | .templates => []
  | .config => []

/-- A value that can stand as an argument of its own: it is not empty and begins with no dash. -/
def FreeStanding (v : String) : Prop := v ≠ "" ∧ v.toList.head? ≠ some '-'

instance (v : String) : Decidable (FreeStanding v) := inferInstanceAs (Decidable (_ ∧ _))

/-- The arguments that write a value down. -/
inductive Spelled : Slot → String → List String → Prop
  | path {v : String} : Spelled .path v [v]
  /-- The value is the next argument. -/
  | apart {o : ScanOption} {flag v : String} (h : flag ∈ longFlags o ++ shortFlags o) :
      Spelled (.option o) v [flag, v]
  /-- The value stands behind the long name, after `=`. -/
  | joined {o : ScanOption} {flag v : String} (h : flag ∈ longFlags o) :
      Spelled (.option o) v [flag ++ "=" ++ v]

/-- The arguments that write values down one after the other. -/
inductive Writes : List (Slot × String) → List String → Prop
  | nil : Writes [] []
  | cons {slot : Slot} {v : String} {given : List (Slot × String)} {piece rest : List String}
      (hv : FreeStanding v) (hs : Spelled slot v piece) (hrest : Writes given rest) :
      Writes ((slot, v) :: given) (piece ++ rest)

/-! ## 3. Single arguments

What one argument is taken for depends on its first characters only. Here each spelling is followed
through the reader once; from then on arguments are not looked into. -/

/-- A free-standing value is taken for a value. -/
theorem form_of_freeStanding {v : String} (h : FreeStanding v) : form v = .plain v := by
  obtain ⟨-, hdash⟩ := h
  unfold form
  split
  case h_4 => rfl
  all_goals
    rename_i heq
    rw [heq] at hdash
    exact absurd rfl hdash

/-- A long name without `=` has no value with it. -/
theorem splitLong_bare {n : List Char} (h : '=' ∉ n) :
    splitLong n = .long (String.ofList n) none := by
  have hne : ∀ c ∈ n, (c != '=') = true := fun c hc => bne_iff_ne.mpr (ne_of_mem_of_not_mem hc h)
  have htake : n.takeWhile (· != '=') = n := List.takeWhile_eq_self_iff.mpr hne
  simp only [splitLong, htake, List.drop_length]

/-- A long name ends at the first `=`, whatever the value behind it has. -/
theorem splitLong_joined {n : List Char} (v : List Char) (h : '=' ∉ n) :
    splitLong (n ++ '=' :: v) = .long (String.ofList n) (some (String.ofList v)) := by
  have hne : ∀ c ∈ n, (c != '=') = true := fun c hc => bne_iff_ne.mpr (ne_of_mem_of_not_mem hc h)
  have htake : (n ++ '=' :: v).takeWhile (· != '=') = n := by
    rw [List.takeWhile_append_of_pos hne]
    exact List.append_nil n
  simp only [splitLong, htake, List.drop_left]

/-- What a long name is: two dashes and a name of its option, in which there is no `=`. -/
theorem long_flag {o : ScanOption} {flag : String} (h : flag ∈ longFlags o) :
    ∃ n : List Char, flag.toList = '-' :: '-' :: n ∧ n ≠ [] ∧ '=' ∉ n ∧
      String.ofList n ≠ "help" ∧ ScanOption.ofName? (String.ofList n) = some o := by
  have htable : ∀ o ∈ ScanOption.all, ∀ flag ∈ longFlags o,
      let n := flag.toList.drop 2
      flag.toList = '-' :: '-' :: n ∧ n ≠ [] ∧ '=' ∉ n ∧ String.ofList n ≠ "help" ∧
        ScanOption.ofName? (String.ofList n) = some o := by decide +kernel
  refine ⟨_, htable o ?_ flag h⟩
  cases o <;> decide

/-- What a letter is: a dash and the letter of its option. -/
theorem short_flag {o : ScanOption} {flag : String} (h : flag ∈ shortFlags o) :
    ∃ c, flag.toList = ['-', c] ∧ c ≠ '-' ∧ c ≠ 'h' ∧ ScanOption.ofLetter? c = some o := by
  cases o <;> simp only [shortFlags, List.mem_singleton, List.not_mem_nil] at h
  all_goals
    subst h
    exact ⟨_, rfl, by decide, by decide, by decide⟩

/-- Arguments are read one by one, as long as none ends the options. -/
theorem scanArguments_cons {s : String} (h : form s ≠ .separator) (rest : List String)
    (p : Progress) : scanArguments (s :: rest) p = (argument s p).bind (scanArguments rest) := by
  rw [scanArguments, if_neg h]
  cases argument s p <;> rfl

/-- A long name is that of an option, unless it asks for help. -/
theorem argument_long {s : String} {n : String} {v : Option String} {o : ScanOption}
    (hform : form s = .long n v) (hhelp : n ≠ "help") (ho : ScanOption.ofName? n = some o)
    (p : Progress) : argument s p = option o v p := by
  simp only [argument, hform, if_neg hhelp, ho]

/-- An option with its value in the next argument. -/
theorem scanArguments_flag {o : ScanOption} {flag : String} (h : flag ∈ longFlags o ++ shortFlags o)
    (rest : List String) (p : Progress) :
    scanArguments (flag :: rest) p = (option o none p).bind (scanArguments rest) := by
  rcases List.mem_append.mp h with h | h
  · obtain ⟨n, hflag, hn, heq, hhelp, ho⟩ := long_flag h
    have hform : form flag = .long (String.ofList n) none := by
      rw [← splitLong_bare heq, form, hflag]
      cases n with
      | nil => exact absurd rfl hn
      | cons c n => rfl
    rw [scanArguments_cons (hform ▸ nofun), argument_long hform hhelp ho]
  · obtain ⟨c, hflag, hdash, hhelp, ho⟩ := short_flag h
    have hform : form flag = .letter c [] := by
      rw [form, hflag]
      split <;> simp_all
    rw [scanArguments_cons (hform ▸ nofun)]
    simp only [argument, hform, if_neg hhelp, ho, attached?]

/-- An option with its value in the same argument. -/
theorem scanArguments_joined {o : ScanOption} {flag : String} (h : flag ∈ longFlags o) (v : String)
    (rest : List String) (p : Progress) :
    scanArguments ((flag ++ "=" ++ v) :: rest) p =
      (option o (some v) p).bind (scanArguments rest) := by
  obtain ⟨n, hflag, -, heq, hhelp, ho⟩ := long_flag h
  have hlist : (flag ++ "=" ++ v).toList = '-' :: '-' :: (n ++ '=' :: v.toList) := by
    simp [hflag]
  have hform : form (flag ++ "=" ++ v) = .long (String.ofList n) (some v) := by
    have hsplit := splitLong_joined v.toList heq
    rw [String.ofList_toList] at hsplit
    rw [form, hlist, ← hsplit]
    cases n <;> rfl
  rw [scanArguments_cons (hform ▸ nofun), argument_long hform hhelp ho]

/-- An argument that begins with no dash. -/
theorem scanArguments_plain {v : String} (h : FreeStanding v) (rest : List String) (p : Progress) :
    scanArguments (v :: rest) p = (plain v p).bind (scanArguments rest) := by
  have hform := form_of_freeStanding h
  rw [scanArguments_cons (hform ▸ nofun)]
  simp only [argument, hform]

/-! ## 4. What cannot be taken is refused

A state in which a complete value cannot be taken leads to a refusal by every way on: by another
value, by an option, by a request for help, and by the end of the line. There is one lemma for each
of them. -/

/-- A refusal that is an error: neither the help nor the version was asked for. -/
def Refused {α : Type} (r : Except Refusal α) : Prop := ∃ e, r = .error e ∧ e.status = 2

/-- A refused line is not read on. -/
theorem Refused.bind {α β : Type} {r : Except Refusal α} (h : Refused r)
    (f : α → Except Refusal β) : Refused (r.bind f) := by
  obtain ⟨e, rfl, he⟩ := h
  exact ⟨e, rfl, he⟩

/-- The arguments that the rest of a line leads to. -/
def outcome (p : Progress) (args : List String) : Except Refusal ScanArguments :=
  (scanArguments args p).bind settle

/-- A value that nothing waits for is the path. -/
theorem plain_of_ready {p : Progress} (h : ∀ o, p.pending ≠ .awaiting o) (s : String) :
    plain s p = positional s p := by
  unfold plain
  split
  · next o hp => exact absurd hp (h o)
  · rfl

/-- What was given last is complete and cannot be taken. -/
structure Stuck (p : Progress) : Prop where
  ready : ∀ o, p.pending ≠ .awaiting o
  refused : Refused (settle p)

namespace Stuck

variable {p : Progress}

/-- Another value is no way out. -/
theorem positional (h : Stuck p) (s : String) : Refused (positional s p) := by
  obtain ⟨e, hsettle, he⟩ := h.refused
  unfold CommandLine.positional
  split
  · exact ⟨.unknownArgument, rfl, rfl⟩
  · exact ⟨e, by rw [hsettle]; rfl, he⟩

/-- Neither is a value that stands by itself. -/
theorem plain (h : Stuck p) (s : String) : Refused (plain s p) := by
  rw [plain_of_ready h.ready]
  exact h.positional s

/-- Neither is another option. -/
theorem option (h : Stuck p) (o : ScanOption) (v : Option String) : Refused (option o v p) := by
  obtain ⟨e, hsettle, he⟩ := h.refused
  exact ⟨e, by rw [CommandLine.option, hsettle], he⟩

/-- Nor is a request for help, which would otherwise end the line well. -/
theorem askHelp (h : Stuck p) : (askHelp p).status = 2 := by
  obtain ⟨e, hsettle, he⟩ := h.refused
  rw [CommandLine.askHelp, hsettle]
  exact he

/-- So no argument is. -/
theorem argument (h : Stuck p) {s : String} (hs : form s ≠ .separator) :
    Refused (argument s p) := by
  -- An argument is refused for itself, or what was given before it is settled first and fails.
  unfold CommandLine.argument
  split
  case h_1 hform => exact absurd hform hs
  case h_2 n v hform =>
    by_cases hhelp : n = "help"
    · rw [if_pos hhelp]
      refine ⟨_, rfl, ?_⟩
      cases v
      · exact h.askHelp
      · rfl
    · rw [if_neg hhelp]
      cases ScanOption.ofName? n with
      | none => exact ⟨.unknownArgument, rfl, rfl⟩
      | some o => exact h.option o v
  case h_3 c r hform =>
    by_cases hhelp : c = 'h'
    · rw [if_pos hhelp]
      exact ⟨_, rfl, h.askHelp⟩
    · rw [if_neg hhelp]
      cases ScanOption.ofLetter? c with
      | none => exact ⟨.unknownArgument, rfl, rfl⟩
      | some o => exact h.option o (attached? r)
  case h_4 hform => exact h.plain _

/-- Arguments behind the separator are values. -/
theorem trailing (h : Stuck p) (rest : List String) : Refused ((trailing rest p).bind settle) := by
  cases rest with
  | nil => exact h.refused
  | cons s rest =>
    obtain ⟨e, hs, he⟩ := h.positional s
    exact ⟨e, by rw [CommandLine.trailing, hs]; rfl, he⟩

/-- Whatever comes behind a value that cannot be taken, the line is refused. -/
theorem outcome (h : Stuck p) (args : List String) : Refused (outcome p args) := by
  cases args with
  | nil => exact h.refused
  | cons s rest =>
    by_cases hs : form s = .separator
    · rw [CommandLine.outcome, scanArguments, if_pos hs]
      exact h.trailing rest
    · rw [CommandLine.outcome, scanArguments_cons hs]
      exact ((h.argument hs).bind _).bind _

end Stuck

/-! ## 5. One value

The step: the state before a value and the state after it, for each way of writing the value. -/

/-- What was given so far is complete and makes up these arguments. -/
structure Stands (p : Progress) (a : ScanArguments) : Prop where
  ready : ∀ o, p.pending ≠ .awaiting o
  settled : settle p = .ok a
  hasPath : p.hasPath = (a.value? .path).isSome

/-- Before the first argument. -/
def start : Progress := ⟨.none, .nothing, false⟩

/-- Before the first argument nothing has been given. -/
theorem stands_start : Stands start .none := ⟨nofun, rfl, rfl⟩

variable {p : Progress} {a : ScanArguments} {slot : Slot} {v : String} {piece : List String}
  {given : List (Slot × String)} {args : List String}

/-- A value for a free slot is taken. -/
theorem take_of_free {o : ScanOption} (h : a.value? (.option o) = none) (hv : v ≠ "") :
    take o v a = .ok (a.put (.option o) v) := by
  have hfree : (a.get? o).isSome = false := by
    rw [Option.isSome_eq_false_iff, Option.isNone_iff_eq_none]
    exact h
  have hempty : v.isEmpty = false := by simpa using hv
  rw [take, hfree, hempty, Bool.and_false]
  rfl

/-- A second value for a slot is refused as repeated. -/
theorem take_of_taken {o : ScanOption} (h : a.value? (.option o) ≠ none) :
    take o v a = .error .repeated := by
  have htaken : (a.get? o).isSome = true := Option.isSome_iff_ne_none.mpr h
  rw [take, if_pos htaken]

/-- A value by itself is the path, and there is one path at most. -/
theorem scanArguments_path (h : Stands p a) (hv : FreeStanding v) (rest : List String) :
    scanArguments (v :: rest) p =
      if p.hasPath then .error .unknownArgument else scanArguments rest ⟨a, .path v, true⟩ := by
  rw [scanArguments_plain hv, plain_of_ready h.ready, positional, h.settled]
  split <;> rfl

/-- A value behind the name of its option waits there until the line goes on. -/
theorem scanArguments_apart {o : ScanOption} {flag : String} (h : Stands p a)
    (hflag : flag ∈ longFlags o ++ shortFlags o) (hv : FreeStanding v) (rest : List String) :
    scanArguments (flag :: v :: rest) p =
      scanArguments rest { p with arguments := a, pending := .given o v } := by
  rw [scanArguments_flag hflag, option, h.settled]
  exact scanArguments_plain hv rest _

/-- A value in a free slot is taken in. -/
theorem step_of_free (h : Stands p a) (hv : FreeStanding v) (hs : Spelled slot v piece)
    (hfree : a.value? slot = none) (rest : List String) :
    ∃ p', scanArguments (piece ++ rest) p = scanArguments rest p' ∧ Stands p' (a.put slot v) := by
  cases hs with
  | path =>
    have hno : p.hasPath = false := by rw [h.hasPath, hfree, Option.isSome_none]
    refine ⟨⟨a, .path v, true⟩, ?_, nofun, ?_, rfl⟩
    · rw [List.singleton_append, scanArguments_path h hv, hno]
      rfl
    · have hempty : v.isEmpty = false := by simpa using hv.1
      simp only [settle, hempty, ScanArguments.put, Bool.false_eq_true, if_false]
  | @apart o flag _ hflag =>
    have hslot : Slot.path ≠ .option o := Slot.noConfusion
    refine ⟨_, scanArguments_apart h hflag hv rest, nofun, take_of_free hfree hv.1, ?_⟩
    rw [ScanArguments.value?_put_of_ne a v hslot]
    exact h.hasPath
  | @joined o flag _ hflag =>
    have hslot : Slot.path ≠ .option o := Slot.noConfusion
    refine ⟨{ p with arguments := a.put (.option o) v, pending := .nothing }, ?_, nofun, rfl, ?_⟩
    · rw [List.singleton_append, scanArguments_joined hflag, option, h.settled]
      simp only [take_of_free hfree hv.1]
      rfl
    · rw [ScanArguments.value?_put_of_ne a v hslot]
      exact h.hasPath

/-- A value in a slot that has one already is refused: a path and what is joined to its name at
once, what stands apart when the line goes on or ends. -/
theorem step_of_taken (h : Stands p a) (hv : FreeStanding v) (hs : Spelled slot v piece)
    (htaken : a.value? slot ≠ none) (rest : List String) : Refused (outcome p (piece ++ rest)) := by
  cases hs with
  | path =>
    have hyes : p.hasPath = true := by rw [h.hasPath, Option.isSome_iff_ne_none]; exact htaken
    rw [outcome, List.singleton_append, scanArguments_path h hv, if_pos hyes]
    exact ⟨.unknownArgument, rfl, rfl⟩
  | @apart o flag _ hflag =>
    have hstuck : Stuck { p with arguments := a, pending := .given o v } :=
      ⟨nofun, .repeated, take_of_taken htaken, rfl⟩
    rw [outcome, List.cons_append, List.singleton_append, scanArguments_apart h hflag hv]
    exact hstuck.outcome rest
  | @joined o flag _ hflag =>
    rw [outcome, List.singleton_append, scanArguments_joined hflag, option, h.settled]
    simp only [take_of_taken htaken]
    exact ⟨.repeated, rfl, rfl⟩

/-! ## 6. All values

The induction over the values. It follows `Writes`, and what is carried is that the slots of all
values to come are free and different. -/

/-- Values for slots that are free and different from one another. -/
def Fits (a : ScanArguments) (given : List (Slot × String)) : Prop :=
  (given.map Prod.fst).Nodup ∧ ∀ g ∈ given, a.value? g.1 = none

/-- Putting a value in its slot leaves what fits behind it. -/
theorem fits_cons_iff (hfree : a.value? slot = none) :
    Fits a ((slot, v) :: given) ↔ Fits (a.put slot v) given := by
  -- Filling a slot changes what is held there and nowhere else.
  unfold Fits
  constructor
  · rintro ⟨hnodup, hall⟩
    obtain ⟨hslot, hrest⟩ := List.nodup_cons.mp hnodup
    refine ⟨hrest, fun g hg => ?_⟩
    rw [a.value?_put_of_ne v (ne_of_mem_of_not_mem (List.mem_map_of_mem hg) hslot)]
    exact hall g (List.mem_cons_of_mem _ hg)
  · rintro ⟨hnodup, hall⟩
    have hne : ∀ g ∈ given, g.1 ≠ slot := by
      rintro g hg rfl
      exact absurd (hall g hg) (by simp)
    refine ⟨List.nodup_cons.mpr ⟨?_, hnodup⟩, ?_⟩
    · rintro hmem
      obtain ⟨g, hg, heq⟩ := List.mem_map.mp hmem
      exact hne g hg heq
    · rintro g hg
      rcases List.mem_cons.mp hg with rfl | hg
      · exact hfree
      · rw [← a.value?_put_of_ne v (hne g hg)]
        exact hall g hg

/-- Values that fit are taken in, in whatever order they come. -/
theorem scanArguments_of_fits (hw : Writes given args) (h : Stands p a) (hfits : Fits a given) :
    ∃ p', scanArguments args p = .ok p' ∧ Stands p' (a.putAll given) := by
  induction hw generalizing p a with
  | nil => exact ⟨p, rfl, h⟩
  | @cons slot v given piece rest hv hs hrest ih =>
    have hfree : a.value? slot = none := hfits.2 _ List.mem_cons_self
    obtain ⟨p', hstep, hp'⟩ := step_of_free h hv hs hfree rest
    rw [hstep]
    exact ih hp' ((fits_cons_iff hfree).mp hfits)

/-- When one of the values does not fit, the line is refused. -/
theorem outcome_of_not_fits (hw : Writes given args) (h : Stands p a) (hfits : ¬ Fits a given) :
    Refused (outcome p args) := by
  induction hw generalizing p a with
  | nil => exact absurd ⟨List.nodup_nil, nofun⟩ hfits
  | @cons slot v given piece rest hv hs hrest ih =>
    by_cases hfree : a.value? slot = none
    · obtain ⟨p', hstep, hp'⟩ := step_of_free h hv hs hfree rest
      rw [outcome, hstep]
      exact ih hp' (mt (fits_cons_iff hfree).mpr hfits)
    · exact step_of_taken h hv hs hfree rest

theorem fits_none_iff : Fits .none given ↔ (given.map Prod.fst).Nodup :=
  and_iff_left fun g _ => ScanArguments.value?_none g.1

/-! ## 7. The line

From the arguments of a scan to the whole line, with the name of the program and of the command. -/

/-- What arguments ask for. -/
def asked (a : ScanArguments) : Except Refusal Command :=
  match a.path with
  | some s => .ok (.scan ⟨s⟩ a)
  | none => .error .missingPath

/-- A line that begins with the command is what its arguments ask for. -/
theorem parse_scan (program : String) (args : List String) :
    parse (program :: "scan" :: args) = (outcome start args).bind asked := by
  have hscan : parse (program :: "scan" :: args) = scan args := rfl
  rw [hscan, scan, outcome, start]
  cases scanArguments args ⟨.none, .nothing, false⟩ with
  | error e => rfl
  | ok p =>
    simp only [Except.bind]
    cases settle p <;> rfl

/-- Values for different slots make up the arguments, whatever their order. -/
theorem outcome_of_nodup (hw : Writes given args) (h : (given.map Prod.fst).Nodup) :
    ∃ a : ScanArguments, outcome start args = .ok a ∧
      ∀ slot v, a.value? slot = some v ↔ (slot, v) ∈ given := by
  obtain ⟨p, hrun, hp⟩ := scanArguments_of_fits hw stands_start (fits_none_iff.mpr h)
  refine ⟨_, ?_, ScanArguments.value?_putAll_iff h⟩
  rw [outcome, hrun]
  exact hp.settled

/-- Two values for one slot are refused, wherever they stand. -/
theorem outcome_of_not_nodup (hw : Writes given args) (h : ¬ (given.map Prod.fst).Nodup) :
    Refused (outcome start args) :=
  outcome_of_not_fits hw stands_start (mt fits_none_iff.mp h)

/-- **The arguments of a scan read back as they were written.** A line of arguments gives values,
in any order, each as the path or in one spelling of its option. When every slot is given at most
once and the path is among them, the line asks for a scan of that path with exactly these values.
It is an error when the path is left out, and when any slot is given twice. -/
theorem parse_of_writes {given : List (Slot × String)} {args : List String} (program : String)
    (hw : Writes given args) :
    (∀ path, (.path, path) ∈ given → (given.map Prod.fst).Nodup →
      ∃ a, parse (program :: "scan" :: args) = .ok (.scan ⟨path⟩ a) ∧
        ∀ slot v, a.value? slot = some v ↔ (slot, v) ∈ given) ∧
    ((∀ path, (.path, path) ∉ given) → Refused (parse (program :: "scan" :: args))) ∧
    (¬ (given.map Prod.fst).Nodup → Refused (parse (program :: "scan" :: args))) := by
  rw [parse_scan]
  refine ⟨fun path hpath hnodup => ?_, fun hno => ?_, fun h => (outcome_of_not_nodup hw h).bind _⟩
  · obtain ⟨a, hrun, hvalues⟩ := outcome_of_nodup hw hnodup
    have ha : a.path = some path := (hvalues .path path).mpr hpath
    refine ⟨a, ?_, hvalues⟩
    rw [hrun, Except.bind, asked, ha]
  · by_cases hnodup : (given.map Prod.fst).Nodup
    · obtain ⟨a, hrun, hvalues⟩ := outcome_of_nodup hw hnodup
      have ha : a.path = none :=
        Option.eq_none_iff_forall_ne_some.mpr fun s hs => hno s ((hvalues .path s).mp hs)
      refine ⟨.missingPath, ?_, rfl⟩
      rw [hrun, Except.bind, asked, ha]
    · exact (outcome_of_not_nodup hw hnodup).bind _

/-- Values that look like names of commands and options, or that have an `=`, are values; without
the path, and with a second target, the same arguments are refused. -/
theorem parse_of_writes_names_as_values :
    (∃ a, parse ["typo3scan", "scan", "--only=a=b", "help", "--reportFile", "scan", "-t",
        "target"] = .ok (.scan ⟨"help"⟩ a) ∧
      ∀ slot v, a.value? slot = some v ↔ (slot, v) ∈ [(.option .only, "a=b"), (.path, "help"),
        (.option .reportFile, "scan"), (.option .target, "target")]) ∧
    Refused (parse ["typo3scan", "scan", "--reportFile", "scan", "-t", "target"]) ∧
    Refused (parse ["typo3scan", "scan", "--target", "7", "help", "--reportFile", "scan", "-t",
      "target"]) := by
  have hfree : ∀ v ∈ ["a=b", "help", "scan", "target", "7"], FreeStanding v := by decide +kernel
  have honly : Spelled (.option .only) "a=b" ["--only=a=b"] :=
    @Spelled.joined .only "--only" "a=b" (by decide)
  have hfile : Spelled (.option .reportFile) "scan" ["--reportFile", "scan"] := .apart (by decide)
  have hletter : Spelled (.option .target) "target" ["-t", "target"] := .apart (by decide)
  have hlong : Spelled (.option .target) "7" ["--target", "7"] := .apart (by decide)
  have hrest := Writes.cons (hfree _ (by decide)) hfile (.cons (hfree _ (by decide)) hletter .nil)
  have hpath := Writes.cons (hfree "help" (by decide)) .path hrest
  have hall := Writes.cons (hfree _ (by decide)) honly hpath
  have htwice := Writes.cons (hfree _ (by decide)) hlong hpath
  refine ⟨?_, ?_, ?_⟩
  · exact (parse_of_writes "typo3scan" hall).1 "help" (by decide) (by decide)
  · exact (parse_of_writes "typo3scan" hrest).2.1 fun path => by simp
  · exact (parse_of_writes "typo3scan" htwice).2.2 (by decide)

end CommandLine

end UpgradeScan
