import RailsSchema.CommandLine.Arguments

/-!
# The options of a command line

What the arguments behind the first say, told without reading them one after the other: they are cut
into options, each option is valid or not by itself, and of several options for one setting the last
one counts.

* `CommandLine.options`: the options that some arguments make;
* `Invocation.readFlags_eq_ok_iff`: arguments are read if all their options are valid, and then each
  setting is that of its last option;
* `Invocation.ofArguments_eq_ok_iff`: the same for all arguments of a run.
-/

namespace RailsSchema.CommandLine

/-- An option of a command line. -/
inductive Given where
  | help
  | legacyArrays
  | value (flag : ValueFlag) (value : String)
  /-- A flag in last place that lacks its value. -/
  | dangling (flag : ValueFlag)
  | unknown (argument : String)
  deriving DecidableEq, Repr

/-- The options that some arguments make. A flag with a value takes the next argument for it, even if
that looks like a flag. -/
def options : List String → List Given
  | [] => []
  | argument :: arguments =>
    match Flag.ofArgument? argument with
    | none => .unknown argument :: options arguments
    | some .help => .help :: options arguments
    | some .legacyArrays => .legacyArrays :: options arguments
    | some (.withValue flag) =>
      match arguments with
      | [] => [.dangling flag]
      | value :: others => .value flag value :: options others

namespace Given

/-- The file to write that an option names. -/
def output? : Given → Option String
  | .value .output path => some path
  | _ => none

/-- The format that an option names. -/
def format? : Given → Option Format
  | .value .format name => Format.ofName? name
  | _ => none

/-- The filter that an option names. -/
def arrayFilter? : Given → Option ArrayFilter
  | .legacyArrays => some .legacyTruthy
  | .value .arrayFilter name => ArrayFilter.ofName? name
  | _ => none

/-- The depth that an option gives. -/
def maxDepth? : Given → Option Nat
  | .value .maxDepth text => depth? text
  | _ => none

/-- Whether an option is known, does not ask for help, and has a value that suits it. -/
def IsValid : Given → Prop
  | .help => False
  | .unknown _ => False
  | .legacyArrays => True
  | .dangling _ => True
  | .value .output _ => True
  | .value .format name => (Format.ofName? name).isSome
  | .value .arrayFilter name => (ArrayFilter.ofName? name).isSome
  | .value .maxDepth text => (depth? text).isSome

instance : DecidablePred IsValid
  | .help => inferInstanceAs (Decidable False)
  | .unknown _ => inferInstanceAs (Decidable False)
  | .legacyArrays => inferInstanceAs (Decidable True)
  | .dangling _ => inferInstanceAs (Decidable True)
  | .value .output _ => inferInstanceAs (Decidable True)
  | .value .format name => inferInstanceAs (Decidable ((Format.ofName? name).isSome = true))
  | .value .arrayFilter name =>
    inferInstanceAs (Decidable ((ArrayFilter.ofName? name).isSome = true))
  | .value .maxDepth text => inferInstanceAs (Decidable ((depth? text).isSome = true))

end Given

/-- What the last of some options says, among those that say anything. -/
def lastOf {α : Type} (said? : Given → Option α) (given : List Given) : Option α :=
  (given.filterMap said?).getLast?

theorem lastOf_nil {α : Type} (said? : Given → Option α) : lastOf said? [] = none := rfl

theorem lastOf_cons {α : Type} (said? : Given → Option α) (option : Given) (given : List Given) :
    lastOf said? (option :: given) = (lastOf said? given).or (said? option) := by
  unfold lastOf
  cases hsaid : said? option with
  | none => rw [List.filterMap_cons_none hsaid, Option.or_none]
  | some value =>
    rw [List.filterMap_cons_some hsaid, List.getLast?_cons]
    cases (given.filterMap said?).getLast? <;> rfl

namespace Invocation

/-- An invocation in which every setting that some options say something about is that of the last
of them. -/
def override (invocation : Invocation) (given : List Given) : Invocation where
  input := invocation.input
  output := (lastOf Given.output? given).or invocation.output
  format := (lastOf Given.format? given).getD invocation.format
  settings :=
    { arrayFilter := (lastOf Given.arrayFilter? given).getD invocation.settings.arrayFilter
      maxDepth := (lastOf Given.maxDepth? given).getD invocation.settings.maxDepth }

@[simp] theorem override_nil (invocation : Invocation) : invocation.override [] = invocation := rfl

theorem override_cons (invocation : Invocation) (option : Given) (given : List Given) :
    invocation.override (option :: given) = (invocation.override [option]).override given := by
  have hgetD : ∀ {α : Type} (a b : Option α) (c : α), (a.or b).getD c = a.getD (b.getD c) := by
    intro α a b c
    cases a <;> rfl
  simp only [override, lastOf_cons, lastOf_nil, Option.none_or, Option.or_assoc, hgetD]

/-- A flag is given a value if that suits it. -/
theorem set_eq_ok_iff {invocation changed : Invocation} {flag : ValueFlag} {value : String} :
    invocation.set flag value = .ok changed ↔
      (Given.value flag value).IsValid ∧ changed = invocation.override [.value flag value] := by
  cases flag with
  | output =>
    have hone : invocation.override [.value .output value] =
      { invocation with output := some value } := rfl
    have hvalid : (Given.value .output value).IsValid := trivial
    simp only [set, hvalid, hone, true_and, Except.ok.injEq]
    exact eq_comm
  | format =>
    cases hname : Format.ofName? value with
    | none => simp [set, Given.IsValid, hname]
    | some format =>
      have hone : invocation.override [.value .format value] =
          { invocation with format := format } := by
        simp [override, lastOf, Given.format?, Given.output?, Given.arrayFilter?, Given.maxDepth?,
          hname]
      have hvalid : (Given.value .format value).IsValid := by simp [Given.IsValid, hname]
      simp only [set, hname, hvalid, hone, true_and, Except.ok.injEq]
      exact eq_comm
  | arrayFilter =>
    cases hname : ArrayFilter.ofName? value with
    | none => simp [set, Given.IsValid, hname]
    | some filter =>
      have hone : invocation.override [.value .arrayFilter value] =
          invocation.withArrayFilter filter := by
        simp [override, lastOf, Given.format?, Given.output?, Given.arrayFilter?, Given.maxDepth?,
          hname, withArrayFilter]
      have hvalid : (Given.value .arrayFilter value).IsValid := by simp [Given.IsValid, hname]
      simp only [set, hname, hvalid, hone, true_and, Except.ok.injEq]
      exact eq_comm
  | maxDepth =>
    cases hdepth : depth? value with
    | none => simp [set, Given.IsValid, hdepth]
    | some depth =>
      have hone : invocation.override [.value .maxDepth value] =
          { invocation with settings := { invocation.settings with maxDepth := depth } } := by
        simp [override, lastOf, Given.format?, Given.output?, Given.arrayFilter?, Given.maxDepth?,
          hdepth]
      have hvalid : (Given.value .maxDepth value).IsValid := by simp [Given.IsValid, hdepth]
      simp only [set, hdepth, hvalid, hone, true_and, Except.ok.injEq]
      exact eq_comm

/-- Arguments are read if all their options are valid, and then the last option for a setting is the
one that counts. -/
theorem readFlags_eq_ok_iff {invocation changed : Invocation} {arguments : List String} :
    invocation.readFlags arguments = .ok changed ↔
      (∀ option ∈ options arguments, option.IsValid) ∧
        changed = invocation.override (options arguments) := by
  induction invocation, arguments using readFlags.induct with
  | case1 invocation =>
    rw [readFlags, options, override_nil, Except.ok.injEq]
    simp [eq_comm]
  | case2 invocation argument arguments hflag =>
    simp [readFlags, options, hflag, Given.IsValid]
  | case3 invocation argument arguments hflag =>
    simp [readFlags, options, hflag, Given.IsValid]
  | case4 invocation argument arguments hflag ih =>
    have hone : invocation.override [.legacyArrays] = invocation.withArrayFilter .legacyTruthy := rfl
    simp only [readFlags, options, hflag, ih, List.forall_mem_cons]
    rw [override_cons, hone, and_iff_right (show Given.legacyArrays.IsValid from trivial)]
  | case5 invocation argument flag hflag =>
    have hone : invocation.override [.dangling flag] = invocation := rfl
    simp only [readFlags, options, hflag, List.forall_mem_singleton, Except.ok.injEq, hone]
    rw [and_iff_right (show (Given.dangling flag).IsValid from trivial)]
    exact eq_comm
  | case6 invocation argument flag hflag value others next hset ih =>
    obtain ⟨hvalid, rfl⟩ := set_eq_ok_iff.mp hset
    simp only [readFlags, options, hflag, hset, ih, List.forall_mem_cons]
    rw [override_cons invocation _ (options others), and_iff_right hvalid]
  | case7 invocation argument flag hflag value others refusal hset =>
    have hinvalid : ¬ (Given.value flag value).IsValid := by
      intro hvalid
      rw [set_eq_ok_iff.mpr ⟨hvalid, rfl⟩] at hset
      cases hset
    simp [readFlags, options, hflag, hset, hinvalid]

/-- A run is asked for by an input and valid options. -/
theorem ofArguments_eq_ok_iff {arguments : List String} {invocation : Invocation} :
    ofArguments arguments = .ok invocation ↔
      ∃ input flags, arguments = input :: flags ∧ (∀ option ∈ options flags, option.IsValid) ∧
        invocation = override { input := input } (options flags) := by
  cases arguments with
  | nil => simp [ofArguments]
  | cons input flags =>
    rw [ofArguments, readFlags_eq_ok_iff]
    constructor
    · rintro ⟨hvalid, heq⟩
      exact ⟨input, flags, rfl, hvalid, heq⟩
    · rintro ⟨_, _, hcons, hvalid, heq⟩
      cases hcons
      exact ⟨hvalid, heq⟩

end Invocation

end RailsSchema.CommandLine
