import LinkSummary.CommandLine.Command
import Mathlib.Data.List.TakeDrop
import Mathlib.Tactic.Common

/-!
# Arguments for commands

Every merge can be asked for: with its options in their long forms, each value after an equals sign,
and with its inputs after two dashes, where they may begin with a dash.
-/

namespace LinkSummary

namespace Arguments

variable {forms : List OptionForm} {form : OptionForm} {name : String} {args : List String}
  {rest : Arguments}

lemma span_ne_append {c : Char} {cs : List Char} (h : c ∉ cs) (rest : List Char) :
    (cs ++ c :: rest).span (· != c) = (cs, c :: rest) := by
  have hcs : ∀ a ∈ cs, (a != c) = true := fun a ha => bne_iff_ne.mpr fun heq => h (heq ▸ ha)
  rw [List.span_eq_takeWhile_dropWhile, List.takeWhile_append_of_pos hcs,
    List.dropWhile_append_of_pos hcs]
  simp

/-- An option with its value after an equals sign. -/
lemma read_cons_of_value (name value : String) (hname : '=' ∉ name.toList)
    (hform : forms.find? (·.name == name) = some form) (hvalue : form.takesValue = true)
    (hrest : read forms none args = .ok rest) :
    read forms none (("--" ++ name ++ "=" ++ value) :: args) =
      .ok { rest with options := (name, some value) :: rest.options } := by
  have hlist : ("--" ++ name ++ "=" ++ value).toList =
      '-' :: '-' :: (name.toList ++ '=' :: value.toList) := by
    simp
  have hread : readOption forms ("--" ++ name ++ "=" ++ value) =
      .ok ([(name, some value)], none) := by
    simp only [readOption, hlist, readLong, span_ne_append hname, String.ofList_toList, hform,
      hvalue, if_true]
  have hne : "--" ++ name ++ "=" ++ value ≠ "--" := by
    intro heq
    have hlen := congrArg (·.toList.length) heq
    simp [hlist] at hlen
  have hoption : isOption ("--" ++ name ++ "=" ++ value) = true := by
    rw [isOption, hlist]
    rfl
  rw [read]
  simp only [if_neg hne, hoption, if_true, hread, hrest, Bind.bind, Except.bind]
  rfl

/-- An option without a value. -/
lemma read_cons_of_none {arg : String} (hoption : isOption arg = true) (hne : arg ≠ "--")
    (hread : readOption forms arg = .ok ([(name, none)], none))
    (hrest : read forms none args = .ok rest) :
    read forms none (arg :: args) = .ok { rest with options := (name, none) :: rest.options } := by
  rw [read]
  simp only [if_neg hne, hoption, if_true, hread, hrest, Bind.bind, Except.bind]
  rfl

lemma read_cons_dashes (operands : List String) :
    read forms none ("--" :: operands) = .ok { operands } := by
  rw [read]
  simp only [if_true]

end Arguments

namespace Command

variable {inputs : List String} {output : String} {embedDebugNames : Bool} {traced : Option String}

/-- Arguments for a merge. -/
def mergeArguments (inputs : List String) (output : String) (embedDebugNames : Bool)
    (traced : Option String) : List String :=
  "merge" :: ("--output=" ++ output) ::
    ((if embedDebugNames then ["--embed-debug-names"] else []) ++
      ((traced.map ("--print-live-trace=" ++ ·)).toList ++ "--" :: inputs))

/-- The options of a merge with their values. -/
def mergeOptions (output : String) (embedDebugNames : Bool) (traced : Option String) :
    List (String × Option String) :=
  ("output", some output) :: ((if embedDebugNames then [("embed-debug-names", none)] else []) ++
    (traced.map fun name => ("print-live-trace", some name)).toList)

lemma ofList_mergeArguments (inputs : List String) (output : String) (embedDebugNames : Bool)
    (traced : Option String) :
    Arguments.ofList mergeForms (mergeArguments inputs output embedDebugNames traced).tail =
      .ok { options := mergeOptions output embedDebugNames traced, operands := inputs } := by
  have htraced : Arguments.read mergeForms none
      ((traced.map ("--print-live-trace=" ++ ·)).toList ++ "--" :: inputs) = .ok {
        options := (traced.map fun name => ("print-live-trace", some name)).toList
        operands := inputs } := by
    have hinputs : Arguments.read mergeForms none ("--" :: inputs) = .ok { operands := inputs } :=
      Arguments.read_cons_dashes inputs
    cases traced with
    | none => exact hinputs
    | some name =>
      exact Arguments.read_cons_of_value "print-live-trace" name (by decide) rfl rfl hinputs
  have hembed : Arguments.read mergeForms none
      ((if embedDebugNames then ["--embed-debug-names"] else []) ++
        ((traced.map ("--print-live-trace=" ++ ·)).toList ++ "--" :: inputs)) = .ok {
          options := (if embedDebugNames then [("embed-debug-names", none)] else []) ++
            (traced.map fun name => ("print-live-trace", some name)).toList
          operands := inputs } := by
    cases embedDebugNames with
    | false => exact htraced
    | true => exact Arguments.read_cons_of_none (by decide) (by decide) (by decide +kernel) htraced
  have hall : Arguments.read mergeForms none
      (mergeArguments inputs output embedDebugNames traced).tail =
        .ok { options := mergeOptions output embedDebugNames traced, operands := inputs } :=
    Arguments.read_cons_of_value "output" output (by decide) rfl rfl hembed
  have hdifferent : Arguments.firstRepeated
      ((mergeOptions output embedDebugNames traced).map (·.1)) = none := by
    cases embedDebugNames <;> cases traced <;> rfl
  rw [Arguments.ofList, hall]
  simp only [Bind.bind, Except.bind, hdifferent]
  rfl

lemma mapM_readPath (h : ∀ path ∈ inputs, path.isEmpty = false) :
    inputs.mapM readPath = .ok inputs := by
  induction inputs with
  | nil => rfl
  | cons path inputs ih =>
    rw [List.forall_mem_cons] at h
    rw [List.mapM_cons, ih h.2, readPath, h.1]
    rfl

lemma outputPath_mergeOptions (h : output.isEmpty = false) :
    outputPath { options := mergeOptions output embedDebugNames traced, operands := inputs } =
      .ok output := by
  have hvalue : Arguments.value?
      { options := mergeOptions output embedDebugNames traced, operands := inputs }
      outputForm.name = some output := rfl
  rw [outputPath, optionalPath, hvalue]
  simp only [readPath, h, Bool.false_eq_true, if_false]
  rfl

/-- Every merge of inputs that have names can be asked for. -/
theorem ofArguments_mergeArguments (hne : inputs ≠ [])
    (hinputs : ∀ path ∈ inputs, path.isEmpty = false) (houtput : output.isEmpty = false) :
    CommandLine.ofArguments (mergeArguments inputs output embedDebugNames traced) =
      .ok { verbose := false, command := .merge inputs output embedDebugNames traced } := by
  have hread : readMerge
      { options := mergeOptions output embedDebugNames traced, operands := inputs } =
        .ok (.merge inputs output embedDebugNames traced) := by
    have hempty : inputs.isEmpty = false := List.isEmpty_eq_false_iff.mpr hne
    simp only [readMerge, outputPath_mergeOptions houtput, mapM_readPath hinputs, Bind.bind,
      Except.bind, hempty, Bool.false_eq_true, if_false]
    cases embedDebugNames <;> cases traced <;> rfl
  have hname : Arguments.isOption "merge" = false := by decide
  have hglobals : Arguments.ofList [verboseForm] [] = .ok {} := rfl
  have hforms : CommandLine.commandNamed? "merge" = some (mergeForms, readMerge) := rfl
  have hall := ofList_mergeArguments inputs output embedDebugNames traced
  rw [mergeArguments, List.tail_cons] at hall
  rw [CommandLine.ofArguments, mergeArguments]
  simp only [List.takeWhile_cons, List.dropWhile_cons, hname, Bool.false_and, Bool.false_eq_true,
    if_false, hglobals, hforms, hall, hread, Bind.bind, Except.bind]
  cases embedDebugNames <;> cases traced <;> rfl

end Command

end LinkSummary
