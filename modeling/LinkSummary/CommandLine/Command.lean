import LinkSummary.CommandLine.Arguments

/-!
# Commands

Summaries are converted to text and back, merged, and described. A command line names one of these
and the files that it is about.
-/

namespace LinkSummary

/-- A command. -/
inductive Command where
  | toYaml (input output : String)
  | fromYaml (input output : String) (embedDebugNames : Bool)
  /-- Write the merge of summaries, and explain why a function is live. -/
  | merge (inputs : List String) (output : String) (embedDebugNames : Bool)
    (traced : Option String)
  | info (input : String) (json : Bool)
deriving DecidableEq

namespace Command

def inputs : Command → List String
  | toYaml input _ | fromYaml input _ _ | info input _ => [input]
  | merge inputs .. => inputs

/-! ### Options -/

def verboseForm : OptionForm := { name := "verbose", letter := 'v' }

def outputForm : OptionForm := { name := "output", letter := 'o', takesValue := true }

def embedForm : OptionForm := { name := "embed-debug-names" }

def convertForms : List OptionForm :=
  [verboseForm, outputForm, embedForm, { name := "to-yaml", takesValue := true },
    { name := "from-yaml", takesValue := true }]

def mergeForms : List OptionForm :=
  [verboseForm, outputForm, embedForm, { name := "print-live-trace", takesValue := true }]

def infoForms : List OptionForm := [verboseForm, { name := "json" }]

/-! ### From arguments -/

def readPath (path : String) : Except ArgumentError String :=
  if path.isEmpty then .error .emptyPath else .ok path

/-- The value of an option that is a path, if it is given. -/
def optionalPath (arguments : Arguments) (name : String) :
    Except ArgumentError (Option String) :=
  match arguments.value? name with
  | none => .ok none
  | some path => some <$> readPath path

def outputPath (arguments : Arguments) : Except ArgumentError String := do
  match ← optionalPath arguments outputForm.name with
  | some path => return path
  | none => throw (.missingOption [outputForm.name])

/-- The command `convert`: in one of two directions, without operands. -/
def readConvert (arguments : Arguments) : Except ArgumentError Command := do
  let output ← outputPath arguments
  if let operand :: _ := arguments.operands then throw (.unneededOperand operand)
  match ← optionalPath arguments "to-yaml", ← optionalPath arguments "from-yaml" with
  | some input, none => return .toYaml input output
  | none, some input => return .fromYaml input output (arguments.has embedForm.name)
  | none, none => throw (.missingOption ["to-yaml", "from-yaml"])
  | some _, some _ => throw (.conflictingOptions ["to-yaml", "from-yaml"])

/-- The command `merge`: one or more operands. -/
def readMerge (arguments : Arguments) : Except ArgumentError Command := do
  let output ← outputPath arguments
  let inputs ← arguments.operands.mapM readPath
  if inputs.isEmpty then throw .missingOperand
  return .merge inputs output (arguments.has embedForm.name)
    (arguments.value? "print-live-trace")

def readInfo (arguments : Arguments) : Except ArgumentError Command := do
  match arguments.operands with
  | [] => throw .missingOperand
  | [input] => return .info (← readPath input) (arguments.has "json")
  | _ :: operand :: _ => throw (.unneededOperand operand)

end Command

/-- A command line. -/
structure CommandLine where
  verbose : Bool
  command : Command
deriving DecidableEq

namespace CommandLine

/-- The options of a command and how it is read, by its name. -/
def commandNamed? (name : String) :
    Option (List OptionForm × (Arguments → Except ArgumentError Command)) :=
  match name with
  | "convert" => some (Command.convertForms, Command.readConvert)
  | "merge" => some (Command.mergeForms, Command.readMerge)
  | "info" => some (Command.infoForms, Command.readInfo)
  | _ => none

/-- The command line that arguments are. Before the name of the command there can only be the
option to tell more, which can be given after it as well. -/
def ofArguments (args : List String) : Except ArgumentError CommandLine := do
  let isGlobal (arg : String) := Arguments.isOption arg && arg != "--"
  let globals ← Arguments.ofList [Command.verboseForm] (args.takeWhile isGlobal)
  match args.dropWhile isGlobal with
  | [] => throw .missingCommand
  | name :: args =>
    match commandNamed? name with
    | none => throw (.unknownCommand name)
    | some (forms, readCommand) =>
      let arguments ← Arguments.ofList forms args
      let command ← readCommand arguments
      let verbose := globals.has Command.verboseForm.name || arguments.has Command.verboseForm.name
      return { verbose, command }

end CommandLine

end LinkSummary
