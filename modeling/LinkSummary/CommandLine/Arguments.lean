/-!
# Arguments of a command

Arguments are options and operands in any order. An option has a long name after two dashes and
perhaps a letter after one dash; letters may share a dash. A value follows its option as the next
argument, after an equals sign, or right after the letter. After two dashes alone all arguments are
operands. No option is given twice.
-/

namespace LinkSummary

/-- Why arguments are no command. -/
inductive ArgumentError where
  | missingCommand
  | unknownCommand (name : String)
  | unknownOption (text : String)
  | unneededValue (name : String)
  | missingValue (name : String)
  | repeatedOption (name : String)
  | missingOption (names : List String)
  | conflictingOptions (names : List String)
  | missingOperand
  | unneededOperand (text : String)
  | emptyPath
deriving DecidableEq

/-- The long names of options as they are written. -/
def shownOptions (names : List String) : String :=
  " or ".intercalate (names.map fun name => "--" ++ name)

def ArgumentError.message : ArgumentError → String
  | missingCommand => "a command is required"
  | unknownCommand name => s!"there is no command '{name}'"
  | unknownOption text => s!"there is no option '{text}'"
  | unneededValue name => shownOptions [name] ++ " takes no value"
  | missingValue name => shownOptions [name] ++ " needs a value"
  | repeatedOption name => shownOptions [name] ++ " is given more than once"
  | missingOption names => shownOptions names ++ " is required"
  | conflictingOptions names => "only one can be given: " ++ shownOptions names
  | missingOperand => "an input file is required"
  | unneededOperand text => s!"there is no place for '{text}'"
  | emptyPath => "a path is empty"

/-- An option that a command takes. -/
structure OptionForm where
  name : String
  letter : Option Char := none
  takesValue : Bool := false
deriving DecidableEq

/-- Arguments that have been told apart. -/
structure Arguments where
  /-- The options by their long names, with their values, in the order in which they were given. -/
  options : List (String × Option String) := []
  operands : List String := []
deriving DecidableEq

namespace Arguments

/-- What one argument tells: options, and perhaps an option whose value is the next argument. -/
abbrev Reading := List (String × Option String) × Option String

/-- Whether an argument can only be an option: it begins with a dash and is more than that. -/
def isOption (arg : String) : Bool :=
  match arg.toList with
  | '-' :: _ :: _ => true
  | _ => false

/-- An option by its long name, perhaps with its value after an equals sign. -/
def readLong (forms : List OptionForm) (cs : List Char) : Except ArgumentError Reading :=
  let (name, value) := cs.span (· != '=')
  let name := String.ofList name
  match forms.find? (·.name == name), value with
  | none, _ => .error (.unknownOption ("--" ++ name))
  | some form, [] => .ok (if form.takesValue then ([], some name) else ([(name, none)], none))
  | some form, _ :: value =>
    if form.takesValue then .ok ([(name, some (.ofList value))], none)
    else .error (.unneededValue name)

/-- Options by their letters. What follows the letter of an option that takes a value is the
value. -/
def readLetters (forms : List OptionForm) : List Char → Except ArgumentError Reading
  | [] => .ok ([], none)
  | letter :: cs =>
    match forms.find? (·.letter == some letter) with
    | none => .error (.unknownOption (.ofList ['-', letter]))
    | some form =>
      if form.takesValue then
        match cs with
        | [] => .ok ([], some form.name)
        | '=' :: value => .ok ([(form.name, some (.ofList value))], none)
        | value => .ok ([(form.name, some (.ofList value))], none)
      else do
        let (options, waiting) ← readLetters forms cs
        return ((form.name, none) :: options, waiting)

def readOption (forms : List OptionForm) (arg : String) : Except ArgumentError Reading :=
  match arg.toList with
  | '-' :: '-' :: cs => readLong forms cs
  | cs => readLetters forms cs.tail

/-- Tell arguments apart, of which the first may be the value of an option. -/
def read (forms : List OptionForm) (waiting : Option String) :
    List String → Except ArgumentError Arguments
  | [] =>
    match waiting with
    | none => .ok {}
    | some name => .error (.missingValue name)
  | arg :: args =>
    match waiting with
    | some name =>
      if isOption arg then .error (.missingValue name)
      else do
        let rest ← read forms none args
        return { rest with options := (name, some arg) :: rest.options }
    | none =>
      if arg = "--" then .ok { operands := args }
      else if isOption arg then do
        let (options, waiting) ← readOption forms arg
        let rest ← read forms waiting args
        return { rest with options := options ++ rest.options }
      else do
        let rest ← read forms none args
        return { rest with operands := arg :: rest.operands }

def firstRepeated : List String → Option String
  | [] => none
  | name :: names => if name ∈ names then some name else firstRepeated names

def ofList (forms : List OptionForm) (args : List String) : Except ArgumentError Arguments := do
  let arguments ← read forms none args
  match firstRepeated (arguments.options.map (·.1)) with
  | some name => throw (.repeatedOption name)
  | none => return arguments

def has (arguments : Arguments) (name : String) : Bool := (arguments.options.lookup name).isSome

def value? (arguments : Arguments) (name : String) : Option String :=
  (arguments.options.lookup name).join

end Arguments

end LinkSummary
