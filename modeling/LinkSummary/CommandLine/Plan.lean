import LinkSummary.CommandLine.Command
import LinkSummary.CommandLine.Description
import LinkSummary.Files.SummaryFile
import LinkSummary.Merged
import LinkSummary.Outline.Printer
import LinkSummary.Outline.Reader
import LinkSummary.Store.Json

/-!
# What commands do

A command reads all its files before it writes anything. What it does then is a plan: what it tells,
and the result with the place for it. A result goes to a file, or after a dash to standard output.
-/

namespace LinkSummary

/-- What a command does after it has read its files. -/
structure Plan where
  text : String := ""
  messages : List String := []
  /-- More lines for standard error, for those who want to be told more. -/
  notes : List String := []
  result : Option (String × List UInt8) := none
  succeeded : Bool := true
deriving DecidableEq

def linesText (lines : List String) : String := .join (lines.map (· ++ "\n"))

namespace Plan

def failed (messages : List String) : Plan := { messages, succeeded := false }

def write (path : String) (bytes : List UInt8) : Plan := { result := some (path, bytes) }

def print (text : String) : Plan := { text }

end Plan

/-! ### Messages -/

/-- The line for a file that cannot be read or written. -/
def fileMessage (path : String) (cause : FileError) : String := s!"error: {path}: {cause.text}"

/-- The lines for a summary that cannot be read. -/
def SummaryFileError.messages (e : SummaryFileError) : List String :=
  let isNewer :=
    match e with
    | .file .. => false
    | .contents _ cause => cause.needsRegeneration
  ("error: " ++ e.message)
    :: if isNewer then ["note: regenerate this summary with the current compiler"] else []

def Diagnostic.warning (d : Diagnostic) : String := s!"warning[{d.code}]: {d.message}"

/-! ### Plans -/

namespace Command

abbrev FileReader := String → Except FileError (List UInt8)

variable (read : FileReader)

def load (path : String) : Except SummaryFileError Store := Store.ofFile path (read path)

def planToYaml (input output : String) : Plan :=
  match load read input with
  | .error e => .failed e.messages
  | .ok s => .write output (Utf8.encode s.toYaml)

def planFromYaml (input output : String) (embedDebugNames : Bool) : Plan :=
  match read input >>= readText with
  | .error e => .failed [fileMessage input e]
  | .ok text =>
    match Store.ofYaml text with
    | .error e => .failed [s!"error: {input}: {e.message}"]
    | .ok s => .write output (s.encode embedDebugNames)

/-- What has come of the summary files read so far. -/
structure Loading where
  stores : List Store := []
  messages : List String := []
  complete : Bool := true
deriving DecidableEq

/-- Go on with one more summary file. One that cannot be read is told and passed over. -/
def loadNext (loading : Loading) (path : String) : Loading :=
  match load read path with
  | .ok s => { loading with stores := loading.stores ++ [s] }
  | .error e => { loading with messages := loading.messages ++ e.messages, complete := false }

def loadAll (inputs : List String) : Loading := inputs.foldl (loadNext read) {}

/-- Write the merge of the summaries that can be read. -/
def planMerge (inputs : List String) (output : String) (embedDebugNames : Bool)
    (traced : Option String) : Plan :=
  let loading := loadAll read inputs
  let merged := Merged.ofInputs loading.stores traced
  { text := merged.report.getD ""
    messages := loading.messages ++ merged.diagnostics.map (·.warning)
    notes := loading.stores.map fun s => "loaded " ++ s.moduleName
    result := some (output, merged.store.encode embedDebugNames)
    succeeded := loading.complete }

def planInfo (input : String) (json : Bool) : Plan :=
  match load read input with
  | .error e => .failed e.messages
  | .ok s => .print (linesText (if json then [s.toJson.pretty] else s.describe))

/-- What a command does, given how files are read. -/
def plan : Command → Plan
  | toYaml input output => planToYaml read input output
  | fromYaml input output embedDebugNames => planFromYaml read input output embedDebugNames
  | merge inputs output embedDebugNames traced =>
    planMerge read inputs output embedDebugNames traced
  | info input json => planInfo read input json

end Command

/-! ### Carrying out -/

/-- Whether a path stands for standard output: a dash, with nothing but slashes and dots for the
same directory after it. -/
def isStandardOutput (path : String) : Bool :=
  match Path.parts path with
  | first :: others => first == "-" && others.all Path.staysHere
  | [] => false

/-- What is left of a run. -/
structure Outcome (σ : Type) where
  /-- The exit code: 0 if all went well, 1 if not, 2 if the arguments are no command. -/
  exitCode : Nat
  stdout : List UInt8 := []
  stderr : List String := []
  files : σ
deriving DecidableEq

/-- The exit code of a plan whose result could be written. -/
def Plan.exitCode (p : Plan) : Nat := if p.succeeded then 0 else 1

section

variable {σ : Type} [FileSystem σ]

def Plan.carryOut (p : Plan) (d : σ) : Outcome σ :=
  let stdout := Utf8.encode p.text
  let outcome : Outcome σ :=
    { exitCode := p.exitCode, stdout, stderr := p.messages, files := d }
  match p.result with
  | none => outcome
  | some (path, bytes) =>
    if isStandardOutput path then { outcome with stdout := stdout ++ bytes }
    else
      match FileSystem.write d path bytes with
      | .ok d => { outcome with files := d }
      | .error e => { outcome with exitCode := 1, stderr := p.messages ++ [fileMessage path e] }

def Command.run (c : Command) (d : σ) : Outcome σ := (c.plan (FileSystem.read d)).carryOut d

/-- The line for arguments that are no command. -/
def ArgumentError.line (e : ArgumentError) : String := "error: " ++ e.message

/-- Run a program with arguments on some files. -/
def CommandLine.run (args : List String) (d : σ) : Outcome σ :=
  match CommandLine.ofArguments args with
  | .error e => { exitCode := 2, stderr := [e.line], files := d }
  | .ok line => line.command.run d

end

end LinkSummary
