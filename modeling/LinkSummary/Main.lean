import LinkSummary.CommandLine.Plan

/-!
# The command line program

Reads the files of a command, and carries out its plan with the files of the machine.
-/

namespace LinkSummary

/-- The cause that the machine gives a number and a text for. -/
def FileError.ofCode (code : UInt32) (text : String) : FileError :=
  match code with
  | 2 => .notFound
  | 20 => .notDirectory
  | 21 => .isDirectory
  | 36 => .nameTooLong
  | code => .other s!"{text} (os error {code})"

def causeOf : IO.Error → FileError
  | .noFileOrDirectory _ code text | .inappropriateType _ code text
  | .permissionDenied _ code text | .alreadyExists _ code text
  | .invalidArgument _ code text | .resourceExhausted _ code text => .ofCode code text
  | .hardwareFault code text | .otherError code text | .unsupportedOperation code text =>
    .ofCode code text
  | e => .other (toString e)

def readInput (path : String) : IO (Except FileError (List UInt8)) := do
  try
    return .ok (← IO.FS.readBinFile path).data.toList
  catch e => return .error (causeOf e)

def printBytes (bytes : List UInt8) : IO Unit := do
  let stdout ← IO.getStdout
  stdout.write ⟨bytes.toArray⟩
  stdout.flush

def writeResult (path : String) (bytes : List UInt8) : IO (Option FileError) := do
  if isStandardOutput path then
    printBytes bytes
    return none
  else
    try
      IO.FS.writeBinFile path ⟨bytes.toArray⟩
      return none
    catch e => return some (causeOf e)

end LinkSummary

open LinkSummary

def main (args : List String) : IO UInt32 := do
  match CommandLine.ofArguments args with
  | .error e =>
    IO.eprintln e.line
    return 2
  | .ok line =>
    let files ← line.command.inputs.mapM fun path => do return (path, ← readInput path)
    let plan := line.command.plan fun path => (files.lookup path).getD (.error .notFound)
    if line.verbose then IO.eprint (linesText plan.notes)
    IO.eprint (linesText plan.messages)
    printBytes (Utf8.encode plan.text)
    match plan.result with
    | none => return plan.exitCode.toUInt32
    | some (path, bytes) =>
      match ← writeResult path bytes with
      | none => return plan.exitCode.toUInt32
      | some e =>
        IO.eprintln (fileMessage path e)
        return 1
