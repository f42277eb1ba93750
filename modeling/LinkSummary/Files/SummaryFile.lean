import LinkSummary.Binary.Decode
import LinkSummary.Binary.Encode
import LinkSummary.Files.FileSystem

/-!
# Summary files

Reading and writing stores as files. An error tells the path as it was given.
-/

namespace LinkSummary

/-- Why a summary file cannot be read or written. -/
inductive SummaryFileError where
  | file (path : String) (cause : FileError)
  | contents (path : String) (cause : DecodeError)
deriving DecidableEq

namespace SummaryFileError

def path : SummaryFileError → String
  | file path _ => path
  | contents path _ => path

def message : SummaryFileError → String
  | file path cause => path ++ ": " ++ cause.text
  | contents path cause => path ++ ": " ++ cause.message

end SummaryFileError

def Store.ofFile (path : String) :
    Except FileError (List UInt8) → Except SummaryFileError Store
  | .error e => .error (.file path e)
  | .ok bytes =>
    match Store.decode bytes with
    | .ok s => .ok s
    | .error e => .error (.contents path e)

namespace FileSystem

variable {σ : Type} [FileSystem σ]

def readSummary (d : σ) (path : String) : Except SummaryFileError Store :=
  Store.ofFile path (read d path)

def writeSummary (d : σ) (path : String) (s : Store) (embedDebugNames : Bool) :
    Except SummaryFileError σ :=
  match write d path (s.encode embedDebugNames) with
  | .ok d => .ok d
  | .error e => .error (.file path e)

theorem readSummary_eq_ok_iff {d : σ} {path : String} {s : Store} :
    readSummary d path = .ok s ↔ ∃ bytes, read d path = .ok bytes ∧ Store.decode bytes = .ok s := by
  rw [readSummary]
  cases read d path with
  | error e => simp [Store.ofFile]
  | ok bytes =>
    simp only [Store.ofFile, Except.ok.injEq, exists_eq_left']
    cases Store.decode bytes <;> simp

end FileSystem

end LinkSummary
