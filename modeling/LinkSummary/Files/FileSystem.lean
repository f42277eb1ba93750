import LinkSummary.Utf8

/-!
# File systems

A program reads and writes files at paths. Where a path leads, and why it may lead nowhere, is up to
the machine: what a command does is said over any file system. Of a lawful one it is known that a
file keeps what is written to it, and that no other file and no path to one changes.
-/

namespace LinkSummary

/-- Why a file cannot be read or written. -/
inductive FileError where
  | notFound
  | notDirectory
  | isDirectory
  | nameTooLong
  | invalidText
  | other (text : String)
deriving DecidableEq

def FileError.text : FileError → String
  | notFound => "No such file or directory (os error 2)"
  | notDirectory => "Not a directory (os error 20)"
  | isDirectory => "Is a directory (os error 21)"
  | nameTooLong => "File name too long (os error 36)"
  | invalidText => "stream did not contain valid UTF-8"
  | other text => text

/-- How files are read and written, with a type for the states of a machine. -/
class FileSystem (σ : Type) where
  read : σ → String → Except FileError (List UInt8)
  write : σ → String → List UInt8 → Except FileError σ
  /-- What tells one file from another, whatever paths lead to them. -/
  File : Type
  file? : σ → String → Option File
  contents? : σ → File → Option (List UInt8)

/-- What writing bytes at a path changes: the contents of the file that the path leads to then.
Paths that led to files do so as before, and no path leads to another new file. -/
structure FileSystem.Writes {σ : Type} [FileSystem σ] (d d' : σ) (path : String)
    (bytes : List UInt8) (file : File σ) : Prop where
  leads : file? d' path = some file
  contents : contents? d' file = some bytes
  others : ∀ other, other ≠ file → contents? d' other = contents? d other
  paths : ∀ other, file? d' other = file? d other ∨
    file? d other = none ∧ file? d' other = some file

/-- A file system where reading gives the contents of the file that a path leads to, and writing
changes one file. -/
class LawfulFileSystem (σ : Type) [FileSystem σ] : Prop where
  read_eq_ok_iff : ∀ {d : σ} {path bytes}, FileSystem.read d path = .ok bytes ↔
    ∃ file, FileSystem.file? d path = some file ∧ FileSystem.contents? d file = some bytes
  exists_writes : ∀ {d d' : σ} {path bytes}, FileSystem.write d path bytes = .ok d' →
    ∃ file, FileSystem.Writes d d' path bytes file

namespace FileSystem

variable {σ : Type} [FileSystem σ] {d d' : σ} {path : String} {bytes : List UInt8}

/-- Whether bytes can be written at a path. -/
def Writable (d : σ) (path : String) (bytes : List UInt8) : Prop :=
  ∃ d', write d path bytes = .ok d'

variable [LawfulFileSystem σ]

theorem read_of_write (h : write d path bytes = .ok d') : read d' path = .ok bytes := by
  obtain ⟨file, hwrites⟩ := LawfulFileSystem.exists_writes h
  exact LawfulFileSystem.read_eq_ok_iff.mpr ⟨file, hwrites.leads, hwrites.contents⟩

/-- Writing a file changes no other one. -/
theorem contents?_of_write (h : write d path bytes = .ok d') {other : File σ}
    (hother : file? d' path ≠ some other) : contents? d' other = contents? d other := by
  obtain ⟨file, hwrites⟩ := LawfulFileSystem.exists_writes h
  refine hwrites.others other ?_
  rintro rfl
  exact hother hwrites.leads

/-- At a path that leads elsewhere, the same is read after writing a file as before. -/
theorem read_of_write_elsewhere (h : write d path bytes = .ok d') {other : String}
    (hother : file? d' other ≠ file? d' path) {contents : List UInt8} :
    read d' other = .ok contents ↔ read d other = .ok contents := by
  obtain ⟨file, hwrites⟩ := LawfulFileSystem.exists_writes h
  rw [hwrites.leads] at hother
  rcases hwrites.paths other with hpath | ⟨-, hnew⟩
  · rw [LawfulFileSystem.read_eq_ok_iff, LawfulFileSystem.read_eq_ok_iff, ← hpath]
    refine exists_congr fun f => and_congr_right fun hf => ?_
    have hne : f ≠ file := by
      rintro rfl
      exact hother hf
    rw [hwrites.others f hne]
  · exact absurd hnew hother

end FileSystem

def readText (bytes : List UInt8) : Except FileError String :=
  match Utf8.decode? bytes with
  | some s => .ok s
  | none => .error .invalidText

/-! ### Paths -/

namespace Path

/-- The parts of a path, between its slashes. -/
def parts (path : String) : List String := (path.toList.splitOn '/').map .ofList

/-- Whether a part of a path, after a directory, leads to the same directory. -/
def staysHere (part : String) : Bool := part == "" || part == "."

/-- The parts of a path without the slashes at its end. -/
def partsBeforeSlash (path : String) : List String :=
  ((parts path).reverse.dropWhile (· == "")).reverse

def isAbsolute (path : String) : Bool := path.toList.head? == some '/'

/-- Whether a path can only lead to a directory, because of a slash at its end. -/
def endsWithSlash (path : String) : Bool := path.toList.getLast? == some '/'

end Path

end LinkSummary
