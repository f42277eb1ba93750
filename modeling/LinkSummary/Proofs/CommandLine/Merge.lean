import LinkSummary.CommandLine.Plan
import LinkSummary.Proofs.Binary.Canonical
import LinkSummary.Proofs.Binary.Newer
import LinkSummary.Proofs.Files.Disk
import LinkSummary.Proofs.Merged.Answers

/-!
# The command that merges

A run that merges goes through all its inputs. What cannot be read is told and passed over, and the
rest is merged in order; that something was passed over shows in the exit code. Only the output is
written, after everything is read, so it may be one of the inputs. This holds in every lawful file
system.
-/

namespace LinkSummary

variable {σ : Type} [FileSystem σ]

/-! ### Summary files -/

namespace FileSystem

variable {d : σ} {path : String} {bytes : List UInt8}

/-- The stores of the summary files that can be read, in order. -/
def loadable (d : σ) (inputs : List String) : List Store :=
  inputs.filterMap fun path => (readSummary d path).toOption

/-- Whether a path leads to a summary file of a newer version. -/
def holdsNewer (d : σ) (path : String) : Bool :=
  match read d path with
  | .ok bytes => IsNewer bytes
  | .error _ => false

/-- The lines about a summary file: none if it can be read, and else the error, with a note if the
file is of a newer version. -/
def complaints (d : σ) (path : String) : List String :=
  match readSummary d path with
  | .ok _ => []
  | .error e => ("error: " ++ e.message) ::
    if holdsNewer d path then ["note: regenerate this summary with the current compiler"] else []

lemma messages_of_readSummary {e : SummaryFileError} (h : readSummary d path = .error e) :
    e.messages = complaints d path := by
  simp only [complaints, h]
  rw [readSummary] at h
  cases hread : read d path with
  | error cause =>
    rw [hread, Store.ofFile] at h
    cases h
    simp only [holdsNewer, hread]
    rfl
  | ok bytes =>
    rw [hread, Store.ofFile] at h
    cases hdecode : Store.decode bytes with
    | ok s =>
      rw [hdecode] at h
      cases h
    | error cause =>
      rw [hdecode] at h
      cases h
      have hnewer : decide (IsNewer bytes) = cause.needsRegeneration := by
        rw [Bool.eq_iff_iff, decide_eq_true_iff]
        exact (Store.needsRegeneration_iff_isNewer hdecode).symm
      simp only [holdsNewer, hread, hnewer]
      rfl

/-- A summary that is read tells flags in use only. -/
lemma flagsKnown_of_mem_loadable {inputs : List String} {s : Store}
    (h : s ∈ loadable d inputs) : s.FlagsKnown := by
  obtain ⟨path, -, hread⟩ := List.mem_filterMap.mp h
  rw [Listing.toOption_eq_some_iff, readSummary_eq_ok_iff] at hread
  obtain ⟨bytes, -, hdecode⟩ := hread
  obtain ⟨file, hfile, -, rfl⟩ := Store.decode_eq_ok_iff.mp hdecode
  exact SummaryFile.flagsKnown_store hfile

end FileSystem

/-! ### Loading -/

namespace Command

open FileSystem

variable {d : σ}

/-- One more input adds its store, or the lines about it. -/
lemma loadNext_read (loading : Loading) (path : String) :
    loadNext (read d) loading path =
      { stores := loading.stores ++ (readSummary d path).toOption.toList
        messages := loading.messages ++ complaints d path
        complete := loading.complete && (readSummary d path).isOk } := by
  have hload : load (read d) path = readSummary d path := rfl
  rw [loadNext, hload]
  cases hread : readSummary d path with
  | ok s =>
    have hcomplaints : complaints d path = [] := by rw [complaints, hread]
    rw [hcomplaints, List.append_nil, Except.isOk, Except.toBool, Bool.and_true]
    rfl
  | error e =>
    dsimp only
    rw [messages_of_readSummary hread, Except.isOk, Except.toBool, Bool.and_false]
    exact congrArg (Loading.mk · _ _) (List.append_nil loading.stores).symm

/-- All inputs are gone through: what can be read is kept in order, and so are the lines about the
others. -/
lemma foldl_loadNext_read (inputs : List String) (loading : Loading) :
    inputs.foldl (loadNext (read d)) loading =
      { stores := loading.stores ++ loadable d inputs
        messages := loading.messages ++ inputs.flatMap (complaints d)
        complete := loading.complete && inputs.all fun path => (readSummary d path).isOk } := by
  induction inputs generalizing loading with
  | nil => simp [loadable]
  | cons path inputs ih =>
    have hstores : loadable d (path :: inputs) =
        (readSummary d path).toOption.toList ++ loadable d inputs := by
      rw [loadable, List.filterMap_cons]
      cases (readSummary d path).toOption <;> rfl
    rw [List.foldl_cons, ih, loadNext_read, hstores, List.flatMap_cons, List.all_cons]
    simp only [List.append_assoc, Bool.and_assoc]

lemma loadAll_read (inputs : List String) : loadAll (read d) inputs =
    { stores := loadable d inputs, messages := inputs.flatMap (complaints d)
      complete := inputs.all fun path => (readSummary d path).isOk } :=
  foldl_loadNext_read inputs {}

end Command

/-! ### Runs -/

/-- A plan with a result for a file writes this file. -/
lemma Plan.carryOut_of_write {p : Plan} {d d' : σ} {path : String} {bytes : List UInt8}
    (hresult : p.result = some (path, bytes)) (hfile : isStandardOutput path = false)
    (hwrite : FileSystem.write d path bytes = .ok d') :
    p.carryOut d =
      { exitCode := p.exitCode, stdout := Utf8.encode p.text
        stderr := p.messages, files := d' } := by
  simp only [carryOut, hresult, hfile, hwrite, Bool.false_eq_true, if_false]

namespace FileSystem

/-- The merge of the summary files that can be read. -/
def merge (d : σ) (inputs : List String) (traced : Option String) : Merged :=
  .ofInputs (loadable d inputs) traced

/-- The merge is read back as it was written. -/
lemma decode_encode_merge (d : σ) (inputs : List String) (traced : Option String)
    (embedDebugNames : Bool)
    (hlen : ((merge d inputs traced).store.encode embedDebugNames).length < 2 ^ 64) :
    Store.decode ((merge d inputs traced).store.encode embedDebugNames) =
      .ok (if embedDebugNames then (merge d inputs traced).store
        else (merge d inputs traced).store.withoutDebugNames) :=
  Merged.decode_encode_ofInputs (fun _ => flagsKnown_of_mem_loadable) traced embedDebugNames hlen

end FileSystem

open FileSystem in
/-- What a run leaves that merges the inputs which can be read, and writes the merge to a file. All
is said about the files as they were before. -/
structure Outcome.IsMerge (outcome : Outcome σ) (d : σ) (inputs : List String) (output : String)
    (embedDebugNames : Bool) (traced : Option String) : Prop where
  written : read outcome.files output =
    .ok ((merge d inputs traced).store.encode embedDebugNames)
  readBack : ((merge d inputs traced).store.encode embedDebugNames).length < 2 ^ 64 →
    readSummary outcome.files output =
      .ok (if embedDebugNames then (merge d inputs traced).store
        else (merge d inputs traced).store.withoutDebugNames)
  others : ∀ file, file? outcome.files output ≠ some file →
    contents? outcome.files file = contents? d file
  elsewhere : ∀ path bytes, file? outcome.files path ≠ file? outcome.files output →
    (read outcome.files path = .ok bytes ↔ read d path = .ok bytes)
  exitCode : outcome.exitCode = if ∀ path ∈ inputs, (readSummary d path).isOk then 0 else 1
  stdout : outcome.stdout = (traced.map fun name =>
    Utf8.encode ((merge d inputs traced).explain name)).getD []
  stderr : outcome.stderr = inputs.flatMap (complaints d) ++
    (merge d inputs traced).diagnostics.map (·.warning)

variable [LawfulFileSystem σ] {d : σ} {args inputs : List String} {output : String}
  {embedDebugNames : Bool} {traced : Option String}

/-- Arguments that ask for a merge lead to the merge of what can be read, wherever it can be
written. -/
theorem CommandLine.isMerge_run (hargs : CommandLine.ofArguments args =
      .ok { verbose := false, command := .merge inputs output embedDebugNames traced })
    (hwritable : FileSystem.Writable d output
      ((FileSystem.merge d inputs traced).store.encode embedDebugNames))
    (hfile : isStandardOutput output = false) :
    (CommandLine.run args d).IsMerge d inputs output embedDebugNames traced := by
  obtain ⟨d', hwrite⟩ := hwritable
  set bytes := (FileSystem.merge d inputs traced).store.encode embedDebugNames
  set p := Command.planMerge (FileSystem.read d) inputs output embedDebugNames traced with hp
  have hrun : CommandLine.run args d = p.carryOut d := by
    rw [CommandLine.run, hargs]
    rfl
  have hresult : p.result = some (output, bytes) := by
    rw [hp, Command.planMerge, Command.loadAll_read]
    rfl
  rw [hrun, Plan.carryOut_of_write hresult hfile hwrite, hp, Command.planMerge,
    Command.loadAll_read]
  have hread := FileSystem.read_of_write hwrite
  constructor
  case written => exact hread
  case readBack =>
    intro hlen
    exact FileSystem.readSummary_eq_ok_iff.mpr
      ⟨bytes, hread, FileSystem.decode_encode_merge d inputs traced embedDebugNames hlen⟩
  case others => exact fun file hother => FileSystem.contents?_of_write hwrite hother
  case elsewhere => exact fun path bytes hother => FileSystem.read_of_write_elsewhere hwrite hother
  case exitCode =>
    simp only [Plan.exitCode, List.all_eq_true]
  case stdout =>
    cases traced <;> rfl
  case stderr => rfl

/-- The output is the first input, by another path, and a later one once more. One input is of a
newer version, one is missing, one has a slash after a file, and one is a directory. -/
theorem CommandLine.isMerge_run_of_missing :
    let app := Store.performAll "app" [.build (.recordFunction "main" { preserved := true })]
    let d : Disk :=
      { nodes := [(["old"], .directory), (["sum"], .directory), (["sum", "app"], .file app.encode),
          (["sum", "new"], .file (Layout.signature ++ [2, 8]))]
        working := ["sum"] }
    let inputs := ["app", "new", "gone", "app/", "../old", "/old/../sum/app"]
    let outcome := CommandLine.run (["merge", "-o", "/sum/./app"] ++ inputs) d
    outcome.IsMerge d inputs "/sum/./app" false none ∧ outcome.exitCode = 1 ∧
      outcome.stderr = ["error: new: summary format version 2 is newer than supported version 1",
        "note: regenerate this summary with the current compiler",
        "error: gone: No such file or directory (os error 2)",
        "error: app/: Not a directory (os error 20)",
        "error: ../old: Is a directory (os error 21)",
        "warning[W-MERGE-002]: 'app.main' is defined more than once; " ++
          "keeping the definition from the first input"] := by
  intro app d inputs outcome
  have htarget : d.target "/sum/./app" = .ok ["sum", "app"] := by decide +kernel
  have hmerge : outcome.IsMerge d inputs "/sum/./app" false none :=
    isMerge_run (by decide +kernel) (Disk.writable_of_target htarget _) (by decide +kernel)
  exact ⟨hmerge, by decide +kernel, by decide +kernel⟩

end LinkSummary
