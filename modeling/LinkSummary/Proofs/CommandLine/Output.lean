import LinkSummary.Proofs.CommandLine.Merge

/-!
# Results on standard output

A result that goes to standard output leaves the files as they were. What is left of the run is
otherwise the same as when the result goes to a file, but for one thing: a merge that is asked for
an explanation writes it to standard output as well, and before the result. So standard output
carries what the file would exactly if no explanation is asked for, and else no summary at all.
-/

namespace LinkSummary

/-! ### Explanations as bytes -/

/-- Bytes are refused for the signature if the first one is another, whatever follows. -/
lemma Store.decode_cons_of_ne {byte : UInt8} {rest : List UInt8} (hbyte : byte ≠ 0x4D)
    (hlen : 3 ≤ rest.length) :
    Store.decode (byte :: rest) = .error (.malformedHeader 0 .invalidSignature) := by
  have hstart := Reads.bytes_append (byte :: rest.take 3) (rest.drop 3) 0
  rw [List.cons_append, List.take_append_drop, List.length_cons, List.length_take_of_le hlen]
    at hstart
  have hne : byte :: rest.take 3 ≠ Layout.signature := by
    intro h
    exact hbyte (List.cons.inj h).1
  have hheader : Layout.readHeader (.ofBytes (byte :: rest)) =
      .error (.malformedHeader 0 .invalidSignature) := by
    have hfour : Layout.signature.length = 3 + 1 := rfl
    simp only [Layout.readHeader, Cursor.ofBytes, Bind.bind, StateT.bind, hfour, hstart,
      Except.bind, ne_eq, hne, not_false_eq_true, if_true]
    rfl
  rw [Store.decode, hheader]
  rfl

/-- An explanation begins with a quote or with a small letter. -/
lemma LivenessTrace.encode_explain (t : LivenessTrace) (s : Store) (name : String) :
    ∃ byte rest, Utf8.encode (t.explain s name) = byte :: rest ∧ byte ≠ 0x4D ∧
      3 ≤ rest.length := by
  have hlong {text : String} (before after : String) (h : 3 ≤ (Utf8.encode text).length) :
      3 ≤ (Utf8.encode (before ++ text ++ after)).length := by
    rw [Utf8.encode_append, Utf8.encode_append, List.length_append, List.length_append]
    omega
  have hquoted (text after : String) (h : 3 ≤ (Utf8.encode text).length) :
      ∃ byte rest, Utf8.encode ("'" ++ name ++ text ++ after) = byte :: rest ∧ byte ≠ 0x4D ∧
        3 ≤ rest.length := by
    refine ⟨0x27, Utf8.encode (name ++ text ++ after), ?_, by decide, hlong name after h⟩
    simp only [String.append_assoc, Utf8.encode_append "'"]
    rfl
  rw [explain]
  cases s.functionNamed? name with
  | none =>
    refine ⟨0x6E, Utf8.encode ("" ++ "o function named '" ++ (name ++ "'\n")), ?_, by decide,
      hlong "" _ (by decide)⟩
    change Utf8.encode ("no function named '" ++ name ++ "'\n") = _
    rw [String.append_assoc, Utf8.encode_append, Utf8.encode_append]
    rfl
  | some f =>
    dsimp only
    split
    · have hdead := hquoted "' is dead\n" "" (by decide)
      rw [String.append_empty] at hdead
      exact hdead
    · exact hquoted "' is live:\n" _ (by decide)

/-! ### Commands -/

namespace Command

/-- The path for the result of a command, if it has one. -/
def output? : Command → Option String
  | toYaml _ output | fromYaml _ output _ | merge _ output .. => some output
  | info .. => none

/-- The same command with another path for its result. -/
def withOutput (path : String) : Command → Command
  | toYaml input _ => toYaml input path
  | fromYaml input _ embedDebugNames => fromYaml input path embedDebugNames
  | merge inputs _ embedDebugNames traced => merge inputs path embedDebugNames traced
  | info input json => info input json

variable {σ : Type} [FileSystem σ]

/-- The explanation that a command is asked for. -/
def explanation? (d : σ) : Command → Option String
  | merge inputs _ _ traced => traced.map (FileSystem.merge d inputs none).explain
  | _ => none

/-- Whether a command gets to save its result. -/
def Saves (c : Command) (d : σ) : Prop := (c.plan (FileSystem.read d)).result.isSome

/-- A plan depends on the path for the result only in that it names it. -/
lemma plan_withOutput (c : Command) (read : FileReader) (path : String) :
    (c.withOutput path).plan read =
      { c.plan read with
        result := (c.plan read).result.map fun result => (path, result.2) } := by
  cases c with
  | toYaml input output =>
    simp only [withOutput, plan, planToYaml]
    split <;> rfl
  | fromYaml input output embedDebugNames =>
    simp only [withOutput, plan, planFromYaml]
    split
    · rfl
    · split <;> rfl
  | merge inputs output embedDebugNames traced => rfl
  | info input json =>
    simp only [withOutput, plan, planInfo]
    split <;> rfl

variable {c : Command} {d : σ} {output : String}

/-- What is saved goes to the path that the command names. -/
lemma exists_result_eq (h : c.Saves d) (houtput : c.output? = some output) :
    ∃ bytes, (c.plan (FileSystem.read d)).result = some (output, bytes) := by
  obtain ⟨result, hresult⟩ := Option.isSome_iff_exists.mp h
  have hself : c.withOutput output = c := by
    cases c <;> cases houtput <;> rfl
  have hplan := congrArg Plan.result (plan_withOutput c (FileSystem.read d) output)
  rw [hself, hresult] at hplan
  exact ⟨result.2, hresult.trans hplan⟩

/-- A command with a result tells nothing but the explanation. -/
lemma text_plan (houtput : c.output? = some output) :
    (c.plan (FileSystem.read d)).text = (c.explanation? d).getD "" := by
  cases c with
  | toYaml input path =>
    simp only [plan, planToYaml]
    split <;> rfl
  | fromYaml input path embedDebugNames =>
    simp only [plan, planFromYaml]
    split
    · rfl
    · split <;> rfl
  | merge inputs path embedDebugNames traced =>
    simp only [plan, planMerge, loadAll_read]
    cases traced <;> rfl
  | info input json => cases houtput

end Command

/-! ### Runs -/

section

variable {σ : Type} [FileSystem σ]

/-- A plan with a result for standard output leaves the files as they are. -/
lemma Plan.carryOut_of_stdout {p : Plan} {d : σ} {path : String} {bytes : List UInt8}
    (hresult : p.result = some (path, bytes)) (hdash : isStandardOutput path = true) :
    p.carryOut d =
      { exitCode := p.exitCode, stdout := Utf8.encode p.text ++ bytes
        stderr := p.messages, files := d } := by
  simp only [carryOut, hresult, hdash, if_true]

/-- What two runs of a command leave of which one writes the result to standard output and the other
one to a file. All is said about the files as they were before. -/
structure Outcome.Redirects (dashed filed : Outcome σ) (c : Command) (d : σ) (file : String)
    (bytes : List UInt8) : Prop where
  written : FileSystem.read filed.files file = .ok bytes
  unchanged : dashed.files = d
  exitCode : dashed.exitCode = filed.exitCode
  stderr : dashed.stderr = filed.stderr
  explained : filed.stdout = Utf8.encode ((c.explanation? d).getD "")
  stdout : dashed.stdout = filed.stdout ++ bytes
  same : dashed.stdout = bytes ↔ c.explanation? d = none
  merged : ∀ inputs output embedDebugNames traced,
    c = .merge inputs output embedDebugNames traced → bytes.length < 2 ^ 64 →
      Store.decode bytes = .ok (if embedDebugNames then (FileSystem.merge d inputs none).store
        else (FileSystem.merge d inputs none).store.withoutDebugNames)
  refused : c.explanation? d ≠ none →
    Store.decode dashed.stdout = .error (.malformedHeader 0 .invalidSignature)

namespace Command

variable {c : Command} {d : σ} {output file : String} {bytes : List UInt8}

/-- What is explained is some text, and no summary whatever is written after it. -/
lemma encode_explanation (h : c.explanation? d ≠ none) :
    Utf8.encode ((c.explanation? d).getD "") ≠ [] ∧ ∀ bytes,
      Store.decode (Utf8.encode ((c.explanation? d).getD "") ++ bytes) =
        .error (.malformedHeader 0 .invalidSignature) := by
  obtain ⟨m, name, hexplanation⟩ : ∃ m name, c.explanation? d = some (Merged.explain m name) := by
    cases c with
    | merge inputs output embedDebugNames traced =>
      cases traced with
      | none => exact absurd rfl h
      | some name => exact ⟨_, name, rfl⟩
    | _ => exact absurd rfl h
  obtain ⟨byte, rest, htext, hbyte, hlen⟩ := m.trace.encode_explain m.store name
  rw [hexplanation, Option.getD_some, Merged.explain, htext]
  refine ⟨List.cons_ne_nil byte rest, fun bytes => ?_⟩
  rw [List.cons_append]
  refine Store.decode_cons_of_ne hbyte ?_
  rw [List.length_append]
  exact Nat.le_add_right_of_le hlen

/-- The result of a merge is read back as the merge of what can be read. -/
lemma decode_of_merge {inputs : List String} {embedDebugNames : Bool} {traced : Option String}
    (hresult : ((merge inputs output embedDebugNames traced).plan (FileSystem.read d)).result =
      some (output, bytes)) (hlen : bytes.length < 2 ^ 64) :
    Store.decode bytes = .ok (if embedDebugNames then (FileSystem.merge d inputs none).store
      else (FileSystem.merge d inputs none).store.withoutDebugNames) := by
  simp only [plan, planMerge, loadAll_read] at hresult
  cases hresult
  exact FileSystem.decode_encode_merge d inputs none embedDebugNames hlen

/-- A command that gets to save its result writes the same bytes to standard output and to a file,
after an explanation if it is asked for one. -/
lemma redirects_run [LawfulFileSystem σ] (hsaves : c.Saves d) (houtput : c.output? = some output)
    (hdash : isStandardOutput output = true) (hwritable : ∀ bytes, FileSystem.Writable d file bytes)
    (hfile : isStandardOutput file = false) :
    ∃ bytes, (c.run d).Redirects ((c.withOutput file).run d) c d file bytes := by
  obtain ⟨bytes, hresult⟩ := exists_result_eq hsaves houtput
  obtain ⟨d', hwrite⟩ := hwritable bytes
  have hplan := plan_withOutput c (FileSystem.read d) file
  rw [hresult, Option.map_some] at hplan
  have hdashed : c.run d = _ := Plan.carryOut_of_stdout hresult hdash
  have hfiled : (c.withOutput file).run d = _ :=
    Plan.carryOut_of_write (congrArg Plan.result hplan) hfile hwrite
  have htext := text_plan (d := d) houtput
  rw [hplan] at hfiled
  rw [hdashed, hfiled]
  refine ⟨bytes, ?_⟩
  constructor
  case written => exact FileSystem.read_of_write hwrite
  case unchanged => rfl
  case exitCode => rfl
  case stderr => rfl
  case explained => exact congrArg Utf8.encode htext
  case stdout => rfl
  case same =>
    dsimp only
    rw [htext, List.append_left_eq_self]
    constructor
    · intro hnil
      by_contra hasked
      exact (encode_explanation hasked).1 hnil
    · intro hnone
      rw [hnone]
      rfl
  case merged =>
    rintro inputs path embedDebugNames traced rfl hlen
    cases houtput
    exact decode_of_merge hresult hlen
  case refused =>
    intro hasked
    dsimp only
    rw [htext]
    exact (encode_explanation hasked).2 bytes

end Command

variable [LawfulFileSystem σ] {args args' : List String} {line line' : CommandLine} {d : σ}
  {output file : String}

/-- Two command lines that differ in the place of the result only, standard output and a file: both
save the same bytes. A merge that is asked for an explanation writes it to standard output before
them, and what is there then is no summary. -/
theorem CommandLine.redirects_run_of_dash (hargs : CommandLine.ofArguments args = .ok line)
    (hargs' : CommandLine.ofArguments args' = .ok line')
    (hsame : line'.command = line.command.withOutput file) (hsaves : line.command.Saves d)
    (houtput : line.command.output? = some output) (hdash : isStandardOutput output = true)
    (hwritable : ∀ bytes, FileSystem.Writable d file bytes)
    (hfile : isStandardOutput file = false) :
    ∃ bytes, (CommandLine.run args d).Redirects (CommandLine.run args' d) line.command d file
      bytes := by
  have hrun : CommandLine.run args d = line.command.run d := by rw [CommandLine.run, hargs]
  have hrun' : CommandLine.run args' d = (line.command.withOutput file).run d := by
    rw [CommandLine.run, hargs', ← hsame]
  rw [hrun, hrun']
  exact Command.redirects_run hsaves houtput hdash hwritable hfile

end

/-- A merge with a missing input, to standard output and to a file. -/
theorem CommandLine.redirects_run_of_missing :
    let app := Store.performAll "app" [.build (.recordFunction "main" { preserved := true })]
    let d : Disk := { nodes := [(["app"], .file app.encode)] }
    let dashed := CommandLine.run ["merge", "app", "gone", "-o-"] d
    let filed := CommandLine.run ["merge", "--output=out", "app", "gone"] d
    dashed.exitCode = 1 ∧ ∃ bytes,
      dashed.Redirects filed (.merge ["app", "gone"] "-" false none) d "out" bytes := by
  intro app d dashed filed
  have hargs : CommandLine.ofArguments ["merge", "app", "gone", "-o-"] =
      .ok { verbose := false, command := .merge ["app", "gone"] "-" false none } := by
    decide +kernel
  have hargs' : CommandLine.ofArguments ["merge", "--output=out", "app", "gone"] =
      .ok { verbose := false, command := .merge ["app", "gone"] "out" false none } := by
    decide +kernel
  have htarget : d.target "out" = .ok ["out"] := by decide +kernel
  exact ⟨by decide +kernel, redirects_run_of_dash hargs hargs' rfl rfl rfl (by decide +kernel)
    (Disk.writable_of_target htarget) (by decide +kernel)⟩

/-- Standard output is the explanation with the merge after it, and the file is the merge alone. -/
theorem CommandLine.exists_stdout_ne_of_explanation :
    let app := Store.performAll "app" [.build (.recordFunction "main" { preserved := true })]
    let d : Disk := { nodes := [(["app"], .file app.encode)] }
    let merged := (Merged.ofInputs [app]).store
    let dashed :=
      CommandLine.run ["merge", "-o", "-", "--print-live-trace", "app.main", "app"] d
    let filed :=
      CommandLine.run ["merge", "-o", "out", "--print-live-trace", "app.main", "app"] d
    dashed.exitCode = 0 ∧ filed.exitCode = 0 ∧ ∃ bytes, filed.files.read "out" = .ok bytes ∧
      Store.decode bytes = .ok merged ∧ dashed.stdout ≠ bytes ∧
      dashed.stdout = Utf8.encode "'app.main' is live:\n  app.main is preserved\n" ++ bytes ∧
      Store.decode dashed.stdout = .error (.malformedHeader 0 .invalidSignature) := by
  intro app d merged dashed filed
  refine ⟨by decide +kernel, by decide +kernel, merged.encode, ?_⟩
  decide +kernel

end LinkSummary
