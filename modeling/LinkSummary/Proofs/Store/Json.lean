import LinkSummary.CommandLine.Plan
import LinkSummary.Files.Disk
import LinkSummary.Proofs.Json.Flags
import LinkSummary.Proofs.Json.Reading
import LinkSummary.Proofs.IdMap
import LinkSummary.Proofs.Store.Operation
import LinkSummary.Proofs.Symbol.Table

/-!
# Reading the JSON form of a store

The JSON form loses nothing: it is read as the store that was written, whichever names, flags and
ids the store holds. Its symbol table is that of the list of its names, so every id keeps its name,
and a new name takes the id after the last.
-/

namespace LinkSummary

variable {α β : Type}

/-! ### Parts of values -/

namespace Json

variable {item : α → Json} {read : Json → Option α}

lemma mapM_map_of_inverse {write : α → β} {read : β → Option α}
    (h : ∀ a, read (write a) = some a) (l : List α) : (l.map write).mapM read = some l := by
  induction l with
  | nil => rfl
  | cons a l ih =>
    rw [List.map_cons, List.mapM_cons, h, ih]
    rfl

lemma asList?_array (h : ∀ a, read (item a) = some a) (l : List α) :
    asList? read (.array (l.map item)) = some l :=
  mapM_map_of_inverse h l

/-- A value that is there must not be written as one that is missing. -/
lemma asOption?_ofOption (h : ∀ a, read (item a) = some a) (hnull : ∀ a, item a ≠ .null)
    (o : Option α) : (ofOption (o.map item)).asOption? read = some o := by
  cases o with
  | none => rfl
  | some a =>
    rw [Option.map_some, ofOption, asOption?]
    · rw [h]
      rfl
    · exact hnull a

/-- Fields with different keys are read as they were written. -/
lemma asRecord?_ofFields {names : List String} {fields : List (String × Json)}
    (hnames : fields.map (·.1) = names) (hnodup : names.Nodup) :
    (ofFields fields).asRecord? names = some fields := by
  have hknown : fields.filter (·.1 ∈ names) = fields := by
    refine List.filter_eq_self.mpr fun field hfield => decide_eq_true ?_
    exact hnames ▸ List.mem_map_of_mem hfield
  rw [ofFields, asRecord?, mapM_map_of_inverse (by simp)]
  simp only [Option.bind_eq_bind, Option.bind_some, hknown, hnames, if_pos hnodup, Option.pure_def]

end Json

/-! ### Parts of stores -/

lemma SymbolId.ofJson?_toJson (id : SymbolId) : ofJson? id.toJson = some id := by
  rw [ofJson?, toJson, Json.ofNat, Json.asWord?, toNat, Json.word?_toString]
  rfl

lemma SymbolId.toJson_ne_null (id : SymbolId) : id.toJson ≠ .null := nofun

lemma IdMap.ofJson?_toJson {item : α → Json} {read : Json → Option α}
    (h : ∀ a, read (item a) = some a) (m : IdMap α) : ofJson? read (m.toJson item) = some m := by
  have hkey : ∀ id : SymbolId, Json.word? (Json.escape (toString id.toNat)) = some id.val := by
    intro id
    rw [Json.escape_toString, SymbolId.toNat, Json.word?_toString]
  rw [ofJson?, toJson, Json.ofFields, Json.asMembers?, List.map_map, Option.bind_eq_bind,
    Option.bind_some, Json.mapM_map_of_inverse (fun _ => by
      simp only [Function.comp_apply, hkey, h, Option.bind_eq_bind, Option.bind_some,
        Option.pure_def])]
  exact congrArg some m.ofList_entries

lemma CallKind.ofJson?_ofText (kind : CallKind) : ofJson? (.ofText kind.text) = some kind := by
  cases kind <;> decide

lemma CallEdge.ofJson?_toJson (edge : CallEdge) : ofJson? edge.toJson = some edge := by
  rw [ofJson?, toJson, Json.asRecord?_ofFields (by rfl) (by decide)]
  simp [List.lookup_cons, SymbolId.ofJson?_toJson, CallKind.ofJson?_ofText, Json.asBool?]

lemma FunctionSummary.ofJson?_toJson (f : FunctionSummary) : ofJson? f.toJson = some f := by
  have hname := Json.asOption?_ofOption Json.asText?_ofText (fun _ => nofun) f.debugName
  have hcalls := Json.asList?_array CallEdge.ofJson?_toJson f.calls
  rw [ofJson?, toJson, Json.asRecord?_ofFields (by rfl) (by decide)]
  simp [List.lookup_cons, SymbolId.ofJson?_toJson, hname, FunctionFlags.ofText?_text, hcalls]

lemma TypeSummary.ofJson?_toJson (t : TypeSummary) : ofJson? t.toJson = some t := by
  have hbase := Json.asOption?_ofOption SymbolId.ofJson?_toJson SymbolId.toJson_ne_null t.base
  have hslots := Json.asList?_array SymbolId.ofJson?_toJson t.slots
  have hwitnesses := IdMap.ofJson?_toJson SymbolId.ofJson?_toJson t.witnesses
  rw [ofJson?, toJson, Json.asRecord?_ofFields (by rfl) (by decide)]
  simp [List.lookup_cons, SymbolId.ofJson?_toJson, hbase, hslots, hwitnesses]

theorem Store.ofJson?_toJson (s : Store) : ofJson? s.toJson = some s := by
  have hfunctions := IdMap.ofJson?_toJson FunctionSummary.ofJson?_toJson s.functions
  have htypes := IdMap.ofJson?_toJson TypeSummary.ofJson?_toJson s.types
  have hnames := Json.asList?_array Json.asText?_ofText s.symbols.names
  rw [ofJson?, toJson, Json.asRecord?_ofFields (by rfl) (by decide)]
  simp [List.lookup_cons, Json.asBool?, hfunctions, htypes, hnames, SymbolTable.ofList_names]

/-! ### Spelling -/

open Json (WellSpelled)

lemma wellSpelled_ofOption {item : α → Json} (h : ∀ a, WellSpelled (item a)) (o : Option α) :
    WellSpelled (.ofOption (o.map item)) := by
  cases o with
  | none => exact .null
  | some a => exact h a

lemma wellSpelled_array {item : α → Json} (h : ∀ a, WellSpelled (item a)) (l : List α) :
    WellSpelled (.array (l.map item)) :=
  .array (List.forall_mem_map.mpr fun a _ => h a)

lemma IdMap.wellSpelled_toJson {item : α → Json} (h : ∀ a, WellSpelled (item a)) (m : IdMap α) :
    WellSpelled (m.toJson item) :=
  .ofFields (List.forall_mem_map.mpr fun entry _ => h entry.2)

lemma SymbolId.wellSpelled_toJson (id : SymbolId) : WellSpelled id.toJson := .ofNat id.toNat

lemma CallEdge.wellSpelled_toJson (edge : CallEdge) : WellSpelled edge.toJson := by
  refine .ofFields ?_
  simp only [List.forall_mem_cons]
  exact ⟨edge.callee.wellSpelled_toJson, .ofText _, .bool _, nofun⟩

lemma FunctionSummary.wellSpelled_toJson (f : FunctionSummary) : WellSpelled f.toJson := by
  refine .ofFields ?_
  simp only [List.forall_mem_cons]
  exact ⟨f.id.wellSpelled_toJson, wellSpelled_ofOption .ofText _, .ofText _,
    wellSpelled_array CallEdge.wellSpelled_toJson _, nofun⟩

lemma TypeSummary.wellSpelled_toJson (t : TypeSummary) : WellSpelled t.toJson := by
  refine .ofFields ?_
  simp only [List.forall_mem_cons]
  exact ⟨t.id.wellSpelled_toJson, wellSpelled_ofOption SymbolId.wellSpelled_toJson _,
    wellSpelled_array SymbolId.wellSpelled_toJson _,
    IdMap.wellSpelled_toJson SymbolId.wellSpelled_toJson _, nofun⟩

lemma Store.wellSpelled_toJson (s : Store) : WellSpelled s.toJson := by
  refine .ofFields ?_
  simp only [List.forall_mem_cons]
  exact ⟨.ofText _, .bool _, IdMap.wellSpelled_toJson FunctionSummary.wellSpelled_toJson _,
    IdMap.wellSpelled_toJson TypeSummary.wellSpelled_toJson _, wellSpelled_array .ofText _, nofun⟩

/-! ### Texts of stores -/

namespace Store

variable {s : Store}

/-- A text of the value of a store is read as the store, also with blanks behind it. -/
lemma ofJsonText?_append {text gap : String} (h : Json.Reads s.toJson text.toList)
    (hgap : Json.Blanks gap.toList) : ofJsonText? (text ++ gap) = some s := by
  rw [ofJsonText?, Json.parse?_append h hgap, Option.bind_eq_bind, Option.bind_some,
    ofJson?_toJson]

lemma ofJsonText?_compact (s : Store) : ofJsonText? s.toJson.compact = some s := by
  have hread := ofJsonText?_append s.wellSpelled_toJson.reads_compact Json.blanks_nil
  rwa [String.append_empty] at hread

lemma ofJsonText?_pretty (s : Store) : ofJsonText? s.toJson.pretty = some s := by
  have hread := ofJsonText?_append (s.wellSpelled_toJson.reads_indented 0) Json.blanks_nil
  rwa [String.append_empty] at hread

section

variable {σ : Type} [FileSystem σ]

lemma stdout_carryOut_print (text : String) (d : σ) :
    ((Plan.print text).carryOut d).stdout = Utf8.encode text := rfl

/-- What is printed of a summary file is read as the store in it. -/
lemma ofJsonText?_stdout {d : σ} {input : String}
    (h : Command.load (FileSystem.read d) input = .ok s) :
    Utf8.decode? ((Command.info input true).run d).stdout >>= ofJsonText? = some s := by
  have hplan : (Command.info input true).plan (FileSystem.read d) =
      .print (linesText [s.toJson.pretty]) := by
    rw [Command.plan, Command.planInfo, h]
    rfl
  have htext : linesText [s.toJson.pretty] = s.toJson.pretty ++ "\n" := by
    simp [linesText, String.join]
  have hdecoded : Utf8.decode? ((Command.info input true).run d).stdout =
      some (s.toJson.pretty ++ "\n") := by
    rw [Command.run, hplan, htext, stdout_carryOut_print, Utf8.decode?_encode]
  simp only [hdecoded, Option.bind_eq_bind, Option.bind_some]
  exact ofJsonText?_append (s.wellSpelled_toJson.reads_indented 0) (Json.blanks_singleton rfl)

end

/-- The JSON form of a store is read as the store, be it compact, indented or printed for a summary
file. The store that was read finds the id of each name, and the next id is that of a new name. -/
theorem ofJsonText?_toJson (s : Store) (hsize : s.symbols.size < 2 ^ 32) :
    ∃ t, t = s ∧ ofJsonText? s.toJson.compact = some t ∧ ofJsonText? s.toJson.pretty = some t ∧
      (∀ (σ : Type) [FileSystem σ] (d : σ) input, Command.load (FileSystem.read d) input = .ok s →
        Utf8.decode? ((Command.info input true).run d).stdout >>= ofJsonText? = some t) ∧
      (∀ name id, t.symbols.lookup name = some id ↔ t.symbols.get? id = some name) ∧
      ∀ name, t.symbols.lookup name = none → (t.symbols.insert name).size < 2 ^ 32 →
        (t.intern name).1.toNat = t.symbols.size + 1 := by
  refine ⟨s, rfl, s.ofJsonText?_compact, s.ofJsonText?_pretty, fun _ _ _ _ => ofJsonText?_stdout,
    fun _ _ => SymbolTable.lookup_eq_some_iff hsize, fun name hnew hinsert => ?_⟩
  exact SymbolTable.toNat_intern hnew hinsert

/-- A derived class with a live function that has a readable name, and the summary file of it. -/
theorem ofJsonText?_toJson_of_class :
    let s := performAll "m" [.build (.recordType "D" (some "C") ["f"]),
      .build (.recordFunction "f" { preserved := true, fixedContents := true }),
      .build (.setDebugName ⟨3⟩ "\"é\"\n"), .build (.recordCall ⟨3⟩ "p" .witness true),
      .build (.recordWitness ⟨1⟩ "p" "f"), .markLive ⟨3⟩]
    let d : Disk := { nodes := [(["m"], .file (s.encode true))] }
    s.symbols.names = ["D", "C", "f", "p"] ∧ ofJsonText? s.toJson.compact = some s ∧
      ofJsonText? s.toJson.pretty = some s ∧
      (Utf8.decode? ((Command.info "m" true).run d).stdout >>= ofJsonText?) = some s ∧
      s.symbols.lookup "f" = some ⟨3⟩ ∧ (s.intern "q").1.toNat = 5 := by
  intro s d
  obtain ⟨t, rfl, hcompact, hpretty, hprinted, hlookup, hintern⟩ :=
    ofJsonText?_toJson s (by decide +kernel)
  exact ⟨by decide +kernel, hcompact, hpretty, hprinted Disk d "m" (by decide +kernel),
    (hlookup "f" ⟨3⟩).mpr (by decide +kernel), hintern "q" (by decide +kernel) (by decide +kernel)⟩

end Store

end LinkSummary
