import LinkSummary.Proofs.Binary.Listing
import Mathlib.Data.List.ReduceOption

/-!
# What is accepted of a file

Each record that is accepted is one that its payload spells, and so is each block: a module summary
is read as the store of what it lists, and the readable names are gathered from all blocks. Then the
names are attached to the functions, of which the last for a function remains.
-/

namespace LinkSummary

open Format

namespace Layout

/-! ### Ids of records and blocks -/

lemma SummaryRecord.eq_id {n : Nat} {r : SummaryRecord} (h : ofId? n = some r) : n = r.id := by
  unfold ofId? at h
  split at h <;> cases h <;> rfl

lemma SummaryRecord.ofId?_eq_none_iff {n : Nat} :
    ofId? n = none ↔ ∀ r : SummaryRecord, n ≠ r.id := by
  rw [Option.eq_none_iff_forall_ne_some]
  constructor
  · rintro h r rfl
    exact h r (ofId?_id r)
  · exact fun h r hr => h r (eq_id hr)

lemma Block.eq_id {n : Nat} {b : Block} (h : ofId? n = some b) : n = b.id := by
  unfold ofId? at h
  split at h <;> cases h <;> rfl

lemma Block.ofId?_eq_none_iff {n : Nat} : ofId? n = none ↔ ∀ b : Block, n ≠ b.id := by
  rw [Option.eq_none_iff_forall_ne_some]
  constructor
  · rintro h b rfl
    exact h b (ofId?_id b)
  · exact fun h b hb => h b (eq_id hb)

end Layout

/-! ### Payloads by their ids -/

namespace Format

open Layout (SummaryRecord Block)

variable {n : Nat} {payload : List UInt8} {r : Record} {b : FileBlock}

lemma recordPayload_iff : RecordPayload n payload r ↔
    match SummaryRecord.ofId? n with
    | some .metadata => False
    | some .symbolName => ∃ name, r = .name name ∧ Leading Text payload name
    | some .function => ∃ f, r = .function f ∧ Leading FunctionFields payload f
    | some .type => ∃ t, r = .type t ∧ Leading TypeFields payload t
    | none => r = .other := by
  constructor
  · intro h
    cases h with
    | name h => exact ⟨_, rfl, h⟩
    | function h => exact ⟨_, rfl, h⟩
    | type h => exact ⟨_, rfl, h⟩
    | other hn => rw [SummaryRecord.ofId?_eq_none_iff.mpr hn]
  · intro h
    split at h
    · exact h.elim
    · rename_i hid
      obtain ⟨name, rfl, h⟩ := h
      exact SummaryRecord.eq_id hid ▸ .name h
    · rename_i hid
      obtain ⟨f, rfl, h⟩ := h
      exact SummaryRecord.eq_id hid ▸ .function h
    · rename_i hid
      obtain ⟨t, rfl, h⟩ := h
      exact SummaryRecord.eq_id hid ▸ .type h
    · rename_i hid
      exact h ▸ .other (SummaryRecord.ofId?_eq_none_iff.mp hid)

lemma metadataPayload_iff {metadata : Bool × String} : MetadataPayload n payload metadata ↔
    n = SummaryRecord.metadata.id ∧ Leading MetadataFields payload metadata := by
  constructor
  · rintro ⟨h⟩
    exact ⟨rfl, h⟩
  · rintro ⟨rfl, h⟩
    exact .mk h

lemma debugNamePayload_iff {entry : Option (SymbolId × String)} :
    DebugNamePayload n payload entry ↔ if n = Layout.debugNameId then
      ∃ x, entry = some x ∧ Leading DebugNameFields payload x else entry = none := by
  constructor
  · rintro (h | hn)
    · rw [if_pos rfl]
      exact ⟨_, rfl, h⟩
    · rw [if_neg hn]
  · split
    · rename_i hn
      rintro ⟨x, rfl, h⟩
      exact hn ▸ .name h
    · rename_i hn
      rintro rfl
      exact .other hn

lemma blockPayload_iff : BlockPayload n payload b ↔
    match Block.ofId? n with
    | some .moduleSummary => ∃ l, b = .summary l ∧ ModuleSummary payload l
    | some .debugNames => ∃ entries, b = .debugNames (List.reduceOption entries) ∧
        Sequence (Framed DebugNamePayload) payload entries
    | none => b = .other := by
  constructor
  · intro h
    cases h with
    | summary h => exact ⟨_, rfl, h⟩
    | debugNames h => exact ⟨_, rfl, h⟩
    | other hn => rw [Block.ofId?_eq_none_iff.mpr hn]
  · intro h
    split at h
    · rename_i hid
      obtain ⟨l, rfl, h⟩ := h
      exact Block.eq_id hid ▸ .summary h
    · rename_i hid
      obtain ⟨entries, rfl, h⟩ := h
      exact Block.eq_id hid ▸ .debugNames h
    · rename_i hid
      exact h ▸ .other (Block.ofId?_eq_none_iff.mp hid)

end Format

namespace Layout

variable {s s' : Store} {f block : Frame} {l : Listing} {c c' : Cursor}

/-! ### Records -/

lemma accepted_eq_ok_iff {α : Type} {offset : Nat} {x : Except SummaryError α} {a : α} :
    accepted offset x = .ok a ↔ x = .ok a := by
  cases x <;> simp [accepted]

/-- The types that are read are those kept of the types that the bytes spell. -/
lemma exists_readType_iff {t : TypeSummary} : (∃ c', readType c = .ok (t, c')) ↔
    ∃ record, Leading TypeFields c.rest record ∧ t = record.summary := by
  rw [readType_eq_map, ← (Recognizes.typeRecord.bind_pure TypeRecord.summary).leading_iff c]
  constructor
  · rintro ⟨first, rest, hrest, record, hrecord, rfl⟩
    exact ⟨record, ⟨first, rest, hrest, hrecord⟩, rfl⟩
  · rintro ⟨record, ⟨first, rest, hrest, hrecord⟩, rfl⟩
    exact ⟨first, rest, hrest, record, hrecord, rfl⟩

/-- A record is added if its payload spells one that the store accepts. -/
lemma addRecord_eq_ok_iff : addRecord s f = .ok s' ↔
    ∃ r, RecordPayload f.id f.payload.rest r ∧ Listing.add? s r = some s' := by
  simp only [recordPayload_iff]
  rw [addRecord]
  cases SummaryRecord.ofId? f.id with
  | none => simp [Listing.add?]
  | some k =>
    cases k with
    | metadata => exact iff_of_false (by rintro ⟨⟩) (by rintro ⟨_, ⟨⟩, -⟩)
    | symbolName =>
      simp only [Recognizes.text.leading_iff f.payload, Cursor.bind_eq_ok_iff, Prod.exists]
      constructor
      · rintro ⟨name, c', hname, hs⟩
        refine ⟨_, ⟨name, rfl, c', hname⟩, ?_⟩
        rw [Listing.add?]
        split at hs
        · cases hs
        · rename_i hnew
          rw [if_neg hnew]
          exact congrArg some (Except.ok.inj hs)
      · rintro ⟨_, ⟨name, rfl, c', hname⟩, hs⟩
        obtain ⟨hnew, hs⟩ := Option.ite_none_left_eq_some.mp hs
        refine ⟨name, c', hname, ?_⟩
        rw [if_neg hnew, ← Option.some.inj hs]
        rfl
    | function =>
      simp only [Recognizes.function.leading_iff f.payload, Cursor.bind_eq_ok_iff, Prod.exists,
        accepted_eq_ok_iff]
      constructor
      · rintro ⟨g, c', hg, hs⟩
        exact ⟨_, ⟨g, rfl, c', hg⟩, Listing.toOption_eq_some_iff.mpr hs⟩
      · rintro ⟨_, ⟨g, rfl, c', hg⟩, hs⟩
        exact ⟨g, c', hg, Listing.toOption_eq_some_iff.mp hs⟩
    | type =>
      simp only [Cursor.bind_eq_ok_iff, Prod.exists, accepted_eq_ok_iff]
      constructor
      · rintro ⟨t, c', ht, hs⟩
        obtain ⟨record, hrecord, rfl⟩ := exists_readType_iff.mp ⟨c', ht⟩
        exact ⟨_, ⟨record, rfl, hrecord⟩, Listing.toOption_eq_some_iff.mpr hs⟩
      · rintro ⟨_, ⟨record, rfl, hrecord⟩, hs⟩
        obtain ⟨c', ht⟩ := exists_readType_iff.mpr ⟨record, hrecord, rfl⟩
        exact ⟨_, c', ht, Listing.toOption_eq_some_iff.mp hs⟩

/-- The store with which the records after the metadata begin. -/
lemma leading_metadata_iff {computed : Bool} {moduleName : String} :
    Leading MetadataFields c.rest (computed, moduleName) ↔
      ∃ c', readMetadata c = .ok ({ moduleName, livenessComputed := computed }, c') := by
  rw [← Recognizes.metadata.leading_iff c]
  constructor
  · rintro ⟨first, rest, hrest, h⟩
    exact ⟨first, rest, hrest, computed, moduleName, h, rfl⟩
  · rintro ⟨first, rest, hrest, computed', moduleName', h, heq⟩
    cases heq
    exact ⟨first, rest, hrest, h⟩

lemma exists_eq_of_readMetadata (h : readMetadata c = .ok (s, c')) :
    ∃ moduleName computed, s = { moduleName, livenessComputed := computed } := by
  obtain ⟨bytes, -, -, computed, moduleName, -, rfl⟩ := (Recognizes.metadata c s c').mp h
  exact ⟨moduleName, computed, rfl⟩

/-- A module summary begins with a frame, which is that of the metadata. -/
lemma moduleSummary_iff (h : Cursor.frame c = .ok (f, c')) : ModuleSummary c.rest l ↔
    MetadataPayload f.id f.payload.rest (l.livenessComputed, l.moduleName) ∧
      Sequence (Framed RecordPayload) c'.rest l.records := by
  constructor
  · intro hl
    generalize hrest : c.rest = bytes at hl
    obtain ⟨hfirst, hothers⟩ := hl
    obtain ⟨hmetadata, rfl⟩ := (Cursor.framed_append_iff h).mp ⟨_, hrest, hfirst⟩
    exact ⟨hmetadata, hothers⟩
  · rintro ⟨hmetadata, hothers⟩
    obtain ⟨first, hrest, hfirst⟩ := (Cursor.framed_append_iff h).mpr ⟨hmetadata, rfl⟩
    rw [hrest]
    exact .mk hfirst hothers

lemma exists_frame_of_moduleSummary (h : ModuleSummary c.rest l) :
    ∃ f c', Cursor.frame c = .ok (f, c') := by
  generalize hrest : c.rest = bytes at h
  obtain ⟨hfirst, -⟩ := h
  obtain ⟨f, c', hframe, -⟩ := Cursor.exists_frame_of_framed hrest hfirst
  exact ⟨f, c', hframe⟩

/-- A module summary is read as the store of what its payload lists. -/
theorem readModuleSummary_eq_ok_iff : readModuleSummary block = .ok s ↔
    ∃ l, ModuleSummary block.payload.rest l ∧ l.store? = some s := by
  rw [readModuleSummary]
  cases hframe : Cursor.frame block.payload with
  | error e =>
    refine iff_of_false ?_ ?_
    · split <;> exact nofun
    · rintro ⟨l, hl, -⟩
      obtain ⟨f, c', hf⟩ := exists_frame_of_moduleSummary hl
      rw [hframe] at hf
      cases hf
  | ok p =>
    obtain ⟨record, others⟩ := p
    have hne : block.payload.rest.isEmpty = false := by
      cases hrest : block.payload.rest with
      | nil =>
        have hshorter := Cursor.frame_shorter hframe
        rw [hrest] at hshorter
        cases hshorter
      | cons => rfl
    rw [hne, if_neg Bool.false_ne_true]
    have hfold : ∀ start s, others.foldFrames addRecord start = .ok s ↔ ∃ records,
        Sequence (Framed RecordPayload) others.rest records ∧
          records.foldlM Listing.add? start = some s :=
      fun start => Cursor.foldFrames_eq_ok_iff Listing.add? fun _ _ _ => addRecord_eq_ok_iff
    simp only [moduleSummary_iff hframe, metadataPayload_iff, leading_metadata_iff,
      Cursor.bind_eq_ok_iff, Except.ok.injEq, exists_eq_left', ne_eq, ite_not]
    split
    · rename_i hid
      simp only [hid, true_and, hfold, accepted_eq_ok_iff, Cursor.bind_eq_ok_iff, Prod.exists]
      constructor
      · rintro ⟨start, c', hmetadata, s', ⟨records, hrecords, hadd⟩, _, hcheck, hs⟩
        obtain ⟨moduleName, computed, rfl⟩ := exists_eq_of_readMetadata hmetadata
        refine ⟨⟨moduleName, computed, records⟩, ⟨⟨c', hmetadata⟩, hrecords⟩, ?_⟩
        exact Except.ok.inj hs ▸ Option.filter_eq_some_iff.mpr ⟨hadd, decide_eq_true hcheck⟩
      · rintro ⟨l, ⟨⟨c', hmetadata⟩, hrecords⟩, hl⟩
        obtain ⟨hadd, hcheck⟩ := Option.filter_eq_some_iff.mp hl
        exact ⟨_, c', hmetadata, s, ⟨l.records, hrecords, hadd⟩, (), of_decide_eq_true hcheck, rfl⟩
    · rename_i hid
      simp only [hid, false_and, exists_false, iff_false]
      exact nofun

/-! ### Readable names -/

end Layout

/-- A pending name without its place in the file. -/
def PendingName.entry (p : PendingName) : SymbolId × String := (p.function, p.name)

namespace Layout

variable {names : List PendingName} {t : List (SymbolId × String)}

lemma leading_debugName_iff {entry : SymbolId × String} (offset : Nat) :
    Leading DebugNameFields c.rest entry ↔
      ∃ p c', readDebugName offset c = .ok (p, c') ∧ p.entry = entry := by
  have hread : ∀ p, (∃ c', readDebugName offset c = .ok (p, c')) ↔
      Leading DebugNameFields c.rest p.entry ∧ p.offset = offset := by
    intro p
    rw [← (Recognizes.debugName offset).leading_iff c]
    constructor
    · rintro ⟨first, rest, hrest, h, hoffset⟩
      exact ⟨⟨first, rest, hrest, h⟩, hoffset⟩
    · rintro ⟨⟨first, rest, hrest, h⟩, hoffset⟩
      exact ⟨first, rest, hrest, h, hoffset⟩
  constructor
  · intro h
    obtain ⟨c', hp⟩ := (hread ⟨offset, entry.1, entry.2⟩).mpr ⟨h, rfl⟩
    exact ⟨_, c', hp, rfl⟩
  · rintro ⟨p, c', hp, rfl⟩
    exact ((hread p).mp ⟨c', hp⟩).1

/-- A record of readable names adds the name that its payload spells, if any. -/
lemma addDebugName_eq_ok_iff :
    (∃ names', addDebugName names f = .ok names' ∧ names'.map PendingName.entry = t) ↔
      ∃ entry : Option (SymbolId × String), DebugNamePayload f.id f.payload.rest entry ∧
        some (names.map PendingName.entry ++ entry.toList) = some t := by
  simp only [debugNamePayload_iff]
  rw [addDebugName]
  split
  · simp only [leading_debugName_iff f.offset, Cursor.bind_eq_ok_iff]
    constructor
    · rintro ⟨_, ⟨⟨p, c'⟩, hp, hnames⟩, rfl⟩
      refine ⟨some p.entry, ⟨p.entry, rfl, p, c', hp, rfl⟩, ?_⟩
      rw [← Except.ok.inj hnames, List.map_append, List.map_singleton, Option.toList_some]
    · rintro ⟨_, ⟨_, rfl, p, c', hp, rfl⟩, ht⟩
      refine ⟨names ++ [p], ⟨⟨p, c'⟩, hp, rfl⟩, ?_⟩
      rw [← Option.some.inj ht, List.map_append, List.map_singleton, Option.toList_some]
  · simp [eq_comm]

lemma foldFrames_addDebugName_iff :
    (∃ names', Cursor.foldFrames addDebugName names c = .ok names' ∧
      names'.map PendingName.entry = t) ↔
      ∃ entries, Sequence (Framed DebugNamePayload) c.rest entries ∧
        names.map PendingName.entry ++ entries.reduceOption = t := by
  have hfold : ∀ (entries : List (Option (SymbolId × String))) start,
      entries.foldlM (fun t entry => some (t ++ entry.toList)) start =
        some (start ++ entries.reduceOption) := by
    intro entries
    induction entries with
    | nil => exact fun start => (congrArg some (List.append_nil start)).symm
    | cons entry entries ih =>
      intro start
      rw [List.foldlM_cons, Option.bind_eq_bind, Option.bind_some, ih]
      cases entry with
      | none => rw [Option.toList_none, List.append_nil, List.reduceOption_cons_of_none]
      | some x =>
        rw [Option.toList_some, List.reduceOption_cons_of_some, List.append_assoc,
          List.singleton_append]
  rw [Cursor.foldFrames_iff (List.map PendingName.entry)
    (fun t (entry : Option (SymbolId × String)) => some (t ++ entry.toList))
    fun _ _ _ => addDebugName_eq_ok_iff]
  simp only [hfold, Option.some.injEq]

/-! ### Blocks -/

/-- The store and the readable names in the blocks so far. -/
def Contents.told (contents : Contents) : Option Store × List (SymbolId × String) :=
  (contents.summary, contents.names.map PendingName.entry)

/-- Add what a block tells to what was told before it. -/
def addTold (told : Option Store × List (SymbolId × String)) :
    FileBlock → Option (Option Store × List (SymbolId × String))
  | .summary l => if told.1.isSome then none else l.store?.map fun s => (some s, told.2)
  | .debugNames names => some (told.1, told.2 ++ names)
  | .other => some told

lemma addBlock_eq_ok_iff {contents : Contents} {told : Option Store × List (SymbolId × String)} :
    (∃ contents', addBlock contents f = .ok contents' ∧ contents'.told = told) ↔
      ∃ b, BlockPayload f.id f.payload.rest b ∧ addTold contents.told b = some told := by
  simp only [blockPayload_iff]
  rw [addBlock]
  cases Block.ofId? f.id with
  | none => simp [addTold]
  | some k =>
    cases k with
    | moduleSummary =>
      dsimp only
      split
      · rename_i hsome
        refine iff_of_false (fun ⟨_, h, _⟩ => nomatch h) ?_
        rintro ⟨_, ⟨l, rfl, -⟩, hadd⟩
        rw [addTold, Contents.told, if_pos hsome] at hadd
        cases hadd
      · rename_i hnone
        simp only [Cursor.bind_eq_ok_iff, readModuleSummary_eq_ok_iff]
        constructor
        · rintro ⟨_, ⟨s, ⟨l, hl, hs⟩, hcontents⟩, rfl⟩
          refine ⟨_, ⟨l, rfl, hl⟩, ?_⟩
          rw [addTold, Contents.told, if_neg hnone, hs, ← Except.ok.inj hcontents]
          rfl
        · rintro ⟨_, ⟨l, rfl, hl⟩, hadd⟩
          rw [addTold, Contents.told, if_neg hnone] at hadd
          obtain ⟨s, hs, rfl⟩ := Option.map_eq_some_iff.mp hadd
          exact ⟨_, ⟨s, ⟨l, hl, hs⟩, rfl⟩, rfl⟩
    | debugNames =>
      simp only [Cursor.bind_eq_ok_iff]
      constructor
      · rintro ⟨_, ⟨names, hfold, hcontents⟩, rfl⟩
        obtain ⟨entries, hentries, hnames⟩ := foldFrames_addDebugName_iff.mp ⟨names, hfold, rfl⟩
        refine ⟨_, ⟨entries, rfl, hentries⟩, ?_⟩
        rw [addTold, Contents.told, hnames, ← Except.ok.inj hcontents]
        rfl
      · rintro ⟨_, ⟨entries, rfl, hentries⟩, hadd⟩
        obtain ⟨names', hfold, hnames'⟩ := foldFrames_addDebugName_iff.mpr ⟨entries, hentries, rfl⟩
        refine ⟨{ contents with names := names' }, ⟨names', hfold, rfl⟩, ?_⟩
        rw [← Option.some.inj hadd, Contents.told, hnames']
        rfl

lemma foldlM_addTold_of_some (blocks : List FileBlock) {names names' : List (SymbolId × String)}
    {summary : Option Store} :
    blocks.foldlM addTold (some s, names) = some (summary, names') ↔
      blocks.filterMap FileBlock.listing? = [] ∧ summary = some s ∧
        names' = names ++ blocks.flatMap FileBlock.names := by
  induction blocks generalizing names with
  | nil => simp [eq_comm]
  | cons b blocks ih =>
    rw [List.foldlM_cons, Option.bind_eq_bind]
    cases b with
    | summary l => simp [addTold, FileBlock.listing?]
    | debugNames more =>
      rw [addTold, Option.bind_some, ih, List.flatMap_cons, FileBlock.names, List.append_assoc]
      rfl
    | other =>
      rw [addTold, Option.bind_some, ih, List.flatMap_cons]
      rfl

/-- The blocks tell a store if exactly one of them lists it. -/
lemma foldlM_addTold_of_none (blocks : List FileBlock) {names names' : List (SymbolId × String)} :
    blocks.foldlM addTold (none, names) = some (some s, names') ↔
      ∃ l, blocks.filterMap FileBlock.listing? = [l] ∧ l.store? = some s ∧
        names' = names ++ blocks.flatMap FileBlock.names := by
  induction blocks generalizing names with
  | nil => simp
  | cons b blocks ih =>
    rw [List.foldlM_cons, Option.bind_eq_bind]
    cases b with
    | summary l =>
      have hlistings : (FileBlock.summary l :: blocks).filterMap FileBlock.listing? =
          l :: blocks.filterMap FileBlock.listing? := List.filterMap_cons_some rfl
      rw [Option.bind_eq_some_iff, hlistings]
      constructor
      · rintro ⟨told, htold, hfold⟩
        obtain ⟨s', hs', rfl⟩ := Option.map_eq_some_iff.mp htold
        obtain ⟨hnil, hs, rfl⟩ := (foldlM_addTold_of_some blocks).mp hfold
        exact ⟨l, by rw [hnil], by rw [hs', hs], rfl⟩
      · rintro ⟨l', heq, hs, rfl⟩
        rw [List.cons.injEq] at heq
        obtain ⟨rfl, hnil⟩ := heq
        exact ⟨(some s, names), Option.map_eq_some_iff.mpr ⟨s, hs, rfl⟩,
          (foldlM_addTold_of_some blocks).mpr ⟨hnil, rfl, rfl⟩⟩
    | debugNames more =>
      rw [addTold, Option.bind_some, ih, List.flatMap_cons, FileBlock.names]
      simp only [List.append_assoc]
      rfl
    | other =>
      rw [addTold, Option.bind_some, ih, List.flatMap_cons]
      rfl

/-! ### Attaching readable names -/

lemma attachName_eq_ok_iff {p : PendingName} : attachName s p = .ok s' ↔
    s.definesFunction p.function = true ∧ s' = { s with
      functions := s.functions.modify p.function ({ · with debugName := some p.name }) } := by
  rw [attachName, accepted_eq_ok_iff, Store.setDebugName]
  split
  · rename_i hdef
    rw [Except.ok.injEq, and_iff_right hdef, eq_comm]
  · rename_i hundef
    exact iff_of_false nofun fun h => hundef h.1

/-- Of the readable names attached to a function the last remains. -/
lemma map_named_concat {functions : IdMap FunctionSummary}
    (hids : ∀ id f, functions.get? id = some f → f.id = id) (names : List (SymbolId × String))
    (entry : SymbolId × String) :
    (functions.map (SummaryFile.named names)).modify entry.1
        ({ · with debugName := some entry.2 }) =
      functions.map (SummaryFile.named (names ++ [entry])) := by
  apply IdMap.ext_get?
  intro id
  rw [IdMap.get?_modify, IdMap.get?_map, IdMap.get?_map]
  cases hf : functions.get? id with
  | none => simp
  | some f =>
    have hid := hids id f hf
    simp only [Option.map_some, SummaryFile.named, IdMap.ofList_concat, IdMap.get?_insert, hid]
    split <;> simp

lemma foldlM_attachName_eq_ok_iff (hids : ∀ id f, s.function? id = some f → f.id = id)
    (names : List PendingName) : names.foldlM attachName s = .ok s' ↔
      (∀ p ∈ names, s.definesFunction p.function = true) ∧
        s' = { s with
          functions := s.functions.map (SummaryFile.named (names.map PendingName.entry)) } := by
  -- from the last name on, which is the one that remains
  induction names using List.reverseRecOn generalizing s' with
  | nil =>
    have hsame : s.functions.map (SummaryFile.named []) = s.functions := by
      apply IdMap.ext_get?
      intro id
      rw [IdMap.get?_map]
      cases s.functions.get? id <;> rfl
    rw [List.map_nil, hsame]
    exact ⟨fun h => ⟨List.forall_mem_nil _, (Except.ok.inj h).symm⟩, fun h => congrArg _ h.2.symm⟩
  | append_singleton names p ih =>
    simp only [List.foldlM_append, List.foldlM_cons, List.foldlM_nil, bind_pure,
      Cursor.bind_eq_ok_iff, attachName_eq_ok_iff, List.forall_mem_append,
      List.forall_mem_singleton, List.map_append, List.map_singleton]
    have hdefined : ∀ g : FunctionSummary → FunctionSummary,
        ({ s with functions := s.functions.map g } : Store).definesFunction p.function =
          s.definesFunction p.function := by
      intro g
      rw [Store.definesFunction, IdMap.contains, IdMap.get?_map, Option.isSome_map]
      rfl
    constructor
    · rintro ⟨s₁, hs₁, hdef, rfl⟩
      obtain ⟨hall, rfl⟩ := ih.mp hs₁
      rw [hdefined] at hdef
      refine ⟨⟨hall, hdef⟩, ?_⟩
      rw [← map_named_concat hids]
      rfl
    · rintro ⟨⟨hall, hdef⟩, rfl⟩
      refine ⟨_, ih.mpr ⟨hall, rfl⟩, (hdefined _).trans hdef, ?_⟩
      rw [← map_named_concat hids]
      rfl

end Layout

end LinkSummary
