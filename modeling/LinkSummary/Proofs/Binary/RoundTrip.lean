import LinkSummary.Proofs.Binary.Records
import LinkSummary.Proofs.Store.Operation

/-!
# Files read back

While the records of a module summary are read, the store read so far has the names, functions and
types listed so far, so every insertion is accepted. At the end stands the store without readable
names, and the vtable check alone may refuse it. The readable names, read apart, complete it.
-/

namespace LinkSummary

namespace Layout

variable {s : Store} {names : List String} {functions : List FunctionSummary}
  {types : List TypeSummary} {at' payloadAt : Nat}

/-! ### The store read so far -/

/-- The function without its readable name, filed under its id. -/
def filedFunction (f : FunctionSummary) : SymbolId × FunctionSummary :=
  (f.id, { f with debugName := none })

/-- The type filed under its id. -/
def filedType (t : TypeSummary) : SymbolId × TypeSummary := (t.id, t)

/-- The store of some records of a module summary. -/
def storeOf (s : Store) (names : List String) (functions : List FunctionSummary)
    (types : List TypeSummary) : Store where
  moduleName := s.moduleName
  livenessComputed := s.livenessComputed
  functions := .ofList (functions.map filedFunction)
  types := .ofList (types.map filedType)
  symbols := .ofList names

/-- All records together are the store without readable names. -/
lemma storeOf_all (hs : s.WellFormed) :
    storeOf s s.symbols.names s.functions.values s.types.values = s.withoutDebugNames := by
  have hfunctions : IdMap.ofList (s.functions.values.map filedFunction) =
      s.functions.map ({ · with debugName := none }) := by
    rw [← IdMap.ofList_entries (s.functions.map _)]
    exact congrArg IdMap.ofList (IdMap.map_values_of_key_eq hs.id_eq_of_mem_functions _)
  have htypes : IdMap.ofList (s.types.values.map filedType) = s.types := by
    refine Eq.trans ?_ (IdMap.ofList_entries s.types)
    refine congrArg IdMap.ofList ((IdMap.map_values_of_key_eq hs.id_eq_of_mem_types id).trans ?_)
    exact List.map_id _
  rw [storeOf, hfunctions, htypes, SymbolTable.ofList_names]
  rfl

/-- What comes after some items of a list without repetition is not among them. -/
lemma notMem_of_concat {α β : Type} {g : α → β} {before items : List α} {x : α}
    (h : before ++ [x] <+: items) (hnodup : (items.map g).Nodup) : g x ∉ before.map g := by
  have hsub : ((before ++ [x]).map g).Sublist (items.map g) := h.sublist.map g
  have hboth := hnodup.sublist hsub
  rw [List.map_append, List.nodup_append] at hboth
  exact fun hmem => hboth.2.2 _ hmem _ (List.mem_singleton.mpr rfl) rfl

lemma mem_of_concat {α : Type} {before items : List α} {x : α}
    (h : before ++ [x] <+: items) : x ∈ items :=
  h.subset (List.mem_append_right _ (List.mem_singleton.mpr rfl))

/-! ### One record -/

lemma addRecord_name {name : String} (hnames : names ++ [name] <+: s.symbols.names)
    (hlen : (text name).length < 2 ^ 64) :
    addRecord (storeOf s names [] [])
        ⟨at', SummaryRecord.symbolName.id, ⟨text name, payloadAt⟩⟩ =
      .ok (storeOf s (names ++ [name]) [] []) := by
  have hread := (Reads.text name).whole hlen payloadAt
  have hnodup : names.Nodup := s.symbols.nodup.sublist
    ((List.sublist_append_left names [name]).trans hnames.sublist)
  have hnew : name ∉ names := by
    have hmem := notMem_of_concat (g := id) hnames (by simpa using s.symbols.nodup)
    rwa [List.map_id] at hmem
  have htable : (storeOf s names [] []).symbols.names = names := SymbolTable.names_ofList hnodup
  simp only [addRecord, SummaryRecord.ofId?_id, hread, htable, if_neg hnew, Bind.bind, Except.bind]
  simp only [storeOf, SymbolTable.ofList_concat]
  rfl

lemma addRecord_function {f : FunctionSummary} (hs : s.WellFormed) (hflags : s.FlagsKnown)
    (hfunctions : functions ++ [f] <+: s.functions.values)
    (hlen : (function f).length < 2 ^ 64) :
    addRecord (storeOf s s.symbols.names functions [])
        ⟨at', SummaryRecord.function.id, ⟨function f, payloadAt⟩⟩ =
      .ok (storeOf s s.symbols.names (functions ++ [f]) []) := by
  obtain ⟨key, hf⟩ := IdMap.mem_values_iff.mp (mem_of_concat hfunctions)
  have hfits := hs.functions hf
  have hread := (reads_function
    (fun edge hedge => SymbolTable.ne_absent_of_contains (hfits.interned _
      (List.mem_cons_of_mem _ (List.mem_map_of_mem hedge))))
    (SymbolTable.ne_absent_of_contains (hfits.interned _ List.mem_cons_self))
    (hflags f (mem_of_concat hfunctions))).whole hlen payloadAt
  have hinsert : (storeOf s s.symbols.names functions []).insertFunction
      { f with debugName := none } = .ok (storeOf s s.symbols.names (functions ++ [f]) []) := by
    refine Store.insertFunction_eq_ok_iff.mpr ⟨?_, ?_, ?_⟩
    · rw [storeOf, SymbolTable.ofList_names]
      exact hfits.interned
    · have hids : (s.functions.values.map (·.id)).Nodup := by
        rw [IdMap.map_key_values hs.id_eq_of_mem_functions]
        exact s.functions.keys_nodup
      have hnew := notMem_of_concat hfunctions hids
      rw [Store.definesFunction, Bool.eq_false_iff, ne_eq, IdMap.contains_iff_mem_keys, storeOf,
        IdMap.mem_keys_ofList, List.map_map]
      exact hnew
    · rw [storeOf, List.map_append, List.map_singleton, IdMap.ofList_concat]
      rfl
  simp only [addRecord, SummaryRecord.ofId?_id, hread, hinsert, Bind.bind, Except.bind, accepted]

lemma addRecord_type {t : TypeSummary} (hs : s.WellFormed)
    (htypes : types ++ [t] <+: s.types.values) (hlen : (type t).length < 2 ^ 64) :
    addRecord (storeOf s s.symbols.names s.functions.values types)
        ⟨at', SummaryRecord.type.id, ⟨type t, payloadAt⟩⟩ =
      .ok (storeOf s s.symbols.names s.functions.values (types ++ [t])) := by
  obtain ⟨key, ht⟩ := IdMap.mem_values_iff.mp (mem_of_concat htypes)
  have hfits := hs.types ht
  have hne : ∀ x, (x = t.id ∨ t.base = some x ∨ x ∈ t.slots ∨
      ∃ requirement implementation, t.witnesses.get? requirement = some implementation ∧
        (x = requirement ∨ x = implementation)) → x ≠ .absent := fun x hx =>
    SymbolTable.ne_absent_of_contains (hfits.interned x (TypeSummary.mem_mentioned.mpr hx))
  have hread := (reads_type (hne _ (.inl rfl)) (fun hbase => hne _ (.inr (.inl hbase)) rfl)
    (fun slot hslot => hne _ (.inr (.inr (.inl hslot))))
    (fun entry hentry =>
      ⟨hne _ (.inr (.inr (.inr ⟨_, _, IdMap.mem_entries_iff.mp hentry, .inl rfl⟩))),
        hne _ (.inr (.inr (.inr ⟨_, _, IdMap.mem_entries_iff.mp hentry, .inr rfl⟩)))⟩)).whole
    hlen payloadAt
  have hinsert : (storeOf s s.symbols.names s.functions.values types).insertType t =
      .ok (storeOf s s.symbols.names s.functions.values (types ++ [t])) := by
    refine Store.insertType_eq_ok_iff.mpr ⟨?_, ?_, ?_⟩
    · rw [storeOf, SymbolTable.ofList_names]
      exact hfits.interned
    · have hids : (s.types.values.map (·.id)).Nodup := by
        rw [IdMap.map_key_values hs.id_eq_of_mem_types]
        exact s.types.keys_nodup
      have hnew := notMem_of_concat htypes hids
      rw [Bool.eq_false_iff, ne_eq, IdMap.contains_iff_mem_keys, storeOf, IdMap.mem_keys_ofList,
        List.map_map]
      exact hnew
    · rw [storeOf, List.map_append, List.map_singleton, IdMap.ofList_concat]
      rfl
  simp only [addRecord, SummaryRecord.ofId?_id, hread, hinsert, Bind.bind, Except.bind, accepted]

/-! ### The module summary -/

/-- The fields of the metadata. -/
def metadata (s : Store) : List UInt8 := flag s.livenessComputed ++ text s.moduleName

def nameRecords (s : Store) : List UInt8 :=
  s.symbols.names.flatMap fun name => frame SummaryRecord.symbolName.id (text name)

def functionRecords (s : Store) : List UInt8 :=
  s.functions.values.flatMap fun f => frame SummaryRecord.function.id (function f)

def typeRecords (s : Store) : List UInt8 :=
  s.types.values.flatMap fun t => frame SummaryRecord.type.id (type t)

/-- The records after the metadata. -/
def laterRecords (s : Store) : List UInt8 :=
  nameRecords s ++ (functionRecords s ++ typeRecords s)

lemma moduleSummary_eq (s : Store) :
    moduleSummary s = frame SummaryRecord.metadata.id (metadata s) ++ laterRecords s := by
  rw [moduleSummary, List.append_assoc, List.append_assoc]
  rfl

lemma foldFrames_nameRecords (rest : List UInt8) (offset : Nat)
    (hlen : (nameRecords s).length < 2 ^ 64) :
    ∃ offset', Cursor.foldFrames addRecord (storeOf s [] [] []) ⟨nameRecords s ++ rest, offset⟩ =
      Cursor.foldFrames addRecord (storeOf s s.symbols.names [] []) ⟨rest, offset'⟩ := by
  obtain ⟨_, offset', rfl, hfold⟩ := Cursor.foldFrames_flatMap
    (fun names now => now = storeOf s names [] []) rest offset (by decide) hlen rfl
    fun names name now at' payloadAt hnames hnow hname =>
      ⟨_, hnow ▸ addRecord_name hnames hname, rfl⟩
  exact ⟨offset', hfold⟩

lemma foldFrames_functionRecords (hs : s.WellFormed) (hflags : s.FlagsKnown) (rest : List UInt8)
    (offset : Nat) (hlen : (functionRecords s).length < 2 ^ 64) :
    ∃ offset', Cursor.foldFrames addRecord (storeOf s s.symbols.names [] [])
        ⟨functionRecords s ++ rest, offset⟩ =
      Cursor.foldFrames addRecord (storeOf s s.symbols.names s.functions.values [])
        ⟨rest, offset'⟩ := by
  obtain ⟨_, offset', rfl, hfold⟩ := Cursor.foldFrames_flatMap
    (fun functions now => now = storeOf s s.symbols.names functions []) rest offset (by decide)
    hlen rfl fun functions f now at' payloadAt hfunctions hnow hf =>
      ⟨_, hnow ▸ addRecord_function hs hflags hfunctions hf, rfl⟩
  exact ⟨offset', hfold⟩

lemma foldFrames_typeRecords (hs : s.WellFormed) (rest : List UInt8) (offset : Nat)
    (hlen : (typeRecords s).length < 2 ^ 64) :
    ∃ offset', Cursor.foldFrames addRecord (storeOf s s.symbols.names s.functions.values [])
        ⟨typeRecords s ++ rest, offset⟩ =
      Cursor.foldFrames addRecord (storeOf s s.symbols.names s.functions.values s.types.values)
        ⟨rest, offset'⟩ := by
  obtain ⟨_, offset', rfl, hfold⟩ := Cursor.foldFrames_flatMap
    (fun types now => now = storeOf s s.symbols.names s.functions.values types) rest offset
    (by decide) hlen rfl fun types t now at' payloadAt htypes hnow ht =>
      ⟨_, hnow ▸ addRecord_type hs htypes ht, rfl⟩
  exact ⟨offset', hfold⟩

/-- Names, functions and types are read in this order, each group into what the others made. -/
lemma foldFrames_laterRecords (hs : s.WellFormed) (hflags : s.FlagsKnown) (offset : Nat)
    (hlen : (laterRecords s).length < 2 ^ 64) :
    Cursor.foldFrames addRecord (storeOf s [] [] []) ⟨laterRecords s, offset⟩ =
      .ok s.withoutDebugNames := by
  rw [laterRecords, List.length_append, List.length_append] at hlen
  obtain ⟨offset₁, hnames⟩ :=
    foldFrames_nameRecords (s := s) (functionRecords s ++ typeRecords s) offset (by omega)
  obtain ⟨offset₂, hfunctions⟩ :=
    foldFrames_functionRecords hs hflags (typeRecords s) offset₁ (by omega)
  obtain ⟨offset₃, htypes⟩ := foldFrames_typeRecords hs [] offset₂ (by omega)
  rw [List.append_nil] at htypes
  rw [laterRecords, hnames, hfunctions, htypes, Cursor.foldFrames_nil, storeOf_all hs]

/-- Reading a module summary leads to the store without readable names, or fails as the vtable check
does, at the beginning of the block. -/
theorem readModuleSummary_moduleSummary {id : Nat} (hs : s.WellFormed) (hflags : s.FlagsKnown)
    (hlen : (moduleSummary s).length < 2 ^ 64) :
    readModuleSummary ⟨at', id, ⟨moduleSummary s, payloadAt⟩⟩ =
      (accepted at' s.checkVtables >>= fun _ => .ok s.withoutDebugNames) := by
  rw [moduleSummary_eq] at hlen ⊢
  rw [List.length_append] at hlen
  have hne : (frame SummaryRecord.metadata.id (metadata s) ++ laterRecords s).isEmpty = false := by
    simp [frame, Varint.encode_ne_nil]
  have hframe : (frame SummaryRecord.metadata.id (metadata s)).length < 2 ^ 64 := by omega
  have hread := (reads_metadata s).whole
    ((Cursor.length_lt_length_frame _ (metadata s)).trans hframe)
  have hlater : ∀ offset, Cursor.foldFrames addRecord
      { moduleName := s.moduleName, livenessComputed := s.livenessComputed }
      ⟨laterRecords s, offset⟩ = .ok s.withoutDebugNames :=
    fun offset => foldFrames_laterRecords hs hflags offset (by omega)
  have hcheck : s.withoutDebugNames.checkVtables = s.checkVtables :=
    Store.checkVtables_congr rfl rfl
  rw [readModuleSummary, hne, if_neg Bool.false_ne_true]
  simp only [Cursor.frame_append (by decide) hframe, Bind.bind, Except.bind, ne_eq,
    not_true_eq_false, if_false]
  rw [metadata, hread]
  simp only [hlater, hcheck]
  rfl

/-! ### Readable names -/

/-- The functions that have a readable name, with it. -/
def namedFunctions (s : Store) : List (SymbolId × String) :=
  s.functions.values.filterMap fun f => f.debugName.map (f.id, ·)

lemma flatMap_debugName (fs : List FunctionSummary) :
    fs.flatMap debugName = (fs.filterMap fun f => f.debugName.map (f.id, ·)).flatMap fun x =>
      frame debugNameId (symbol x.1 ++ text x.2) := by
  induction fs with
  | nil => rfl
  | cons f fs ih =>
    rw [List.flatMap_cons, List.filterMap_cons, ih, debugName]
    cases f.debugName with
    | none => rfl
    | some name => rfl

lemma addDebugName_debugName {names : List PendingName} {id : SymbolId} {name : String}
    (hlen : (symbol id ++ text name).length < 2 ^ 64) :
    addDebugName names ⟨at', debugNameId, ⟨symbol id ++ text name, payloadAt⟩⟩ =
      .ok (names ++ [⟨at', id, name⟩]) := by
  have hread := (reads_debugName at' id name).whole hlen payloadAt
  simp only [addDebugName, if_true, hread, Bind.bind, Except.bind]
  rfl

lemma foldFrames_debugNames (s : Store) (offset : Nat)
    (hlen : (s.functions.values.flatMap debugName).length < 2 ^ 64) :
    ∃ names : List PendingName, names.map (fun p => (p.function, p.name)) = namedFunctions s ∧
      Cursor.foldFrames addDebugName [] ⟨s.functions.values.flatMap debugName, offset⟩ =
        .ok names := by
  rw [flatMap_debugName] at hlen ⊢
  obtain ⟨names, offset', hnames, hfold⟩ := Cursor.foldFrames_flatMap
    (fun before (now : List PendingName) => now.map (fun p => (p.function, p.name)) = before)
    [] offset (by decide) hlen List.map_nil
    fun before x now at' payloadAt _ hnow hx =>
      ⟨_, addDebugName_debugName hx, by rw [List.map_append, hnow]; rfl⟩
  rw [List.append_nil, Cursor.foldFrames_nil] at hfold
  exact ⟨names, hnames, hfold⟩

lemma nodup_namedFunctions (hs : s.WellFormed) : ((namedFunctions s).map (·.1)).Nodup := by
  have hids : s.functions.values.Pairwise (fun f f' => f.id ≠ f'.id) := by
    rw [← List.pairwise_map, IdMap.map_key_values hs.id_eq_of_mem_functions]
    exact s.functions.keys_nodup
  rw [List.Nodup, List.pairwise_map]
  apply hids.filterMap _
  intro f f' hne x hx x' hx'
  obtain ⟨name, -, rfl⟩ := Option.map_eq_some_iff.mp hx
  obtain ⟨name', -, rfl⟩ := Option.map_eq_some_iff.mp hx'
  exact hne

lemma mem_namedFunctions (hs : s.WellFormed) {id : SymbolId} {name : String} :
    (id, name) ∈ namedFunctions s ↔ ∃ f, s.function? id = some f ∧ f.debugName = some name := by
  simp only [namedFunctions, List.mem_filterMap, IdMap.mem_values_iff, Option.map_eq_some_iff,
    Prod.mk.injEq]
  constructor
  · rintro ⟨f, ⟨key, hf⟩, name', hname, rfl, rfl⟩
    exact ⟨f, (hs.functions hf).id_eq ▸ hf, hname⟩
  · rintro ⟨f, hf, hname⟩
    exact ⟨f, ⟨id, hf⟩, name, hname, (hs.functions hf).id_eq, rfl⟩

/-- A readable name put on a function. -/
def named (name : String) (f : FunctionSummary) : FunctionSummary :=
  { f with debugName := some name }

/-- Functions with readable names put on them. -/
def allNamed (names : List (SymbolId × String)) (functions : IdMap FunctionSummary) :
    IdMap FunctionSummary :=
  names.foldl (fun m x => m.modify x.1 (named x.2)) functions

lemma foldlM_attachName (names : List PendingName)
    (h : ∀ p ∈ names, s.definesFunction p.function = true) :
    names.foldlM attachName s = .ok
      { s with functions := allNamed (names.map fun p => (p.function, p.name)) s.functions } := by
  induction names generalizing s with
  | nil => rfl
  | cons p names ih =>
    rw [List.forall_mem_cons] at h
    have hfirst : attachName s p =
        .ok { s with functions := s.functions.modify p.function (named p.name) } := by
      rw [attachName, Store.setDebugName, if_pos h.1]
      rfl
    rw [List.foldlM_cons, hfirst]
    refine (ih fun p' hp' => ?_).trans rfl
    have hdef := h.2 p' hp'
    rw [Store.definesFunction] at hdef ⊢
    rwa [IdMap.contains_modify]

/-- The readable names, attached to the store without them, give the store. -/
lemma foldlM_attachName_namedFunctions (hs : s.WellFormed) {names : List PendingName}
    (hnames : names.map (fun p => (p.function, p.name)) = namedFunctions s) :
    names.foldlM attachName s.withoutDebugNames = .ok s := by
  have hdefined : ∀ p ∈ names, s.withoutDebugNames.definesFunction p.function = true := by
    intro p hp
    have hmem : (p.function, p.name) ∈ namedFunctions s :=
      hnames ▸ List.mem_map_of_mem (f := fun p : PendingName => (p.function, p.name)) hp
    obtain ⟨f, hf, -⟩ := (mem_namedFunctions hs).mp hmem
    refine Store.definesFunction_iff.mpr ⟨{ f with debugName := none }, ?_⟩
    exact (IdMap.get?_map _ _ _).trans (congrArg (Option.map _) hf)
  have hfunctions : allNamed (namedFunctions s) s.withoutDebugNames.functions = s.functions := by
    apply IdMap.ext_get?
    intro id
    rw [allNamed, IdMap.get?_foldl_modify named (nodup_namedFunctions hs), Store.withoutDebugNames,
      IdMap.get?_map]
    cases hf : s.functions.get? id with
    | none => rfl
    | some f =>
      have hvalue : IdMap.valueAt id (namedFunctions s) = f.debugName := by
        apply Option.ext
        intro name
        constructor
        · intro hname
          obtain ⟨f', hf', hname⟩ := (mem_namedFunctions hs).mp (IdMap.mem_of_valueAt hname)
          rw [Store.function?, hf, Option.some.injEq] at hf'
          exact hf' ▸ hname
        · intro hname
          exact IdMap.valueAt_of_mem_of_nodup (nodup_namedFunctions hs)
            ((mem_namedFunctions hs).mpr ⟨f, hf, hname⟩)
      rw [hvalue, Option.map_some, Option.map_some, Option.some.injEq]
      obtain ⟨id, debugName, flags, calls⟩ := f
      cases debugName with
      | none => rfl
      | some name => rfl
  rw [foldlM_attachName names hdefined, hnames, hfunctions]
  rfl

/-! ### The file -/

lemma encode_version : Varint.encode version = [1] := by
  rw [Varint.encode]
  rfl

lemma readHeader_header (rest : List UInt8) :
    readHeader (.ofBytes (signature ++ Varint.encode version ++ rest)) = .ok ((), ⟨rest, 5⟩) := by
  have hsignature := Reads.bytes_append signature (Varint.encode version ++ rest) 0
  have hversion := Reads.varint (n := version) (by decide) (by rw [encode_version]; decide) rest
    (0 + signature.length)
  rw [List.append_assoc]
  rw [encode_version] at hsignature hversion ⊢
  simp only [readHeader, Cursor.ofBytes, Bind.bind, StateT.bind, hsignature, Except.bind, ne_eq,
    not_true_eq_false, if_false, Cursor.position, hversion]
  rfl

lemma foldFrames_moduleSummary (hs : s.WellFormed) (hflags : s.FlagsKnown) (rest : List UInt8)
    (hlen : (frame Block.moduleSummary.id (moduleSummary s)).length < 2 ^ 64) :
    Cursor.foldFrames addBlock {}
        ⟨frame Block.moduleSummary.id (moduleSummary s) ++ rest, 5⟩ =
      (accepted 5 s.checkVtables >>= fun _ =>
        Cursor.foldFrames addBlock { summary := some s.withoutDebugNames }
          ⟨rest, 5 + (frame Block.moduleSummary.id (moduleSummary s)).length⟩) := by
  have hpayload := (Cursor.length_lt_length_frame _ (moduleSummary s)).trans hlen
  rw [Cursor.foldFrames_frame (by decide) hlen]
  simp only [addBlock, Block.ofId?_id, readModuleSummary_moduleSummary hs hflags hpayload]
  cases s.checkVtables with
  | error e => rfl
  | ok _ => rfl

/-- The block of the readable names, or nothing, leads to pending names. -/
lemma foldFrames_addBlock_debugNames (s : Store) (start : Contents) (hstart : start.names = [])
    (offset : Nat) (hlen : (debugNames s).length < 2 ^ 64) :
    ∃ names : List PendingName, names.map (fun p => (p.function, p.name)) = namedFunctions s ∧
      Cursor.foldFrames addBlock start ⟨debugNames s, offset⟩ = .ok { start with names } := by
  rw [debugNames] at hlen ⊢
  split
  · rename_i hnone
    refine ⟨[], ?_, ?_⟩
    · obtain ⟨names, hnames, hfold⟩ := foldFrames_debugNames s 0 (by rw [hnone]; decide)
      rw [hnone, Cursor.foldFrames_nil, Except.ok.injEq] at hfold
      rw [hfold]
      exact hnames
    · rw [Cursor.foldFrames_nil, ← hstart]
  · rename_i hrecords
    simp only at hlen
    obtain ⟨names, hnames, hfold⟩ := foldFrames_debugNames s
      (Cursor.payloadOffset Block.debugNames.id (s.functions.values.flatMap debugName) offset)
      ((Cursor.length_lt_length_frame _ _).trans hlen)
    refine ⟨names, hnames, ?_⟩
    have hblock : Cursor.foldFrames addBlock start
        ⟨frame Block.debugNames.id (s.functions.values.flatMap debugName) ++ [], offset⟩ = _ :=
      Cursor.foldFrames_frame (by decide) hlen
    rw [List.append_nil] at hblock
    rw [hblock]
    simp only [addBlock, Block.ofId?_id, hstart, hfold, Bind.bind, Except.bind,
      Cursor.foldFrames_nil]
    rfl

end Layout

open Layout

variable {s : Store}

/-- The file of a well-formed store with known flags reads back as the store, with or without the
readable names, unless the vtable check fails. -/
theorem Store.WellFormed.decode_encode (hs : s.WellFormed) (hflags : s.FlagsKnown)
    (embedDebugNames : Bool) (hlen : (s.encode embedDebugNames).length < 2 ^ 64) :
    Store.decode (s.encode embedDebugNames) = (accepted 5 s.checkVtables >>= fun _ =>
      .ok (if embedDebugNames then s else s.withoutDebugNames)) := by
  rw [Store.encode, List.length_append, List.length_append] at hlen
  have hblock : (frame Block.moduleSummary.id (moduleSummary s)).length < 2 ^ 64 := by omega
  have hheader := readHeader_header (frame Block.moduleSummary.id (moduleSummary s) ++
    if embedDebugNames then debugNames s else [])
  have hsummary := foldFrames_moduleSummary hs hflags
    (if embedDebugNames then debugNames s else []) hblock
  rw [Store.encode, List.append_assoc]
  simp only [Store.decode, hheader, hsummary, Bind.bind, Except.bind]
  cases accepted 5 s.checkVtables with
  | error e => rfl
  | ok _ =>
    cases embedDebugNames with
    | false =>
      simp only [Bool.false_eq_true, if_false, Cursor.foldFrames_nil]
      rfl
    | true =>
      rw [if_pos rfl] at hlen
      obtain ⟨names, hnames, hfold⟩ := foldFrames_addBlock_debugNames s
        { summary := some s.withoutDebugNames } rfl
        (5 + (frame Block.moduleSummary.id (moduleSummary s)).length) (by omega)
      simp only [if_true, hfold]
      exact foldlM_attachName_namedFunctions hs hnames

/-- The file without readable names is not the longer one. -/
lemma Store.length_encode_le (s : Store) (embedDebugNames : Bool) :
    (s.encode embedDebugNames).length ≤ (s.encode true).length := by
  cases embedDebugNames with
  | false => simp [Store.encode]
  | true => exact Nat.le_refl _

/-- The vtable check alone keeps a store made by the library's operations from being read back. The
file has fewer than `2 ^ 64` bytes, as lengths are stored in 64 bits. -/
theorem Store.Made.decode_encode_of_checkVtables (h : s.Made)
    (hlen : (s.encode true).length < 2 ^ 64) :
    (s.checkVtables = .ok () →
      Store.decode (s.encode true) = .ok s ∧ Store.decode s.encode = .ok s.withoutDebugNames) ∧
    ∀ e, s.checkVtables = .error e → ∀ embedDebugNames,
      Store.decode (s.encode embedDebugNames) = .error (.malformedRecord 5 (.refused e)) ∧
        (RecordFault.refused e).text = e.message := by
  have hread : ∀ embedDebugNames, Store.decode (s.encode embedDebugNames) =
      (accepted 5 s.checkVtables >>= fun _ =>
        .ok (if embedDebugNames then s else s.withoutDebugNames)) := fun embedDebugNames =>
    h.wellFormed.decode_encode h.flagsKnown embedDebugNames
      (lt_of_le_of_lt (s.length_encode_le embedDebugNames) hlen)
  constructor
  · intro hvtables
    rw [hread, hread, hvtables]
    exact ⟨rfl, rfl⟩
  · intro e hvtables embedDebugNames
    rw [hread, hvtables]
    exact ⟨rfl, rfl⟩

/-- A store with a readable name reads back, and one with a short vtable does not. -/
theorem Store.Made.decode_encode_class_and_short :
    let good := performAll "Modul" [.build (.recordFunction "größe" { preserved := true }),
      .build (.recordCall ⟨1⟩ "" .witness true), .build (.recordType "C" none ["größe"]),
      .build (.recordWitness ⟨3⟩ "" "größe"), .setDebugName ⟨1⟩ (some ""), .markLive ⟨1⟩]
    let short := performAll "m" [.intern "B", .intern "C",
      .insertType { id := ⟨1⟩, slots := [⟨2⟩] }, .insertType { id := ⟨2⟩, base := some ⟨1⟩ }]
    Store.decode (good.encode true) = .ok good ∧
      Store.decode short.encode =
        .error (.malformedRecord 5 (.refused (.shortVtable "C" "B" 0 1))) := by
  intro good short
  have hgood : good.Made := ⟨⟨_, _, by simp [Operation.FlagsKnown]; rfl, rfl⟩, by decide +kernel⟩
  have hshort : short.Made := ⟨⟨_, _, by simp [Operation.FlagsKnown], rfl⟩, by decide +kernel⟩
  have hread := Made.decode_encode_of_checkVtables hgood (by decide +kernel)
  have hrefused := Made.decode_encode_of_checkVtables hshort (by decide +kernel)
  exact ⟨(hread.1 (by decide +kernel)).1, (hrefused.2 _ (by decide +kernel) false).1⟩

end LinkSummary
