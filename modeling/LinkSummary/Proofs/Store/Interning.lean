import LinkSummary.Proofs.Store.Named
import Mathlib.Data.List.Forall2
import Mathlib.Data.List.Induction

/-!
# Interning and insertion by name

More names do not change what a store says by name, and an insertion changes it under the name of
the inserted summary only. While ids can tell the names apart, an id that was given out for a name
is as good as the name.
-/

namespace LinkSummary.Store

variable {s s' : Store} {e : SummaryError} {id : SymbolId} {name : String} {f : FunctionSummary}
  {t : TypeSummary}

/-! ### More names say the same -/

lemma MoreNames.lookup_iff (h : s.MoreNames s') (hsize : s'.symbols.size < 2 ^ 32)
    (hid : s.symbols.contains id = true) :
    s'.symbols.lookup name = some id ↔ s.symbols.lookup name = some id := by
  have hshown := get?_shownName hid
  rw [SymbolTable.lookup_eq_some_iff hsize, SymbolTable.get?_mono h.names hshown,
    SymbolTable.lookup_eq_some_iff (lt_of_le_of_lt h.size_le hsize), hshown]

lemma MoreNames.namedFunction (h : s.MoreNames s') (hs : s.WellFormed)
    (hf : s.function? id = some f) : s'.namedFunction f = s.namedFunction f := by
  have hcalls : f.calls.map s'.namedCall = f.calls.map s.namedCall := by
    apply List.map_congr_left
    intro edge hedge
    rw [namedCall, namedCall, h.shownName (hs.contains_callee hf hedge)]
  rw [Store.namedFunction, Store.namedFunction, hcalls]

lemma MoreNames.namedTables (h : s.MoreNames s') (hsize : s'.symbols.size < 2 ^ 32)
    (hs : s.WellFormed) (ht : s.type? id = some t) : s'.namedTables t = s.namedTables t := by
  have hbase : t.base.map s'.shownName = t.base.map s.shownName := by
    cases hbase : t.base with
    | none => rfl
    | some base => simp [h.shownName (hs.contains_base ht hbase)]
  have hslots : t.slots.map s'.shownName = t.slots.map s.shownName := by
    apply List.map_congr_left
    intro slot hslot
    exact h.shownName (hs.contains_slot ht hslot)
  have hwitnesses : (s'.namedTables t).witnesses = (s.namedTables t).witnesses := by
    funext requirement
    apply Option.ext
    intro implementation
    rw [witnesses_namedTables_eq_some_iff, witnesses_namedTables_eq_some_iff]
    refine exists₂_congr fun r i => ?_
    by_cases hi : t.witnesses.get? r = some i
    · obtain ⟨hr, hcontains⟩ := hs.contains_witness ht hi
      rw [h.lookup_iff hsize hr, h.shownName hcontains]
    · simp [hi]
  rw [Store.namedTables, Store.namedTables, Program.Tables.mk.injEq]
  exact ⟨hbase, hslots, hwitnesses⟩

/-- More names do not change what a store says. -/
lemma MoreNames.named (h : s.MoreNames s') (hsize : s'.symbols.size < 2 ^ 32)
    (hs : s.WellFormed) : s'.named = s.named := by
  apply Program.ext
  · funext name
    apply Option.ext
    intro F
    rw [functions_named_eq_some_iff, functions_named_eq_some_iff]
    refine exists₂_congr fun id f => ?_
    rw [h.function?]
    by_cases hf : s.function? id = some f
    · rw [h.lookup_iff hsize (hs.contains_function hf), h.namedFunction hs hf]
    · simp [hf]
  · funext name
    apply Option.ext
    intro T
    rw [types_named_eq_some_iff, types_named_eq_some_iff]
    refine exists₂_congr fun id t => ?_
    rw [h.type?]
    by_cases ht : s.type? id = some t
    · rw [h.lookup_iff hsize (hs.contains_type ht), h.namedTables hsize hs ht]
    · simp [ht]

/-! ### What is refused -/

lemma firstUnknown_cons (s : Store) (id : SymbolId) (ids : List SymbolId) :
    s.firstUnknown (id :: ids) = if s.symbols.contains id then s.firstUnknown ids else some id := by
  rw [firstUnknown, List.find?_cons]
  cases s.symbols.contains id <;> rfl

/-- The checks of an insertion: unknown symbols come before a second definition. -/
lemma checks_eq_error_iff {ids : List SymbolId} {defined : Bool} {s' : Store} :
    (match s.symbols.get? id with
      | none => .error (.unknownSymbol id)
      | some name =>
        match s.firstUnknown ids with
        | some x => .error (.unknownSymbol x)
        | none => if defined then .error (.duplicateDefinition name) else .ok s' :
      Except SummaryError Store) = .error e ↔
      (∃ x, s.firstUnknown (id :: ids) = some x ∧ e = .unknownSymbol x) ∨
        s.firstUnknown (id :: ids) = none ∧ defined = true ∧
          e = .duplicateDefinition (s.shownName id) := by
  rw [firstUnknown_cons, SymbolTable.contains]
  cases hname : s.symbols.get? id with
  | none => simp [eq_comm]
  | some name =>
    rw [shownName_of_get? hname]
    cases s.firstUnknown ids with
    | some x => simp [eq_comm]
    | none => cases defined <;> simp [eq_comm]

lemma insertFunction_eq_error_iff : s.insertFunction f = .error e ↔
    (∃ x, s.firstUnknown f.mentioned = some x ∧ e = .unknownSymbol x) ∨
      s.firstUnknown f.mentioned = none ∧ s.definesFunction f.id = true ∧
        e = .duplicateDefinition (s.shownName f.id) :=
  checks_eq_error_iff

lemma insertType_eq_error_iff : s.insertType t = .error e ↔
    (∃ x, s.firstUnknown t.mentioned = some x ∧ e = .unknownSymbol x) ∨
      s.firstUnknown t.mentioned = none ∧ s.types.contains t.id = true ∧
        e = .duplicateDefinition (s.shownName t.id) :=
  checks_eq_error_iff

lemma setDebugName_eq_error_iff {debugName : Option String} :
    s.setDebugName id debugName = .error e ↔
      s.definesFunction id = false ∧ e = .unknownFunction id := by
  rw [setDebugName]
  cases s.definesFunction id <;> simp [eq_comm]

lemma markLive_eq_error_iff :
    s.markLive id = .error e ↔ s.definesFunction id = false ∧ e = .unknownFunction id := by
  rw [markLive]
  cases s.definesFunction id <;> simp [eq_comm]

/-! ### Insertion by name -/

lemma eq_shownName_iff (hsize : s.symbols.size < 2 ^ 32) (hid : s.symbols.contains id = true) :
    name = s.shownName id ↔ s.symbols.lookup name = some id := by
  constructor
  · rintro rfl
    exact lookup_shownName hsize hid
  · intro h
    exact (shownName_of_lookup hsize h).symm

lemma functions_named_insert (hs : s.Faithful) (hid : s.symbols.contains f.id = true)
    (name : String) :
    (Store.named { s with functions := s.functions.insert f.id f }).functions name =
      if name = s.shownName f.id then some (s.namedFunction f) else s.named.functions name := by
  simp only [eq_shownName_iff hs.size_lt hid, named, functionNamed?]
  cases s.symbols.lookup name with
  | none => simp
  | some id =>
    simp only [Option.bind_eq_bind, Option.bind_some, function?, IdMap.get?_insert,
      Option.some.injEq]
    split <;> rfl

lemma types_named_insert (hs : s.Faithful) (hid : s.symbols.contains t.id = true)
    (name : String) :
    (Store.named { s with types := s.types.insert t.id t }).types name =
      if name = s.shownName t.id then some (s.namedTables t) else s.named.types name := by
  simp only [eq_shownName_iff hs.size_lt hid, named, typeNamed?]
  cases s.symbols.lookup name with
  | none => simp
  | some id =>
    simp only [Option.bind_eq_bind, Option.bind_some, type?, IdMap.get?_insert,
      Option.some.injEq]
    split <;> rfl

/-- The functions and types by name do not meet. -/
lemma types_named_insertFunction (s : Store) (f : FunctionSummary) :
    (Store.named { s with functions := s.functions.insert f.id f }).types = s.named.types := rfl

lemma functions_named_insertType (s : Store) (t : TypeSummary) :
    (Store.named { s with types := s.types.insert t.id t }).functions = s.named.functions := rfl

lemma definesFunction_iff_named (hsize : s.symbols.size < 2 ^ 32)
    (hid : s.symbols.contains id = true) :
    s.definesFunction id = true ↔ (s.named.functions (s.shownName id)).isSome := by
  rw [functions_named_of_lookup (lookup_shownName hsize hid), Option.isSome_map, definesFunction,
    IdMap.contains, function?]

lemma containsType_iff_named (hsize : s.symbols.size < 2 ^ 32)
    (hid : s.symbols.contains id = true) :
    s.types.contains id = true ↔ (s.named.types (s.shownName id)).isSome := by
  rw [types_named_of_lookup (lookup_shownName hsize hid), Option.isSome_map, IdMap.contains, type?]

/-! ### Ids with names -/

/-- An id has a name, as far as ids can tell the names of the store apart. -/
def Names (s : Store) (id : SymbolId) (name : String) : Prop :=
  s.symbols.size < 2 ^ 32 → s.symbols.get? id = some name

lemma Names.mono (h : s.Names id name) (hmore : s.MoreNames s') : s'.Names id name :=
  fun hsize => SymbolTable.get?_mono hmore.names (h (lt_of_le_of_lt hmore.size_le hsize))

lemma names_intern (s : Store) (name : String) :
    (s.intern name).2.Names (s.intern name).1 name := get?_intern

lemma Names.shownName (h : s.Names id name) (hsize : s.symbols.size < 2 ^ 32) :
    s.shownName id = name := shownName_of_get? (h hsize)

lemma Names.contains (h : s.Names id name) (hsize : s.symbols.size < 2 ^ 32) :
    s.symbols.contains id = true := SymbolTable.contains_iff.mpr ⟨name, h hsize⟩

/-- A name that is interned for the first time is defined by nothing. -/
lemma MoreNames.lookup_eq_some (h : s.MoreNames s') (hsize : s'.symbols.size < 2 ^ 32)
    (hid : s'.Names id name) (hcontains : s.symbols.contains id = true) :
    s.symbols.lookup name = some id :=
  (h.lookup_iff hsize hcontains).mp ((SymbolTable.lookup_eq_some_iff hsize).mpr (hid hsize))

lemma MoreNames.eq_of_lookup {id' : SymbolId} (h : s.MoreNames s')
    (hsize : s'.symbols.size < 2 ^ 32) (hid : s'.Names id name)
    (hlookup : s.symbols.lookup name = some id') : id' = id := by
  have hsmall := lt_of_le_of_lt h.size_le hsize
  have hname := (SymbolTable.lookup_eq_some_iff hsmall).mp hlookup
  exact SymbolTable.get?_injective (SymbolTable.get?_mono h.names hname) (hid hsize)

lemma MoreNames.get?_eq_bind_lookup {α : Type} {m : IdMap α} (h : s.MoreNames s')
    (hsize : s'.symbols.size < 2 ^ 32) (hid : s'.Names id name)
    (hm : ∀ x, m.get? id = some x → s.symbols.contains id = true) :
    m.get? id = s.symbols.lookup name >>= m.get? := by
  cases hlookup : s.symbols.lookup name with
  | some id' => rw [h.eq_of_lookup hsize hid hlookup]; rfl
  | none =>
    refine Option.eq_none_iff_forall_ne_some.mpr fun x hx => ?_
    rw [h.lookup_eq_some hsize hid (hm x hx)] at hlookup
    cases hlookup

lemma MoreNames.function?_eq_functionNamed? (h : s.MoreNames s') (hs : s.WellFormed)
    (hsize : s'.symbols.size < 2 ^ 32) (hid : s'.Names id name) :
    s'.function? id = s.functionNamed? name :=
  (h.function? id).trans (h.get?_eq_bind_lookup hsize hid fun _ => hs.contains_function)

lemma MoreNames.type?_eq_typeNamed? (h : s.MoreNames s') (hs : s.WellFormed)
    (hsize : s'.symbols.size < 2 ^ 32) (hid : s'.Names id name) :
    s'.type? id = s.typeNamed? name :=
  (h.type? id).trans (h.get?_eq_bind_lookup hsize hid fun _ => hs.contains_type)

/-- An id is that of a name exactly if it is shown as the name. -/
lemma MoreNames.eq_iff_shownName (h : s.MoreNames s') (hsize : s'.symbols.size < 2 ^ 32)
    (hid : s'.Names id name) {x : SymbolId} (hx : s.symbols.contains x = true) :
    x = id ↔ s.shownName x = name := by
  have hshown := h.shownName hx
  constructor
  · rintro rfl
    rw [← hshown, hid.shownName hsize]
  · intro heq
    apply shownName_injective (SymbolTable.contains_mono h.names hx) (hid.contains hsize)
    rw [hshown, heq, hid.shownName hsize]

/-- The ids of some names, in the same order. -/
abbrev NamesAll (s : Store) : List SymbolId → List String → Prop := List.Forall₂ s.Names

lemma map_shownName_of_namesAll (hsize : s.symbols.size < 2 ^ 32) {ids : List SymbolId}
    {names : List String} (h : s.NamesAll ids names) : ids.map s.shownName = names := by
  induction h with
  | nil => rfl
  | cons hname _ ih => rw [List.map_cons, hname.shownName hsize, ih]

lemma contains_of_namesAll (hsize : s.symbols.size < 2 ^ 32) {ids : List SymbolId}
    {names : List String} (h : s.NamesAll ids names) :
    ∀ id ∈ ids, s.symbols.contains id = true := by
  induction h with
  | nil => simp
  | cons hname _ ih => simpa [hname.contains hsize] using ih

lemma NamesAll.mono {ids : List SymbolId} {names : List String} (h : s.NamesAll ids names)
    (hmore : s.MoreNames s') : s'.NamesAll ids names :=
  List.Forall₂.imp (fun _ _ hname => hname.mono hmore) h

lemma moreNames_internAll (s : Store) (names : List String) :
    s.MoreNames (s.internAll names).2 := by
  induction names generalizing s with
  | nil => exact .refl s
  | cons name names ih => exact (s.moreNames_intern name).trans (ih _)

lemma namesAll_internAll (s : Store) (names : List String) :
    (s.internAll names).2.NamesAll (s.internAll names).1 names := by
  induction names generalizing s with
  | nil => exact .nil
  | cons name names ih =>
    exact .cons ((s.names_intern name).mono (moreNames_internAll _ names)) (ih _)

/-- A call whose callee has the name that a call by name has. -/
def NamesCall (s : Store) (edge : CallEdge) (call : Program.Call String) : Prop :=
  s.Names edge.callee call.callee ∧ edge.kind = call.kind ∧ edge.preserved = call.preserved

lemma map_namedCall (hsize : s.symbols.size < 2 ^ 32) {edges : List CallEdge}
    {calls : List (Program.Call String)} (h : List.Forall₂ s.NamesCall edges calls) :
    edges.map s.namedCall = calls := by
  induction h with
  | nil => rfl
  | @cons edge call _ _ hcall _ ih =>
    obtain ⟨hname, hkind, hpreserved⟩ := hcall
    rw [List.map_cons, ih, namedCall, hname.shownName hsize, hkind, hpreserved]

lemma contains_callees (hsize : s.symbols.size < 2 ^ 32) {edges : List CallEdge}
    {calls : List (Program.Call String)} (h : List.Forall₂ s.NamesCall edges calls) :
    ∀ edge ∈ edges, s.symbols.contains edge.callee = true := by
  induction h with
  | nil => simp
  | cons hcall _ ih => simpa [hcall.1.contains hsize] using ih

/-- A witness whose ids have the names of a pair. -/
def NamesPair (s : Store) (entry : SymbolId × SymbolId) (pair : String × String) : Prop :=
  s.Names entry.1 pair.1 ∧ s.Names entry.2 pair.2

lemma contains_of_namesPair (hsize : s.symbols.size < 2 ^ 32)
    {entries : List (SymbolId × SymbolId)} {pairs : List (String × String)}
    (h : List.Forall₂ s.NamesPair entries pairs) :
    ∀ entry ∈ entries, s.symbols.contains entry.1 = true ∧ s.symbols.contains entry.2 = true := by
  induction h with
  | nil => simp
  | cons hpair _ ih => simpa [hpair.1.contains hsize, hpair.2.contains hsize] using ih

/-- The table of some pairs, each put over those before it. -/
def tableOf (pairs : List (String × String)) : String → Option String :=
  pairs.foldl (fun table pair => Function.update table pair.1 (some pair.2)) fun _ => none

lemma tableOf_concat (pairs : List (String × String)) (pair : String × String) :
    tableOf (pairs ++ [pair]) = Function.update (tableOf pairs) pair.1 (some pair.2) := by
  rw [tableOf, List.foldl_append]
  rfl

/-- Without repeated names a table tells its pairs. -/
lemma tableOf_eq_some_iff {pairs : List (String × String)} (hpairs : (pairs.map (·.1)).Nodup)
    {requirement implementation : String} :
    tableOf pairs requirement = some implementation ↔ (requirement, implementation) ∈ pairs := by
  induction pairs using List.reverseRecOn with
  | nil => simp [tableOf]
  | append_singleton pairs pair ih =>
    rw [List.map_append, List.nodup_append] at hpairs
    rw [tableOf_concat, List.mem_append, List.mem_singleton]
    by_cases heq : requirement = pair.1
    · subst heq
      have hnot : (pair.1, implementation) ∉ pairs := fun hmem =>
        hpairs.2.2 pair.1 (List.mem_map_of_mem (f := (·.1)) hmem) pair.1
          (List.mem_singleton_self _) rfl
      simp [hnot, Prod.ext_iff, eq_comm]
    · have hne : (requirement, implementation) ≠ pair := fun h => heq (congrArg Prod.fst h)
      rw [Function.update_of_ne heq, ih hpairs.1]
      simp [hne]

/-- A map of ids by the names of these. -/
def namedMap (s : Store) (m : IdMap SymbolId) (name : String) : Option String :=
  (s.symbols.lookup name >>= m.get?).map s.shownName

lemma namedMap_insert (hsize : s.symbols.size < 2 ^ 32) {entry : SymbolId × SymbolId}
    {pair : String × String} (hpair : s.NamesPair entry pair) (m : IdMap SymbolId) :
    s.namedMap (m.insert entry.1 entry.2) = Function.update (s.namedMap m) pair.1 (some pair.2) := by
  have hkey := (SymbolTable.lookup_eq_some_iff hsize).mpr (hpair.1 hsize)
  funext name
  by_cases hname : name = pair.1
  · simp [namedMap, hname, hkey, hpair.2.shownName hsize]
  · rw [Function.update_of_ne hname]
    cases hid : s.symbols.lookup name with
    | none => simp [namedMap, hid]
    | some id =>
      have hne : id ≠ entry.1 := by
        rintro rfl
        exact hname ((shownName_of_lookup hsize hid).symm.trans (shownName_of_lookup hsize hkey))
      simp [namedMap, hid, hne]

/-- Putting entries into a map one after the other is doing so by name. -/
lemma namedMap_ofList (hsize : s.symbols.size < 2 ^ 32) {entries : List (SymbolId × SymbolId)}
    {pairs : List (String × String)} (h : List.Forall₂ s.NamesPair entries pairs) :
    s.namedMap (IdMap.ofList entries) = tableOf pairs := by
  have hempty : s.namedMap .empty = fun _ => none := by
    funext name
    rw [namedMap]
    cases s.symbols.lookup name <;> rfl
  rw [IdMap.ofList, tableOf, ← hempty]
  generalize IdMap.empty = m
  induction h generalizing m with
  | nil => rfl
  | cons hpair _ ih =>
    rw [List.foldl_cons, List.foldl_cons, ih, namedMap_insert hsize hpair]

/-! ### Interned summaries -/

/-- What a type mentions is interned if its parts are those of names. -/
lemma contains_mentioned_of_names (hsize : s.symbols.size < 2 ^ 32) {base : Option SymbolId}
    {slots : List SymbolId} {entries : List (SymbolId × SymbolId)} {names names' : List String}
    {pairs : List (String × String)} (hid : s.Names id name)
    (hbase : s.NamesAll base.toList names) (hslots : s.NamesAll slots names')
    (hentries : List.Forall₂ s.NamesPair entries pairs) :
    ∀ x ∈ ({ id, base, slots, witnesses := .ofList entries } : TypeSummary).mentioned,
      s.symbols.contains x = true := by
  intro x hx
  rcases TypeSummary.mem_mentioned.mp hx with rfl | hx | hx | ⟨r, i, hentry, hx⟩
  · exact hid.contains hsize
  · exact contains_of_namesAll hsize hbase x (Option.mem_toList.mpr hx)
  · exact contains_of_namesAll hsize hslots x hx
  · rw [IdMap.get?_ofList] at hentry
    have hmem := List.mem_reverse.mp (IdMap.mem_of_valueAt hentry)
    have hcontains := contains_of_namesPair hsize hentries _ hmem
    rcases hx with rfl | rfl
    · exact hcontains.1
    · exact hcontains.2

/-- The tables of a type by name are those whose names its ids are. -/
lemma namedTables_of_names (hsize : s.symbols.size < 2 ^ 32) {base : Option SymbolId}
    {slots : List SymbolId} {entries : List (SymbolId × SymbolId)} {baseName : Option String}
    {slotNames : List String} {pairs : List (String × String)}
    (hbase : s.NamesAll base.toList baseName.toList) (hslots : s.NamesAll slots slotNames)
    (hentries : List.Forall₂ s.NamesPair entries pairs) :
    s.namedTables { id, base, slots, witnesses := .ofList entries } =
      { base := baseName, slots := slotNames, witnesses := tableOf pairs } := by
  have hbase : base.map s.shownName = baseName := by
    have hhead := congrArg List.head? (map_shownName_of_namesAll hsize hbase)
    rwa [List.head?_map, Option.head?_toList, Option.head?_toList] at hhead
  rw [namedTables, Program.Tables.mk.injEq]
  exact ⟨hbase, map_shownName_of_namesAll hsize hslots, namedMap_ofList hsize hentries⟩

/-- A function under a new name is inserted, and adds what it says by name. -/
lemma Faithful.insertFunction_of_names (hs : s.Faithful) {calls : List (Program.Call String)}
    (hid : s.Names f.id name) (hcalls : List.Forall₂ s.NamesCall f.calls calls)
    (hnew : s.named.functions name = none) :
    s.insertFunction f = .ok { s with functions := s.functions.insert f.id f } ∧
      Store.named { s with functions := s.functions.insert f.id f } = { s.named with
        functions := fun other =>
          if other = name then some ⟨f.flags, f.debugName, calls⟩ else s.named.functions other } := by
  have hcontains := hid.contains hs.size_lt
  have hname := hid.shownName hs.size_lt
  have hundefined : s.definesFunction f.id = false := by
    rw [Bool.eq_false_iff, ne_eq, definesFunction_iff_named hs.size_lt hcontains, hname, hnew]
    exact Bool.false_ne_true
  constructor
  · refine insertFunction_eq_ok_iff.mpr ⟨?_, hundefined, rfl⟩
    rw [FunctionSummary.mentioned, List.forall_mem_cons, List.forall_mem_map]
    exact ⟨hcontains, contains_callees hs.size_lt hcalls⟩
  · apply Program.ext
    · funext other
      refine (functions_named_insert hs hcontains other).trans ?_
      rw [hname, namedFunction, map_namedCall hs.size_lt hcalls]
    · exact types_named_insertFunction _ _

lemma Faithful.insertType_of_names (hs : s.Faithful)
    (hinterned : ∀ x ∈ t.mentioned, s.symbols.contains x = true) (hid : s.Names t.id name)
    (hnew : s.named.types name = none) :
    s.insertType t = .ok { s with types := s.types.insert t.id t } ∧
      Store.named { s with types := s.types.insert t.id t } = { s.named with
        types := fun other =>
          if other = name then some (s.namedTables t) else s.named.types other } := by
  have hcontains := hid.contains hs.size_lt
  have hname := hid.shownName hs.size_lt
  have hundefined : s.types.contains t.id = false := by
    rw [Bool.eq_false_iff, ne_eq, containsType_iff_named hs.size_lt hcontains, hname, hnew]
    exact Bool.false_ne_true
  refine ⟨insertType_eq_ok_iff.mpr ⟨hinterned, hundefined, rfl⟩, ?_⟩
  apply Program.ext
  · exact functions_named_insertType _ _
  · funext other
    refine (types_named_insert hs hcontains other).trans ?_
    rw [hname]

end LinkSummary.Store
