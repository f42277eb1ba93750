import LinkSummary.Proofs.Builder
import Mathlib.Data.List.Find

/-!
# Calls of a builder that fail

A builder tells by names why it refuses a call. A call that fails leaves the builder as it was; only
when a type or a witness is refused are the names that were interned for it kept.
-/

namespace LinkSummary

variable {s u : Store} {e : SummaryError} {id : SymbolId} {name : String} {t : TypeSummary}

/-- The error of an outcome that is one. -/
def errorOf? {α : Type} : Except SummaryError α → Option SummaryError
  | .ok _ => none
  | .error e => some e

lemma errorOf?_eq_some_iff {α : Type} {outcome : Except SummaryError α} :
    errorOf? outcome = some e ↔ outcome = .error e := by
  cases outcome <;> simp [errorOf?]

namespace Builder

/-- The error with which a call of the builder fails, if it does. -/
def refusal? (b : Builder) : Operation → Option SummaryError
  | .recordFunction name flags => errorOf? (b.recordFunction name flags).1
  | .setDebugName function name => errorOf? (b.setDebugName function name).1
  | .recordCall caller callee kind preserved => errorOf? (b.recordCall caller callee kind preserved).1
  | .recordType name base vtable => errorOf? (b.recordType name base vtable).1
  | .recordWitness type requirement implementation =>
    errorOf? (b.recordWitness type requirement implementation).1

/-- When a builder with a store refuses a call, by names. -/
inductive Refuses (s : Store) : Operation → SummaryError → Prop
  | functionTwice {name : String} {flags : FunctionFlags}
    (hdef : (s.functionNamed? name).isSome) :
    Refuses s (.recordFunction name flags) (.duplicateDefinition name)
  | noFunction {function : SymbolId} {name : String} (hnone : s.definesFunction function = false) :
    Refuses s (.setDebugName function name) (.unknownFunction function)
  | noCaller {caller : SymbolId} {callee : String} {kind : CallKind} {preserved : Bool}
    (hknown : s.symbols.contains caller = true) (hnone : s.definesFunction caller = false) :
    Refuses s (.recordCall caller callee kind preserved) (.unknownFunction caller)
  | unknownCaller {caller : SymbolId} {callee : String} {kind : CallKind} {preserved : Bool}
    (hunknown : s.symbols.contains caller = false) :
    Refuses s (.recordCall caller callee kind preserved) (.unknownSymbol caller)
  | shorterThanBase {name : String} {base : Option String} {vtable : List String}
    {b : TypeSummary} (hbase : base >>= s.typeNamed? = some b)
    (hshort : vtable.length < b.slots.length) :
    Refuses s (.recordType name base vtable)
      (.shortVtable name (s.shownName b.id) vtable.length b.slots.length)
  | longerThanDerived {name : String} {base : Option String} {vtable : List String}
    {t : TypeSummary}
    (hbase : ∀ b, base >>= s.typeNamed? = some b → b.slots.length ≤ vtable.length)
    (hderived : s.types.values.find? (fun t =>
      t.base.map s.shownName = some name ∧ t.slots.length < vtable.length) = some t) :
    Refuses s (.recordType name base vtable)
      (.shortVtable (s.shownName t.id) name t.slots.length vtable.length)
  | typeTwice {name : String} {base : Option String} {vtable : List String}
    (hbase : ∀ b, base >>= s.typeNamed? = some b → b.slots.length ≤ vtable.length)
    (hderived : ∀ t ∈ s.types.values, t.base.map s.shownName = some name →
      vtable.length ≤ t.slots.length)
    (hdef : (s.typeNamed? name).isSome) :
    Refuses s (.recordType name base vtable) (.duplicateDefinition name)
  | noType {type : SymbolId} {requirement implementation : String}
    (hnone : s.types.contains type = false) :
    Refuses s (.recordWitness type requirement implementation) (.unknownType type)

/-- The calls of a builder that can leave new names when they fail. A function that is refused has
been recorded before, so its name is not new. -/
def Operation.leavesNames : Operation → Bool
  | .recordType .. | .recordWitness .. => true
  | .recordFunction .. | .setDebugName .. | .recordCall .. => false

end Builder

/-! ### Types by name, after more names are interned -/

namespace Store

lemma MoreNames.base_eq_iff (h : s.MoreNames u) (hs : s.WellFormed)
    (hsize : u.symbols.size < 2 ^ 32) (hid : u.Names id name) (ht : t ∈ s.types.values) :
    t.base = some id ↔ t.base.map s.shownName = some name := by
  obtain ⟨key, ht⟩ := IdMap.mem_values_iff.mp ht
  cases hbase : t.base with
  | none => simp
  | some base => simpa using h.eq_iff_shownName hsize hid (hs.contains_base ht hbase)

lemma MoreNames.bind_type?_eq (h : s.MoreNames u) (hs : s.WellFormed)
    (hsize : u.symbols.size < 2 ^ 32) {id? : Option SymbolId} {name? : Option String}
    (hid : u.NamesAll id?.toList name?.toList) : id? >>= u.type? = name? >>= s.typeNamed? := by
  cases id? <;> cases name? <;> cases hid
  case none.none => rfl
  case some.some.cons hname _ => exact h.type?_eq_typeNamed? hs hsize hname

lemma mem_types_of_bind_typeNamed? {name? : Option String} (h : name? >>= s.typeNamed? = some t) :
    t ∈ s.types.values := by
  obtain ⟨name, -, h⟩ := Option.bind_eq_some_iff.mp h
  obtain ⟨id, -, h⟩ := Option.bind_eq_some_iff.mp h
  exact IdMap.mem_values_iff.mpr ⟨id, h⟩

lemma MoreNames.get?_of_mem_types (h : s.MoreNames u) (hs : s.WellFormed)
    (ht : t ∈ s.types.values) : u.symbols.get? t.id = some (s.shownName t.id) := by
  obtain ⟨key, ht⟩ := IdMap.mem_values_iff.mp ht
  have hcontains := (hs.types ht).interned t.id List.mem_cons_self
  exact SymbolTable.get?_mono h.names (get?_shownName hcontains)

lemma shortVtableError_eq {base : SymbolId} {baseName : String} {slots baseSlots : Nat}
    (hid : s.symbols.get? id = some name) (hbase : s.symbols.get? base = some baseName) :
    s.shortVtableError id slots base baseSlots = .shortVtable name baseName slots baseSlots := by
  rw [shortVtableError, hid, hbase, Option.getD_some, Option.getD_some]

end Store

namespace Builder

open Store

variable {b : Builder} {base : Option String} {vtable : List String}

/-! ### The slots of a type -/

/-- A conflict of slots: the base comes first, and then the first derived type in id order. -/
lemma slotConflict?_eq_some_iff {base : Option SymbolId} {slots : Nat} :
    slotConflict? s id base slots = some e ↔
      (∃ b, base >>= s.type? = some b ∧ slots < b.slots.length ∧
        s.shortVtableError id slots b.id b.slots.length = e) ∨
      (∀ b, base >>= s.type? = some b → b.slots.length ≤ slots) ∧
        ∃ t, s.types.values.find? (fun t => t.base = some id ∧ t.slots.length < slots) = some t ∧
          s.shortVtableError t.id t.slots.length id slots = e := by
  have hderived : slotConflict?.derivedConflict s id slots = some e ↔
      ∃ t, s.types.values.find? (fun t => t.base = some id ∧ t.slots.length < slots) = some t ∧
        s.shortVtableError t.id t.slots.length id slots = e := Option.map_eq_some_iff
  rw [slotConflict?]
  cases base >>= s.type? with
  | none => simp [hderived]
  | some b =>
    by_cases hshort : slots < b.slots.length
    · simp [hshort, Nat.not_le_of_lt hshort]
    · simp [hshort, hderived, Nat.le_of_not_lt hshort]

/-- The ids of a type that is to be recorded, once its names are interned. -/
structure Interns (s u : Store) (t : TypeSummary) (name : String) (base : Option String)
    (vtable : List String) : Prop where
  wellFormed : s.WellFormed
  moreNames : s.MoreNames u
  size_lt : u.symbols.size < 2 ^ 32
  id : u.Names t.id name
  base : u.NamesAll t.base.toList base.toList
  slots : u.NamesAll t.slots vtable
  witnesses : t.witnesses = .empty

namespace Interns

variable (h : Interns s u t name base vtable)

include h

lemma types_eq : u.types = s.types := by rw [h.moreNames.eq]

lemma bind_base : t.base >>= u.type? = base >>= s.typeNamed? :=
  h.moreNames.bind_type?_eq h.wellFormed h.size_lt h.base

lemma base_eq_iff {t' : TypeSummary} (ht' : t' ∈ s.types.values) :
    t'.base = some t.id ↔ t'.base.map s.shownName = some name :=
  h.moreNames.base_eq_iff h.wellFormed h.size_lt h.id ht'

lemma slotConflict?_eq_some_iff : slotConflict? u t.id t.base t.slots.length = some e ↔
    (∃ b, base >>= s.typeNamed? = some b ∧ vtable.length < b.slots.length ∧
      .shortVtable name (s.shownName b.id) vtable.length b.slots.length = e) ∨
    (∀ b, base >>= s.typeNamed? = some b → b.slots.length ≤ vtable.length) ∧
      ∃ t, s.types.values.find? (fun t =>
        t.base.map s.shownName = some name ∧ t.slots.length < vtable.length) = some t ∧
        .shortVtable (s.shownName t.id) name t.slots.length vtable.length = e := by
  have hfind : (s.types.values.find? fun t' =>
      t'.base = some t.id ∧ t'.slots.length < vtable.length) = s.types.values.find? fun t' =>
        t'.base.map s.shownName = some name ∧ t'.slots.length < vtable.length :=
    List.find?_congr fun t' ht' => by simp only [h.base_eq_iff ht']
  rw [Builder.slotConflict?_eq_some_iff, h.bind_base, h.types_eq, h.slots.length_eq, hfind]
  apply or_congr
  · refine exists_congr fun b => and_congr_right fun hb => ?_
    have hmem := mem_types_of_bind_typeNamed? hb
    rw [shortVtableError_eq (h.id h.size_lt) (h.moreNames.get?_of_mem_types h.wellFormed hmem)]
  · refine and_congr_right fun _ => exists_congr fun t' => and_congr_right fun ht' => ?_
    have hmem := List.mem_of_find?_eq_some ht'
    rw [shortVtableError_eq (h.moreNames.get?_of_mem_types h.wellFormed hmem) (h.id h.size_lt)]

lemma slotConflict?_eq_none_iff : slotConflict? u t.id t.base t.slots.length = none ↔
    (∀ b, base >>= s.typeNamed? = some b → b.slots.length ≤ vtable.length) ∧
      ∀ t ∈ s.types.values, t.base.map s.shownName = some name →
        vtable.length ≤ t.slots.length := by
  rw [Builder.slotConflict?_eq_none_iff, h.bind_base, h.types_eq, h.slots.length_eq]
  apply and_congr_right'
  exact forall₂_congr fun t' ht' => imp_congr_left (h.base_eq_iff ht')

lemma mentioned : ∀ x ∈ t.mentioned, u.symbols.contains x = true := by
  have hall := contains_mentioned_of_names h.size_lt h.id h.base h.slots
    (List.Forall₂.nil : List.Forall₂ u.NamesPair [] [])
  have hempty : IdMap.ofList [] = t.witnesses := h.witnesses.symm
  rw [hempty] at hall
  exact hall

lemma insertType_eq_error_iff : u.insertType t = .error e ↔
    (s.typeNamed? name).isSome ∧ .duplicateDefinition name = e := by
  have htype := h.moreNames.type?_eq_typeNamed? h.wellFormed h.size_lt h.id
  rw [Store.insertType_eq_error_iff, firstUnknown_eq_none_iff.mpr h.mentioned,
    h.id.shownName h.size_lt, ← htype]
  simp [IdMap.contains, type?, @eq_comm _ e]

end Interns

/-! ### Errors by name -/

lemma recordFunction_eq (b : Builder) (name : String) (flags : FunctionFlags) :
    b.recordFunction name flags =
      match (b.store.intern name).2.insertFunction { id := (b.store.intern name).1, flags } with
      | .ok s => (.ok (b.store.intern name).1, ⟨s⟩)
      | .error e => (.error e, ⟨(b.store.intern name).2⟩) := rfl

lemma symbols_recordFunction (b : Builder) (name : String) (flags : FunctionFlags) :
    (b.recordFunction name flags).2.store.symbols = (b.store.intern name).2.symbols := by
  rw [recordFunction_eq]
  cases hinsert : (b.store.intern name).2.insertFunction _ with
  | error e => rfl
  | ok s =>
    obtain ⟨-, -, rfl⟩ := insertFunction_eq_ok_iff.mp hinsert
    rfl

lemma recordFunction_eq_error_iff {flags : FunctionFlags} (hs : b.store.WellFormed)
    (hsize : (b.recordFunction name flags).2.store.symbols.size < 2 ^ 32) :
    (b.recordFunction name flags).1 = .error e ↔
      (b.store.functionNamed? name).isSome ∧ .duplicateDefinition name = e := by
  rw [symbols_recordFunction] at hsize
  have hid := names_intern b.store name
  have hknown : (b.store.intern name).2.firstUnknown [(b.store.intern name).1] = none :=
    firstUnknown_eq_none_iff.mpr (List.forall_mem_singleton.mpr (hid.contains hsize))
  have hfunction := (b.store.moreNames_intern name).function?_eq_functionNamed? hs hsize hid
  have herror : (b.recordFunction name flags).1 = .error e ↔
      (b.store.intern name).2.insertFunction { id := (b.store.intern name).1, flags } =
        .error e := by
    rw [recordFunction_eq]
    cases (b.store.intern name).2.insertFunction _ <;> simp
  rw [herror, insertFunction_eq_error_iff, FunctionSummary.mentioned, List.map_nil, hknown,
    hid.shownName hsize, ← hfunction]
  simp [definesFunction, IdMap.contains, function?, @eq_comm _ e]

lemma recordType_eq_error_iff (hs : b.store.WellFormed)
    (hsize : (b.recordType name base vtable).2.store.symbols.size < 2 ^ 32) :
    (b.recordType name base vtable).1 = .error e ↔
      Refuses b.store (.recordType name base vtable) e := by
  obtain ⟨t, u, hmore, hid, hbase, hslots, hwitnesses, heq⟩ :=
    exists_recordType_eq b name base vtable
  have hsymbols : (b.recordType name base vtable).2.store.symbols = u.symbols := by
    rw [heq]
    cases slotConflict? u t.id t.base t.slots.length with
    | some e => rfl
    | none =>
      cases hinsert : u.insertType t with
      | error e => rfl
      | ok s =>
        obtain ⟨-, -, rfl⟩ := insertType_eq_ok_iff.mp hinsert
        rfl
  have h : Interns b.store u t name base vtable :=
    ⟨hs, hmore, hsymbols ▸ hsize, hid, hbase, hslots, hwitnesses⟩
  have herror : (b.recordType name base vtable).1 = .error e ↔
      slotConflict? u t.id t.base t.slots.length = some e ∨
        slotConflict? u t.id t.base t.slots.length = none ∧ u.insertType t = .error e := by
    rw [heq]
    cases slotConflict? u t.id t.base t.slots.length with
    | some e => simp
    | none => cases u.insertType t <;> simp
  rw [herror, h.slotConflict?_eq_some_iff, h.slotConflict?_eq_none_iff, h.insertType_eq_error_iff]
  constructor
  · rintro ((⟨b, hb, hshort, rfl⟩ | ⟨hbase, t, ht, rfl⟩) | ⟨⟨hbase, hderived⟩, hdef, rfl⟩)
    · exact .shorterThanBase hb hshort
    · exact .longerThanDerived hbase ht
    · exact .typeTwice hbase hderived hdef
  · intro hrefuses
    cases hrefuses with
    | shorterThanBase hb hshort => exact .inl (.inl ⟨_, hb, hshort, rfl⟩)
    | longerThanDerived hbase ht => exact .inl (.inr ⟨hbase, _, ht, rfl⟩)
    | typeTwice hbase hderived hdef => exact .inr ⟨⟨hbase, hderived⟩, hdef, rfl⟩

/-- The error of a call, by names, as long as ids can tell apart the names there are after it. -/
theorem refusal?_eq_some_iff {call : Operation} (hs : b.store.WellFormed)
    (hsize : (b.perform call).store.symbols.size < 2 ^ 32) :
    b.refusal? call = some e ↔ Refuses b.store call e := by
  cases call with
  | recordFunction name flags =>
    rw [refusal?, errorOf?_eq_some_iff, recordFunction_eq_error_iff hs hsize]
    constructor
    · rintro ⟨hdef, rfl⟩
      exact .functionTwice hdef
    · rintro ⟨hdef⟩
      exact ⟨hdef, rfl⟩
  | setDebugName function name =>
    have herror : (b.setDebugName function name).1 = .error e ↔
        b.store.setDebugName function (some name) = .error e := by
      rw [setDebugName]
      cases b.store.setDebugName function (some name) <;> simp
    rw [refusal?, errorOf?_eq_some_iff, herror, setDebugName_eq_error_iff]
    constructor
    · rintro ⟨hnone, rfl⟩
      exact .noFunction hnone
    · rintro ⟨⟩
      exact ⟨‹_›, rfl⟩
  | recordCall caller callee kind preserved =>
    rw [refusal?, errorOf?_eq_some_iff, recordCall]
    constructor
    · intro h
      split at h
      · cases h
      · split at h <;> cases h
        · exact .noCaller ‹_› (Bool.eq_false_iff.mpr ‹_›)
        · exact .unknownCaller (Bool.eq_false_iff.mpr ‹_›)
    · intro h
      cases h with
      | noCaller hknown hnone => simp [hknown, hnone]
      | unknownCaller hunknown =>
        have hnone : b.store.definesFunction caller = false := by
          rw [Bool.eq_false_iff, ne_eq, definesFunction_iff]
          rintro ⟨f, hf⟩
          rw [hs.contains_function hf] at hunknown
          cases hunknown
        simp [hunknown, hnone]
  | recordType name base vtable =>
    rw [refusal?, errorOf?_eq_some_iff, recordType_eq_error_iff hs hsize]
  | recordWitness type requirement implementation =>
    rw [refusal?, errorOf?_eq_some_iff, recordWitness]
    constructor
    · intro h
      dsimp only at h
      split at h
      · cases h
      · cases h
        exact .noType (Bool.eq_false_iff.mpr ‹_›)
    · rintro ⟨⟩
      rename_i hnone
      simp [hnone, intern]

/-! ### What a failed call leaves -/

/-- A function that is refused has been recorded, so its name was interned before. -/
lemma recordFunction_of_error {flags : FunctionFlags} (hs : b.store.WellFormed)
    (hsize : (b.recordFunction name flags).2.store.symbols.size < 2 ^ 32)
    (h : (b.recordFunction name flags).1 = .error e) : (b.recordFunction name flags).2 = b := by
  obtain ⟨f, hf⟩ := Option.isSome_iff_exists.mp ((recordFunction_eq_error_iff hs hsize).mp h).1
  obtain ⟨id, hid, -⟩ := Option.bind_eq_some_iff.mp hf
  have hmem := SymbolTable.lookup_isSome_iff.mp (Option.isSome_of_eq_some hid)
  have hintern : (b.store.intern name).2 = b.store := by
    rw [intern, SymbolTable.intern, SymbolTable.insert_of_mem hmem]
  rw [recordFunction_eq] at h ⊢
  cases hinsert : (b.store.intern name).2.insertFunction _ with
  | ok s => simp [hinsert] at h
  | error e => rw [hintern]

lemma setDebugName_of_error {function : SymbolId}
    (h : (b.setDebugName function name).1 = .error e) : (b.setDebugName function name).2 = b := by
  rw [setDebugName] at h ⊢
  cases hset : b.store.setDebugName function (some name) with
  | ok s => simp [hset] at h
  | error e => rfl

lemma recordCall_of_error {caller : SymbolId} {callee : String} {kind : CallKind}
    {preserved : Bool} (h : (b.recordCall caller callee kind preserved).1 = .error e) :
    (b.recordCall caller callee kind preserved).2 = b := by
  rw [recordCall] at h ⊢
  split at h
  · cases h
  · rw [if_neg ‹_›]
    split <;> rfl

lemma moreNames_recordType_of_error (h : (b.recordType name base vtable).1 = .error e) :
    b.store.MoreNames (b.recordType name base vtable).2.store := by
  obtain ⟨t, u, hmore, -, -, -, -, heq⟩ := exists_recordType_eq b name base vtable
  rw [heq] at h ⊢
  split at h
  · exact hmore
  · split at h
    · cases h
    · exact hmore

lemma moreNames_recordWitness_of_error {type : SymbolId} {requirement implementation : String}
    (h : (b.recordWitness type requirement implementation).1 = .error e) :
    b.store.MoreNames (b.recordWitness type requirement implementation).2.store := by
  rw [recordWitness] at h ⊢
  dsimp only at h ⊢
  split at h
  · cases h
  · rw [if_neg ‹_›]
    exact (b.store.moreNames_intern requirement).trans (moreNames_intern _ implementation)

theorem perform_of_refusal? {call : Operation} (hs : b.store.WellFormed)
    (hsize : (b.perform call).store.symbols.size < 2 ^ 32) (h : b.refusal? call = some e)
    (hleaves : call.leavesNames = false) : b.perform call = b := by
  cases call with
  | recordFunction => exact recordFunction_of_error hs hsize (errorOf?_eq_some_iff.mp h)
  | setDebugName => exact setDebugName_of_error (errorOf?_eq_some_iff.mp h)
  | recordCall => exact recordCall_of_error (errorOf?_eq_some_iff.mp h)
  | recordType => cases hleaves
  | recordWitness => cases hleaves

theorem moreNames_of_refusal? {call : Operation} (hs : b.store.WellFormed)
    (hsize : (b.perform call).store.symbols.size < 2 ^ 32) (h : b.refusal? call = some e) :
    b.store.MoreNames (b.perform call).store := by
  cases hleaves : call.leavesNames with
  | false =>
    rw [perform_of_refusal? hs hsize h hleaves]
    exact .refl _
  | true =>
    cases call with
    | recordType => exact moreNames_recordType_of_error (errorOf?_eq_some_iff.mp h)
    | recordWitness => exact moreNames_recordWitness_of_error (errorOf?_eq_some_iff.mp h)
    | recordFunction | setDebugName | recordCall => cases hleaves

end Builder

end LinkSummary
