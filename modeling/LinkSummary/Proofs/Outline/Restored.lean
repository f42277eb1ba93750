import LinkSummary.Outline.Reader
import LinkSummary.Proofs.Binary.Canonical
import LinkSummary.Proofs.Merge.Combined
import LinkSummary.Proofs.Merged
import LinkSummary.Proofs.Outline.Program

/-!
# Stores of outlines

An outline names its definitions in another order than the store that it was made from, so the
store that is made from it has other ids. By name it tells the same: no insertion is refused,
because names are not repeated, and no vtable is short, because none was.
-/

namespace LinkSummary

/-! ### Names that are added -/

namespace Store

/-- Some names are interned, all of them from a list. -/
structure AddsNames (names : List String) (s s' : Store) : Prop where
  more : s.MoreNames s'
  mem_or_mem : ∀ name ∈ s'.symbols.names, name ∈ s.symbols.names ∨ name ∈ names

variable {s s' s'' : Store} {names names' : List String}

lemma AddsNames.refl (s : Store) : AddsNames [] s s :=
  ⟨.refl s, fun _ hname => .inl hname⟩

lemma AddsNames.trans (h : AddsNames names s s') (h' : AddsNames names' s' s'') :
    AddsNames (names ++ names') s s'' := by
  refine ⟨h.more.trans h'.more, ?_⟩
  intro name hname
  rw [List.mem_append, ← or_assoc]
  exact (h'.mem_or_mem name hname).imp_left (h.mem_or_mem name)

lemma addsNames_intern (s : Store) (name : String) : AddsNames [name] s (s.intern name).2 := by
  refine ⟨s.moreNames_intern name, ?_⟩
  intro other hother
  rw [List.mem_singleton, or_comm]
  exact SymbolTable.mem_names_insert.mp hother

lemma addsNames_internAll (s : Store) (names : List String) :
    AddsNames names s (s.internAll names).2 := by
  induction names generalizing s with
  | nil => exact .refl s
  | cons name names ih => exact (s.addsNames_intern name).trans (ih _)

end Store

open Store

/-- The names in a function of an outline. -/
def FunctionOutline.mentioned (f : FunctionOutline) : List String :=
  f.name :: f.calls.map (·.callee)

def TypeOutline.mentioned (t : TypeOutline) : List String :=
  [t.name] ++ t.base.toList ++ t.vtable ++
    t.witnesses.flatMap fun w => [w.requirement, w.implementation]

namespace Outline

lemma internCalls_spec (s : Store) (calls : List CallOutline) :
    AddsNames (calls.map (·.callee)) s (internCalls s calls).2 ∧
      List.Forall₂ (internCalls s calls).2.NamesCall (internCalls s calls).1
        (calls.map (·.call)) := by
  induction calls generalizing s with
  | nil => exact ⟨.refl s, .nil⟩
  | cons call calls ih =>
    obtain ⟨hadds, hcalls⟩ := ih (s.intern call.callee).2
    exact ⟨(s.addsNames_intern call.callee).trans hadds,
      .cons ⟨(s.names_intern call.callee).mono hadds.more, rfl, rfl⟩ hcalls⟩

lemma internBase_spec (s : Store) (base : Option String) :
    AddsNames base.toList s (internBase s base).2 ∧
      (internBase s base).2.NamesAll (internBase s base).1.toList base.toList := by
  cases base with
  | none => exact ⟨.refl s, .nil⟩
  | some base => exact ⟨s.addsNames_intern base, .cons (s.names_intern base) .nil⟩

lemma internWitnesses_spec (s : Store) (witnesses : List WitnessOutline) :
    AddsNames (witnesses.flatMap fun w => [w.requirement, w.implementation]) s
        (internWitnesses s witnesses).2 ∧
      List.Forall₂ (internWitnesses s witnesses).2.NamesPair (internWitnesses s witnesses).1
        (witnesses.map (·.pair)) := by
  induction witnesses generalizing s with
  | nil => exact ⟨.refl s, .nil⟩
  | cons w witnesses ih =>
    have hrequirement := s.addsNames_intern w.requirement
    have himplementation := addsNames_intern (s.intern w.requirement).2 w.implementation
    obtain ⟨hadds, hpairs⟩ := ih ((s.intern w.requirement).2.intern w.implementation).2
    refine ⟨(hrequirement.trans himplementation).trans hadds, .cons ⟨?_, ?_⟩ hpairs⟩
    · exact ((s.names_intern w.requirement).mono himplementation.more).mono hadds.more
    · exact (names_intern _ w.implementation).mono hadds.more

/-! ### One definition more -/

variable {known : SymbolTable} {names : List String} {o : Outline} {s s' : Store}
  {f : FunctionOutline} {t : TypeOutline}

lemma program_concat_function (hnew : f.name ∉ o.functions.map (·.name)) :
    ({ o with functions := o.functions ++ [f] } : Outline).program = { o.program with
      functions := fun name =>
        if name = f.name then some f.function else o.program.functions name } := by
  rw [← o.map_name_functionDefinitions] at hnew
  apply Program.ext
  · funext name
    rw [program, functionDefinitions, List.map_append]
    exact Definition.first_concat_of_not_mem (d := ⟨o.moduleName, f.name, f.function⟩) hnew name
  · rfl

lemma program_concat_type (hnew : t.name ∉ o.types.map (·.name)) :
    ({ o with types := o.types ++ [t] } : Outline).program = { o.program with
      types := fun name => if name = t.name then some t.tables else o.program.types name } := by
  rw [← o.map_name_typeDefinitions] at hnew
  apply Program.ext
  · rfl
  · funext name
    rw [program, typeDefinitions, List.map_append]
    exact Definition.first_concat_of_not_mem (d := ⟨o.moduleName, t.name, t.tables⟩) hnew name

lemma bind_of_ok {α β : Type} {x : Except SummaryError α} {a : α} (h : x = .ok a)
    (g : α → Except SummaryError β) : (x >>= g) = g a := by
  rw [h]
  rfl

lemma notMem_map_of_nodup {α β : Type} {g : α → β} {before after : List α} {x : α}
    (h : ((before ++ x :: after).map g).Nodup) : g x ∉ before.map g := by
  rw [List.map_append, List.map_cons, List.nodup_middle, List.nodup_cons, List.mem_append,
    not_or] at h
  exact h.1.1

/-- A walk over a list succeeds if each of its steps does, given what the steps before it have
achieved. -/
lemma exists_foldlM_eq_ok {α : Type} {step : Store → α → Except SummaryError Store}
    {P : List α → Store → Prop} {xs : List α}
    (hstep : ∀ done x rest, xs = done ++ x :: rest → ∀ s, P done s →
      ∃ s', step s x = .ok s' ∧ P (done ++ [x]) s') (h : P [] s) :
    ∃ s', xs.foldlM step s = .ok s' ∧ P xs s' := by
  suffices hrest : ∀ rest done s, xs = done ++ rest → P done s →
      ∃ s', rest.foldlM step s = .ok s' ∧ P xs s' from hrest xs [] s rfl h
  intro rest
  induction rest with
  | nil =>
    intro done s hsplit hs
    rw [hsplit, List.append_nil]
    exact ⟨s, rfl, hs⟩
  | cons x rest ih =>
    intro done s hsplit hs
    obtain ⟨s₁, hok, hs₁⟩ := hstep done x rest hsplit s hs
    rw [List.foldlM_cons, bind_of_ok hok]
    exact ih (done ++ [x]) s₁ (by rw [hsplit, List.append_cons]) hs₁

/-- A store tells what an outline tells, with names out of a table. -/
structure Restores (known : SymbolTable) (o : Outline) (s : Store) : Prop where
  moduleName : s.moduleName = o.moduleName
  livenessComputed : s.livenessComputed = false
  names : s.symbols.names ⊆ known.names
  wellFormed : s.WellFormed
  named : s.named = o.program

namespace Restores

lemma size_lt (h : Restores known o s) (hknown : known.size < 2 ^ 32) :
    s.symbols.size < 2 ^ 32 :=
  lt_of_le_of_lt (SymbolTable.size_le_of_subset h.names) hknown

lemma addsNames (h : Restores known o s) (hknown : known.size < 2 ^ 32)
    (hadds : AddsNames names s s') (hnames : names ⊆ known.names) : Restores known o s' := by
  have hsubset : s'.symbols.names ⊆ known.names := by
    intro name hname
    rcases hadds.mem_or_mem name hname with hname | hname
    · exact h.names hname
    · exact hnames hname
  have hsize : s'.symbols.size < 2 ^ 32 :=
    lt_of_le_of_lt (SymbolTable.size_le_of_subset hsubset) hknown
  refine ⟨?_, ?_, hsubset, hadds.more.wellFormed h.wellFormed, ?_⟩
  · rw [hadds.more.eq]
    exact h.moduleName
  · rw [hadds.more.eq]
    exact h.livenessComputed
  · rw [hadds.more.named hsize h.wellFormed]
    exact h.named

lemma functions_named_eq_none (h : Restores known o s) {name : String}
    (hnew : name ∉ o.functions.map (·.name)) : s.named.functions name = none := by
  rw [h.named]
  exact Definition.first_eq_none_iff.mpr (o.map_name_functionDefinitions ▸ hnew)

lemma types_named_eq_none (h : Restores known o s) {name : String}
    (hnew : name ∉ o.types.map (·.name)) : s.named.types name = none := by
  rw [h.named]
  exact Definition.first_eq_none_iff.mpr (o.map_name_typeDefinitions ▸ hnew)

/-- A function under a new name is not refused. -/
lemma exists_insertFunction (h : Restores known o s) (hknown : known.size < 2 ^ 32)
    (hf : f.mentioned ⊆ known.names) (hnew : f.name ∉ o.functions.map (·.name)) :
    ∃ s', insertFunction s f = .ok s' ∧
      Restores known { o with functions := o.functions ++ [f] } s' := by
  have hfirst := s.addsNames_intern f.name
  obtain ⟨hadds, hcalls⟩ := internCalls_spec (s.intern f.name).2 f.calls
  have hinterned := h.addsNames hknown (hfirst.trans hadds) hf
  obtain ⟨hok, hnamed⟩ := Faithful.insertFunction_of_names
    ⟨hinterned.wellFormed, hinterned.size_lt hknown⟩
    (f :=
      { id := (s.intern f.name).1
        debugName := f.debugName
        flags := { live := f.live, preserved := f.preserved, fixedContents := f.fixedContents }
        calls := (internCalls (s.intern f.name).2 f.calls).1 })
    ((s.names_intern f.name).mono hadds.more) hcalls (hinterned.functions_named_eq_none hnew)
  refine ⟨_, hok, hinterned.moduleName, hinterned.livenessComputed, hinterned.names,
    hinterned.wellFormed.insertFunction hok, ?_⟩
  rw [hnamed, hinterned.named, program_concat_function hnew]
  rfl

/-- The tables that a type of an outline is given are those that it tells. -/
lemma exists_insertType (h : Restores known o s) (hknown : known.size < 2 ^ 32)
    (ht : t.mentioned ⊆ known.names) (hnew : t.name ∉ o.types.map (·.name)) :
    ∃ s', insertType s t = .ok s' ∧ Restores known { o with types := o.types ++ [t] } s' := by
  have hfirst := s.addsNames_intern t.name
  obtain ⟨hbase, hbaseNames⟩ := internBase_spec (s.intern t.name).2 t.base
  have hslots := (internBase (s.intern t.name).2 t.base).2.addsNames_internAll t.vtable
  have hslotNames := (internBase (s.intern t.name).2 t.base).2.namesAll_internAll t.vtable
  obtain ⟨hwitnesses, hpairs⟩ := internWitnesses_spec
    ((internBase (s.intern t.name).2 t.base).2.internAll t.vtable).2 t.witnesses
  have hinterned := h.addsNames hknown (((hfirst.trans hbase).trans hslots).trans hwitnesses) ht
  have hsize := hinterned.size_lt hknown
  have hid := (s.names_intern t.name).mono ((hbase.trans hslots).trans hwitnesses).more
  have hbaseNames := hbaseNames.mono (hslots.trans hwitnesses).more
  have hslotNames := hslotNames.mono hwitnesses.more
  obtain ⟨hok, hnamed⟩ := Faithful.insertType_of_names ⟨hinterned.wellFormed, hsize⟩
    (contains_mentioned_of_names hsize hid hbaseNames hslotNames hpairs) hid
    (hinterned.types_named_eq_none hnew)
  refine ⟨_, hok, hinterned.moduleName, hinterned.livenessComputed, hinterned.names,
    hinterned.wellFormed.insertType hok, ?_⟩
  rw [hnamed, hinterned.named, program_concat_type hnew,
    namedTables_of_names hsize hbaseNames hslotNames hpairs]
  rfl

/-- Functions under new and different names are inserted one after the other. -/
lemma exists_foldlM_insertFunction {fs : List FunctionOutline} (h : Restores known o s)
    (hknown : known.size < 2 ^ 32) (hfs : ∀ f ∈ fs, f.mentioned ⊆ known.names)
    (hnames : ((o.functions ++ fs).map (·.name)).Nodup) :
    ∃ s', fs.foldlM insertFunction s = .ok s' ∧
      Restores known { o with functions := o.functions ++ fs } s' := by
  have hstart : Restores known { o with functions := o.functions ++ [] } s := by
    rw [List.append_nil]
    exact h
  refine exists_foldlM_eq_ok
    (P := fun done s => Restores known { o with functions := o.functions ++ done } s) ?_ hstart
  intro done f rest hsplit s hs
  have hnew : f.name ∉ (o.functions ++ done).map (·.name) := by
    rw [hsplit, ← List.append_assoc] at hnames
    exact notMem_map_of_nodup hnames
  rw [← List.append_assoc]
  exact hs.exists_insertFunction hknown (hfs f (by simp [hsplit])) hnew

lemma exists_foldlM_insertType {ts : List TypeOutline} (h : Restores known o s)
    (hknown : known.size < 2 ^ 32) (hts : ∀ t ∈ ts, t.mentioned ⊆ known.names)
    (hnames : ((o.types ++ ts).map (·.name)).Nodup) :
    ∃ s', ts.foldlM insertType s = .ok s' ∧
      Restores known { o with types := o.types ++ ts } s' := by
  have hstart : Restores known { o with types := o.types ++ [] } s := by
    rw [List.append_nil]
    exact h
  refine exists_foldlM_eq_ok
    (P := fun done s => Restores known { o with types := o.types ++ done } s) ?_ hstart
  intro done t rest hsplit s hs
  have hnew : t.name ∉ (o.types ++ done).map (·.name) := by
    rw [hsplit, ← List.append_assoc] at hnames
    exact notMem_map_of_nodup hnames
  rw [← List.append_assoc]
  exact hs.exists_insertType hknown (hts t (by simp [hsplit])) hnew

end Restores

/-! ### The whole outline -/

lemma restores_internAll (o : Outline) (hknown : known.size < 2 ^ 32)
    (hnames : names ⊆ known.names) :
    Restores known { o with functions := [], types := [] }
      ((Store.new o.moduleName).internAll names).2 := by
  have hnew : Restores known { o with functions := [], types := [] } (.new o.moduleName) :=
    ⟨rfl, rfl, List.nil_subset _, wellFormed_new o.moduleName, rfl⟩
  exact hnew.addsNames hknown (addsNames_internAll _ names) hnames

/-- An outline with different names and complete tables is that of a store, as far as ids can tell
its names apart. -/
theorem exists_toStore (o : Outline) (hfunctions : (o.functions.map (·.name)).Nodup)
    (htypes : (o.types.map (·.name)).Nodup) (hcomplete : o.program.Complete)
    (hknown : known.size < 2 ^ 32) (hfs : ∀ f ∈ o.functions, f.mentioned ⊆ known.names)
    (hts : ∀ t ∈ o.types, t.mentioned ⊆ known.names) :
    ∃ s, o.toStore = .ok s ∧ s.Faithful ∧ s.moduleName = o.moduleName ∧
      s.livenessComputed = o.livenessComputed ∧ s.named = o.program := by
  have hnames : o.functions.map (·.name) ++ o.types.map (·.name) ⊆ known.names :=
    List.append_subset.mpr ⟨List.forall_mem_map.mpr fun f hf => hfs f hf List.mem_cons_self,
      List.forall_mem_map.mpr fun t ht => hts t ht List.mem_cons_self⟩
  obtain ⟨s₁, hok₁, h₁⟩ := (restores_internAll o hknown hnames).exists_foldlM_insertFunction hknown
    hfs hfunctions
  obtain ⟨s₂, hok₂, h₂⟩ := h₁.exists_foldlM_insertType hknown hts htypes
  have hfaithful : s₂.Faithful := ⟨h₂.wellFormed, h₂.size_lt hknown⟩
  have hvtables : s₂.checkVtables = .ok () := by
    rw [checkVtables_eq_ok_iff]
    apply hfaithful.slotsCoverBases_of_complete_named
    rw [h₂.named]
    exact hcomplete
  refine ⟨if o.livenessComputed then s₂.markLivenessComputed else s₂, ?_, ?_⟩
  · rw [toStore, bind_of_ok hok₁, bind_of_ok hok₂, bind_of_ok hvtables]
    rfl
  · cases hcomputed : o.livenessComputed with
    | false => exact ⟨hfaithful, h₂.moduleName, h₂.livenessComputed, h₂.named⟩
    | true =>
      exact ⟨⟨(raises_markLivenessComputed s₂).wellFormed hfaithful.wellFormed, hfaithful.size_lt⟩,
        h₂.moduleName, rfl, h₂.named⟩

end Outline

/-! ### The outline of a store -/

namespace Store

variable {s : Store} {id : SymbolId} {f : FunctionSummary} {t : TypeSummary}

lemma WellFormed.mentioned_functionOutline (hs : s.WellFormed) (hf : s.function? id = some f) :
    (s.functionOutline f).mentioned ⊆ s.symbols.names := by
  have hmentioned : (s.functionOutline f).mentioned = f.mentioned.map s.shownName := by
    rw [FunctionOutline.mentioned, functionOutline, FunctionSummary.mentioned, List.map_cons,
      List.map_map, List.map_map]
    rfl
  rw [hmentioned]
  exact List.forall_mem_map.mpr fun x hx => shownName_mem_names ((hs.functions hf).interned x hx)

lemma WellFormed.mentioned_typeOutline (hs : s.WellFormed) (ht : s.type? id = some t) :
    (s.typeOutline t).mentioned ⊆ s.symbols.names := by
  have hmem : ∀ x ∈ t.mentioned, s.shownName x ∈ s.symbols.names := fun x hx =>
    shownName_mem_names ((hs.types ht).interned x hx)
  intro name hname
  simp only [TypeOutline.mentioned, typeOutline, List.mem_append, List.mem_singleton,
    Option.mem_toList, Option.map_eq_some_iff, List.mem_map, List.mem_flatMap, mem_sortByName,
    Prod.exists, IdMap.mem_entries_iff] at hname
  rcases hname with ((rfl | ⟨base, hbase, rfl⟩) | ⟨slot, hslot, rfl⟩) | ⟨_, ⟨r, i, hw, rfl⟩, hname⟩
  · exact hmem _ List.mem_cons_self
  · exact shownName_mem_names (hs.contains_base ht hbase)
  · exact shownName_mem_names (hs.contains_slot ht hslot)
  · obtain ⟨hr, hi⟩ := hs.contains_witness ht hw
    rcases List.mem_pair.mp hname with rfl | rfl
    · exact shownName_mem_names hr
    · exact shownName_mem_names hi

/-- The outline of a store leads to a store that tells the same. -/
theorem Faithful.exists_toStore_outline (hs : s.Faithful) (hflags : s.FlagsKnown)
    (hvtables : s.checkVtables = .ok ()) :
    ∃ t, s.outline.toStore = .ok t ∧ t.Faithful ∧ t.moduleName = s.moduleName ∧
      t.livenessComputed = s.livenessComputed ∧ t.named = s.named := by
  have hordered := hs.wellFormed.ordered_outline
  have hprogram : s.outline.program = s.named := hs.program_outline.trans hflags.known_named
  have hcomplete := hs.complete_named (checkVtables_eq_ok_iff.mp hvtables)
  rw [← hprogram] at hcomplete ⊢
  apply s.outline.exists_toStore (Outline.nodup_map_of_pairwise_lt hordered.functions)
    (Outline.nodup_map_of_pairwise_lt hordered.types) hcomplete hs.size_lt
  · intro F hF
    obtain ⟨id, f, hf, rfl⟩ := mem_functions_outline.mp hF
    exact hs.wellFormed.mentioned_functionOutline hf
  · intro T hT
    obtain ⟨id, t, ht, rfl⟩ := mem_types_outline.mp hT
    exact hs.wellFormed.mentioned_typeOutline ht

/-- A store whose vtables have been found complete: it was made by calls and checked, or read from a
file, or it is a merge. -/
inductive Checked : Store → Prop
  | made {s : Store} (hs : s.Made) (hvtables : s.checkVtables = .ok ()) : Checked s
  | decoded {bytes : List UInt8} {s : Store} (h : decode bytes = .ok s) : Checked s
  | merged {inputs : List Store} (hflags : ∀ s ∈ inputs, s.FlagsKnown)
    (traced : List (Option String)) : Checked ((Merged.combine inputs).propagateAll traced).store

lemma Checked.valid (hs : s.Checked) : s.WellFormed ∧ s.FlagsKnown ∧ s.checkVtables = .ok () := by
  cases hs with
  | made hs hvtables => exact ⟨hs.wellFormed, hs.flagsKnown, hvtables⟩
  | decoded h =>
    obtain ⟨file, hfile, hconsistent, rfl⟩ := Store.decode_eq_ok_iff.mp h
    exact ⟨hconsistent.wellFormed_store, SummaryFile.flagsKnown_store hfile,
      hconsistent.checkVtables_store⟩
  | @merged inputs hflags traced =>
    have hunion := Merged.wellFormed_combine inputs
    have hraises := Merged.raises_propagateAll hunion traced
    refine ⟨hraises.wellFormed hunion,
      hraises.flagsKnown (Combination.flagsKnown_ofInputs hflags), ?_⟩
    rw [hraises.checkVtables, checkVtables_eq_ok_iff]
    exact Combination.slotsCoverBases_ofInputs inputs

/-- A store with complete vtables can be made again from its outline. If the text form is read as
this outline, then it is read as the store that was made. This store tells the same by name, and so
has the same text form, though its ids may be others. -/
theorem Checked.exists_ofYaml_toYaml (hs : s.Checked) (hsize : s.symbols.size < 2 ^ 32) :
    ∃ t, s.outline.toStore = .ok t ∧
      (Outline.ofYaml s.toYaml = .ok s.outline → ofYaml s.toYaml = .ok t) ∧
      t.moduleName = s.moduleName ∧ t.livenessComputed = s.livenessComputed ∧
      t.named = s.named ∧ t.toYaml = s.toYaml := by
  obtain ⟨hwellFormed, hflags, hvtables⟩ := hs.valid
  have hfaithful : s.Faithful := ⟨hwellFormed, hsize⟩
  obtain ⟨t, hok, ht, hmodule, hcomputed, hnamed⟩ :=
    hfaithful.exists_toStore_outline hflags hvtables
  refine ⟨t, hok, ?_, hmodule, hcomputed, hnamed,
    toYaml_eq_of_named ht hfaithful hmodule hcomputed hnamed⟩
  intro hyaml
  unfold ofYaml
  rw [hyaml]
  dsimp only
  rw [hok]

/-- A class whose name and slot are interned before its function. In the store that is read from the
text the function comes first. -/
theorem Checked.exists_ofYaml_toYaml_class :
    let s := performAll "m" [.build (.recordType "C" none ["f"]), .build (.recordFunction "f" {}),
      .markLive ⟨2⟩]
    ∃ t, ofYaml s.toYaml = .ok t ∧ t ≠ s ∧ t.named = s.named ∧ t.toYaml = s.toYaml := by
  intro s
  have hmade : s.Made := by
    refine ⟨⟨"m", _, ?_, rfl⟩, by decide +kernel⟩
    simp [Operation.FlagsKnown]
    rfl
  have hs : s.Checked := .made hmade (by decide +kernel)
  have hyaml : Outline.ofYaml s.toYaml = .ok s.outline := by decide +kernel
  obtain ⟨t, hok, hread, -, -, hnamed, htext⟩ := hs.exists_ofYaml_toYaml (by decide +kernel)
  refine ⟨t, hread hyaml, ?_, hnamed, htext⟩
  rintro rfl
  have hother : s.outline.toStore ≠ .ok s := by decide +kernel
  exact hother hok

end Store

end LinkSummary
