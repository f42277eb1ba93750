import LinkSummary.Proofs.Binary.Shortest

/-!
# What is read is valid

A store that is read is well-formed, has no flags but those in use and no short vtable. So its own
file reads back as the store. This file is the shortest of all that tell the store with its readable
names, which is why it can be written whenever the store could be read.
-/

namespace LinkSummary

open Format Layout

variable {bytes : List UInt8} {s : Store} {id : SymbolId}

/-! ### Functions as they are stored -/

/-- A function without a readable name, with no flags but those in use. -/
structure FunctionSummary.Plain (f : FunctionSummary) : Prop where
  debugName : f.debugName = none
  flags : f.flags.known = f.flags

namespace Format

lemma Sequence.forall_mem {α : Type} {F : Format α} {p : α → Prop} {as : List α}
    (h : Sequence F bytes as) (hF : ∀ bytes a, F bytes a → p a) : ∀ a ∈ as, p a := by
  induction h with
  | nil => exact List.forall_mem_nil _
  | cons ha _ ih => exact List.forall_mem_cons.mpr ⟨hF _ _ ha, ih⟩

lemma FunctionFields.plain {f : FunctionSummary} (h : FunctionFields bytes f) : f.Plain := by
  cases h
  exact ⟨rfl, rfl⟩

lemma ModuleSummary.plain {l : Listing} (h : ModuleSummary bytes l) :
    ∀ f ∈ Listing.functions l.records, f.Plain := by
  obtain @⟨_, _, _, _, records, -, hrecords⟩ := h
  have hall : ∀ r ∈ records, ∀ f, r.function? = some f → f.Plain := by
    refine hrecords.forall_mem ?_
    rintro _ _ ⟨-, -, hr⟩ f hf
    cases hr with
    | function h =>
      cases hf
      obtain ⟨_, _, -, h⟩ := h
      exact h.plain
    | _ => cases hf
  intro f hf
  obtain ⟨r, hr, hf⟩ := List.mem_filterMap.mp hf
  exact hall r hr f hf

lemma WholeFile.exists_moduleSummary {file : SummaryFile} (h : WholeFile bytes file) :
    ∃ payload, ModuleSummary payload file.listing := by
  obtain @⟨_, _, blocks, l, -, hblocks, hl⟩ := h
  have hall : ∀ b ∈ blocks, ∀ l, b.listing? = some l → ∃ payload, ModuleSummary payload l := by
    refine hblocks.forall_mem ?_
    rintro _ _ ⟨-, -, hb⟩ l hl
    cases hb with
    | summary h =>
      cases hl
      exact ⟨_, h⟩
    | _ => cases hl
  have hmem : l ∈ blocks.filterMap FileBlock.listing? := hl ▸ List.mem_singleton_self l
  obtain ⟨b, hb, hbl⟩ := List.mem_filterMap.mp hmem
  exact hall b hb l hbl

end Format

/-! ### The store is well-formed -/

namespace Listing

variable {l : Listing} {r : Record} {w : TypeRecord → List (SymbolId × SymbolId)}

/-- What a record mentions is among the names of the listing. -/
lemma Ordered.contains (h : Ordered w l.records) (hr : r ∈ l.records) :
    ∀ x ∈ r.mentioned w, l.store.symbols.contains x = true := by
  intro x hx
  obtain ⟨before, after, hsplit⟩ := List.append_of_mem hr
  have hrange := h.inRange before r after hsplit x hx
  have hle : (Listing.names before).length ≤ (Listing.names l.records).length := by
    rw [hsplit, Listing.names, Listing.names, List.filterMap_append, List.length_append]
    exact Nat.le_add_right _ _
  exact (contains_store h.names).mpr ⟨hrange.1, Nat.le_trans hrange.2 hle⟩

lemma mem_functions_of_function?_store {f : FunctionSummary} (h : l.store.function? id = some f) :
    f ∈ functions l.records := by
  rw [Store.function?, store, IdMap.get?_ofList] at h
  obtain ⟨g, hg, heq⟩ := List.mem_map.mp (List.mem_reverse.mp (IdMap.mem_of_valueAt h))
  cases heq
  exact hg

lemma Ordered.wellFormed_store (h : Ordered TypeRecord.keptWitnesses l.records) :
    l.store.WellFormed := by
  constructor
  · intro id f hf
    obtain ⟨r, hr, hrf⟩ := List.mem_filterMap.mp (mem_functions_of_function?_store hf)
    cases r <;> cases hrf
    exact ⟨id_eq_of_function?_store id f hf, h.contains hr⟩
  · intro id u hu
    obtain ⟨t, ht, hid, rfl⟩ := (type?_store_eq_some_iff h.types).mp hu
    obtain ⟨r, hr, hrt⟩ := List.mem_filterMap.mp ht
    cases r <;> cases hrt
    exact ⟨hid, h.contains hr⟩

end Listing

namespace SummaryFile

variable {file : SummaryFile} {w : TypeRecord → List (SymbolId × SymbolId)}

/-- The functions of a file are those listed, with their readable names. -/
lemma function?_store_eq_some_iff {f : FunctionSummary} : file.store.function? id = some f ↔
    ∃ g, file.listing.store.function? id = some g ∧ named file.debugNames g = f := by
  rw [Store.function?, store, IdMap.get?_map, Option.map_eq_some_iff]
  rfl

lemma Consistent.wellFormed_store (h : file.Consistent TypeRecord.keptWitnesses) :
    file.store.WellFormed := by
  have hlisting := h.ordered.wellFormed_store
  refine ⟨?_, hlisting.types⟩
  intro id f hf
  obtain ⟨g, hg, rfl⟩ := function?_store_eq_some_iff.mp hf
  exact ⟨(hlisting.functions hg).id_eq, (hlisting.functions hg).interned⟩

lemma flagsKnown_store (h : WholeFile bytes file) : file.store.FlagsKnown := by
  obtain ⟨payload, hsummary⟩ := h.exists_moduleSummary
  rw [Store.flagsKnown_iff]
  intro id f hf
  obtain ⟨g, hg, rfl⟩ := function?_store_eq_some_iff.mp hf
  exact (hsummary.plain g (Listing.mem_functions_of_function?_store hg)).flags

lemma Consistent.checkVtables_store (h : file.Consistent w) :
    file.store.checkVtables = .ok () :=
  (Store.checkVtables_congr rfl rfl).trans
    ((Listing.checkVtables_store h.ordered.types).mpr h.slots)

open List in
/-- The readable names of the functions are some of those in the file. -/
lemma namedFunctions_store_subperm (h : WholeFile bytes file)
    (hfile : file.Consistent TypeRecord.keptWitnesses) :
    namedFunctions file.store <+~ file.debugNames := by
  obtain ⟨payload, hsummary⟩ := h.exists_moduleSummary
  have hnodup := nodup_namedFunctions hfile.wellFormed_store
  refine List.subperm_of_subset hnodup.of_map ?_
  rintro ⟨id, name⟩ hmem
  obtain ⟨f, hf, hname⟩ := (mem_namedFunctions hfile.wellFormed_store).mp hmem
  obtain ⟨g, hg, rfl⟩ := function?_store_eq_some_iff.mp hf
  have hplain := hsummary.plain g (Listing.mem_functions_of_function?_store hg)
  rw [named, hplain.debugName, Option.or_none, Listing.id_eq_of_function?_store id g hg,
    IdMap.get?_ofList] at hname
  exact List.mem_reverse.mp (IdMap.mem_of_valueAt hname)

end SummaryFile

/-! ### The store's own file -/

/-- Readable names are not part of the module summary. -/
lemma SummaryFile.moduleSummary_store (file : SummaryFile) :
    moduleSummary file.store = moduleSummary file.listing.store := by
  have hvalues : file.store.functions.values =
      file.listing.store.functions.values.map (named file.debugNames) :=
    IdMap.values_map _ _
  rw [moduleSummary, hvalues, List.flatMap_map]
  rfl

/-- The file of a store is not longer than one that tells the store. -/
lemma SummaryFile.length_encode_store_le {file : SummaryFile} (h : WholeFile bytes file)
    (hfile : file.Consistent TypeRecord.keptWitnesses) :
    (file.store.encode true).length ≤ bytes.length := by
  have hnames := length_nameBlock_mono
    (length_flatMap_le_of_subperm (namedFunctions_store_subperm h hfile) writtenName)
  rw [Store.encode, if_pos rfl, debugNames_eq, moduleSummary_store]
  obtain @⟨version, rest, blocks, l, hversion, hblocks, hl⟩ := h
  have hversion := hversion.length_encode_le
  have hblocks := Shortest.block.sequence hblocks
  have hwritten := length_written_blocks_le blocks
  rw [hl, List.flatMap_singleton] at hwritten
  dsimp only at hnames hwritten ⊢
  simp only [List.length_append]
  omega

/-- Whatever is read is valid: functions and types are filed under their own ids and mention
interned symbols only, no name is listed twice, there are no flags but those in use, and no vtable
is short. The file of the store is not longer than the bytes that were read, and reads back as the
store, so that it is the one form in which reading and writing settle. Lengths are stored in 64
bits, and the bytes are no more than these can tell. -/
theorem Store.canonical_of_decode_eq_ok (h : Store.decode bytes = .ok s) :
    (∀ id f, s.function? id = some f → f.id = id ∧
      ∀ x ∈ f.mentioned, s.symbols.contains x = true ∧ x ≠ .absent) ∧
    (∀ id t, s.type? id = some t → t.id = id ∧
      ∀ x ∈ t.mentioned, s.symbols.contains x = true ∧ x ≠ .absent) ∧
    s.symbols.names.Nodup ∧ s.FlagsKnown ∧ s.checkVtables = .ok () ∧
    (s.encode true).length ≤ bytes.length ∧
    (bytes.length < 2 ^ 64 → Store.decode (s.encode true) = .ok s) := by
  obtain ⟨file, hfile, hconsistent, rfl⟩ := Store.decode_eq_ok_iff.mp h
  have hs := hconsistent.wellFormed_store
  have hflags := SummaryFile.flagsKnown_store hfile
  have hvtables := hconsistent.checkVtables_store
  have hlen := SummaryFile.length_encode_store_le hfile hconsistent
  refine ⟨?_, ?_, file.store.symbols.nodup, hflags, hvtables, hlen, ?_⟩
  · intro id f hf
    have hfits := hs.functions hf
    exact ⟨hfits.id_eq, fun x hx =>
      ⟨hfits.interned x hx, SymbolTable.ne_absent_of_contains (hfits.interned x hx)⟩⟩
  · intro id t ht
    have hfits := hs.types ht
    exact ⟨hfits.id_eq, fun x hx =>
      ⟨hfits.interned x hx, SymbolTable.ne_absent_of_contains (hfits.interned x hx)⟩⟩
  · intro hbytes
    rw [hs.decode_encode hflags true (lt_of_le_of_lt hlen hbytes), hvtables]
    rfl

/-- A file with a version in two bytes, an unknown block, its readable names first and one of them
twice, bytes after the metadata, an unknown flag, an unknown record, and a witness that is not kept.
The file of its store is another. -/
theorem Store.canonical_of_decode_spacious_file :
    let bytes : List UInt8 := [0x4D, 0x4F, 0x44, 0x53, 0x81, 0, 7, 2, 8, 8,
      9, 13, 1, 3, 1, 1, 0x78, 5, 1, 0, 1, 3, 1, 1, 0x79,
      8, 28, 1, 4, 0, 1, 0x6D, 0xFF, 2, 2, 1, 0x54, 3, 3, 1, 10, 0, 0xC8, 1, 0,
      4, 8, 1, 0, 0, 2, 1, 9, 1, 1]
    let s := performAll "m" [.intern "T",
      .insertFunction { id := ⟨1⟩, flags := { preserved := true } },
      .setDebugName ⟨1⟩ (some "y"),
      .insertType { id := ⟨1⟩, witnesses := .ofList [(⟨1⟩, ⟨1⟩)] }]
    Store.decode bytes = .ok s ∧ s.encode true ≠ bytes ∧ Store.decode (s.encode true) = .ok s := by
  intro bytes s
  have hread : Store.decode bytes = .ok s := by decide +kernel
  exact ⟨hread, by decide +kernel,
    (canonical_of_decode_eq_ok hread).2.2.2.2.2.2 (by decide)⟩

end LinkSummary
