import LinkSummary.Proofs.Binary.Accepted

/-!
# Which files are read

A file is read exactly if it is in the language of summary files and what it tells fits together.
The language gives every file one meaning. One thing is not looked at: of several witnesses for one
requirement only the last is kept, and the others may name any symbols.
-/

namespace LinkSummary

open Format Layout

variable {bytes : List UInt8} {file file' : SummaryFile} {s : Store}

/-! ### One meaning -/

namespace Format

variable {l l' : Listing}

lemma unambiguous_metadataPayload : Unambiguous MetadataPayload := by
  intro n payload metadata metadata' h h'
  have hread : ∀ metadata, MetadataPayload n payload metadata → ∃ c,
      readMetadata (.ofBytes payload) =
        .ok ({ moduleName := metadata.2, livenessComputed := metadata.1 }, c) :=
    fun _ h => leading_metadata_iff.mp (metadataPayload_iff.mp h).2
  obtain ⟨c, hc⟩ := hread metadata h
  obtain ⟨c', hc'⟩ := hread metadata' h'
  rw [hc, Except.ok.injEq, Prod.mk.injEq, Store.mk.injEq] at hc'
  exact Prod.ext hc'.1.2.1 hc'.1.1

lemma unambiguous_recordPayload : Unambiguous RecordPayload := by
  intro n payload r r' h h'
  rw [recordPayload_iff] at h h'
  match SummaryRecord.ofId? n, h, h' with
  | some .metadata, h, _ => exact h.elim
  | some .symbolName, ⟨name, hr, h⟩, ⟨name', hr', h'⟩ =>
    rw [hr, hr', Recognizes.text.leading_unique h h']
  | some .function, ⟨f, hr, h⟩, ⟨f', hr', h'⟩ =>
    rw [hr, hr', Recognizes.function.leading_unique h h']
  | some .type, ⟨t, hr, h⟩, ⟨t', hr', h'⟩ =>
    rw [hr, hr', Recognizes.typeRecord.leading_unique h h']
  | none, h, h' => exact h.trans h'.symm

lemma unambiguous_debugNamePayload : Unambiguous DebugNamePayload := by
  intro n payload entry entry' h h'
  rw [debugNamePayload_iff] at h h'
  by_cases hn : n = debugNameId
  · rw [if_pos hn] at h h'
    obtain ⟨x, rfl, h⟩ := h
    obtain ⟨x', rfl, h'⟩ := h'
    obtain ⟨p, c, hp, rfl⟩ := (leading_debugName_iff (c := .ofBytes payload) 0).mp h
    obtain ⟨p', c', hp', rfl⟩ := (leading_debugName_iff (c := .ofBytes payload) 0).mp h'
    rw [hp, Except.ok.injEq, Prod.mk.injEq] at hp'
    rw [hp'.1]
  · rw [if_neg hn] at h h'
    exact h.trans h'.symm

lemma moduleSummary_unique (h : ModuleSummary bytes l) (h' : ModuleSummary bytes l') : l = l' := by
  obtain ⟨f, c, hf⟩ := exists_frame_of_moduleSummary (c := .ofBytes bytes) h
  obtain ⟨hmetadata, hrecords⟩ := (moduleSummary_iff hf).mp h
  obtain ⟨hmetadata', hrecords'⟩ := (moduleSummary_iff hf).mp h'
  have hmeta := unambiguous_metadataPayload _ _ _ _ hmetadata hmetadata'
  have hall := sequence_framed_unique unambiguous_recordPayload hrecords hrecords'
  cases l
  cases l'
  cases hmeta
  cases hall
  rfl

lemma unambiguous_blockPayload : Unambiguous BlockPayload := by
  intro n payload b b' h h'
  rw [blockPayload_iff] at h h'
  match Block.ofId? n, h, h' with
  | some .moduleSummary, ⟨l, hb, h⟩, ⟨l', hb', h'⟩ => rw [hb, hb', moduleSummary_unique h h']
  | some .debugNames, ⟨entries, hb, h⟩, ⟨entries', hb', h'⟩ =>
    rw [hb, hb', sequence_framed_unique (c := .ofBytes payload) unambiguous_debugNamePayload h h']
  | none, h, h' => exact h.trans h'.symm

/-- A file has one meaning. -/
theorem wholeFile_unique (h : WholeFile bytes file) (h' : WholeFile bytes file') :
    file = file' := by
  obtain @⟨version, rest, blocks, l, hversion, hblocks, hl⟩ := h
  generalize hbytes : signature ++ (version ++ rest) = bytes at h'
  obtain @⟨version', rest', blocks', l', hversion', hblocks', hl'⟩ := h'
  obtain ⟨-, rfl⟩ := Recognizes.varint.append_unique hversion hversion'
    (List.append_cancel_left hbytes)
  obtain rfl := sequence_framed_unique (c := .ofBytes rest) unambiguous_blockPayload hblocks
    hblocks'
  rw [hl, List.cons.injEq] at hl'
  rw [hl'.1]

end Format

/-! ### Reading -/

lemma foldFrames_addBlock_iff {c : Cursor} {names : List (SymbolId × String)} :
    (∃ contents, Cursor.foldFrames addBlock {} c = .ok contents ∧
      contents.told = (some s, names)) ↔
      ∃ blocks l, Sequence (Framed BlockPayload) c.rest blocks ∧
        blocks.filterMap FileBlock.listing? = [l] ∧ l.store? = some s ∧
          names = blocks.flatMap FileBlock.names := by
  rw [Cursor.foldFrames_iff Contents.told addTold fun _ _ _ => addBlock_eq_ok_iff]
  refine exists_congr fun blocks => ?_
  rw [exists_and_left]
  exact and_congr_right fun _ => foldlM_addTold_of_none blocks

namespace Listing

lemma id_eq_of_function?_store {l : Listing} :
    ∀ id f, l.store.function? id = some f → f.id = id := by
  intro id f hf
  rw [Store.function?, store, IdMap.get?_ofList] at hf
  have hmem := List.mem_reverse.mp (IdMap.mem_of_valueAt hf)
  obtain ⟨g, -, heq⟩ := List.mem_map.mp hmem
  cases heq
  rfl

end Listing

/-- A file is read exactly if what it tells fits together, as the store that it tells. -/
theorem Store.decode_eq_ok_iff : Store.decode bytes = .ok s ↔
    ∃ file, WholeFile bytes file ∧ file.Consistent TypeRecord.keptWitnesses ∧ s = file.store := by
  rw [Store.decode]
  simp only [Cursor.bind_eq_ok_iff, Prod.exists, Recognizes.header _ _ _]
  constructor
  · rintro ⟨_, c, ⟨_, hbytes, -, version, rfl, hversion⟩, contents, hcontents, hs⟩
    cases hsummary : contents.summary with
    | none =>
      rw [hsummary] at hs
      cases hs
    | some start =>
      rw [hsummary] at hs
      obtain ⟨blocks, l, hblocks, hl, hstart, hnames⟩ :=
        foldFrames_addBlock_iff.mp ⟨contents, hcontents, by rw [Contents.told, hsummary]⟩
      obtain ⟨hordered, hslots, rfl⟩ := Listing.store?_eq_some_iff.mp hstart
      obtain ⟨hdefined, rfl⟩ := (foldlM_attachName_eq_ok_iff
        Listing.id_eq_of_function?_store contents.names).mp hs
      refine ⟨⟨l, blocks.flatMap FileBlock.names⟩, ?_, ⟨hordered, hslots, ?_⟩, ?_⟩
      · change bytes = _ at hbytes
        rw [hbytes, List.append_assoc]
        exact .mk hversion hblocks hl
      · rw [← hnames, List.forall_mem_map]
        exact fun p hp => Listing.definesFunction_store.mp (hdefined p hp)
      · rw [SummaryFile.store, hnames]
  · rintro ⟨_, hfile, hconsistent, rfl⟩
    obtain @⟨version, rest, blocks, l, hversion, hblocks, hl⟩ := hfile
    let c : Cursor := ⟨rest, 0 + (signature ++ version).length⟩
    have hstore : l.store? = some l.store :=
      Listing.store?_eq_some_iff.mpr ⟨hconsistent.ordered, hconsistent.slots, rfl⟩
    obtain ⟨contents, hcontents, htold⟩ :=
      (foldFrames_addBlock_iff (c := c)).mpr ⟨blocks, l, hblocks, hl, hstore, rfl⟩
    obtain ⟨hsummary, hnames⟩ := Prod.mk.inj htold
    refine ⟨(), c, ⟨signature ++ version, (List.append_assoc _ _ _).symm, rfl, version, rfl,
      hversion⟩, contents, hcontents, ?_⟩
    rw [hsummary]
    refine (foldlM_attachName_eq_ok_iff Listing.id_eq_of_function?_store contents.names).mpr
      ⟨fun p hp => ?_, by rw [SummaryFile.store, hnames]⟩
    exact Listing.definesFunction_store.mpr (hconsistent.debugNames p.entry
      (hnames ▸ List.mem_map_of_mem (f := PendingName.entry) hp))

/-! ### Witnesses that are not kept -/

namespace Listing

/-- Every implementation among the witnesses of a type is listed before the type. -/
def ImplementationsInRange (records : List Record) : Prop :=
  ∀ before t after, records = before ++ .type t :: after → ∀ witness ∈ t.witnesses,
    1 ≤ witness.2.toNat ∧ witness.2.toNat ≤ (names before).length

end Listing

namespace TypeRecord

variable {t : TypeRecord} {p : SymbolId → Prop}

lemma mem_of_mem_keptWitnesses {witness : SymbolId × SymbolId} (h : witness ∈ t.keptWitnesses) :
    witness ∈ t.witnesses := by
  have hget := IdMap.mem_entries_iff.mp h
  rw [summary, IdMap.get?_ofList] at hget
  exact List.mem_reverse.mp (IdMap.mem_of_valueAt hget)

/-- Of every requirement some witness is kept. -/
lemma exists_mem_keptWitnesses {witness : SymbolId × SymbolId} (h : witness ∈ t.witnesses) :
    ∃ implementation, (witness.1, implementation) ∈ t.keptWitnesses := by
  have hkey : witness.1 ∈ (IdMap.ofList t.witnesses).keys :=
    IdMap.mem_keys_ofList.mpr (List.mem_map_of_mem (f := (·.1)) h)
  obtain ⟨implementation, hget⟩ := IdMap.mem_keys_iff.mp hkey
  exact ⟨implementation, IdMap.mem_entries_iff.mpr hget⟩

lemma forall_mem_mentioned_iff (witnesses : List (SymbolId × SymbolId)) :
    (∀ id ∈ t.mentioned witnesses, p id) ↔
      (∀ id ∈ t.mentioned [], p id) ∧ ∀ witness ∈ witnesses, p witness.1 ∧ p witness.2 := by
  simp only [mentioned, List.forall_mem_cons, List.forall_mem_append, List.forall_mem_flatMap,
    List.flatMap_nil, List.not_mem_nil, false_imp_iff, implies_true, and_true]
  tauto

/-- All that a type mentions is so if it is for the witnesses kept and all implementations. -/
lemma forall_mem_mentioned_witnesses_iff : (∀ id ∈ t.mentioned t.witnesses, p id) ↔
    (∀ id ∈ t.mentioned t.keptWitnesses, p id) ∧ ∀ witness ∈ t.witnesses, p witness.2 := by
  rw [forall_mem_mentioned_iff t.witnesses, forall_mem_mentioned_iff t.keptWitnesses]
  constructor
  · rintro ⟨hothers, hall⟩
    exact ⟨⟨hothers, fun w hw => hall w (mem_of_mem_keptWitnesses hw)⟩, fun w hw => (hall w hw).2⟩
  · rintro ⟨⟨hothers, hkept⟩, himplementations⟩
    refine ⟨hothers, fun w hw => ⟨?_, himplementations w hw⟩⟩
    obtain ⟨implementation, hmem⟩ := exists_mem_keptWitnesses hw
    exact (hkept _ hmem).1

end TypeRecord

namespace SummaryFile

/-- What a file tells fits together with all of the witnesses if it does with those kept, and the
implementations that are not kept are in range too. -/
lemma consistent_witnesses_iff : file.Consistent TypeRecord.witnesses ↔
    file.Consistent TypeRecord.keptWitnesses ∧
      Listing.ImplementationsInRange file.listing.records := by
  constructor
  · rintro ⟨⟨hnames, hfunctions, htypes, hrange⟩, hslots, hdebug⟩
    refine ⟨⟨⟨hnames, hfunctions, htypes, fun before r after heq => ?_⟩, hslots, hdebug⟩, ?_⟩
    · have hall := hrange before r after heq
      cases r with
      | type t => exact (TypeRecord.forall_mem_mentioned_witnesses_iff.mp hall).1
      | _ => exact hall
    · intro before t after heq
      exact (TypeRecord.forall_mem_mentioned_witnesses_iff.mp (hrange before _ after heq)).2
  · rintro ⟨⟨⟨hnames, hfunctions, htypes, hrange⟩, hslots, hdebug⟩, himplementations⟩
    refine ⟨⟨hnames, hfunctions, htypes, fun before r after heq => ?_⟩, hslots, hdebug⟩
    have hkept := hrange before r after heq
    cases r with
    | type t =>
      exact TypeRecord.forall_mem_mentioned_witnesses_iff.mpr
        ⟨hkept, himplementations before t after heq⟩
    | _ => exact hkept

end SummaryFile

/-- The files that are read are those of the language in which all fits together but for witnesses
that are not kept. A file in which these fit too is one that is read and whose implementations are
all in range. -/
theorem Store.decode_eq_ok_iff_consistent (bytes : List UInt8) (s : Store) :
    (Store.decode bytes = .ok s ↔ ∃ file, WholeFile bytes file ∧
      file.Consistent TypeRecord.keptWitnesses ∧ s = file.store) ∧
    ((∃ file, WholeFile bytes file ∧ file.Consistent TypeRecord.witnesses ∧ s = file.store) ↔
      Store.decode bytes = .ok s ∧ ∃ file, WholeFile bytes file ∧
        Listing.ImplementationsInRange file.listing.records) := by
  refine ⟨Store.decode_eq_ok_iff, ?_⟩
  simp only [SummaryFile.consistent_witnesses_iff]
  constructor
  · rintro ⟨file, hfile, ⟨hconsistent, hrange⟩, hs⟩
    exact ⟨Store.decode_eq_ok_iff.mpr ⟨file, hfile, hconsistent, hs⟩, file, hfile, hrange⟩
  · rintro ⟨hread, file', hfile', hrange⟩
    obtain ⟨file, hfile, hconsistent, hs⟩ := Store.decode_eq_ok_iff.mp hread
    obtain rfl := wholeFile_unique hfile hfile'
    exact ⟨file, hfile, ⟨hconsistent, hrange⟩, hs⟩

/-- A file is read although a type in it names the symbol `9` of a single one, as an implementation
of a requirement for which it names another one later. -/
theorem Store.exists_decode_eq_ok_of_implementation_out_of_range :
    let bytes : List UInt8 := [0x4D, 0x4F, 0x44, 0x53, 1, 8, 19, 1, 3, 0, 1, 0x6D, 2, 2, 1, 0x54,
      4, 8, 1, 0, 0, 2, 1, 9, 1, 1]
    (∃ s, Store.decode bytes = .ok s) ∧
      ¬ ∃ file, WholeFile bytes file ∧ file.Consistent TypeRecord.witnesses := by
  intro bytes
  let t : TypeRecord := ⟨⟨1⟩, none, [], [(⟨1⟩, ⟨9⟩), (⟨1⟩, ⟨1⟩)]⟩
  let l : Listing := ⟨"m", false, [.name "T", .type t]⟩
  have hmetadata : MetadataPayload 1 [0, 1, 0x6D] (false, "m") :=
    .mk ((leading_metadata_iff (c := ⟨[0, 1, 0x6D], 9⟩)).mpr ⟨_, rfl⟩)
  have hname : RecordPayload 2 [1, 0x54] (.name "T") :=
    .name ((Recognizes.text.leading_iff ⟨[1, 0x54], 14⟩).mpr ⟨_, rfl⟩)
  have htype : RecordPayload 4 [1, 0, 0, 2, 1, 9, 1, 1] (.type t) :=
    .type ((Recognizes.typeRecord.leading_iff ⟨[1, 0, 0, 2, 1, 9, 1, 1], 18⟩).mpr ⟨_, rfl⟩)
  have hrecords : Sequence (Framed RecordPayload) (bytes.drop 12) [.name "T", .type t] :=
    (Cursor.sequence_framed_iff (c := ⟨bytes.drop 12, 12⟩) rfl).mpr ⟨_, _, rfl, hname,
      (Cursor.sequence_framed_iff (c := ⟨bytes.drop 16, 16⟩) rfl).mpr ⟨_, _, rfl, htype, .nil⟩⟩
  have hsummary : ModuleSummary (bytes.drop 7) l :=
    (moduleSummary_iff (c := ⟨bytes.drop 7, 7⟩) rfl).mpr ⟨hmetadata, hrecords⟩
  have hblocks : Sequence (Framed BlockPayload) (bytes.drop 5) [.summary l] :=
    (Cursor.sequence_framed_iff (c := ⟨bytes.drop 5, 5⟩) rfl).mpr
      ⟨_, _, rfl, .summary hsummary, .nil⟩
  have hfile : WholeFile bytes ⟨l, []⟩ :=
    @WholeFile.mk [1] _ _ _ ⟨.last (by decide), by decide, by decide⟩ hblocks rfl
  refine ⟨⟨SummaryFile.store ⟨l, []⟩, by decide +kernel⟩, ?_⟩
  rintro ⟨file, hfile', hconsistent⟩
  obtain rfl := wholeFile_unique hfile hfile'
  have hrange := hconsistent.ordered.inRange [.name "T"] (.type t) [] rfl ⟨9⟩ (by decide)
  exact absurd hrange.2 (by decide)

end LinkSummary
