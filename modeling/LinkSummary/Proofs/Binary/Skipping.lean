import LinkSummary.Proofs.Binary.Language
import Mathlib.Logic.Relation

/-!
# Frames that are skipped

A file may have blocks and records with ids that are not known. Such frames are put in between two
others, and the lengths of the blocks that they are put into are those of the longer payloads. The
file still tells the same store, or none: what the frames of a payload tell is told by the known
ones, one after the other, and the conditions on a file look at nothing else.
-/

namespace LinkSummary

open Format Layout

/-! ### Putting frames in -/

/-- The bytes of a frame, in any spelling of its id and length. -/
inductive FrameOf (id : Nat) (payload : List UInt8) : List UInt8 → Prop
  | mk {number length : List UInt8} :
      Varint.Spells number id → Varint.Spells length payload.length →
        FrameOf id payload (number ++ (length ++ payload))

lemma FrameOf.exists_frame {id : Nat} {payload first : List UInt8} (h : FrameOf id payload first)
    (rest : List UInt8) : ∃ f c', Cursor.frame (.ofBytes (first ++ rest)) = .ok (f, c') ∧
      f.id = id ∧ f.payload.rest = payload ∧ c'.rest = rest := by
  have hframed : Framed (fun n bytes (_ : Unit) => n = id ∧ bytes = payload) first () := by
    obtain ⟨hnumber, hlength⟩ := h
    exact .mk hnumber hlength ⟨rfl, rfl⟩
  obtain ⟨f, c', hframe, ⟨hid, hpayload⟩, hrest⟩ :=
    Cursor.exists_frame_of_framed (c := .ofBytes (first ++ rest)) rfl hframed
  exact ⟨f, c', hframe, hid, hpayload, hrest⟩

/-- Frames one after the other, whatever they contain. -/
inductive Frames : List UInt8 → Prop
  | nil : Frames []
  | cons {first others payload : List UInt8} {id : Nat} :
      FrameOf id payload first → Frames others → Frames (first ++ others)

/-- The ids of records that a block does not know. -/
def Layout.Block.Skips : Block → Nat → Prop
  | .moduleSummary, id => ∀ r : SummaryRecord, id ≠ r.id
  | .debugNames, id => id ≠ debugNameId

/-- A frame with an unknown id, and any payload, is put between two others: a block, or a record of
a known block. In a module summary the first record stays the first. -/
inductive Insertion : List UInt8 → List UInt8 → Prop
  | block {version before inserted payload after : List UInt8} {id : Nat} :
      Varint.Spells version Layout.version → Frames before → (∀ b : Block, id ≠ b.id) →
        FrameOf id payload inserted →
          Insertion (signature ++ (version ++ (before ++ after)))
            (signature ++ (version ++ (before ++ (inserted ++ after))))
  | record {version before front inserted payload back block block' after : List UInt8} {id : Nat}
      {b : Block} :
      Varint.Spells version Layout.version → Frames before → Frames front →
        (b = .moduleSummary → front ≠ []) → b.Skips id → FrameOf id payload inserted →
          FrameOf b.id (front ++ back) block → FrameOf b.id (front ++ (inserted ++ back)) block' →
            Insertion (signature ++ (version ++ (before ++ (block ++ after))))
              (signature ++ (version ++ (before ++ (block' ++ after))))

/-! ### What frames tell -/

namespace Format

variable {ι γ : Type} {P : Nat → Format ι} {view : ι → Option γ} {id : Nat} {items : List ι}
  {told : List γ} {payload payload' first first' inserted before rest rest' : List UInt8}

lemma sequence_append_iff (h : FrameOf id payload first) :
    Sequence (Framed P) (first ++ rest) items ↔ ∃ item others, items = item :: others ∧
      P id payload item ∧ Sequence (Framed P) rest others := by
  obtain ⟨f, c', hframe, rfl, rfl, rfl⟩ := h.exists_frame rest
  exact Cursor.sequence_framed_iff hframe

/-- What is seen of a payload, which may be nothing. -/
def Shows (P : Nat → Format ι) (view : ι → Option γ) (id : Nat) (payload : List UInt8)
    (seen : Option γ) : Prop :=
  ∃ item, P id payload item ∧ view item = seen

/-- What frames tell is what is seen of them, one after the other. -/
def Tells (P : Nat → Format ι) (view : ι → Option γ) (bytes : List UInt8) (told : List γ) : Prop :=
  ∃ items, Sequence (Framed P) bytes items ∧ items.filterMap view = told

lemma tells_append_iff (h : FrameOf id payload first) : Tells P view (first ++ rest) told ↔
    ∃ seen others, Shows P view id payload seen ∧ Tells P view rest others ∧
      told = seen.toList ++ others := by
  have hcons : ∀ item items, List.filterMap view (item :: items) =
      (view item).toList ++ items.filterMap view := by
    intro item items
    cases hitem : view item with
    | none => exact List.filterMap_cons_none hitem
    | some g => exact List.filterMap_cons_some hitem
  simp only [Tells, Shows, sequence_append_iff h]
  constructor
  · rintro ⟨_, ⟨item, others, rfl, hitem, hothers⟩, rfl⟩
    exact ⟨_, _, ⟨item, hitem, rfl⟩, ⟨others, hothers, rfl⟩, hcons item others⟩
  · rintro ⟨_, _, ⟨item, hitem, rfl⟩, ⟨others, hothers, rfl⟩, rfl⟩
    exact ⟨_, ⟨item, others, rfl, hitem, hothers⟩, hcons item others⟩

/-- What is told behind frames is told after what the frames tell. -/
lemma tells_append_congr (hbefore : Frames before)
    (h : ∀ told, Tells P view rest told ↔ Tells P view rest' told) :
    Tells P view (before ++ rest) told ↔ Tells P view (before ++ rest') told := by
  induction hbefore generalizing told with
  | nil => exact h told
  | cons hfirst _ ih =>
    rw [List.append_assoc, List.append_assoc, tells_append_iff hfirst, tells_append_iff hfirst]
    simp only [ih]

/-- A frame with this id may have any payload, and nothing is seen of it. -/
def Unseen (P : Nat → Format ι) (view : ι → Option γ) (id : Nat) : Prop :=
  ∀ payload seen, Shows P view id payload seen ↔ seen = none

lemma unseen_of_iff (item : ι) (hitem : view item = none)
    (h : ∀ payload item', P id payload item' ↔ item' = item) : Unseen P view id := by
  intro payload seen
  simp only [Shows, h, exists_eq_left, hitem]
  exact eq_comm

/-- A frame of which nothing is seen may stand in between. -/
lemma tells_inserted_iff (hbefore : Frames before) (hid : Unseen P view id)
    (h : FrameOf id payload inserted) :
    Tells P view (before ++ (inserted ++ rest)) told ↔ Tells P view (before ++ rest) told := by
  refine tells_append_congr hbefore fun told => ?_
  simp [tells_append_iff h, hid payload]

/-- A frame may be replaced by another of which the same is seen. -/
lemma tells_replaced_iff (hbefore : Frames before) (h : FrameOf id payload first)
    (h' : FrameOf id payload' first')
    (hsame : ∀ seen, Shows P view id payload seen ↔ Shows P view id payload' seen) :
    Tells P view (before ++ (first ++ rest)) told ↔
      Tells P view (before ++ (first' ++ rest)) told := by
  refine tells_append_congr hbefore fun told => ?_
  simp only [tells_append_iff h, tells_append_iff h', hsame]

end Format

/-! ### The known records -/

/-- A record, if its kind is known. -/
def Record.known? : Record → Option Record
  | .other => none
  | r => some r

namespace Listing

variable {l : Listing} {records : List Record} {r : Record}
  {w : TypeRecord → List (SymbolId × SymbolId)}

/-- A listing without the records of unknown kinds. -/
def known (l : Listing) : Listing := { l with records := l.records.filterMap Record.known? }

lemma filterMap_known {α : Type} {g : Record → Option α} (hg : g .other = none)
    (records : List Record) :
    (records.filterMap Record.known?).filterMap g = records.filterMap g := by
  rw [List.filterMap_filterMap]
  apply List.filterMap_congr
  intro r _
  cases r with
  | other => exact hg.symm
  | _ => rfl

lemma names_known : names (records.filterMap Record.known?) = names records :=
  filterMap_known rfl records

lemma functions_known : functions (records.filterMap Record.known?) = functions records :=
  filterMap_known rfl records

lemma types_known : types (records.filterMap Record.known?) = types records :=
  filterMap_known rfl records

lemma store_known : l.known.store = l.store := by
  simp only [store, known, names_known, functions_known, types_known]

lemma slotsCoverBases_known :
    SlotsCoverBases (records.filterMap Record.known?) ↔ SlotsCoverBases records := by
  simp only [SlotsCoverBases, types_known]

/-- What may follow depends on the names, functions and types so far. -/
lemma MayFollow.congr {records' : List Record} (h : MayFollow w records r)
    (hnames : names records' = names records) (hfunctions : functions records' = functions records)
    (htypes : types records' = types records) : MayFollow w records' r := by
  obtain ⟨hname, hfunction, htype, hrange⟩ := h
  exact ⟨hnames ▸ hname, hfunctions ▸ hfunction, htypes ▸ htype, hnames ▸ hrange⟩

lemma mayFollow_known :
    MayFollow w (records.filterMap Record.known?) r ↔ MayFollow w records r :=
  ⟨fun h => h.congr names_known.symm functions_known.symm types_known.symm,
    fun h => h.congr names_known functions_known types_known⟩

/-- A record of an unknown kind may stand anywhere. -/
lemma mayFollow_other : MayFollow w records .other :=
  ⟨nofun, nofun, nofun, nofun⟩

lemma ordered_known : Ordered w (records.filterMap Record.known?) ↔ Ordered w records := by
  -- from the last record on, since what may come depends on what came before
  induction records using List.reverseRecOn with
  | nil => rfl
  | append_singleton records r ih =>
    rw [List.filterMap_append, ordered_concat_iff]
    cases r with
    | other =>
      rw [List.filterMap_cons_none rfl, List.filterMap_nil, List.append_nil, ih]
      exact (and_iff_left mayFollow_other).symm
    | _ => exact ordered_concat_iff.trans (and_congr ih mayFollow_known)

end Listing

/-! ### The known blocks -/

/-- A block without what is unknown in it, if its own kind is known. -/
def FileBlock.known? : FileBlock → Option FileBlock
  | .summary l => some (.summary l.known)
  | .debugNames names => some (.debugNames names)
  | .other => none

namespace SummaryFile

variable {file : SummaryFile} {w : TypeRecord → List (SymbolId × SymbolId)}

/-- A file without the records of unknown kinds. -/
def known (file : SummaryFile) : SummaryFile := { file with listing := file.listing.known }

lemma store_known : file.known.store = file.store := by
  rw [store, store, known, Listing.store_known]

lemma consistent_known : file.known.Consistent w ↔ file.Consistent w := by
  constructor
  · rintro ⟨hordered, hslots, hnames⟩
    refine ⟨Listing.ordered_known.mp hordered, Listing.slotsCoverBases_known.mp hslots, ?_⟩
    rwa [known, Listing.known, Listing.functions_known] at hnames
  · rintro ⟨hordered, hslots, hnames⟩
    refine ⟨Listing.ordered_known.mpr hordered, Listing.slotsCoverBases_known.mpr hslots, ?_⟩
    rwa [known, Listing.known, Listing.functions_known]

end SummaryFile

namespace Format

variable {id : Nat} {bytes payload first rest version : List UInt8} {l : Listing}
  {file : SummaryFile}

lemma unseen_record (h : ∀ r : SummaryRecord, id ≠ r.id) :
    Unseen RecordPayload Record.known? id := by
  refine unseen_of_iff .other rfl fun payload r => ?_
  rw [recordPayload_iff, SummaryRecord.ofId?_eq_none_iff.mpr h]

lemma unseen_debugName (h : id ≠ debugNameId) :
    Unseen DebugNamePayload (fun entry => entry) id := by
  refine unseen_of_iff none rfl fun payload entry => ?_
  rw [debugNamePayload_iff, if_neg h]

lemma unseen_block (h : ∀ b : Block, id ≠ b.id) : Unseen BlockPayload FileBlock.known? id := by
  refine unseen_of_iff .other rfl fun payload b => ?_
  rw [blockPayload_iff, Block.ofId?_eq_none_iff.mpr h]

lemma moduleSummary_append_iff (h : FrameOf id payload first) : ModuleSummary (first ++ rest) l ↔
    MetadataPayload id payload (l.livenessComputed, l.moduleName) ∧
      Sequence (Framed RecordPayload) rest l.records := by
  obtain ⟨f, c', hframe, rfl, rfl, rfl⟩ := h.exists_frame rest
  exact moduleSummary_iff hframe

/-- What a module summary lists is its metadata, and what the records behind it tell. -/
lemma exists_known_eq_iff (h : FrameOf id payload first) :
    (∃ l', ModuleSummary (first ++ rest) l' ∧ l'.known = l) ↔
      MetadataPayload id payload (l.livenessComputed, l.moduleName) ∧
        Tells RecordPayload Record.known? rest l.records := by
  simp only [moduleSummary_append_iff h]
  constructor
  · rintro ⟨l', ⟨hmetadata, hrecords⟩, rfl⟩
    exact ⟨hmetadata, _, hrecords, rfl⟩
  · rintro ⟨hmetadata, records, hrecords, hl⟩
    refine ⟨{ l with records }, ⟨hmetadata, hrecords⟩, ?_⟩
    rw [Listing.known, hl]

lemma shows_moduleSummary_iff {seen : Option FileBlock} :
    Shows BlockPayload FileBlock.known? Block.moduleSummary.id payload seen ↔
      ∃ l, (∃ l', ModuleSummary payload l' ∧ l'.known = l) ∧ seen = some (.summary l) := by
  simp only [Shows, blockPayload_iff, Block.ofId?_id]
  constructor
  · rintro ⟨_, ⟨l, rfl, hl⟩, rfl⟩
    exact ⟨_, ⟨l, hl, rfl⟩, rfl⟩
  · rintro ⟨_, ⟨l, hl, rfl⟩, rfl⟩
    exact ⟨_, ⟨l, rfl, hl⟩, rfl⟩

lemma shows_debugNames_iff {seen : Option FileBlock} :
    Shows BlockPayload FileBlock.known? Block.debugNames.id payload seen ↔
      ∃ names, Tells DebugNamePayload (fun entry => entry) payload names ∧
        seen = some (.debugNames names) := by
  simp only [Shows, blockPayload_iff, Block.ofId?_id]
  constructor
  · rintro ⟨_, ⟨entries, rfl, hentries⟩, rfl⟩
    exact ⟨_, ⟨entries, hentries, rfl⟩, rfl⟩
  · rintro ⟨_, ⟨entries, hentries, rfl⟩, rfl⟩
    exact ⟨_, ⟨entries, rfl, hentries⟩, rfl⟩

/-- What is put into a block with an unknown id is not seen. -/
lemma shows_inserted_iff {b : Block} {front back inserted : List UInt8} (hfront : Frames front)
    (hne : b = .moduleSummary → front ≠ []) (hskip : b.Skips id) (h : FrameOf id payload inserted)
    (seen : Option FileBlock) :
    Shows BlockPayload FileBlock.known? b.id (front ++ back) seen ↔
      Shows BlockPayload FileBlock.known? b.id (front ++ (inserted ++ back)) seen := by
  cases b with
  | moduleSummary =>
    cases hfront with
    | nil => exact absurd rfl (hne rfl)
    | cons hfirst hmore =>
      simp only [shows_moduleSummary_iff, List.append_assoc, exists_known_eq_iff hfirst,
        tells_inserted_iff hmore (unseen_record hskip) h]
  | debugNames =>
    simp only [shows_debugNames_iff, tells_inserted_iff hfront (unseen_debugName hskip) h]

/-! ### Files -/

lemma wholeFile_append_iff (hversion : Varint.Spells version Layout.version) :
    WholeFile (signature ++ (version ++ rest)) file ↔
      ∃ blocks, Sequence (Framed BlockPayload) rest blocks ∧
        blocks.filterMap FileBlock.listing? = [file.listing] ∧
          file.debugNames = blocks.flatMap FileBlock.names := by
  constructor
  · intro h
    generalize hbytes : signature ++ (version ++ rest) = bytes at h
    obtain @⟨version', rest', blocks, l, hversion', hblocks, hl⟩ := h
    obtain ⟨-, rfl⟩ := Recognizes.varint.append_unique hversion hversion'
      (List.append_cancel_left hbytes)
    exact ⟨blocks, hblocks, hl, rfl⟩
  · rintro ⟨blocks, hblocks, hl, hnames⟩
    obtain ⟨l, names⟩ := file
    obtain rfl : names = _ := hnames
    exact .mk hversion hblocks hl

/-- What a file tells is what its blocks tell. -/
lemma exists_wholeFile_known_eq_iff (hversion : Varint.Spells version Layout.version) :
    (∃ file', WholeFile (signature ++ (version ++ rest)) file' ∧ file'.known = file) ↔
      ∃ blocks, Tells BlockPayload FileBlock.known? rest blocks ∧
        blocks.filterMap FileBlock.listing? = [file.listing] ∧
          file.debugNames = blocks.flatMap FileBlock.names := by
  have hlistings : ∀ blocks : List FileBlock,
      (blocks.filterMap FileBlock.known?).filterMap FileBlock.listing? =
        (blocks.filterMap FileBlock.listing?).map Listing.known := by
    intro blocks
    rw [List.filterMap_filterMap, List.map_filterMap]
    apply List.filterMap_congr
    intro b _
    cases b <;> rfl
  have hnames : ∀ blocks : List FileBlock,
      (blocks.filterMap FileBlock.known?).flatMap FileBlock.names =
        blocks.flatMap FileBlock.names := by
    intro blocks
    induction blocks with
    | nil => rfl
    | cons b blocks ih =>
      cases b with
      | debugNames names => exact congrArg (names ++ ·) ih
      | _ => exact ih
  simp only [wholeFile_append_iff hversion]
  constructor
  · rintro ⟨file', ⟨blocks, hblocks, hl, hn⟩, rfl⟩
    refine ⟨_, ⟨blocks, hblocks, rfl⟩, ?_, ?_⟩
    · rw [hlistings, hl]
      rfl
    · rw [hnames]
      exact hn
  · rintro ⟨_, ⟨blocks, hblocks, rfl⟩, hl, hn⟩
    rw [hlistings, List.map_eq_singleton_iff] at hl
    obtain ⟨l, hl, hknown⟩ := hl
    rw [hnames] at hn
    refine ⟨⟨l, file.debugNames⟩, ⟨blocks, hblocks, hl, hn⟩, ?_⟩
    rw [SummaryFile.known, hknown]

end Format

/-- Whether a file is read, and as which store, depends on what is known of it. -/
lemma Store.decode_eq_ok_iff_known {bytes : List UInt8} {s : Store} : Store.decode bytes = .ok s ↔
    ∃ file, (∃ file', WholeFile bytes file' ∧ file'.known = file) ∧
      file.Consistent TypeRecord.keptWitnesses ∧ s = file.store := by
  rw [Store.decode_eq_ok_iff]
  constructor
  · rintro ⟨file, hfile, hconsistent, hs⟩
    exact ⟨_, ⟨file, hfile, rfl⟩, SummaryFile.consistent_known.mpr hconsistent,
      hs.trans SummaryFile.store_known.symm⟩
  · rintro ⟨_, ⟨file, hfile, rfl⟩, hconsistent, hs⟩
    exact ⟨file, hfile, SummaryFile.consistent_known.mp hconsistent,
      hs.trans SummaryFile.store_known⟩

/-- A frame that is put in does not change what is known of a file. -/
lemma Insertion.exists_wholeFile_known_eq_iff {bytes bytes' : List UInt8} {file : SummaryFile}
    (h : Insertion bytes bytes') :
    (∃ file', WholeFile bytes' file' ∧ file'.known = file) ↔
      ∃ file', WholeFile bytes file' ∧ file'.known = file := by
  cases h with
  | block hversion hbefore hid hinserted =>
    simp only [Format.exists_wholeFile_known_eq_iff hversion,
      tells_inserted_iff hbefore (unseen_block hid) hinserted]
  | record hversion hbefore hfront hne hskip hinserted hblock hblock' =>
    simp only [Format.exists_wholeFile_known_eq_iff hversion,
      tells_replaced_iff hbefore hblock hblock'
        (shows_inserted_iff hfront hne hskip hinserted)]

/-- Frames with unknown ids may be put into a file, wherever a block or a record may stand and as
many as one likes. It is read as before, whatever they contain, or is refused as before. -/
theorem Store.decode_eq_ok_iff_of_insertions {bytes bytes' : List UInt8}
    (h : Relation.ReflTransGen Insertion bytes bytes') (s : Store) :
    Store.decode bytes' = .ok s ↔ Store.decode bytes = .ok s := by
  induction h with
  | refl => rfl
  | tail _ hlast ih =>
    rw [← ih, decode_eq_ok_iff_known, decode_eq_ok_iff_known]
    simp only [hlast.exists_wholeFile_known_eq_iff]

lemma Varint.spells_singleton {b : UInt8} (h : b.toNat < 128) : Varint.Spells [b] b.toNat :=
  ⟨.last h, by simp, b.toNat_lt.trans (by decide)⟩

/-- A frame whose id and length have one byte each. -/
lemma FrameOf.short {id : Nat} {b₁ b₂ : UInt8} {payload : List UInt8} (hid : b₁.toNat = id)
    (hlen : b₂.toNat = payload.length) (h₁ : b₁.toNat < 128) (h₂ : b₂.toNat < 128) :
    FrameOf id payload (b₁ :: b₂ :: payload) :=
  .mk (hid ▸ Varint.spells_singleton h₁) (hlen ▸ Varint.spells_singleton h₂)

/-- A file with a block `7` that looks like a module summary, a record `5` that looks like a name,
and an empty record `2` among the readable names is read as the file without them. -/
theorem Store.decode_eq_ok_of_three_insertions :
    let start : List UInt8 := [0x4D, 0x4F, 0x44, 0x53, 1]
    let front : List UInt8 := [1, 3, 0, 1, 0x6D]
    let back : List UInt8 := [2, 2, 1, 0x54, 3, 3, 1, 0, 0]
    let name : List UInt8 := [1, 3, 1, 1, 0x78]
    let bytes := start ++ (8 :: 14 :: (front ++ back) ++ 9 :: 5 :: name)
    let bytes' := start ++ ([7, 2, 8, 0] ++
      (8 :: 0x94 :: 0 :: (front ++ ([5, 4, 2, 2, 1, 0x55] ++ back)) ++ 9 :: 7 :: (name ++ [2, 0])))
    ∃ s, Store.decode bytes = .ok s ∧ Store.decode bytes' = .ok s := by
  intro start front back name bytes bytes'
  let block : List UInt8 := [7, 2, 8, 0]
  let record : List UInt8 := [5, 4, 2, 2, 1, 0x55]
  let summary : List UInt8 := 8 :: 14 :: (front ++ back)
  let summary' : List UInt8 := 8 :: 0x94 :: 0 :: (front ++ (record ++ back))
  have hversion : Varint.Spells [1] Layout.version := Varint.spells_singleton (by decide)
  have hblock : FrameOf 7 [8, 0] block := .short rfl rfl (by decide) (by decide)
  have hfront : Frames front :=
    @Frames.cons front [] [0, 1, 0x6D] 1 (.short rfl rfl (by decide) (by decide)) .nil
  have hname : Frames name :=
    @Frames.cons name [] [1, 1, 0x78] 1 (.short rfl rfl (by decide) (by decide)) .nil
  have hlength : Varint.Digits [0x94, 0] 20 :=
    @Varint.Digits.more 0x94 [0] 0 (by decide) (@Varint.Digits.last 0 (by decide))
  have hsummary' : FrameOf 8 (front ++ (record ++ back)) summary' :=
    @FrameOf.mk 8 (front ++ (record ++ back)) [8] [0x94, 0]
      (Varint.spells_singleton (by decide)) ⟨hlength, by decide, by decide⟩
  have hfirst : Insertion bytes (start ++ (block ++ (summary ++ 9 :: 5 :: name))) :=
    @Insertion.block [1] [] block [8, 0] (summary ++ 9 :: 5 :: name) 7 hversion .nil
      (by rintro ⟨⟩ <;> decide) hblock
  have hsecond : Insertion (start ++ (block ++ (summary ++ 9 :: 5 :: name)))
      (start ++ (block ++ (summary' ++ 9 :: 5 :: name))) :=
    @Insertion.record [1] block front record [2, 2, 1, 0x55] back summary summary' (9 :: 5 :: name)
      5 .moduleSummary hversion (.cons hblock .nil) hfront (fun _ => List.cons_ne_nil _ _)
      (by rintro ⟨⟩ <;> decide) (.short rfl rfl (by decide) (by decide))
      (.short rfl rfl (by decide) (by decide)) hsummary'
  have hthird : Insertion (start ++ (block ++ (summary' ++ 9 :: 5 :: name))) bytes' :=
    @Insertion.record [1] (block ++ (summary' ++ [])) name [2, 0] [] [] (9 :: 5 :: name)
      (9 :: 7 :: (name ++ [2, 0])) [] 2 .debugNames hversion (.cons hblock (.cons hsummary' .nil))
      hname nofun (show 2 ≠ debugNameId by decide) (.short rfl rfl (by decide) (by decide))
      (.short rfl rfl (by decide) (by decide)) (.short rfl rfl (by decide) (by decide))
  let file : SummaryFile := ⟨⟨"m", false, [.name "T", .function { id := ⟨1⟩ }]⟩, [(⟨1⟩, "x")]⟩
  have hread : Store.decode bytes = .ok file.store := by decide +kernel
  have hall := ((Relation.ReflTransGen.single hfirst).tail hsecond).tail hthird
  exact ⟨file.store, hread, (Store.decode_eq_ok_iff_of_insertions hall file.store).mpr hread⟩

end LinkSummary
