import LinkSummary.Binary.Encode
import LinkSummary.Proofs.Binary.Language
import LinkSummary.Proofs.Binary.RoundTrip
import Mathlib.Algebra.Order.Ring.Nat
import Mathlib.Data.List.Flatten
import Mathlib.Data.List.Induction
import Mathlib.Data.List.Nodup
import Mathlib.Data.List.Perm.Subperm

/-!
# Shortest spellings

What is written for a value is not longer than any bytes that spell it: numbers are written with
their digits only, nothing follows the fields of a record, and of entries with one key the last is
written. So is the file of a store no longer than any file that tells the store.
-/

namespace LinkSummary

/-! ### Numbers -/

namespace Varint

variable {bytes : List UInt8} {m n k : Nat}

lemma length_encode_pos (n : Nat) : 0 < (encode n).length :=
  List.length_pos_iff.mpr (encode_ne_nil n)

lemma length_encode_of_lt (h : n < 128) : (encode n).length = 1 := by
  rw [encode, if_pos h, List.length_singleton]

lemma length_encode_of_ge (h : ¬ n < 128) : (encode n).length = (encode (n / 128)).length + 1 := by
  rw [encode, if_neg h, List.length_cons]

/-- A number is written in as many bytes as it has digits. -/
lemma length_encode_le_iff (hk : 0 < k) : (encode n).length ≤ k ↔ n < 128 ^ k := by
  induction k generalizing n with
  | zero => cases hk
  | succ k ih =>
    by_cases hn : n < 128
    · rw [length_encode_of_lt hn]
      refine iff_of_true (by omega) (lt_of_lt_of_le hn ?_)
      exact Nat.le_self_pow (by omega) 128
    · rw [length_encode_of_ge hn, Nat.add_le_add_iff_right]
      rcases Nat.eq_zero_or_pos k with rfl | hpos
      · have hlen := length_encode_pos (n / 128)
        exact iff_of_false (by omega) (by omega)
      · rw [ih hpos, Nat.div_lt_iff_lt_mul (by decide), Nat.pow_succ]

lemma lt_pow_length_encode (n : Nat) : n < 128 ^ (encode n).length :=
  (length_encode_le_iff (length_encode_pos n)).mp (Nat.le_refl _)

lemma length_encode_mono (h : m ≤ n) : (encode m).length ≤ (encode n).length :=
  (length_encode_le_iff (length_encode_pos n)).mpr (lt_of_le_of_lt h (lt_pow_length_encode n))

/-- A sum is written in no more bytes than its summands. -/
lemma length_encode_add_le (m n : Nat) :
    (encode (m + n)).length ≤ (encode m).length + (encode n).length := by
  have hm := length_encode_pos m
  have hn := length_encode_pos n
  rw [length_encode_le_iff (by omega), Nat.pow_add]
  have hm' : 128 ≤ 128 ^ (encode m).length := Nat.le_self_pow (by omega) 128
  have hn' : 128 ≤ 128 ^ (encode n).length := Nat.le_self_pow (by omega) 128
  have hmlt := lt_pow_length_encode m
  have hnlt := lt_pow_length_encode n
  calc m + n < 128 ^ (encode m).length + 128 ^ (encode n).length := by omega
    _ ≤ 128 ^ (encode m).length * 128 ^ (encode n).length := add_le_mul (by omega) (by omega)

lemma Digits.lt_pow (h : Digits bytes n) : n < 128 ^ bytes.length := by
  induction h with
  | last hsmall => simpa using hsmall
  | more hbig hdigits ih =>
    rw [List.length_cons, Nat.pow_succ]
    omega

/-- No spelling of a number is shorter than the one written. -/
lemma Spells.length_encode_le (h : Spells bytes n) : (encode n).length ≤ bytes.length :=
  (length_encode_le_iff (List.length_pos_iff.mpr h.digits.ne_nil)).mpr h.digits.lt_pow

lemma Spells.length_encode_le_of_le (h : Spells bytes n) (hm : m ≤ n) :
    (encode m).length ≤ bytes.length :=
  Nat.le_trans (length_encode_mono hm) h.length_encode_le

end Varint

/-! ### Lists of entries -/

open List in
lemma length_flatMap_le_of_subperm {α β : Type} {as as' : List α} (h : as <+~ as')
    (write : α → List β) : (as.flatMap write).length ≤ (as'.flatMap write).length := by
  obtain ⟨between, hperm, hsub⟩ := h
  rw [← (hperm.flatMap_right write).length_eq]
  exact (hsub.flatMap write).length_le

open List in
/-- The entries of a map are some of those that it was made of. -/
lemma IdMap.entries_ofList_subperm {α : Type} (es : List (SymbolId × α)) :
    (IdMap.ofList es).entries <+~ es := by
  have hkeys : ((IdMap.ofList es).entries.map (·.1)).Nodup := (IdMap.ofList es).keys_nodup
  refine List.subperm_of_subset hkeys.of_map ?_
  rintro ⟨k, v⟩ h
  have hget := IdMap.mem_entries_iff.mp h
  rw [IdMap.get?_ofList] at hget
  exact List.mem_reverse.mp (IdMap.mem_of_valueAt hget)

lemma SymbolTable.mem_names_ofList {names : List String} {name : String} :
    name ∈ (SymbolTable.ofList names).names ↔ name ∈ names := by
  induction names using List.reverseRecOn with
  | nil => rfl
  | append_singleton names last ih =>
    rw [SymbolTable.ofList_concat, SymbolTable.mem_names_insert, ih, List.mem_append,
      List.mem_singleton, or_comm]

open List in
/-- The names of a table are some of those that it was made of. -/
lemma SymbolTable.names_ofList_subperm (names : List String) :
    (SymbolTable.ofList names).names <+~ names :=
  List.subperm_of_subset (SymbolTable.ofList names).nodup
    fun _ h => SymbolTable.mem_names_ofList.mp h

/-- Of values with one key only one is written. -/
lemma length_flatMap_values_ofList_le {α β : Type} (entry : α → SymbolId × β) (as : List α)
    (write : β → List UInt8) :
    ((IdMap.ofList (as.map entry)).values.flatMap write).length ≤
      (as.flatMap fun a => write (entry a).2).length := by
  have hentries := length_flatMap_le_of_subperm
    (IdMap.entries_ofList_subperm (as.map entry)) fun e => write e.2
  rwa [List.flatMap_map, ← List.flatMap_map] at hentries

/-! ### Values -/

namespace Format

open Layout (SummaryRecord Block)

variable {α : Type} {F : Format α} {write : α → List UInt8} {bytes : List UInt8}

/-- What is written for a value is not longer than its spellings. -/
def Shortest (F : Format α) (write : α → List UInt8) : Prop :=
  ∀ bytes a, F bytes a → (write a).length ≤ bytes.length

namespace Shortest

lemma sequence (h : Shortest F write) {as : List α} (has : Sequence F bytes as) :
    (as.flatMap write).length ≤ bytes.length := by
  induction has with
  | nil => exact Nat.le_refl 0
  | cons ha _ ih =>
    have hfirst := h _ _ ha
    rw [List.flatMap_cons, List.length_append, List.length_append]
    omega

lemma counted (h : Shortest F write) : Shortest (Counted F) (Layout.counted write) := by
  rintro _ as ⟨hcount, has⟩
  have hnumber := hcount.length_encode_le
  have hitems := h.sequence has
  rw [Layout.counted, List.length_append, List.length_append]
  omega

lemma leading (h : Shortest F write) : Shortest (Leading F) write := by
  rintro _ a ⟨first, rest, rfl, ha⟩
  have hfirst := h _ _ ha
  rw [List.length_append]
  omega

lemma frame {number length payload written : List UInt8} {id : Nat}
    (hnumber : Varint.Spells number id) (hlength : Varint.Spells length payload.length)
    (h : written.length ≤ payload.length) :
    (Layout.frame id written).length ≤ (number ++ (length ++ payload)).length := by
  have hfirst := hnumber.length_encode_le
  have hsecond := hlength.length_encode_le_of_le h
  simp only [Layout.frame, Layout.sized, List.length_append]
  omega

/-! ### Fields -/

lemma symbol : Shortest Symbol Layout.symbol :=
  fun _ _ h => h.spells.length_encode_le

lemma text : Shortest Text Layout.text := by
  rintro _ s ⟨hlength⟩
  have hnumber := hlength.length_encode_le
  rw [Layout.text, Layout.sized, List.length_append, List.length_append]
  omega

lemma call : Shortest CallFields Layout.call := by
  rintro _ _ @⟨b₁, b₂, b₃, kind, callee, preserved, hkind, hcallee, hpreserved⟩
  have hle : (preserved != 0).toNat ≤ preserved := by
    cases preserved <;> simp
  have hfirst := hkind.length_encode_le
  have hsecond := symbol _ _ hcallee
  have hthird := hpreserved.length_encode_le_of_le hle
  simp only [Layout.call, Layout.flag, List.length_append]
  omega

lemma toNat_mod_two (n : Nat) : (n % 2 == 1).toNat = n % 2 := by
  rcases Nat.mod_two_eq_zero_or_one n with h | h <;> simp [h]

/-- The flags in use are among those stored. -/
lemma toNat_bits_known_le (flags : UInt32) :
    (FunctionFlags.ofBits flags).known.bits.toNat ≤ flags.toNat := by
  rw [FunctionFlags.toNat_bits]
  simp only [FunctionFlags.known, FunctionFlags.ofBits, toNat_mod_two]
  change _ + 8 * 0 ≤ _
  omega

lemma function : Shortest FunctionFields Layout.function := by
  rintro _ _ @⟨b₁, b₂, b₃, id, flags, calls, hid, hflags, hcalls⟩
  have hfirst := symbol _ _ hid
  have hsecond := hflags.length_encode_le_of_le (toNat_bits_known_le flags)
  have hthird := call.counted _ _ hcalls
  simp only [Layout.function, List.length_append]
  omega

lemma witness : Shortest WitnessFields fun (requirement, implementation) =>
    Layout.symbol requirement ++ Layout.symbol implementation := by
  rintro _ _ ⟨hrequirement, himplementation⟩
  have hfirst := symbol _ _ hrequirement
  have hsecond := symbol _ _ himplementation
  simp only [List.length_append]
  omega

lemma toStored_ofStored (n : UInt32) : SymbolId.toStored (SymbolId.ofStored n) = n := by
  by_cases h : n = 0 <;> simp [SymbolId.ofStored, SymbolId.toStored, h]

/-- Of a type the witnesses that are kept are written. -/
lemma type : Shortest TypeFields fun t => Layout.type t.summary := by
  rintro _ _ @⟨b₁, b₂, b₃, b₄, id, base, slots, witnesses, hid, hbase, hslots, hwitnesses⟩
  have hentries := IdMap.entries_ofList_subperm witnesses
  have hfirst := symbol _ _ hid
  have hsecond := hbase.length_encode_le
  have hthird := symbol.counted _ _ hslots
  have hfourth := witness.counted _ _ hwitnesses
  have hnumber := Varint.length_encode_mono hentries.length_le
  have hkept := length_flatMap_le_of_subperm hentries fun (requirement, implementation) =>
    Layout.symbol requirement ++ Layout.symbol implementation
  simp only [Layout.type, Layout.counted, TypeRecord.summary, toStored_ofStored,
    List.length_append] at hthird hfourth hkept ⊢
  omega

lemma metadata : Shortest MetadataFields fun (computed, moduleName) =>
    Layout.flag computed ++ Layout.text moduleName := by
  rintro _ _ @⟨b₁, b₂, flags, moduleName, hflags, hname⟩
  have hle : (flags % 2 == 1).toNat ≤ flags := by
    rw [toNat_mod_two]
    exact Nat.mod_le flags 2
  have hfirst := hflags.length_encode_le_of_le hle
  have hsecond := text _ _ hname
  simp only [Layout.flag, List.length_append]
  omega

lemma debugName : Shortest DebugNameFields fun (id, name) =>
    Layout.symbol id ++ Layout.text name := by
  rintro _ _ ⟨hid, hname⟩
  have hfirst := hid.length_encode_le
  have hsecond := text _ _ hname
  simp only [Layout.symbol, List.length_append]
  omega

end Shortest

end Format

/-! ### Records -/

open Format Layout

/-- A record after the metadata as it is written; records of other kinds are not. -/
def Record.written : Record → List UInt8
  | .name s => frame SummaryRecord.symbolName.id (text s)
  | .function f => frame SummaryRecord.function.id (Layout.function f)
  | .type t => frame SummaryRecord.type.id (Layout.type t.summary)
  | .other => []

lemma Format.Shortest.record : Shortest (Framed RecordPayload) Record.written := by
  rintro _ r ⟨hnumber, hlength, hr⟩
  cases hr with
  | name h => exact frame hnumber hlength (text.leading _ _ h)
  | function h => exact frame hnumber hlength (function.leading _ _ h)
  | type h => exact frame hnumber hlength (type.leading _ _ h)
  | other => exact Nat.zero_le _

/-- Records are written by their kinds. -/
lemma length_flatMap_written (records : List Record) :
    (records.flatMap Record.written).length =
      ((Listing.names records).flatMap fun name =>
        frame SummaryRecord.symbolName.id (text name)).length +
      ((Listing.functions records).flatMap fun f =>
        frame SummaryRecord.function.id (function f)).length +
      ((Listing.types records).flatMap fun t =>
        frame SummaryRecord.type.id (type t.summary)).length := by
  induction records with
  | nil => rfl
  | cons r records ih =>
    simp only [Listing.names, Listing.functions, Listing.types] at ih ⊢
    rw [List.flatMap_cons, List.length_append, ih]
    cases r <;>
      simp only [List.filterMap_cons, Record.name?, Record.function?, Record.type?, Record.written,
        List.flatMap_cons, List.length_append, List.length_nil] <;>
      omega

/-- The module summary of what bytes list is not longer than the bytes. -/
lemma Format.Shortest.moduleSummary :
    Shortest ModuleSummary fun l => Layout.moduleSummary l.store := by
  rintro _ _ @⟨first, others, computed, moduleName, records, ⟨hnumber, hlength, ⟨hmetadata⟩⟩,
    hrecords⟩
  have hfirst := frame hnumber hlength (metadata.leading _ _ hmetadata)
  have hothers := record.sequence hrecords
  have hnames := length_flatMap_le_of_subperm
    (SymbolTable.names_ofList_subperm (Listing.names records)) fun name =>
      Layout.frame SummaryRecord.symbolName.id (Layout.text name)
  have hfunctions := length_flatMap_values_ofList_le (fun f : FunctionSummary => (f.id, f))
    (Listing.functions records) fun f =>
      Layout.frame SummaryRecord.function.id (Layout.function f)
  have htypes := length_flatMap_values_ofList_le (fun t : TypeRecord => (t.id, t.summary))
    (Listing.types records) fun t => Layout.frame SummaryRecord.type.id (Layout.type t)
  dsimp only at hfirst hfunctions htypes
  rw [length_flatMap_written] at hothers
  simp only [Layout.moduleSummary, Listing.store, List.length_append] at hfirst ⊢
  omega

/-! ### Readable names -/

/-- A record of a readable name as it is written. -/
def writtenName (entry : SymbolId × String) : List UInt8 :=
  frame debugNameId (symbol entry.1 ++ text entry.2)

/-- The block of some records of readable names; without records there is none. -/
def nameBlock : List UInt8 → List UInt8
  | [] => []
  | records => frame Block.debugNames.id records

lemma nameBlock_of_ne_nil {records : List UInt8} (h : records ≠ []) :
    nameBlock records = frame Block.debugNames.id records := by
  rw [nameBlock]
  exact h

lemma length_nameBlock_le (records : List UInt8) :
    (nameBlock records).length ≤ (frame Block.debugNames.id records).length := by
  by_cases hnil : records = []
  · rw [hnil]
    exact Nat.zero_le _
  · rw [nameBlock_of_ne_nil hnil]

lemma length_nameBlock_mono {records records' : List UInt8} (h : records.length ≤ records'.length) :
    (nameBlock records).length ≤ (nameBlock records').length := by
  by_cases hnil : records = []
  · rw [hnil]
    exact Nat.zero_le _
  · have hpos := List.length_pos_iff.mpr hnil
    have hnumber := Varint.length_encode_mono h
    rw [nameBlock_of_ne_nil hnil, nameBlock_of_ne_nil (List.length_pos_iff.mp (by omega))]
    simp only [frame, sized, List.length_append]
    omega

/-- Two blocks of readable names take no fewer bytes than one. -/
lemma length_nameBlock_append_le (records records' : List UInt8) :
    (nameBlock (records ++ records')).length ≤
      (nameBlock records).length + (nameBlock records').length := by
  by_cases hnil : records = []
  · rw [hnil]
    exact Nat.le_add_left _ _
  · by_cases hnil' : records' = []
    · rw [hnil', List.append_nil]
      exact Nat.le_add_right _ _
    · have hnumber := Varint.length_encode_add_le records.length records'.length
      rw [nameBlock_of_ne_nil hnil, nameBlock_of_ne_nil hnil',
        nameBlock_of_ne_nil (List.append_ne_nil_of_left_ne_nil hnil _)]
      simp only [frame, sized, List.length_append]
      omega

lemma debugNames_eq (s : Store) :
    debugNames s = nameBlock ((namedFunctions s).flatMap writtenName) := by
  rw [debugNames, flatMap_debugName]
  rfl

lemma Format.Shortest.nameRecord : Shortest (Framed DebugNamePayload) fun entry =>
    entry.toList.flatMap writtenName := by
  rintro _ entry ⟨hnumber, hlength, hentry⟩
  cases hentry with
  | name h =>
    dsimp only
    rw [Option.toList_some, List.flatMap_singleton]
    exact frame hnumber hlength (debugName.leading _ _ h)
  | other => exact Nat.zero_le _

/-! ### Blocks -/

/-- A block as it is written; blocks of other kinds are not. -/
def FileBlock.written : FileBlock → List UInt8
  | .summary l => frame Block.moduleSummary.id (moduleSummary l.store)
  | .debugNames names => nameBlock (names.flatMap writtenName)
  | .other => []

lemma flatMap_toList_flatMap (entries : List (Option (SymbolId × String))) :
    (entries.flatMap fun entry => entry.toList.flatMap writtenName) =
      entries.reduceOption.flatMap writtenName := by
  rw [List.reduceOption, List.filterMap_eq_flatMap_toList, List.flatMap_assoc]
  rfl

lemma Format.Shortest.block : Shortest (Framed BlockPayload) FileBlock.written := by
  rintro _ b ⟨hnumber, hlength, hb⟩
  cases hb with
  | summary h => exact frame hnumber hlength (moduleSummary _ _ h)
  | debugNames h =>
    have hrecords := nameRecord.sequence h
    rw [flatMap_toList_flatMap] at hrecords
    exact Nat.le_trans (length_nameBlock_le _) (frame hnumber hlength hrecords)
  | other => exact Nat.zero_le _

/-- The module summaries one by one, and one block for all readable names, take no more bytes than
the blocks. -/
lemma length_written_blocks_le (blocks : List FileBlock) :
    ((blocks.filterMap FileBlock.listing?).flatMap fun l =>
        frame Block.moduleSummary.id (moduleSummary l.store)).length +
      (nameBlock ((blocks.flatMap FileBlock.names).flatMap writtenName)).length ≤
        (blocks.flatMap FileBlock.written).length := by
  induction blocks with
  | nil => exact Nat.le_refl 0
  | cons b blocks ih =>
    rw [List.flatMap_cons, List.flatMap_append, List.flatMap_cons, List.length_append]
    have hnames := length_nameBlock_append_le (b.names.flatMap writtenName)
      ((blocks.flatMap FileBlock.names).flatMap writtenName)
    cases b with
    | summary l =>
      rw [List.filterMap_cons_some (f := FileBlock.listing?) rfl, List.flatMap_cons,
        List.length_append]
      simp only [FileBlock.names, FileBlock.written, List.flatMap_nil, List.nil_append]
      omega
    | debugNames names =>
      rw [List.filterMap_cons_none rfl]
      simp only [FileBlock.names, FileBlock.written] at hnames ⊢
      omega
    | other =>
      rw [List.filterMap_cons_none rfl]
      simp only [FileBlock.names, FileBlock.written, List.flatMap_nil, List.nil_append,
        List.length_nil]
      omega

end LinkSummary
