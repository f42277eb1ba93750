import LinkSummary.Proofs.Binary.Canonical

/-!
# How much can be read from how many bytes

A count in a file can be far larger than the file. But every item takes a byte, and so does every
frame: a loop ends with the bytes of its frame, whatever the count. What a store holds is read from
bytes of its own, so that it is no larger than the file. Of entries that replace one another only
the last is held, which is why the file that would be written for the store is what is measured.
-/

namespace LinkSummary

open Format Layout

variable {α : Type} {item : Reader α} {c c' : Cursor} {count : Nat}

/-! ### Loops -/

/-- A reader takes a byte or more, or else fails. -/
def Consumes (r : Reader α) : Prop :=
  ∀ c a c', r c = .ok (a, c') → c'.rest.length < c.rest.length

lemma Recognizes.consumes {r : Reader α} {F : Format α} (h : Recognizes r F)
    (hF : ∀ bytes a, F bytes a → bytes ≠ []) : Consumes r := by
  intro c a c' hread
  obtain ⟨bytes, hrest, -, ha⟩ := (h c a c').mp hread
  have hpos := List.length_pos_iff.mpr (hF bytes a ha)
  rw [hrest, List.length_append]
  omega

namespace Consumes

lemma symbol : Consumes Cursor.symbol :=
  Recognizes.symbol.consumes fun _ _ h => h.spells.digits.ne_nil

lemma readCall : Consumes Layout.readCall := by
  refine Recognizes.call.consumes ?_
  rintro _ _ @⟨_, _, _, _, _, _, hkind, -, -⟩
  exact List.append_ne_nil_of_left_ne_nil hkind.digits.ne_nil _

lemma readWitness : Consumes Layout.readWitness := by
  refine Recognizes.witness.consumes ?_
  rintro _ _ ⟨hrequirement, -⟩
  exact List.append_ne_nil_of_left_ne_nil hrequirement.spells.digits.ne_nil _

lemma frame : Consumes Cursor.frame :=
  fun _ _ _ => Cursor.frame_shorter

/-- The items of a list take as many bytes as they are, or more. -/
lemma count_le (hitem : Consumes item) {items : List α}
    (h : Cursor.repeated item count c = .ok (items, c')) :
    items.length = count ∧ count + c'.rest.length ≤ c.rest.length := by
  induction count generalizing c c' items with
  | zero =>
    cases h
    exact ⟨rfl, (Nat.zero_add _).le⟩
  | succ count ih =>
    obtain ⟨⟨first, c₁⟩, hfirst, h⟩ := Cursor.bind_eq_ok_iff.mp h
    obtain ⟨⟨others, c₂⟩, hothers, h⟩ := Cursor.bind_eq_ok_iff.mp h
    cases h
    obtain ⟨hlength, hle⟩ := ih hothers
    have hshorter := hitem c first c₁ hfirst
    exact ⟨congrArg (· + 1) hlength, by omega⟩

/-- More items than bytes cannot be read. -/
lemma exists_error (hitem : Consumes item) (h : c.rest.length < count) :
    ∃ e, Cursor.repeated item count c = .error e := by
  cases hread : Cursor.repeated item count c with
  | error e => exact ⟨e, rfl⟩
  | ok p =>
    have hle := (hitem.count_le hread).2
    omega

/-- Whether there are to be a few items too many or very many, reading ends at the same one. -/
lemma repeated_congr (hitem : Consumes item) {count' : Nat} (h : c.rest.length < count)
    (hle : count ≤ count') : Cursor.repeated item count' c = Cursor.repeated item count c := by
  -- the first item takes a byte, so that there are still too many for the rest
  induction count generalizing c count' with
  | zero => cases h
  | succ count ih =>
    obtain ⟨count', rfl⟩ := Nat.exists_eq_add_one.mpr (Nat.lt_of_lt_of_le (Nat.succ_pos count) hle)
    simp only [Cursor.repeated, Bind.bind, StateT.bind]
    cases hfirst : item c with
    | error e => rfl
    | ok p =>
      have hshorter := hitem c p.1 p.2 hfirst
      have hothers := ih (c := p.2) (by omega) (Nat.le_of_succ_le_succ hle)
      simp only [Except.bind, hothers]

/-- No more items are begun than there are bytes, and one that fails. -/
lemma repeated_eq_min (hitem : Consumes item) (count : Nat) (c : Cursor) :
    Cursor.repeated item count c = Cursor.repeated item (min count (c.rest.length + 1)) c := by
  rcases Nat.le_total count (c.rest.length + 1) with hle | hle
  · rw [Nat.min_eq_left hle]
  · rw [Nat.min_eq_right hle]
    exact hitem.repeated_congr (Nat.lt_succ_self _) hle

end Consumes

/-- There are no more frames than bytes. -/
lemma Cursor.length_frames_le (c : Cursor) : c.frames.1.length ≤ c.rest.length := by
  induction c using frames_induction with
  | nil c hnil =>
    rw [frames_of_nil hnil]
    exact Nat.zero_le _
  | error c e hne hframe =>
    rw [frames_of_error hne hframe]
    exact Nat.zero_le _
  | cons c f c' hframe ih =>
    have hshorter := frame_shorter hframe
    rw [frames_of_frame hframe, List.length_cons]
    omega

/-! ### What a store holds -/

/-- The symbols, functions, types, calls, slots and witnesses of a store, and the bytes of its texts
in UTF-8. -/
def Store.contentSize (s : Store) : Nat :=
  s.symbols.size + s.functions.size + s.types.size +
    (s.functions.values.map (·.calls.length)).sum +
    (s.types.values.map (·.slots.length)).sum +
    (s.types.values.map (·.witnesses.size)).sum +
    s.moduleName.utf8ByteSize + (s.symbols.names.map String.utf8ByteSize).sum +
    ((s.functions.values.filterMap (·.debugName)).map String.utf8ByteSize).sum

namespace Layout

lemma utf8ByteSize_le_length_text (name : String) : name.utf8ByteSize ≤ (text name).length := by
  rw [text, sized, List.length_append]
  exact Nat.le_add_left _ _

lemma length_le_length_counted (write : α → List UInt8) (hne : ∀ a, write a ≠ [])
    (items : List α) : items.length ≤ (counted write items).length := by
  have hle : items.length ≤ (items.flatMap write).length :=
    Reads.length_le_length_flatMap fun a _ => hne a
  rw [counted, List.length_append]
  omega

lemma length_calls_le (f : FunctionSummary) : f.calls.length ≤ (function f).length := by
  have hcalls := length_le_length_counted call call_ne_nil f.calls
  simp only [function, List.length_append]
  omega

lemma length_tables_le (t : TypeSummary) :
    t.slots.length + t.witnesses.size ≤ (type t).length := by
  have hslots := length_le_length_counted symbol symbol_ne_nil t.slots
  have hwitnesses := length_le_length_counted
    (fun w : SymbolId × SymbolId => symbol w.1 ++ symbol w.2)
    (fun w => List.append_ne_nil_of_left_ne_nil (symbol_ne_nil w.1) _) t.witnesses.entries
  simp only [type, List.length_append, IdMap.size]
  omega

end Layout

/-- Items that take some bytes each take the sum of them. -/
lemma sum_map_le_length_flatMap (weight : α → Nat) (write : α → List UInt8)
    (h : ∀ a, weight a ≤ (write a).length) (items : List α) :
    (items.map weight).sum ≤ (items.flatMap write).length := by
  rw [List.length_flatMap]
  exact List.sum_le_sum fun a _ => h a

lemma sum_map_add_one (weight : α → Nat) (items : List α) :
    (items.map fun a => weight a + 1).sum = (items.map weight).sum + items.length := by
  rw [List.sum_map_add]
  simp

namespace Store

/-- What is written for the module summary takes more bytes than what is in it. -/
lemma content_le_length_moduleSummary (s : Store) :
    s.moduleName.utf8ByteSize + ((s.symbols.names.map String.utf8ByteSize).sum + s.symbols.size) +
      ((s.functions.values.map (·.calls.length)).sum + s.functions.size) +
      ((s.types.values.map fun t => t.slots.length + t.witnesses.size).sum + s.types.size) ≤
        (moduleSummary s).length := by
  have hname := utf8ByteSize_le_length_text s.moduleName
  have hmetadata := Cursor.length_lt_length_frame SummaryRecord.metadata.id
    (flag s.livenessComputed ++ text s.moduleName)
  have hnames := sum_map_le_length_flatMap (fun name => name.utf8ByteSize + 1)
    (fun name => frame SummaryRecord.symbolName.id (text name))
    (fun name => Nat.lt_of_le_of_lt (utf8ByteSize_le_length_text name)
      (Cursor.length_lt_length_frame _ _)) s.symbols.names
  have hfunctions := sum_map_le_length_flatMap (fun f => f.calls.length + 1)
    (fun f => frame SummaryRecord.function.id (function f))
    (fun f => Nat.lt_of_le_of_lt (length_calls_le f) (Cursor.length_lt_length_frame _ _))
    s.functions.values
  have htypes := sum_map_le_length_flatMap (fun t => t.slots.length + t.witnesses.size + 1)
    (fun t => frame SummaryRecord.type.id (type t))
    (fun t => Nat.lt_of_le_of_lt (length_tables_le t) (Cursor.length_lt_length_frame _ _))
    s.types.values
  rw [sum_map_add_one] at hnames hfunctions htypes
  rw [List.length_append] at hmetadata
  simp only [moduleSummary, List.length_append, SymbolTable.size, IdMap.size, IdMap.values,
    List.length_map] at *
  omega

lemma length_le_length_nameBlock (records : List UInt8) :
    records.length ≤ (nameBlock records).length := by
  by_cases hnil : records = []
  · rw [hnil]
    exact Nat.zero_le _
  · rw [nameBlock_of_ne_nil hnil]
    exact (Cursor.length_lt_length_frame _ _).le

lemma filterMap_debugName (s : Store) :
    s.functions.values.filterMap (·.debugName) = (namedFunctions s).map (·.2) := by
  rw [namedFunctions, List.map_filterMap]
  simp

/-- The readable names take more bytes than what is in them. -/
lemma content_le_length_debugNames (s : Store) :
    ((s.functions.values.filterMap (·.debugName)).map String.utf8ByteSize).sum ≤
      (debugNames s).length := by
  have hrecord : ∀ entry, entry.2.utf8ByteSize ≤ (writtenName entry).length := by
    intro entry
    have hname := utf8ByteSize_le_length_text entry.2
    have hframe := Cursor.length_lt_length_frame debugNameId (symbol entry.1 ++ text entry.2)
    rw [List.length_append] at hframe
    rw [writtenName]
    omega
  have hrecords := sum_map_le_length_flatMap _ writtenName hrecord (namedFunctions s)
  have hblock := length_le_length_nameBlock ((namedFunctions s).flatMap writtenName)
  rw [filterMap_debugName, List.map_map, debugNames_eq]
  exact hrecords.trans hblock

/-- A store holds no more than its file has bytes. -/
lemma contentSize_le_length_encode (s : Store) : s.contentSize ≤ (s.encode true).length := by
  have hsummary := s.content_le_length_moduleSummary
  have hnames := s.content_le_length_debugNames
  have hframe := Cursor.length_lt_length_frame Block.moduleSummary.id (moduleSummary s)
  rw [List.sum_map_add] at hsummary
  simp only [contentSize, encode, if_true, List.length_append]
  omega

end Store

/-- Reading ends with the bytes: each frame, call, slot and witness takes one or more, so that a
count decides no more than how many of them are read before an error. And what is read into a store
is no more than the bytes. -/
theorem Store.contentSize_le_of_decode (bytes : List UInt8) :
    (Consumes Cursor.frame ∧ Consumes readCall ∧ Consumes Cursor.symbol ∧ Consumes readWitness) ∧
    (∀ c : Cursor, c.frames.1.length ≤ c.rest.length) ∧
    (∀ (α : Type) (item : Reader α), Consumes item → ∀ count c,
      Cursor.repeated item count c = Cursor.repeated item (min count (c.rest.length + 1)) c ∧
        (c.rest.length < count → ∃ e, Cursor.repeated item count c = .error e)) ∧
    ∀ s, Store.decode bytes = .ok s → s.contentSize ≤ bytes.length := by
  refine ⟨⟨.frame, .readCall, .symbol, .readWitness⟩, Cursor.length_frames_le, ?_, ?_⟩
  · exact fun α item hitem count c => ⟨hitem.repeated_eq_min count c, hitem.exists_error⟩
  · intro s h
    -- the file that would be written for the store lies between the two
    obtain ⟨file, hfile, hconsistent, rfl⟩ := Store.decode_eq_ok_iff.mp h
    exact (contentSize_le_length_encode _).trans
      (SummaryFile.length_encode_store_le hfile hconsistent)

/-- A function that is said to have `2 ^ 64 - 1` calls and has one. -/
example : Store.decode [0x4D, 0x4F, 0x44, 0x53, 1, 8, 26, 1, 3, 0, 1, 0x6D, 2, 2, 1, 0x66,
    3, 15, 1, 0, 0xFF, 0xFF, 0xFF, 0xFF, 0xFF, 0xFF, 0xFF, 0xFF, 0xFF, 1, 0, 1, 0] =
      .error (.truncated 33 1 0) := by
  decide +kernel

end LinkSummary
