import LinkSummary.Proofs.Binary.Confined

/-!
# Errors lie in their frames

A cursor is begun over the whole file, over the payload of a block or over that of a record.
Wherever it stands, what it has left are the bytes of the file from there to the end of the frame.
So an error lies within each frame that is being read when it is found, and bytes are found to be
too few exactly at the end of the file or of a frame.
-/

namespace LinkSummary

open Layout

variable {α σ : Type} {file : List UInt8} {c c' w : Cursor} {f block : Frame} {e : DecodeError}

/-! ### Frames in sequence -/

namespace Cursor

variable {step : σ → Frame → Except DecodeError σ} {start last : σ}

lemma movesTo_of_frame (hmoves : w.MovesTo c) (h : frame c = .ok (f, c')) : w.MovesTo c' :=
  hmoves.trans ((Confined.frame c).moves f c' h)

/-- The frames from a place on lie between there and the end. -/
lemma bounds_of_mem_frames (h : f ∈ c.frames.1) :
    c.offset ≤ f.offset ∧ f.offset ≤ f.payload.offset ∧ f.stop ≤ c.stop ∧
      f.payload.PartOf c := by
  obtain ⟨hframes, -⟩ := frames_spec (fun _ _ _ => movesTo_of_frame (w := c)) .refl
  obtain ⟨c₁, c₂, hmoves, hframe⟩ := hframes f h
  obtain ⟨hoffset, hle, hstop, hpart⟩ := frame_bounds hframe
  obtain ⟨hpart₁, hstop₁⟩ := hmoves.partOf
  exact ⟨hoffset ▸ hpart₁.offset_le, hle, hstop₁ ▸ hstop, hpart.trans hpart₁⟩

lemma found_of_frames_fault (h : c.frames.2 = some e) : FoundIn c.offset c.stop e := by
  obtain ⟨-, hfault⟩ := frames_spec (fun _ _ _ => movesTo_of_frame (w := c)) .refl
  obtain ⟨c₁, hmoves, hframe⟩ := hfault e h
  exact ((Confined.frame c₁).mono hmoves).found e hframe

/-- An error in a sequence of frames is found between the frames or in dealing with one. -/
lemma found_of_foldFrames (h : foldFrames step start c = .error e) :
    FoundIn c.offset c.stop e ∨ ∃ f ∈ c.frames.1, ∃ s, step s f = .error e :=
  (foldFrames_eq_error h).symm.imp_left found_of_frames_fault

end Cursor

/-! ### Frames one by one -/

lemma Frame.payload_offset_le_stop (f : Frame) : f.payload.offset ≤ f.stop :=
  Nat.le_add_right _ _

/-- A fault that is told at the beginning of a frame. -/
lemma FoundIn.atFrame (hf : f.offset ≤ f.payload.offset) (hoffset : e.offset = f.offset)
    (hcause : ∀ offset needed available, e ≠ .truncated offset needed available) :
    FoundIn f.offset f.stop e :=
  ⟨hoffset.ge, hoffset ▸ hf.trans f.payload_offset_le_stop, fun _ _ _ h => absurd h (hcause _ _ _)⟩

lemma FoundIn.ofAccepted {answer : Except SummaryError α} (hf : f.offset ≤ f.payload.offset)
    (h : accepted f.offset answer = .error e) : FoundIn f.offset f.stop e := by
  cases answer <;> cases h
  exact .atFrame hf rfl nofun

lemma FoundIn.ofReader {r : Reader α} (hf : f.offset ≤ f.payload.offset)
    (hr : ∀ c, Confined c (r c)) (h : r f.payload = .error e) : FoundIn f.offset f.stop e :=
  ((hr f.payload).found e h).mono hf

lemma found_of_addRecord {s : Store} (hf : f.offset ≤ f.payload.offset)
    (h : addRecord s f = .error e) : FoundIn f.offset f.stop e := by
  rw [addRecord] at h
  split at h
  · cases h
    exact .atFrame hf rfl nofun
  · rcases Cursor.bind_eq_error_iff.mp h with htext | ⟨p, -, hname⟩
    · exact .ofReader hf Confined.text htext
    · dsimp only at hname
      split at hname <;> cases hname
      exact .atFrame hf rfl nofun
  · rcases Cursor.bind_eq_error_iff.mp h with hread | ⟨p, -, hinsert⟩
    · exact .ofReader hf Confined.readFunction hread
    · exact .ofAccepted hf hinsert
  · rcases Cursor.bind_eq_error_iff.mp h with hread | ⟨p, -, hinsert⟩
    · exact .ofReader hf Confined.readType hread
    · exact .ofAccepted hf hinsert
  · cases h

lemma found_of_addDebugName {names : List PendingName} (hf : f.offset ≤ f.payload.offset)
    (h : addDebugName names f = .error e) : FoundIn f.offset f.stop e := by
  rw [addDebugName] at h
  split at h
  · rcases Cursor.bind_eq_error_iff.mp h with hread | ⟨p, -, ⟨⟩⟩
    exact .ofReader hf (Confined.readDebugName f.offset) hread
  · cases h

/-! ### Blocks -/

/-- An error is found in a block outside its records, or in one of these. -/
def FoundInBlock (block : Frame) (e : DecodeError) : Prop :=
  FoundIn block.offset block.stop e ∨
    ∃ record ∈ block.payload.frames.1, FoundIn record.offset record.stop e

lemma found_of_readModuleSummary (hblock : block.offset ≤ block.payload.offset)
    (h : readModuleSummary block = .error e) : FoundInBlock block e := by
  rw [readModuleSummary] at h
  split at h
  · cases h
    exact .inl (.atFrame hblock rfl nofun)
  rcases Cursor.bind_eq_error_iff.mp h with hframe | ⟨⟨record, others⟩, hframe, h⟩
  · exact .inl (.ofReader hblock Confined.frame hframe)
  have hframes := Cursor.frames_of_frame hframe
  have hrecord : record ∈ block.payload.frames.1 := hframes ▸ List.mem_cons_self
  have hle := (Cursor.bounds_of_mem_frames hrecord).2.1
  have hmoves : block.payload.MovesTo others := Cursor.movesTo_of_frame .refl hframe
  dsimp only at h
  split at h
  · cases h
    exact .inr ⟨record, hrecord, .atFrame hle rfl nofun⟩
  rcases Cursor.bind_eq_error_iff.mp h with hread | ⟨⟨start, _⟩, -, h⟩
  · exact .inr ⟨record, hrecord, .ofReader hle Confined.readMetadata hread⟩
  rcases Cursor.bind_eq_error_iff.mp h with hfold | ⟨s, -, h⟩
  · rcases Cursor.found_of_foldFrames hfold with hfound | ⟨f, hf, s, hs⟩
    · obtain ⟨hpart, hstop⟩ := hmoves.partOf
      have hend : others.stop = block.stop := hstop
      exact .inl (hend ▸ hfound.mono (hblock.trans hpart.offset_le))
    · have hmem : f ∈ block.payload.frames.1 := hframes ▸ List.mem_cons_of_mem record hf
      exact .inr ⟨f, hmem, found_of_addRecord (Cursor.bounds_of_mem_frames hmem).2.1 hs⟩
  rcases Cursor.bind_eq_error_iff.mp h with hcheck | ⟨_, -, ⟨⟩⟩
  exact .inl (.ofAccepted hblock hcheck)

lemma found_of_addBlock {contents : Contents} (hblock : block.offset ≤ block.payload.offset)
    (h : addBlock contents block = .error e) : FoundInBlock block e := by
  rw [addBlock] at h
  split at h
  · split at h
    · cases h
      exact .inl (.atFrame hblock rfl nofun)
    · rcases Cursor.bind_eq_error_iff.mp h with hread | ⟨s, -, ⟨⟩⟩
      exact found_of_readModuleSummary hblock hread
  · rcases Cursor.bind_eq_error_iff.mp h with hfold | ⟨names, -, ⟨⟩⟩
    rcases Cursor.found_of_foldFrames hfold with hfound | ⟨f, hf, names, hnames⟩
    · exact .inl (hfound.mono hblock)
    · exact .inr ⟨f, hf, found_of_addDebugName (Cursor.bounds_of_mem_frames hf).2.1 hnames⟩
  · cases h

/-! ### Files -/

/-- The blocks of a file. -/
def BlockIn (file : List UInt8) (f : Frame) : Prop :=
  ∃ blocks, readHeader (.ofBytes file) = .ok ((), blocks) ∧ f ∈ blocks.frames.1

/-- The records in the blocks of a file that are read. -/
def RecordIn (file : List UInt8) (f : Frame) : Prop :=
  ∃ block, BlockIn file block ∧ (Block.ofId? block.id).isSome ∧ f ∈ block.payload.frames.1

def FrameIn (file : List UInt8) (f : Frame) : Prop := BlockIn file f ∨ RecordIn file f

/-- The cursors that are begun when a file is read. -/
inductive Window (file : List UInt8) : Cursor → Prop
  | file : Window file (.ofBytes file)
  | frame {f : Frame} : FrameIn file f → Window file f.payload

/-- An error that is found in the header or between the blocks, or in the end. -/
inductive FoundOutside (file : List UInt8) : DecodeError → Prop
  | header {e : DecodeError} : readHeader (.ofBytes file) = .error e → FoundOutside file e
  | betweenBlocks {blocks : Cursor} {e : DecodeError} :
      readHeader (.ofBytes file) = .ok ((), blocks) → blocks.frames.2 = some e →
        FoundOutside file e
  | missingSummary : FoundOutside file (.malformedHeader file.length .missingSummary)

/-- An error that is found while a block is read, while a record is read, or when the readable name
in a record is attached. -/
inductive FoundWhileReading (file : List UInt8) : Frame → DecodeError → Prop
  | block {block : Frame} {contents : Contents} {e : DecodeError} : BlockIn file block →
      addBlock contents block = .error e → FoundWhileReading file block e
  | metadata {record : Frame} {e : DecodeError} : RecordIn file record →
      readMetadata record.payload = .error e → FoundWhileReading file record e
  | record {record : Frame} {s : Store} {e : DecodeError} : RecordIn file record →
      addRecord s record = .error e → FoundWhileReading file record e
  | debugName {record : Frame} {names : List PendingName} {e : DecodeError} :
      RecordIn file record → addDebugName names record = .error e →
        FoundWhileReading file record e
  | attached {record : Frame} {name : PendingName} {c : Cursor} {s : Store} {e : DecodeError} :
      RecordIn file record → readDebugName record.offset record.payload = .ok (name, c) →
        attachName s name = .error e → FoundWhileReading file record e

lemma BlockIn.bounds (h : BlockIn file f) :
    f.offset ≤ f.payload.offset ∧ f.payload.PartOf (.ofBytes file) := by
  obtain ⟨blocks, hheader, hf⟩ := h
  obtain ⟨-, hle, -, hpart⟩ := Cursor.bounds_of_mem_frames hf
  have hmoves := (Confined.readHeader file).moves () blocks hheader
  exact ⟨hle, hpart.trans hmoves.partOf.1⟩

lemma RecordIn.bounds (h : RecordIn file f) :
    f.offset ≤ f.payload.offset ∧ f.payload.PartOf (.ofBytes file) := by
  obtain ⟨block, hblock, -, hf⟩ := h
  obtain ⟨-, hle, -, hpart⟩ := Cursor.bounds_of_mem_frames hf
  exact ⟨hle, hpart.trans hblock.bounds.2⟩

lemma FrameIn.bounds (h : FrameIn file f) :
    f.offset ≤ f.payload.offset ∧ f.payload.PartOf (.ofBytes file) :=
  h.elim BlockIn.bounds RecordIn.bounds

lemma Window.partOf (h : Window file w) : w.PartOf (.ofBytes file) := by
  cases h with
  | file => exact .refl _
  | frame hf => exact hf.bounds.2

lemma stop_ofBytes (file : List UInt8) : (Cursor.ofBytes file).stop = file.length :=
  Nat.zero_add _

/-- A readable name that is still to be attached comes from a record. -/
def PendingIn (file : List UInt8) (name : PendingName) : Prop :=
  ∃ record c, RecordIn file record ∧
    readDebugName record.offset record.payload = .ok (name, c)

lemma pendingIn_of_addDebugName {names names' : List PendingName} (hf : RecordIn file f)
    (hnames : ∀ name ∈ names, PendingIn file name) (h : addDebugName names f = .ok names') :
    ∀ name ∈ names', PendingIn file name := by
  rw [addDebugName] at h
  split at h
  · obtain ⟨⟨name, c⟩, hread, h⟩ := Cursor.bind_eq_ok_iff.mp h
    cases h
    exact List.forall_mem_append.mpr ⟨hnames, List.forall_mem_singleton.mpr ⟨f, c, hf, hread⟩⟩
  · cases h
    exact hnames

lemma pendingIn_of_addBlock {contents contents' : Contents} (hblock : BlockIn file block)
    (hnames : ∀ name ∈ contents.names, PendingIn file name)
    (h : addBlock contents block = .ok contents') :
    ∀ name ∈ contents'.names, PendingIn file name := by
  rw [addBlock] at h
  split at h
  · split at h
    · cases h
    · obtain ⟨s, -, h⟩ := Cursor.bind_eq_ok_iff.mp h
      cases h
      exact hnames
  · rename_i hid
    obtain ⟨names, hfold, h⟩ := Cursor.bind_eq_ok_iff.mp h
    cases h
    refine Cursor.foldFrames_induction (P := fun names => ∀ name ∈ names, PendingIn file name)
      ?_ hnames hfold
    exact fun f hf _ _ => pendingIn_of_addDebugName ⟨block, hblock, hid ▸ rfl, hf⟩
  · cases h
    exact hnames

lemma found_of_attachName {name : PendingName} {s : Store} (hf : RecordIn file f)
    (hread : readDebugName f.offset f.payload = .ok (name, c))
    (h : attachName s name = .error e) : FoundIn f.offset f.stop e := by
  obtain ⟨⟨function, c₁⟩, -, hread⟩ := Cursor.bind_eq_ok_iff.mp hread
  obtain ⟨⟨text, c₂⟩, -, hread⟩ := Cursor.bind_eq_ok_iff.mp hread
  cases hread
  exact .ofAccepted hf.bounds.1 h

lemma isSome_ofId?_of_addBlock {contents : Contents} (h : addBlock contents block = .error e) :
    (Block.ofId? block.id).isSome := by
  rw [addBlock] at h
  split at h
  · rename_i hid
    exact hid ▸ rfl
  · rename_i hid
    exact hid ▸ rfl
  · cases h

lemma FoundOutside.found (h : FoundOutside file e) : FoundIn 0 file.length e := by
  have hstart := stop_ofBytes file
  cases h with
  | header h => exact hstart ▸ (Confined.readHeader file).found e h
  | betweenBlocks hheader hfault =>
    obtain ⟨-, hstop⟩ := ((Confined.readHeader file).moves () _ hheader).partOf
    have hfound := Cursor.found_of_frames_fault hfault
    rw [hstop, hstart] at hfound
    exact hfound.mono (Nat.zero_le _)
  | missingSummary => exact ⟨Nat.zero_le _, le_refl _, nofun⟩

/-- An error is found outside the blocks, or while a block or a record is read. -/
lemma found_of_decode (h : Store.decode file = .error e) :
    FoundOutside file e ∨ ∃ f, FoundWhileReading file f e := by
  rw [Store.decode] at h
  rcases Cursor.bind_eq_error_iff.mp h with hheader | ⟨⟨⟨⟩, blocks⟩, hheader, h⟩
  · exact .inl (.header hheader)
  rcases Cursor.bind_eq_error_iff.mp h with hfold | ⟨contents, hfold, h⟩
  · rcases Cursor.foldFrames_eq_error hfold with ⟨block, hblock, contents, herror⟩ | hfault
    · exact .inr ⟨block, .block ⟨blocks, hheader, hblock⟩ herror⟩
    · exact .inl (.betweenBlocks hheader hfault)
  split at h
  · cases h
    exact .inl .missingSummary
  · -- the offset was stored when the name was read, in its record
    obtain ⟨name, hname, s, hattach⟩ := Cursor.exists_of_foldlM_eq_error h
    have hnames : ∀ name ∈ contents.names, PendingIn file name := by
      refine Cursor.foldFrames_induction
        (P := fun contents => ∀ name ∈ contents.names, PendingIn file name) ?_
        (List.forall_mem_nil _) hfold
      exact fun f hf _ _ => pendingIn_of_addBlock ⟨blocks, hheader, hf⟩
    obtain ⟨record, c, hrecord, hread⟩ := hnames name hname
    exact .inr ⟨record, .attached hrecord hread hattach⟩

/-- What is found while a frame is read lies in it or in one of the records in it. -/
lemma FoundWhileReading.found (h : FoundWhileReading file f e) :
    ∃ g, FrameIn file g ∧ f.offset ≤ g.offset ∧ g.stop ≤ f.stop ∧ FoundIn g.offset g.stop e := by
  have hself : RecordIn file f → FoundIn f.offset f.stop e →
      ∃ g, FrameIn file g ∧ f.offset ≤ g.offset ∧ g.stop ≤ f.stop ∧ FoundIn g.offset g.stop e :=
    fun hf hfound => ⟨f, .inr hf, le_refl _, le_refl _, hfound⟩
  cases h with
  | block hblock h =>
    have hle := hblock.bounds.1
    rcases found_of_addBlock hle h with hfound | ⟨record, hrecord, hfound⟩
    · exact ⟨f, .inl hblock, le_refl _, le_refl _, hfound⟩
    · obtain ⟨hlow, -, hstop, -⟩ := Cursor.bounds_of_mem_frames hrecord
      exact ⟨record, .inr ⟨f, hblock, isSome_ofId?_of_addBlock h, hrecord⟩, hle.trans hlow, hstop,
        hfound⟩
  | metadata hf h => exact hself hf (.ofReader hf.bounds.1 Confined.readMetadata h)
  | record hf h => exact hself hf (found_of_addRecord hf.bounds.1 h)
  | debugName hf h => exact hself hf (found_of_addDebugName hf.bounds.1 h)
  | attached hf hread h => exact hself hf (found_of_attachName hf hread h)

lemma FoundWhileReading.bounds (h : FoundWhileReading file f e) :
    f.offset ≤ e.offset ∧ e.offset ≤ f.stop := by
  obtain ⟨g, -, hlow, hstop, hfound⟩ := h.found
  exact ⟨hlow.trans hfound.low_le, hfound.le_high.trans hstop⟩

lemma FrameIn.stop_le (h : FrameIn file f) : f.stop ≤ file.length :=
  stop_ofBytes file ▸ h.bounds.2.stop_le

/-- No read leaves the bytes over which its cursor was begun, and these are where the file has them.
Every error lies in the file, and in every frame that is being read when it is found. Bytes that are
too few are those up to the end of the file or of a frame around the place. -/
theorem Store.decode_in_bounds (file : List UInt8) :
    (∀ w c, Window file w → w.MovesTo c →
      (file.drop w.offset).take w.rest.length = w.rest ∧ w.stop ≤ file.length ∧
        w.offset ≤ c.offset ∧ c.offset - w.offset ≤ w.rest.length ∧
          c.rest = w.rest.drop (c.offset - w.offset)) ∧
    (∀ w c c' count content, Window file w → w.MovesTo c →
      Cursor.bytes count c = .ok (content, c') → content.rest.length = count ∧
        content.rest = (file.drop c.offset).take count ∧ c.offset + count ≤ w.stop) ∧
    (∀ w c f, Window file w → w.MovesTo c → f ∈ c.frames.1 →
      w.offset ≤ f.offset ∧ f.offset ≤ f.payload.offset ∧ f.stop ≤ w.stop) ∧
    (∀ f e, FoundWhileReading file f e → f.offset ≤ e.offset ∧ e.offset ≤ f.stop) ∧
    ∀ e, Store.decode file = .error e →
      (FoundOutside file e ∨ ∃ f, FoundWhileReading file f e) ∧ e.offset ≤ file.length ∧
      ∀ offset needed available, e = .truncated offset needed available →
        available < needed ∧ (offset + available = file.length ∨
          ∃ f, FrameIn file f ∧ f.offset ≤ offset ∧ offset + available = f.stop) := by
  refine ⟨?_, ?_, ?_, fun f e h => h.bounds, ?_⟩
  · intro w c hw hmoves
    have hpart := hw.partOf
    obtain ⟨hpart', hstop⟩ := hmoves.partOf
    have hlow := hpart'.offset_le
    refine ⟨hpart.rest_eq, stop_ofBytes file ▸ hpart.stop_le, hlow, ?_, hmoves.rest_eq⟩
    rw [Cursor.stop, Cursor.stop] at hstop
    omega
  · intro w c c' count content hw hmoves hread
    obtain ⟨hcontent, hrest, hstop⟩ := Cursor.partOf_of_bytes hread
    obtain ⟨-, hcount, hoffset, hoffset'⟩ := Recognizes.bytes_eq_ok_iff.mp hread
    obtain ⟨hpart, hend⟩ := hmoves.partOf
    have hslice := (hcontent.trans (hpart.trans hw.partOf)).rest_eq
    rw [hcount, hoffset] at hslice
    refine ⟨hcount, hslice.symm, ?_⟩
    rw [← hend, ← hstop, ← hoffset']
    exact Nat.le_add_right _ _
  · intro w c f _ hmoves hf
    obtain ⟨hlow, hle, hstop, -⟩ := Cursor.bounds_of_mem_frames hf
    obtain ⟨hpart, hend⟩ := hmoves.partOf
    exact ⟨hpart.offset_le.trans hlow, hle, hend ▸ hstop⟩
  · intro e h
    have hwhere := found_of_decode h
    refine ⟨hwhere, ?_⟩
    rcases hwhere with hfound | ⟨f, hfound⟩
    · exact ⟨hfound.found.le_high, fun offset needed available heq =>
        (hfound.found.truncated offset needed available heq).imp_right .inl⟩
    · obtain ⟨g, hg, -, -, hfound⟩ := hfound.found
      refine ⟨hfound.le_high.trans hg.stop_le, ?_⟩
      rintro offset needed available rfl
      obtain ⟨hfew, hend⟩ := hfound.truncated offset needed available rfl
      exact ⟨hfew, .inr ⟨g, hg, hfound.low_le, hend⟩⟩

/-- A name of nine bytes in a record that ends after one. The bytes are too few at the end of the
record, and the file goes on. -/
example : Store.decode [0x4D, 0x4F, 0x44, 0x53, 1, 8, 9, 1, 3, 0, 1, 0x6D, 2, 2, 9, 0x54, 7, 0] =
    .error (.truncated 15 9 1) := by
  decide +kernel

end LinkSummary
