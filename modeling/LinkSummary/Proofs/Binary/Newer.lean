import LinkSummary.Proofs.Binary.Frames

/-!
# Files of newer versions

A file is refused for its version if and only if it begins with the signature and the number of a
newer version. No later step of reading blames the version.
-/

namespace LinkSummary

open Layout

variable {α β σ : Type}

/-- Whether bytes begin like a summary file of a newer version. -/
def IsNewer (bytes : List UInt8) : Prop :=
  ∃ number found rest, bytes = signature ++ (number ++ rest) ∧ Varint.Spells number found ∧
    version < found

/-- A failure, if it is one, has another reason than the version of the file. -/
def BlamesNoVersion (result : Except DecodeError α) : Prop :=
  ∀ e, result = .error e → e.needsRegeneration = false

namespace BlamesNoVersion

variable {result : Except DecodeError α} {next : α → Except DecodeError β} {r : Reader α}
  {k : α → Reader β}

/-! ### Composition -/

lemma ok (a : α) : BlamesNoVersion (.ok a) := nofun

lemma error {e : DecodeError} (h : e.needsRegeneration = false) :
    BlamesNoVersion (.error e : Except DecodeError α) := by
  rintro _ ⟨⟩
  exact h

lemma bind (h : BlamesNoVersion result) (h' : ∀ a, BlamesNoVersion (next a)) :
    BlamesNoVersion (result >>= next) := by
  cases result with
  | ok a => exact h' a
  | error e => exact error (h e rfl)

lemma foldlM {ι : Type} {step : σ → ι → Except DecodeError σ}
    (h : ∀ s i, BlamesNoVersion (step s i)) (items : List ι) (start : σ) :
    BlamesNoVersion (items.foldlM step start) := by
  induction items generalizing start with
  | nil => exact ok start
  | cons i items ih =>
    rw [List.foldlM_cons]
    exact (h start i).bind ih

lemma reader_bind (h : ∀ c, BlamesNoVersion (r c)) (h' : ∀ a c, BlamesNoVersion (k a c))
    (c : Cursor) : BlamesNoVersion ((r >>= k) c) :=
  (h c).bind fun p => h' p.1 p.2

lemma position_bind {k : Nat → Reader β} (h : ∀ offset c, BlamesNoVersion (k offset c))
    (c : Cursor) : BlamesNoVersion ((Cursor.position >>= k) c) :=
  h c.offset c

/-! ### Fields -/

lemma varint (c : Cursor) : BlamesNoVersion (Cursor.varint c) := by
  rw [Cursor.varint]
  split
  · exact ok _
  · exact error rfl
  · exact error rfl

lemma bytes (count : Nat) (c : Cursor) : BlamesNoVersion (Cursor.bytes count c) := by
  rw [Cursor.bytes]
  split
  · exact ok _
  · exact error rfl

lemma word (field : NumberField) : ∀ c, BlamesNoVersion (Cursor.word field c) := by
  refine position_bind fun offset => reader_bind varint fun value c => ?_
  split
  · exact ok _
  · exact error rfl

lemma text : ∀ c, BlamesNoVersion (Cursor.text c) := by
  refine reader_bind varint fun count => reader_bind (bytes count) fun content c => ?_
  cases Utf8.decode? content.rest with
  | some s => exact ok _
  | none => exact error rfl

lemma symbol : ∀ c, BlamesNoVersion (Cursor.symbol c) := by
  refine position_bind fun offset => reader_bind (word .symbol) fun value c => ?_
  cases SymbolId.isAbsent ⟨value⟩ with
  | true => exact error rfl
  | false => exact ok _

lemma repeated (h : ∀ c, BlamesNoVersion (r c)) (count : Nat) :
    ∀ c, BlamesNoVersion (Cursor.repeated r count c) := by
  induction count with
  | zero => exact fun c => ok _
  | succ count ih => exact reader_bind h fun _ => reader_bind ih fun _ _ => ok _

lemma counted (h : ∀ c, BlamesNoVersion (r c)) : ∀ c, BlamesNoVersion (Cursor.counted r c) :=
  reader_bind varint fun count => repeated h count

/-! ### Frames -/

lemma frame (c : Cursor) : BlamesNoVersion (Cursor.frame c) :=
  (varint c).bind fun p => (varint p.2).bind fun q => (bytes q.1 q.2).bind fun _ => ok _

lemma foldFrames {step : σ → Frame → Except DecodeError σ}
    (h : ∀ s f, BlamesNoVersion (step s f)) (start : σ) (c : Cursor) :
    BlamesNoVersion (Cursor.foldFrames step start c) := by
  intro e he
  rcases Cursor.foldFrames_eq_error he with ⟨f, -, s, hs⟩ | hfault
  · exact h s f e hs
  · obtain ⟨c', -, hframe⟩ :=
      (Cursor.frames_spec (P := fun _ => True) (fun _ _ _ _ _ => trivial) trivial).2 e hfault
    exact frame c' e hframe

/-! ### Records and blocks -/

lemma readCall : ∀ c, BlamesNoVersion (Layout.readCall c) := by
  refine position_bind fun offset => reader_bind varint fun stored => ?_
  cases CallKind.ofStored stored with
  | none => exact fun _ => error rfl
  | some kind => exact reader_bind symbol fun _ => reader_bind varint fun _ _ => ok _

lemma readFunction : ∀ c, BlamesNoVersion (Layout.readFunction c) :=
  reader_bind symbol fun _ => reader_bind (word .functionFlags) fun _ =>
    reader_bind (counted readCall) fun _ _ => ok _

lemma readWitness : ∀ c, BlamesNoVersion (Layout.readWitness c) :=
  reader_bind symbol fun _ => reader_bind symbol fun _ _ => ok _

lemma readType : ∀ c, BlamesNoVersion (Layout.readType c) :=
  reader_bind symbol fun _ => reader_bind (word .baseType) fun _ =>
    reader_bind (counted symbol) fun _ => reader_bind (counted readWitness) fun _ _ => ok _

lemma readMetadata : ∀ c, BlamesNoVersion (Layout.readMetadata c) :=
  reader_bind varint fun _ => reader_bind text fun _ _ => ok _

lemma readDebugName (offset : Nat) : ∀ c, BlamesNoVersion (Layout.readDebugName offset c) :=
  reader_bind (word .symbol) fun _ => reader_bind text fun _ _ => ok _

lemma accepted (offset : Nat) (answer : Except SummaryError α) :
    BlamesNoVersion (Layout.accepted offset answer) := by
  cases answer with
  | ok a => exact ok a
  | error e => exact error rfl

lemma addRecord (s : Store) (record : Frame) : BlamesNoVersion (Layout.addRecord s record) := by
  rw [Layout.addRecord]
  split
  · exact error rfl
  · refine (text _).bind fun p => ?_
    dsimp only
    split
    · exact error rfl
    · exact ok _
  · exact (readFunction _).bind fun p => accepted _ _
  · exact (readType _).bind fun p => accepted _ _
  · exact ok s

lemma readModuleSummary (block : Frame) : BlamesNoVersion (Layout.readModuleSummary block) := by
  rw [Layout.readModuleSummary]
  split
  · exact error rfl
  · refine (frame _).bind fun p => ?_
    dsimp only
    split
    · exact error rfl
    · exact (readMetadata _).bind fun q => (foldFrames addRecord q.1 p.2).bind fun s =>
        (accepted _ _).bind fun _ => ok s

lemma addDebugName (names : List PendingName) (record : Frame) :
    BlamesNoVersion (Layout.addDebugName names record) := by
  rw [Layout.addDebugName]
  split
  · exact (readDebugName _ _).bind fun _ => ok _
  · exact ok names

lemma addBlock (contents : Contents) (block : Frame) :
    BlamesNoVersion (Layout.addBlock contents block) := by
  rw [Layout.addBlock]
  split
  · split
    · exact error rfl
    · exact (readModuleSummary block).bind fun _ => ok _
  · exact (foldFrames addDebugName _ _).bind fun _ => ok _
  · exact ok contents

end BlamesNoVersion

/-! ### Files -/

lemma reader_bind_eq_error_iff {r : Reader α} {k : α → Reader β} {c : Cursor} {e : DecodeError} :
    (r >>= k) c = .error e ↔
      r c = .error e ∨ ∃ a c', r c = .ok (a, c') ∧ k a c' = .error e := by
  simp only [Bind.bind, StateT.bind, Except.bind]
  cases r c with
  | error e' => simp
  | ok p => simp [Prod.ext_iff]

lemma position_bind_apply {k : Nat → Reader β} {c : Cursor} :
    (Cursor.position >>= k) c = k c.offset c := rfl

variable {bytes number rest : List UInt8} {offset found : Nat}

/-- Behind the signature and a number the version is compared. -/
lemma readHeader_of_spells (hnumber : Varint.Spells number found) (hpos : found ≠ 0) :
    readHeader (.ofBytes (signature ++ (number ++ rest))) =
      if found > version then .error (.versionMismatch signature.length found)
      else .ok ((), ⟨rest, signature.length + number.length⟩) := by
  have hstart := Reads.bytes_append signature (number ++ rest) 0
  have hfound : Cursor.varint ⟨number ++ rest, signature.length⟩ =
      .ok (found, ⟨rest, signature.length + number.length⟩) :=
    (Recognizes.varint _ _ _).mpr ⟨number, rfl, rfl, hnumber⟩
  rw [Nat.zero_add] at hstart
  simp only [readHeader, Cursor.ofBytes, Bind.bind, StateT.bind, hstart, Except.bind, ne_eq,
    not_true_eq_false, if_false, Cursor.position, hfound, hpos]
  split <;> rfl

/-- The header is refused for its version exactly if it tells a newer one. -/
lemma readHeader_eq_versionMismatch_iff :
    readHeader (.ofBytes bytes) = .error (.versionMismatch offset found) ↔
      offset = signature.length ∧ version < found ∧ ∃ number rest,
        bytes = signature ++ (number ++ rest) ∧ Varint.Spells number found := by
  constructor
  · intro h
    rcases reader_bind_eq_error_iff.mp h with hstart | ⟨start, c, hstart, hrest⟩
    · cases BlamesNoVersion.bytes _ _ _ hstart
    obtain ⟨hbytes, -⟩ := Recognizes.bytes_eq_ok_iff.mp hstart
    dsimp only at hrest
    split at hrest
    · cases hrest
    rename_i hsignature
    rw [not_not] at hsignature
    rw [position_bind_apply] at hrest
    rcases reader_bind_eq_error_iff.mp hrest with hfound | ⟨found', c', hfound, hversion⟩
    · cases BlamesNoVersion.varint _ _ hfound
    obtain ⟨number, hnumber, -, hspells⟩ := (Recognizes.varint _ _ _).mp hfound
    have hsplit : bytes = signature ++ (number ++ c'.rest) := by
      rw [← hsignature, ← hnumber]
      exact hbytes
    by_cases hzero : found' = 0
    · rw [if_pos hzero] at hversion
      cases hversion
    rw [hsplit, readHeader_of_spells hspells hzero] at h
    split at h
    · rename_i hlt
      cases h
      exact ⟨rfl, hlt, number, c'.rest, hsplit, hspells⟩
    · cases h
  · rintro ⟨rfl, hlt, number, rest, rfl, hnumber⟩
    rw [readHeader_of_spells hnumber (Nat.ne_of_gt (Nat.zero_lt_of_lt hlt)), if_pos hlt]

/-- A file is refused for its version exactly if it begins like one of a newer version, whatever the
rest of it is. -/
theorem Store.decode_eq_versionMismatch_iff :
    Store.decode bytes = .error (.versionMismatch offset found) ↔
      offset = signature.length ∧ version < found ∧ ∃ number rest,
        bytes = signature ++ (number ++ rest) ∧ Varint.Spells number found := by
  rw [← readHeader_eq_versionMismatch_iff, Store.decode]
  cases readHeader (.ofBytes bytes) with
  | error e => simp only [Bind.bind, Except.bind, Except.error.injEq]
  | ok p =>
    refine iff_of_false (fun h => ?_) nofun
    have hblames : (DecodeError.versionMismatch offset found).needsRegeneration = false := by
      refine BlamesNoVersion.bind (BlamesNoVersion.foldFrames BlamesNoVersion.addBlock _ _)
        (fun contents => ?_) _ h
      cases contents.summary with
      | none => exact BlamesNoVersion.error rfl
      | some s => exact BlamesNoVersion.foldlM (fun _ _ => BlamesNoVersion.accepted _ _) _ _
    cases hblames

lemma Store.needsRegeneration_iff_isNewer {e : DecodeError} (h : Store.decode bytes = .error e) :
    e.needsRegeneration = true ↔ IsNewer bytes := by
  constructor
  · intro hnewer
    cases e with
    | versionMismatch offset found =>
      obtain ⟨-, hlt, number, rest, hbytes, hnumber⟩ := Store.decode_eq_versionMismatch_iff.mp h
      exact ⟨number, found, rest, hbytes, hnumber, hlt⟩
    | _ => cases hnewer
  · rintro ⟨number, found, rest, hbytes, hnumber, hlt⟩
    rw [Store.decode_eq_versionMismatch_iff.mpr ⟨rfl, hlt, number, rest, hbytes, hnumber⟩] at h
    cases h
    rfl

lemma Store.not_isNewer_of_decode_eq_ok {s : Store} (h : Store.decode bytes = .ok s) :
    ¬ IsNewer bytes := by
  rintro ⟨number, found, rest, hbytes, hnumber, hlt⟩
  rw [Store.decode_eq_versionMismatch_iff.mpr ⟨rfl, hlt, number, rest, hbytes, hnumber⟩] at h
  cases h

instance (bytes : List UInt8) : Decidable (IsNewer bytes) :=
  match h : Store.decode bytes with
  | .error _ => decidable_of_iff _ (Store.needsRegeneration_iff_isNewer h)
  | .ok _ => isFalse (Store.not_isNewer_of_decode_eq_ok h)

end LinkSummary
