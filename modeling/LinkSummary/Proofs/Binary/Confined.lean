import LinkSummary.Proofs.Binary.Frames
import Mathlib.Logic.Relation

/-!
# Readers stay within their bytes

A reader moves a cursor on by reading numbers and bytes, and by nothing else. So it stays within the
bytes over which the cursor was begun, and an error that it finds lies there. If bytes are too few,
it is because these have come to their end.
-/

namespace LinkSummary

variable {α β : Type} {c c' w content : Cursor} {f : Frame} {e : DecodeError} {low high : Nat}

/-! ### Places in a file -/

namespace Cursor

/-- Where the bytes of a cursor end. -/
def stop (c : Cursor) : Nat := c.offset + c.rest.length

/-- A number or some bytes are read. -/
inductive Step : Cursor → Cursor → Prop
  | varint {c c' : Cursor} {n : Nat} : varint c = .ok (n, c') → Step c c'
  | bytes {c c' content : Cursor} {count : Nat} : bytes count c = .ok (content, c') → Step c c'

/-- All that a reader does to a cursor comes down to reading numbers and bytes. -/
def MovesTo : Cursor → Cursor → Prop := Relation.ReflTransGen Step

/-- A cursor has bytes of another one, at the place where they are. -/
def PartOf (c' c : Cursor) : Prop :=
  ∃ before after, c.rest = before ++ (c'.rest ++ after) ∧ c'.offset = c.offset + before.length

namespace PartOf

lemma offset_le (h : c'.PartOf c) : c.offset ≤ c'.offset := by
  obtain ⟨before, after, -, hoffset⟩ := h
  omega

lemma stop_le (h : c'.PartOf c) : c'.stop ≤ c.stop := by
  obtain ⟨before, after, hrest, hoffset⟩ := h
  rw [stop, stop, hrest, hoffset, List.length_append, List.length_append]
  omega

lemma refl (c : Cursor) : c.PartOf c :=
  ⟨[], [], (List.append_nil _).symm, rfl⟩

lemma trans {c'' : Cursor} (h' : c''.PartOf c') (h : c'.PartOf c) : c''.PartOf c := by
  obtain ⟨before, after, hrest, hoffset⟩ := h
  obtain ⟨before', after', hrest', hoffset'⟩ := h'
  refine ⟨before ++ before', after' ++ after, ?_, ?_⟩
  · rw [hrest, hrest']
    simp only [List.append_assoc]
  · rw [hoffset', hoffset, List.length_append, Nat.add_assoc]

/-- Part of the bytes is cut out at its place. -/
lemma rest_eq (h : c'.PartOf c) :
    (c.rest.drop (c'.offset - c.offset)).take c'.rest.length = c'.rest := by
  obtain ⟨before, after, hrest, hoffset⟩ := h
  rw [hrest, hoffset, Nat.add_sub_cancel_left, List.drop_left, List.take_left]

end PartOf

lemma partOf_of_varint {n : Nat} (h : varint c = .ok (n, c')) :
    c'.PartOf c ∧ c'.stop = c.stop := by
  obtain ⟨number, hrest, hoffset, -⟩ := (Recognizes.varint c n c').mp h
  refine ⟨⟨number, [], by rw [List.append_nil, hrest], hoffset⟩, ?_⟩
  rw [stop, stop, hrest, hoffset, List.length_append, Nat.add_assoc]

lemma partOf_of_bytes {count : Nat} (h : bytes count c = .ok (content, c')) :
    content.PartOf c ∧ c'.PartOf c ∧ c'.stop = c.stop := by
  obtain ⟨hrest, rfl, hoffset, hoffset'⟩ := Recognizes.bytes_eq_ok_iff.mp h
  refine ⟨⟨[], c'.rest, hrest, hoffset⟩, ⟨content.rest, [], ?_, hoffset'⟩, ?_⟩
  · rw [List.append_nil, hrest]
  · rw [stop, stop, hrest, hoffset', List.length_append, Nat.add_assoc]

/-- A cursor moves on over its bytes, up to the same end. -/
lemma MovesTo.partOf (h : c.MovesTo c') : c'.PartOf c ∧ c'.stop = c.stop := by
  induction h with
  | refl => exact ⟨.refl c, rfl⟩
  | tail _ hstep ih =>
    cases hstep with
    | varint h =>
      obtain ⟨hpart, hstop⟩ := partOf_of_varint h
      exact ⟨hpart.trans ih.1, hstop.trans ih.2⟩
    | bytes h =>
      obtain ⟨-, hpart, hstop⟩ := partOf_of_bytes h
      exact ⟨hpart.trans ih.1, hstop.trans ih.2⟩

/-- What is left to a cursor is all that it was begun over, less what it has passed. -/
lemma MovesTo.rest_eq (h : w.MovesTo c) : c.rest = w.rest.drop (c.offset - w.offset) := by
  obtain ⟨hpart, hstop⟩ := h.partOf
  have hlow := hpart.offset_le
  rw [stop, stop] at hstop
  conv_lhs => rw [← hpart.rest_eq]
  rw [List.take_of_length_le]
  rw [List.length_drop]
  omega

end Cursor

/-- Where a frame ends. -/
def Frame.stop (f : Frame) : Nat := f.payload.stop

namespace Cursor

/-- A frame lies between the places before and behind it. -/
lemma frame_bounds (h : frame c = .ok (f, c')) :
    f.offset = c.offset ∧ f.offset ≤ f.payload.offset ∧ f.stop ≤ c.stop ∧
      f.payload.PartOf c := by
  obtain ⟨number, length, hrest, -, -, hoffset, hpayload, -⟩ := frame_eq_ok_iff.mp h
  have hpart : f.payload.PartOf c := by
    refine ⟨number ++ length, c'.rest, ?_, ?_⟩
    · rw [hrest]
      simp only [List.append_assoc]
    · rw [hpayload, List.length_append, Nat.add_assoc]
  exact ⟨hoffset, by omega, hpart.stop_le, hpart⟩

end Cursor

/-! ### Readers -/

/-- An error lies between two places; if bytes are too few, they are those up to the second. -/
structure FoundIn (low high : Nat) (e : DecodeError) : Prop where
  low_le : low ≤ e.offset
  le_high : e.offset ≤ high
  truncated : ∀ offset needed available, e = .truncated offset needed available →
    available < needed ∧ offset + available = high

lemma FoundIn.mono {low' : Nat} (h : FoundIn low' high e) (hlow : low ≤ low') :
    FoundIn low high e :=
  ⟨hlow.trans h.low_le, h.le_high, h.truncated⟩

/-- A reader that begins at `c` moves on over its bytes, and finds errors there only. -/
structure Confined (c : Cursor) (result : Except DecodeError (α × Cursor)) : Prop where
  moves : ∀ a c', result = .ok (a, c') → c.MovesTo c'
  found : ∀ e, result = .error e → FoundIn c.offset c.stop e

namespace Confined

/-! ### Composition -/

lemma ok {a : α} (h : c.MovesTo c') : Confined c (.ok (a, c')) := by
  refine ⟨?_, nofun⟩
  rintro _ _ ⟨⟩
  exact h

lemma error (h : FoundIn c.offset c.stop e) :
    Confined c (.error e : Except DecodeError (α × Cursor)) := by
  refine ⟨nofun, ?_⟩
  rintro _ ⟨⟩
  exact h

lemma mono {result : Except DecodeError (α × Cursor)} (hmoves : c.MovesTo c')
    (h : Confined c' result) : Confined c result := by
  obtain ⟨hpart, hstop⟩ := hmoves.partOf
  refine ⟨fun a c'' heq => hmoves.trans (h.moves a c'' heq), fun e heq => ?_⟩
  exact hstop ▸ (h.found e heq).mono hpart.offset_le

lemma bind {result : Except DecodeError (α × Cursor)}
    {next : α × Cursor → Except DecodeError (β × Cursor)} (h : Confined c result)
    (h' : ∀ a c', result = .ok (a, c') → c.MovesTo c' → Confined c (next (a, c'))) :
    Confined c (result >>= next) := by
  cases result with
  | error e => exact error (h.found e rfl)
  | ok p => exact h' p.1 p.2 rfl (h.moves p.1 p.2 rfl)

lemma reader_bind {r : Reader α} {k : α → Reader β} (h : ∀ c, Confined c (r c))
    (h' : ∀ a c, Confined c (k a c)) (c : Cursor) : Confined c ((r >>= k) c) :=
  (h c).bind fun a c' _ hmoves => (h' a c').mono hmoves

/-- A fault of what begins at the cursor, or of something on the way. -/
lemma fault {fault : RecordFault} (h : c.MovesTo c') :
    Confined c (.error (.malformedRecord c'.offset fault) : Except DecodeError (α × Cursor)) := by
  obtain ⟨hpart, hstop⟩ := h.partOf
  exact error ⟨hpart.offset_le, hstop ▸ Nat.le_add_right _ _, nofun⟩

/-! ### Fields -/

lemma varint (c : Cursor) : Confined c (Cursor.varint c) := by
  cases h : Cursor.varint c with
  | ok p => exact ok (.single (.varint h))
  | error e =>
    rw [Cursor.varint] at h
    split at h <;> cases h
    · refine error ⟨Nat.le_add_right _ _, le_refl _, ?_⟩
      rintro _ _ _ ⟨⟩
      exact ⟨Nat.one_pos, rfl⟩
    · exact fault .refl

lemma bytes (count : Nat) (c : Cursor) : Confined c (Cursor.bytes count c) := by
  cases h : Cursor.bytes count c with
  | ok p => exact ok (.single (.bytes h))
  | error e =>
    rw [Cursor.bytes] at h
    split at h <;> cases h
    rename_i hshort
    refine error ⟨le_refl _, Nat.le_add_right _ _, ?_⟩
    rintro _ _ _ ⟨⟩
    exact ⟨Nat.not_le.mp hshort, rfl⟩

lemma word (field : NumberField) (c : Cursor) : Confined c (Cursor.word field c) := by
  refine (varint c).bind fun value c' _ hmoves => ?_
  dsimp only
  split
  · exact ok hmoves
  · exact fault .refl

lemma text (c : Cursor) : Confined c (Cursor.text c) := by
  refine (varint c).bind fun count c₁ _ hmoves => ?_
  refine ((bytes count c₁).mono hmoves).bind fun content c₂ hcontent hmoves' => ?_
  dsimp only
  cases Utf8.decode? content.rest with
  | some s => exact ok hmoves'
  | none =>
    obtain ⟨-, -, hoffset, -⟩ := Recognizes.bytes_eq_ok_iff.mp hcontent
    dsimp only
    rw [hoffset]
    exact fault hmoves

lemma symbol (c : Cursor) : Confined c (Cursor.symbol c) := by
  refine (word .symbol c).bind fun value c' _ hmoves => ?_
  dsimp only
  split
  · exact fault .refl
  · exact ok hmoves

lemma repeated {item : Reader α} (h : ∀ c, Confined c (item c)) (count : Nat) :
    ∀ c, Confined c (Cursor.repeated item count c) := by
  induction count with
  | zero => exact fun c => ok .refl
  | succ count ih => exact reader_bind h fun _ => reader_bind ih fun _ _ => ok .refl

lemma counted {item : Reader α} (h : ∀ c, Confined c (item c)) :
    ∀ c, Confined c (Cursor.counted item c) :=
  reader_bind varint fun count => repeated h count

lemma frame (c : Cursor) : Confined c (Cursor.frame c) := by
  refine (varint c).bind fun id c₁ _ hmoves₁ => ?_
  refine ((varint c₁).mono hmoves₁).bind fun length c₂ _ hmoves₂ => ?_
  exact ((bytes length c₂).mono hmoves₂).bind fun payload c₃ _ hmoves₃ => ok hmoves₃

/-! ### Records -/

lemma readCall (c : Cursor) : Confined c (Layout.readCall c) := by
  refine (varint c).bind fun stored c' _ hmoves => ?_
  dsimp only
  cases CallKind.ofStored stored with
  | none => exact fault .refl
  | some kind =>
    exact (reader_bind symbol (fun _ => reader_bind varint fun _ _ => ok .refl) c').mono hmoves

lemma readFunction : ∀ c, Confined c (Layout.readFunction c) :=
  reader_bind symbol fun _ => reader_bind (word .functionFlags) fun _ =>
    reader_bind (counted readCall) fun _ _ => ok .refl

lemma readWitness : ∀ c, Confined c (Layout.readWitness c) :=
  reader_bind symbol fun _ => reader_bind symbol fun _ _ => ok .refl

lemma readType : ∀ c, Confined c (Layout.readType c) :=
  reader_bind symbol fun _ => reader_bind (word .baseType) fun _ =>
    reader_bind (counted symbol) fun _ => reader_bind (counted readWitness) fun _ _ => ok .refl

lemma readMetadata : ∀ c, Confined c (Layout.readMetadata c) :=
  reader_bind varint fun _ => reader_bind text fun _ _ => ok .refl

lemma readDebugName (offset : Nat) : ∀ c, Confined c (Layout.readDebugName offset c) :=
  reader_bind (word .symbol) fun _ => reader_bind text fun _ _ => ok .refl

/-- The signature is at the beginning of the file. -/
lemma readHeader (file : List UInt8) :
    Confined (.ofBytes file) (Layout.readHeader (.ofBytes file)) := by
  refine (bytes _ _).bind fun start c₁ _ hmoves₁ => ?_
  dsimp only
  split
  · exact error ⟨Nat.zero_le _, Nat.zero_le _, nofun⟩
  refine ((varint c₁).mono hmoves₁).bind fun found c₂ _ hmoves₂ => ?_
  obtain ⟨hpart, hstop⟩ := hmoves₁.partOf
  have hle : c₁.offset ≤ (Cursor.ofBytes file).stop := hstop ▸ Nat.le_add_right _ _
  dsimp only
  split
  · exact error ⟨Nat.zero_le _, hle, nofun⟩
  split
  · exact error ⟨Nat.zero_le _, hle, nofun⟩
  · exact ok hmoves₂

end Confined

end LinkSummary
