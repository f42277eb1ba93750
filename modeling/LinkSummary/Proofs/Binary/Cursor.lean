import LinkSummary.Binary.Cursor
import LinkSummary.Binary.Encode
import LinkSummary.Proofs.Binary.Varint

/-!
# Reading back what was written

A reader reads back a value if it finds it in the bytes written for it, whatever follows them, and
stops behind them. The bytes have to be fewer than `2 ^ 64`, for lengths are stored in 64 bits.
Readers that read back compose as their bytes are appended, and so do frames.
-/

namespace LinkSummary

/-- A reader finds a value in some bytes, whatever follows, and stops behind them. -/
def Reads {α : Type} (r : Reader α) (bytes : List UInt8) (a : α) : Prop :=
  bytes.length < 2 ^ 64 → ∀ rest offset,
    r ⟨bytes ++ rest, offset⟩ = .ok (a, ⟨rest, offset + bytes.length⟩)

namespace Reads

variable {α β : Type} {r : Reader α} {k : α → Reader β} {bytes bytes' : List UInt8} {a : α} {b : β}

/-- The bytes of a value may be all there are. -/
lemma whole (h : Reads r bytes a) (hlen : bytes.length < 2 ^ 64) (offset : Nat) :
    r ⟨bytes, offset⟩ = .ok (a, ⟨[], offset + bytes.length⟩) := by
  have hread := h hlen [] offset
  rwa [List.append_nil] at hread

lemma pure (a : α) : Reads (Pure.pure a) [] a :=
  fun _ _ _ => rfl

lemma bind (h : Reads r bytes a) (h' : Reads (k a) bytes' b) :
    Reads (r >>= k) (bytes ++ bytes') b := by
  intro hlen rest offset
  rw [List.length_append] at hlen
  have hfirst := h (by omega) (bytes' ++ rest) offset
  have hsecond := h' (by omega) rest (offset + bytes.length)
  rw [List.append_assoc, List.length_append, ← Nat.add_assoc]
  calc (r >>= k) ⟨bytes ++ (bytes' ++ rest), offset⟩
      = k a ⟨bytes' ++ rest, offset + bytes.length⟩ := by
        simp only [Bind.bind, StateT.bind, hfirst, Except.bind]
    _ = .ok (b, ⟨rest, offset + bytes.length + bytes'.length⟩) := hsecond

/-- The last step of a reader takes no bytes of its own. -/
lemma bind_pure (h : Reads r bytes a) (h' : Reads (k a) [] b) : Reads (r >>= k) bytes b := by
  have hboth := h.bind h'
  rwa [List.append_nil] at hboth

/-- What a reader yields may not depend on where it stands. -/
lemma position_bind {k : Nat → Reader β} (h : ∀ offset, Reads (k offset) bytes b) :
    Reads (Cursor.position >>= k) bytes b :=
  fun hlen rest offset => h offset hlen rest offset

lemma varint {n : Nat} (hn : n < 2 ^ 64) : Reads Cursor.varint (Varint.encode n) n := by
  intro hlen rest offset
  simp only [Cursor.varint, Varint.decode_encode hn, List.length_append, Nat.add_sub_cancel]

lemma word {n : UInt32} (field : NumberField) :
    Reads (Cursor.word field) (Varint.encode n.toNat) n := by
  have hlt := n.toNat_lt
  refine position_bind fun offset => (varint (by omega)).bind_pure ?_
  rw [if_pos hlt]
  simpa using pure n

lemma symbol {id : SymbolId} (h : id ≠ .absent) : Reads Cursor.symbol (Layout.symbol id) id := by
  refine position_bind fun offset => (word (n := id.val) .symbol).bind_pure ?_
  rw [if_neg (by simpa [SymbolId.isAbsent] using h)]
  exact pure id

lemma flag (b : Bool) : Reads Cursor.varint (Layout.flag b) b.toNat := by
  have hle := Bool.toNat_le b
  exact varint (by omega)

/-! ### Bytes of a given length -/

lemma bytes_append (bytes rest : List UInt8) (offset : Nat) :
    Cursor.bytes bytes.length ⟨bytes ++ rest, offset⟩ =
      .ok (⟨bytes, offset⟩, ⟨rest, offset + bytes.length⟩) := by
  simp [Cursor.bytes]

lemma text (s : String) : Reads Cursor.text (Layout.text s) s := by
  intro hlen rest offset
  rw [Layout.text, Layout.sized] at hlen ⊢
  rw [List.length_append] at hlen
  have hlength := varint (n := (Utf8.encode s).length) (by omega) (by omega)
    (Utf8.encode s ++ rest) offset
  rw [List.append_assoc, List.length_append, ← Nat.add_assoc]
  simp only [Cursor.text, Bind.bind, StateT.bind, hlength, Except.bind, bytes_append,
    Utf8.decode?_encode]
  rfl

/-! ### Lists -/

lemma repeated {item : Reader α} {content : α → List UInt8} {items : List α}
    (h : ∀ a ∈ items, Reads item (content a) a) :
    Reads (Cursor.repeated item items.length) (items.flatMap content) items := by
  induction items with
  | nil => exact pure []
  | cons a items ih =>
    rw [List.forall_mem_cons] at h
    exact h.1.bind ((ih h.2).bind_pure (pure _))

lemma length_le_length_flatMap {content : α → List UInt8} {items : List α}
    (h : ∀ a ∈ items, content a ≠ []) : items.length ≤ (items.flatMap content).length := by
  induction items with
  | nil => exact Nat.le_refl 0
  | cons a items ih =>
    rw [List.forall_mem_cons] at h
    have hpos := List.length_pos_iff.mpr h.1
    have hrest := ih h.2
    rw [List.flatMap_cons, List.length_append, List.length_cons]
    omega

/-- A list reads back if its items do; none of them may be empty, so that their number is not larger
than the bytes can tell. -/
lemma counted {item : Reader α} {content : α → List UInt8} {items : List α}
    (hne : ∀ a ∈ items, content a ≠ []) (h : ∀ a ∈ items, Reads item (content a) a) :
    Reads (Cursor.counted item) (Layout.counted content items) items := by
  intro hlen
  have hcount := length_le_length_flatMap hne
  have hboth := hlen
  rw [Layout.counted, List.length_append] at hboth
  exact ((varint (by omega)).bind (repeated h)) hlen

end Reads

/-! ### Frames -/

namespace Cursor

variable {σ β : Type} {step : σ → Frame → Except DecodeError σ} {start : σ} {id : Nat}
  {payload rest : List UInt8} {offset : Nat}

/-- Where the payload of a frame begins. -/
def payloadOffset (id : Nat) (payload : List UInt8) (offset : Nat) : Nat :=
  offset + (Varint.encode id).length + (Varint.encode payload.length).length

lemma length_lt_length_frame (id : Nat) (payload : List UInt8) :
    payload.length < (Layout.frame id payload).length := by
  have hpos := List.length_pos_iff.mpr (Varint.encode_ne_nil id)
  simp only [Layout.frame, Layout.sized, List.length_append]
  omega

lemma frame_append (hid : id < 2 ^ 64) (hlen : (Layout.frame id payload).length < 2 ^ 64) :
    frame ⟨Layout.frame id payload ++ rest, offset⟩ =
      .ok (⟨offset, id, ⟨payload, payloadOffset id payload offset⟩⟩,
        ⟨rest, offset + (Layout.frame id payload).length⟩) := by
  simp only [Layout.frame, Layout.sized, List.length_append] at hlen ⊢
  have hfirst := Reads.varint hid (by omega)
    (Varint.encode payload.length ++ (payload ++ rest)) offset
  have hsecond := Reads.varint (n := payload.length) (by omega) (by omega) (payload ++ rest)
    (offset + (Varint.encode id).length)
  simp only [frame, List.append_assoc, hfirst, hsecond, Reads.bytes_append, Bind.bind, Except.bind,
    payloadOffset, Nat.add_assoc]
  rfl

lemma foldFrames_nil : foldFrames step start ⟨[], offset⟩ = .ok start := by
  rw [foldFrames, frames]
  rfl

/-- Folding over frames deals with the first, and goes on with the others. -/
lemma foldFrames_frame (hid : id < 2 ^ 64) (hlen : (Layout.frame id payload).length < 2 ^ 64) :
    foldFrames step start ⟨Layout.frame id payload ++ rest, offset⟩ =
      step start ⟨offset, id, ⟨payload, payloadOffset id payload offset⟩⟩ >>= fun next =>
        foldFrames step next ⟨rest, offset + (Layout.frame id payload).length⟩ := by
  have hframe : frame ⟨Layout.frame id payload ++ rest, offset⟩ = _ := frame_append hid hlen
  have hne : (Layout.frame id payload ++ rest).isEmpty = false := by
    simp [Layout.frame, Varint.encode_ne_nil]
  rw [foldFrames, frames]
  simp only [hne, Bool.false_eq_true, if_false]
  split
  · rename_i e he
    rw [hframe] at he
    cases he
  · rename_i f others hf
    rw [hframe] at hf
    cases hf
    simp only [List.foldlM_cons, bind_assoc]
    rfl

/-- Folding over the frames of items, where a relation tells what the items so far come to. -/
lemma foldFrames_flatMap {items : List β} {content : β → List UInt8}
    (come : List β → σ → Prop) (rest : List UInt8) (offset : Nat)
    (hid : id < 2 ^ 64)
    (hlen : (items.flatMap fun x => Layout.frame id (content x)).length < 2 ^ 64)
    (hstart : come [] start)
    (hstep : ∀ before x now at' payloadAt, before ++ [x] <+: items → come before now →
      (content x).length < 2 ^ 64 →
        ∃ next, step now ⟨at', id, ⟨content x, payloadAt⟩⟩ = .ok next ∧ come (before ++ [x]) next) :
    ∃ last offset', come items last ∧
      foldFrames step start ⟨(items.flatMap fun x => Layout.frame id (content x)) ++ rest, offset⟩ =
        foldFrames step last ⟨rest, offset'⟩ := by
  suffices hall : ∀ after before now offset, before ++ after = items → come before now →
      ∃ last offset', come items last ∧
        foldFrames step now ⟨(after.flatMap fun x => Layout.frame id (content x)) ++ rest, offset⟩ =
          foldFrames step last ⟨rest, offset'⟩ from
    hall items [] start offset rfl hstart
  intro after
  induction after with
  | nil =>
    intro before now offset hitems hcome
    rw [List.append_nil] at hitems
    exact ⟨now, offset, hitems ▸ hcome, rfl⟩
  | cons x after ih =>
    intro before now offset hitems hcome
    have hle : (Layout.frame id (content x)).length < 2 ^ 64 := by
      rw [← hitems, List.flatMap_append, List.flatMap_cons, List.length_append,
        List.length_append] at hlen
      omega
    have hcontent : (content x).length < 2 ^ 64 :=
      Nat.lt_trans (length_lt_length_frame id (content x)) hle
    have hitems' : (before ++ [x]) ++ after = items := by
      rw [List.append_assoc, List.singleton_append, hitems]
    obtain ⟨next, hnext, hcome'⟩ := hstep before x now offset
      (payloadOffset id (content x) offset) ⟨after, hitems'⟩ hcome hcontent
    obtain ⟨last, offset', hlast, heq⟩ := ih (before ++ [x]) next
      (offset + (Layout.frame id (content x)).length) hitems' hcome'
    refine ⟨last, offset', hlast, ?_⟩
    rw [List.flatMap_cons, List.append_assoc, foldFrames_frame hid hle, hnext]
    exact heq

end Cursor

end LinkSummary
