import LinkSummary.Proofs.Binary.Cursor
import LinkSummary.Proofs.Binary.Recognizes

/-!
# Frames in sequence

Bytes are dealt with frame by frame. If each step accepts exactly the payloads that spell some item,
and goes on as the item tells, then all steps together accept exactly the sequences of frames that
spell some items.
-/

namespace LinkSummary

open Format

variable {σ τ ι : Type} {c c' : Cursor} {f : Frame} {P : Nat → Format ι} {bytes : List UInt8}
  {items items' : List ι}

namespace Cursor

lemma bind_eq_ok_iff {α β ε : Type} {x : Except ε α} {g : α → Except ε β} {b : β} :
    (x >>= g) = .ok b ↔ ∃ a, x = .ok a ∧ g a = .ok b := by
  cases x <;> simp [Bind.bind, Except.bind]

lemma bind_eq_error_iff {α β ε : Type} {x : Except ε α} {g : α → Except ε β} {e : ε} :
    (x >>= g) = .error e ↔ x = .error e ∨ ∃ a, x = .ok a ∧ g a = .error e := by
  cases x <;> simp [Bind.bind, Except.bind]

/-- Reading a frame accepts all of its spellings. -/
lemma frame_eq_ok_iff : frame c = .ok (f, c') ↔ ∃ number length,
    c.rest = number ++ (length ++ f.payload.rest) ++ c'.rest ∧ Varint.Spells number f.id ∧
      Varint.Spells length f.payload.rest.length ∧ f.offset = c.offset ∧
      f.payload.offset = c.offset + number.length + length.length ∧
      c'.offset = f.payload.offset + f.payload.rest.length := by
  obtain ⟨offset, id, payload⟩ := f
  simp only [frame, bind_eq_ok_iff, Prod.exists, Recognizes.varint _ _ _,
    Recognizes.bytes_eq_ok_iff, Pure.pure, Except.pure, Except.ok.injEq, Prod.mk.injEq,
    Frame.mk.injEq]
  constructor
  · rintro ⟨_, c₁, ⟨number, hrest, hoffset, hnumber⟩, _, c₂, ⟨length, hrest', hoffset', hlength⟩,
      _, _, ⟨hrest'', rfl, hpayload, hend⟩, ⟨rfl, rfl, rfl⟩, rfl⟩
    refine ⟨number, length, ?_, hnumber, hlength, rfl, ?_, ?_⟩
    · rw [hrest, hrest', hrest'', List.append_assoc, List.append_assoc]
    · rw [hpayload, hoffset', hoffset]
    · rw [hend, hpayload]
  · rintro ⟨number, length, hrest, hnumber, hlength, rfl, hpayload, hend⟩
    refine ⟨id, ⟨length ++ payload.rest ++ c'.rest, c.offset + number.length⟩,
      ⟨number, ?_, rfl, hnumber⟩, payload.rest.length, ⟨payload.rest ++ c'.rest, payload.offset⟩,
      ⟨length, ?_, hpayload, hlength⟩, payload, c', ⟨rfl, rfl, rfl, hend⟩, ⟨rfl, rfl, rfl⟩, rfl⟩
    · rw [hrest, List.append_assoc]
    · rw [List.append_assoc]

lemma exists_frame_of_framed {first rest : List UInt8} {item : ι} (hrest : c.rest = first ++ rest)
    (h : Framed P first item) :
    ∃ f c', frame c = .ok (f, c') ∧ P f.id f.payload.rest item ∧ c'.rest = rest := by
  obtain @⟨number, length, payload, id, item, hnumber, hlength, hitem⟩ := h
  exact ⟨⟨c.offset, id, ⟨payload, c.offset + number.length + length.length⟩⟩,
    ⟨rest, c.offset + number.length + length.length + payload.length⟩,
    frame_eq_ok_iff.mpr ⟨number, length, hrest, hnumber, hlength, rfl, rfl, rfl⟩, hitem, rfl⟩

/-- What the bytes of a frame spell, and where they end. -/
lemma framed_append_iff (h : frame c = .ok (f, c')) {rest : List UInt8} {item : ι} :
    (∃ first, c.rest = first ++ rest ∧ Framed P first item) ↔
      P f.id f.payload.rest item ∧ rest = c'.rest := by
  constructor
  · rintro ⟨first, hrest, hfirst⟩
    obtain ⟨f', c₁, hframe, hitem, rfl⟩ := exists_frame_of_framed hrest hfirst
    rw [h, Except.ok.injEq, Prod.mk.injEq] at hframe
    obtain ⟨rfl, rfl⟩ := hframe
    exact ⟨hitem, rfl⟩
  · rintro ⟨hitem, rfl⟩
    obtain ⟨number, length, hrest, hnumber, hlength, -⟩ := frame_eq_ok_iff.mp h
    exact ⟨_, hrest, .mk hnumber hlength hitem⟩

/-- What a frame and the frames behind it spell. -/
lemma sequence_framed_iff (h : frame c = .ok (f, c')) :
    Sequence (Framed P) c.rest items ↔ ∃ item others, items = item :: others ∧
      P f.id f.payload.rest item ∧ Sequence (Framed P) c'.rest others := by
  constructor
  · intro hitems
    generalize hrest : c.rest = bytes at hitems
    cases hitems with
    | nil =>
      have hshorter := frame_shorter h
      rw [hrest] at hshorter
      cases hshorter
    | @cons first others item rest hfirst hothers =>
      obtain ⟨hitem, rfl⟩ := (framed_append_iff h).mp ⟨first, hrest, hfirst⟩
      exact ⟨item, rest, rfl, hitem, hothers⟩
  · rintro ⟨item, others, rfl, hitem, hothers⟩
    obtain ⟨first, hrest, hfirst⟩ := (framed_append_iff h).mpr ⟨hitem, rfl⟩
    rw [hrest]
    exact .cons hfirst hothers

/-- A sequence of frames is empty, or begins with a frame. -/
lemma exists_frame_of_sequence (h : Sequence (Framed P) c.rest items) :
    c.rest = [] ∧ items = [] ∨ ∃ f c', frame c = .ok (f, c') := by
  generalize hrest : c.rest = bytes at h
  cases h with
  | nil => exact .inl ⟨rfl, rfl⟩
  | cons hfirst _ =>
    obtain ⟨f, c', hframe, -⟩ := exists_frame_of_framed hrest hfirst
    exact .inr ⟨f, c', hframe⟩

/-! ### Folding -/

lemma frames_of_frame (h : frame c = .ok (f, c')) : c.frames = (f :: c'.frames.1, c'.frames.2) := by
  have hne : c.rest.isEmpty = false := by
    rw [List.isEmpty_eq_false_iff]
    intro hnil
    have hshorter := frame_shorter h
    rw [hnil] at hshorter
    cases hshorter
  rw [frames]
  simp only [hne, Bool.false_eq_true, if_false]
  split
  · rename_i e he
    rw [h] at he
    cases he
  · rename_i f' c₁ hf
    rw [h] at hf
    cases hf
    rfl

lemma frames_of_error {e : DecodeError} (hne : c.rest ≠ []) (h : frame c = .error e) :
    c.frames = ([], some e) := by
  rw [frames]
  simp only [List.isEmpty_eq_false_iff.mpr hne, Bool.false_eq_true, if_false]
  split
  · rename_i e' he
    rw [h] at he
    cases he
    rfl
  · rename_i f' c₁ hf
    rw [h] at hf
    cases hf

lemma frames_of_nil (h : c.rest = []) : c.frames = ([], none) := by
  rw [frames, if_pos (List.isEmpty_iff.mpr h)]

/-- Each frame takes some of the bytes, so there are frames up to the end or up to an error. -/
@[elab_as_elim]
theorem frames_induction {motive : Cursor → Prop} (nil : ∀ c, c.rest = [] → motive c)
    (error : ∀ c e, c.rest ≠ [] → frame c = .error e → motive c)
    (cons : ∀ c f c', frame c = .ok (f, c') → motive c' → motive c) (c : Cursor) : motive c := by
  induction hlen : c.rest.length using Nat.strongRecOn generalizing c with
  | ind n ih =>
    subst hlen
    by_cases hnil : c.rest = []
    · exact nil c hnil
    cases hframe : frame c with
    | error e => exact error c e hnil hframe
    | ok p => exact cons c p.1 p.2 hframe (ih _ (frame_shorter hframe) p.2 rfl)

/-- The frames are read one after the other, from places at which holds whatever holds behind each
frame if it holds before; at such a place are the bytes that are no frame, too. -/
lemma frames_spec {P : Cursor → Prop} (hpass : ∀ c f c', P c → frame c = .ok (f, c') → P c')
    (hc : P c) : (∀ f ∈ c.frames.1, ∃ c₁ c₂, P c₁ ∧ frame c₁ = .ok (f, c₂)) ∧
      ∀ e, c.frames.2 = some e → ∃ c₁, P c₁ ∧ frame c₁ = .error e := by
  induction c using frames_induction with
  | nil c hnil =>
    rw [frames_of_nil hnil]
    refine ⟨List.forall_mem_nil _, ?_⟩
    rintro _ ⟨⟩
  | error c e hne hframe =>
    rw [frames_of_error hne hframe]
    refine ⟨List.forall_mem_nil _, ?_⟩
    rintro _ ⟨⟩
    exact ⟨c, hc, hframe⟩
  | cons c f c' hframe ih =>
    obtain ⟨hframes, hfault⟩ := ih (hpass c f c' hc hframe)
    rw [frames_of_frame hframe]
    refine ⟨?_, hfault⟩
    intro g hg
    rcases List.mem_cons.mp hg with rfl | hg
    · exact ⟨c, c', hc, hframe⟩
    · exact hframes g hg

section Fold

variable {step : σ → Frame → Except DecodeError σ} {start : σ}

lemma foldFrames_of_frame (h : frame c = .ok (f, c')) :
    foldFrames step start c = step start f >>= fun next => foldFrames step next c' := by
  rw [foldFrames, frames_of_frame h]
  simp only [List.foldlM_cons, bind_assoc]
  rfl

lemma foldFrames_of_error {e : DecodeError} (hne : c.rest ≠ []) (h : frame c = .error e) :
    foldFrames step start c = .error e := by
  rw [foldFrames, frames_of_error hne h]
  rfl

lemma exists_of_foldlM_eq_error {α ε : Type} {step : σ → α → Except ε σ} {items : List α} {e : ε}
    (h : items.foldlM step start = .error e) : ∃ i ∈ items, ∃ s, step s i = .error e := by
  induction items generalizing start with
  | nil => cases h
  | cons i items ih =>
    rw [List.foldlM_cons] at h
    cases hi : step start i with
    | error e' =>
      rw [hi] at h
      cases h
      exact ⟨i, List.mem_cons_self, start, hi⟩
    | ok next =>
      rw [hi] at h
      obtain ⟨j, hj, s, hs⟩ := ih h
      exact ⟨j, List.mem_cons_of_mem i hj, s, hs⟩

/-- An error is one of dealing with a frame, or that of the bytes that are no frame. -/
lemma foldFrames_eq_error {e : DecodeError} (h : foldFrames step start c = .error e) :
    (∃ f ∈ c.frames.1, ∃ s, step s f = .error e) ∨ c.frames.2 = some e := by
  rw [foldFrames] at h
  dsimp only at h
  cases hfold : c.frames.1.foldlM step start with
  | error e' =>
    rw [hfold] at h
    cases h
    exact .inl (exists_of_foldlM_eq_error hfold)
  | ok last =>
    rw [hfold] at h
    cases hfault : c.frames.2 with
    | none =>
      rw [hfault] at h
      cases h
    | some e' =>
      rw [hfault] at h
      cases h
      exact .inr rfl

lemma foldlM_ok_induction {α ε : Type} {step : σ → α → Except ε σ} {P : σ → Prop}
    {items : List α} {last : σ} (hstep : ∀ i ∈ items, ∀ s s', P s → step s i = .ok s' → P s')
    (hstart : P start) (h : items.foldlM step start = .ok last) : P last := by
  induction items generalizing start with
  | nil =>
    cases h
    exact hstart
  | cons i items ih =>
    rw [List.foldlM_cons] at h
    obtain ⟨next, hnext, h⟩ := bind_eq_ok_iff.mp h
    rw [List.forall_mem_cons] at hstep
    exact ih hstep.2 (hstep.1 start next hstart hnext) h

/-- What every step keeps holds in the end. -/
lemma foldFrames_induction {P : σ → Prop} {last : σ}
    (hstep : ∀ f ∈ c.frames.1, ∀ s s', P s → step s f = .ok s' → P s') (hstart : P start)
    (h : foldFrames step start c = .ok last) : P last := by
  rw [foldFrames] at h
  obtain ⟨last', hfold, h⟩ := bind_eq_ok_iff.mp h
  cases hfault : c.frames.2 with
  | some e =>
    rw [hfault] at h
    cases h
  | none =>
    rw [hfault] at h
    cases h
    exact foldlM_ok_induction hstep hstart hfold

/-- If what a step comes to is told by some item that its payload spells, then what all steps come
to is told by the items that the frames spell. -/
theorem foldFrames_iff (view : σ → τ) (add : τ → ι → Option τ)
    (hstep : ∀ s f t, (∃ s', step s f = .ok s' ∧ view s' = t) ↔
      ∃ item, P f.id f.payload.rest item ∧ add (view s) item = some t) (t : τ) :
    (∃ last, foldFrames step start c = .ok last ∧ view last = t) ↔
      ∃ items, Sequence (Framed P) c.rest items ∧ items.foldlM add (view start) = some t := by
  induction c using frames_induction generalizing start with
  | nil c hnil =>
    obtain ⟨rest, offset⟩ := c
    cases hnil
    rw [foldFrames_nil]
    constructor
    · rintro ⟨_, ⟨⟩, rfl⟩
      exact ⟨[], .nil, rfl⟩
    · rintro ⟨items, hitems, hlast⟩
      rcases exists_frame_of_sequence (c := ⟨[], offset⟩) hitems with ⟨-, rfl⟩ | ⟨f, c', hf⟩
      · exact ⟨start, rfl, Option.some.inj hlast⟩
      · exact absurd (frame_shorter hf) (Nat.not_lt_zero _)
  | error c e hne hframe =>
    rw [foldFrames_of_error hne hframe]
    refine iff_of_false (fun ⟨_, h, _⟩ => nomatch h) ?_
    rintro ⟨items, hitems, -⟩
    rcases exists_frame_of_sequence hitems with ⟨h, -⟩ | ⟨f, c', hf⟩
    · exact hne h
    · rw [hframe] at hf
      cases hf
  | cons c f c' hframe ih =>
    simp only [foldFrames_of_frame hframe, bind_eq_ok_iff, sequence_framed_iff hframe]
    constructor
    · rintro ⟨last, ⟨next, hs, hlast⟩, ht⟩
      obtain ⟨item, hitem, hadd⟩ := (hstep start f (view next)).mp ⟨next, hs, rfl⟩
      obtain ⟨items, hitems, hfold⟩ := ih.mp ⟨last, hlast, ht⟩
      refine ⟨item :: items, ⟨item, items, rfl, hitem, hitems⟩, ?_⟩
      rw [List.foldlM_cons, hadd]
      exact hfold
    · rintro ⟨_, ⟨item, items, rfl, hitem, hitems⟩, hfold⟩
      rw [List.foldlM_cons] at hfold
      obtain ⟨t', hadd, hfold⟩ := Option.bind_eq_some_iff.mp hfold
      obtain ⟨next, hs, rfl⟩ := (hstep start f t').mpr ⟨item, hitem, hadd⟩
      obtain ⟨last, hlast, ht⟩ := ih.mpr ⟨items, hitems, hfold⟩
      exact ⟨last, ⟨next, hs, hlast⟩, ht⟩

/-- The same where the store of a fold is what is told. -/
lemma foldFrames_eq_ok_iff (add : σ → ι → Option σ)
    (hstep : ∀ s f s', step s f = .ok s' ↔
      ∃ item, P f.id f.payload.rest item ∧ add s item = some s') (last : σ) :
    foldFrames step start c = .ok last ↔
      ∃ items, Sequence (Framed P) c.rest items ∧ items.foldlM add start = some last := by
  have hall : (∃ s, foldFrames step start c = .ok s ∧ s = last) ↔
      ∃ items, Sequence (Framed P) c.rest items ∧ items.foldlM add start = some last :=
    foldFrames_iff (fun s => s) add
      (fun s f t => by simpa only [exists_eq_right] using hstep s f t) last
  simpa only [exists_eq_right] using hall

end Fold

end Cursor

/-! ### One spelling -/

namespace Format

/-- A format of payloads tells one value of each payload. -/
def Unambiguous (P : Nat → Format ι) : Prop :=
  ∀ id payload item item', P id payload item → P id payload item' → item = item'

/-- Frames whose payloads tell one item each tell one list of items. -/
theorem sequence_framed_unique (hP : Unambiguous P) (h : Sequence (Framed P) c.rest items)
    (h' : Sequence (Framed P) c.rest items') : items = items' := by
  induction hlen : c.rest.length using Nat.strongRecOn generalizing c items items' with
  | ind n ih =>
    subst hlen
    rcases Cursor.exists_frame_of_sequence h with ⟨hnil, rfl⟩ | ⟨f, c', hf⟩
    · rcases Cursor.exists_frame_of_sequence h' with ⟨-, rfl⟩ | ⟨f, c', hf⟩
      · rfl
      · have hshorter := Cursor.frame_shorter hf
        rw [hnil] at hshorter
        cases hshorter
    · obtain ⟨item, others, rfl, hitem, hothers⟩ := (Cursor.sequence_framed_iff hf).mp h
      obtain ⟨item', others', rfl, hitem', hothers'⟩ := (Cursor.sequence_framed_iff hf).mp h'
      rw [hP _ _ _ _ hitem hitem', ih _ (Cursor.frame_shorter hf) hothers hothers' rfl]

end Format

end LinkSummary
