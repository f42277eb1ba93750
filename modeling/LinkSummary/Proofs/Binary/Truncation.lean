import LinkSummary.Proofs.Binary.Shortest

/-!
# Files that end too early

A number cut short has no last byte, and a frame cut short has fewer bytes than its length tells. So
a file cut inside a frame is known to be truncated, however the payload goes on. A cut between two
frames is not seen: behind the header stands a file without a module summary, and behind the module
summary the file without readable names.
-/

namespace LinkSummary

open Layout

variable {α β : Type} {r : Reader α} {k : α → Reader β} {p q bytes bytes' : List UInt8}

/-! ### Cuts -/

/-- Some bytes without some of the last. -/
structure Cut (p bytes : List UInt8) : Prop where
  isPrefix : p <+: bytes
  ne : p ≠ bytes

namespace Cut

lemma length_lt (h : Cut p bytes) : p.length < bytes.length :=
  lt_of_le_of_ne h.isPrefix.length_le fun heq => h.ne (h.isPrefix.eq_of_length heq)

/-- A cut goes through the first bytes, or through those behind them. -/
lemma append (h : Cut p (bytes ++ bytes')) :
    Cut p bytes ∨ ∃ q, Cut q bytes' ∧ p = bytes ++ q := by
  rcases List.prefix_or_prefix_of_prefix h.isPrefix (List.prefix_append bytes bytes') with
    hp | ⟨q, rfl⟩
  · by_cases heq : p = bytes
    · refine .inr ⟨[], ⟨⟨bytes', rfl⟩, ?_⟩, heq.trans (List.append_nil bytes).symm⟩
      rintro rfl
      exact h.ne (heq.trans (List.append_nil bytes).symm)
    · exact .inl ⟨hp, heq⟩
  · refine .inr ⟨q, ⟨(List.prefix_append_right_inj bytes).mp h.isPrefix, ?_⟩, rfl⟩
    rintro rfl
    exact h.ne rfl

end Cut

/-! ### Readers that run out of bytes -/

/-- A result which tells that the bytes up to some place are fewer than are needed. -/
def Truncated (last : Nat) (result : Except DecodeError α) : Prop :=
  ∃ place needed available, place + available = last ∧ available < needed ∧
    result = .error (.truncated place needed available)

lemma Truncated.bind {last : Nat} {result : Except DecodeError α} {next : α → Except DecodeError β}
    (h : Truncated last result) : Truncated last (result >>= next) := by
  obtain ⟨place, needed, available, hplace, hneeded, rfl⟩ := h
  exact ⟨place, needed, available, hplace, hneeded, rfl⟩

/-- A reader finds that the bytes to the end are fewer than it needs. -/
def RunsOut (r : Reader α) (bytes : List UInt8) : Prop :=
  ∀ offset, Truncated (offset + bytes.length) (r ⟨bytes, offset⟩)

namespace RunsOut

/-- A reader may run out in its first step. -/
lemma bind (h : RunsOut r bytes) : RunsOut (r >>= k) bytes :=
  fun offset => (h offset).bind

/-- A reader may run out behind its first step. -/
lemma bind_of_ok {value : Nat → α} {rest : List UInt8}
    (hr : ∀ offset, r ⟨bytes ++ rest, offset⟩ = .ok (value offset, ⟨rest, offset + bytes.length⟩))
    (h : ∀ offset, RunsOut (k (value offset)) rest) : RunsOut (r >>= k) (bytes ++ rest) := by
  intro offset
  have hrest := h offset (offset + bytes.length)
  rw [Nat.add_assoc, ← List.length_append] at hrest
  simp only [Bind.bind, StateT.bind, hr, Except.bind]
  exact hrest

lemma position_bind {k : Nat → Reader β} (h : ∀ offset, RunsOut (k offset) bytes) :
    RunsOut (Cursor.position >>= k) bytes :=
  fun offset => h offset offset

lemma bytes_of_lt {count : Nat} (h : bytes.length < count) :
    RunsOut (Cursor.bytes count) bytes := by
  intro offset
  refine ⟨offset, count, bytes.length, rfl, h, ?_⟩
  rw [Cursor.bytes, if_neg (Nat.not_le.mpr h)]

end RunsOut

/-! ### Numbers -/

/-- All bytes of a number but the last tell that another follows. -/
lemma Varint.decodeFrom_of_append {n place : Nat} {more rest : List UInt8}
    (h : decodeFrom place (p ++ more) = .ok (n, rest)) (hlen : rest.length < more.length) :
    decodeFrom place p = .error .truncated := by
  induction p generalizing place n with
  | nil => rfl
  | cons b p ih =>
    rw [List.cons_append, decodeFrom] at h
    rw [decodeFrom]
    by_cases hover : place ≥ 10 ∨ place = 9 ∧ b.toNat % 128 > 1
    · rw [if_pos hover] at h
      cases h
    · rw [if_neg hover] at h ⊢
      by_cases hlast : b.toNat < 128
      · -- the number would end before the cut
        rw [if_pos hlast] at h
        cases h
        rw [List.length_append] at hlen
        omega
      · rw [if_neg hlast] at h ⊢
        cases hothers : decodeFrom (place + 1) (p ++ more) with
        | error e =>
          rw [hothers] at h
          cases h
        | ok found =>
          rw [hothers] at h
          cases h
          rw [ih hothers]

namespace RunsOut

lemma varint {n : Nat} (hn : n < 2 ^ 64) (h : Cut p (Varint.encode n)) :
    RunsOut Cursor.varint p := by
  intro offset
  refine ⟨offset + p.length, 1, 0, rfl, Nat.one_pos, ?_⟩
  obtain ⟨more, hmore⟩ := h.isPrefix
  have hwhole : Varint.decode (p ++ more) = .ok (n, []) := by
    rw [hmore, ← List.append_nil (Varint.encode n), Varint.decode_encode hn]
  have hpos : 0 < more.length := by
    have hlt := h.length_lt
    rw [← hmore, List.length_append] at hlt
    omega
  have hcut : Varint.decode p = .error .truncated := Varint.decodeFrom_of_append hwhole hpos
  simp only [Cursor.varint, hcut]

/-! ### Frames -/

/-- A frame cut short is shorter than it tells. -/
lemma frame {id : Nat} {payload : List UInt8} (hid : id < 2 ^ 64)
    (hlen : (Layout.frame id payload).length < 2 ^ 64) (h : Cut p (Layout.frame id payload)) :
    RunsOut Cursor.frame p := by
  have hsteps : Cursor.frame = (Cursor.position >>= fun offset => Cursor.varint >>= fun id =>
      Cursor.varint >>= fun length => Cursor.bytes length >>= fun payload =>
        pure { offset, id, payload }) := rfl
  have hpayload := (Cursor.length_lt_length_frame id payload).trans hlen
  have hbytes := h.length_lt.trans hlen
  rw [hsteps]
  refine position_bind fun offset => ?_
  rcases h.append with hnumber | ⟨q, hq, rfl⟩
  · exact (varint hid hnumber).bind
  · rw [List.length_append] at hbytes
    refine bind_of_ok (fun offset => Reads.varint hid (by omega) q offset) fun _ => ?_
    rcases hq.append with hlength | ⟨q', hq', rfl⟩
    · exact (varint hpayload hlength).bind
    · rw [List.length_append] at hbytes
      refine bind_of_ok (fun offset => Reads.varint hpayload (by omega) q' offset) fun _ => ?_
      exact (bytes_of_lt hq'.length_lt).bind

end RunsOut

/-- Dealing with frames ends at one that is cut short. -/
lemma Cursor.foldFrames_of_cut {σ : Type} (step : σ → Frame → Except DecodeError σ) (start : σ)
    {id : Nat} {payload : List UInt8} (hid : id < 2 ^ 64)
    (hlen : (Layout.frame id payload).length < 2 ^ 64) (hne : p ≠ [])
    (h : Cut p (Layout.frame id payload)) (offset : Nat) :
    Truncated (offset + p.length) (foldFrames step start ⟨p, offset⟩) := by
  obtain ⟨place, needed, available, hplace, hneeded, hframe⟩ := RunsOut.frame hid hlen h offset
  exact ⟨place, needed, available, hplace, hneeded, foldFrames_of_error hne hframe⟩

/-! ### Files -/

lemma readHeader_of_cut (h : Cut p (signature ++ Varint.encode version)) :
    RunsOut readHeader p := by
  rcases h.append with hsignature | ⟨q, hversion, rfl⟩
  · exact (RunsOut.bytes_of_lt hsignature.length_lt).bind
  · refine RunsOut.bind_of_ok (Reads.bytes_append signature q) fun _ => ?_
    dsimp only
    rw [if_neg (not_not.mpr rfl)]
    exact RunsOut.position_bind fun _ => (RunsOut.varint (by decide) hversion).bind

namespace Store

variable {s : Store} {rest : List UInt8}

/-- The bytes up to the version. -/
def header : List UInt8 := signature ++ Varint.encode version

lemma length_header : header.length = 5 := by
  rw [header, encode_version]
  rfl

/-- The frame of the module summary. -/
def summaryBlock (s : Store) : List UInt8 := frame Block.moduleSummary.id (moduleSummary s)

lemma frame_ne_nil (id : Nat) (payload : List UInt8) : frame id payload ≠ [] :=
  List.append_ne_nil_of_left_ne_nil (Varint.encode_ne_nil id) _

lemma encode_false (s : Store) : s.encode = header ++ summaryBlock s := by
  rw [encode, if_neg Bool.false_ne_true, List.append_nil]
  rfl

lemma encode_eq (s : Store) (embedDebugNames : Bool) :
    s.encode embedDebugNames = s.encode ++ if embedDebugNames then debugNames s else [] := by
  rw [encode_false]
  rfl

/-! ### Readable names -/

/-- The block of readable names is not written exactly if no function has one. -/
lemma debugNames_eq_nil_iff (hs : s.WellFormed) :
    debugNames s = [] ↔ ∀ id f, s.function? id = some f → f.debugName = none := by
  have hnil : debugNames s = [] ↔ namedFunctions s = [] := by
    rw [debugNames_eq]
    cases namedFunctions s with
    | nil => exact iff_of_true rfl rfl
    | cons entry entries =>
      have hne : (entry :: entries).flatMap writtenName ≠ [] :=
        List.append_ne_nil_of_left_ne_nil (frame_ne_nil _ _) _
      rw [nameBlock_of_ne_nil hne]
      exact iff_of_false (frame_ne_nil _ _) (List.cons_ne_nil _ _)
  rw [hnil, List.eq_nil_iff_forall_not_mem]
  constructor
  · intro h id f hf
    by_contra hname
    obtain ⟨name, hname⟩ := Option.ne_none_iff_exists'.mp hname
    exact h (id, name) ((mem_namedFunctions hs).mpr ⟨f, hf, hname⟩)
  · rintro h ⟨id, name⟩ hmem
    obtain ⟨f, hf, hname⟩ := (mem_namedFunctions hs).mp hmem
    rw [h id f hf] at hname
    cases hname

lemma exists_debugNames_eq_frame (h : debugNames s ≠ []) :
    ∃ records, debugNames s = frame Block.debugNames.id records := by
  rw [debugNames_eq] at h ⊢
  refine ⟨(namedFunctions s).flatMap writtenName, nameBlock_of_ne_nil fun hnil => h ?_⟩
  rw [hnil]
  rfl

/-! ### Where the file is cut -/

lemma truncated_of_cut_header (h : Cut p header) : Truncated p.length (decode p) := by
  have hheader := readHeader_of_cut h 0
  rw [Nat.zero_add] at hheader
  exact hheader.bind

/-- Behind the header there has to be a module summary. -/
lemma decode_header : decode header = .error (.malformedHeader 5 .missingSummary) := by
  have hread := readHeader_header []
  rw [List.append_nil, ← header] at hread
  rw [decode, hread, length_header]
  simp only [Bind.bind, Except.bind, Cursor.foldFrames_nil]
  rfl

/-- Blocks that are truncated make a file that is. -/
lemma truncated_header_append
    (h : Truncated (5 + rest.length) (Cursor.foldFrames addBlock {} ⟨rest, 5⟩)) :
    Truncated (header ++ rest).length (decode (header ++ rest)) := by
  rw [List.length_append, length_header, decode, header, readHeader_header]
  exact h.bind

lemma truncated_of_cut_summaryBlock (hlen : (summaryBlock s).length < 2 ^ 64) (hne : p ≠ [])
    (h : Cut p (summaryBlock s)) : Truncated (header ++ p).length (decode (header ++ p)) :=
  truncated_header_append (Cursor.foldFrames_of_cut addBlock {} (by decide) hlen hne h 5)

lemma truncated_of_cut_debugNames (hs : s.WellFormed) (hflags : s.FlagsKnown)
    (hvtables : s.checkVtables = .ok ()) (hlen : (s.encode true).length < 2 ^ 64) (hne : p ≠ [])
    (h : Cut p (debugNames s)) : Truncated (s.encode ++ p).length (decode (s.encode ++ p)) := by
  obtain ⟨records, hrecords⟩ := exists_debugNames_eq_frame (s := s) fun hnil => hne <| by
    rw [hnil] at h
    exact List.prefix_nil.mp h.isPrefix
  rw [encode_eq, if_pos rfl, encode_false, List.length_append, List.length_append] at hlen
  rw [hrecords] at h hlen
  have hsummary := foldFrames_moduleSummary hs hflags p (by rw [← summaryBlock]; omega)
  have hnames := Cursor.foldFrames_of_cut addBlock { summary := some s.withoutDebugNames }
    (by decide) (by omega) hne h (5 + (summaryBlock s).length)
  rw [← summaryBlock, hvtables] at hsummary
  rw [Nat.add_assoc, ← List.length_append] at hnames
  rw [encode_false, List.append_assoc]
  refine truncated_header_append ?_
  rw [hsummary]
  exact hnames

/-- Where a file may be cut: in the header or behind it, in the module summary or behind it, or in
the readable names. -/
lemma cut_encode_cases {embedDebugNames : Bool} (h : Cut p (s.encode embedDebugNames)) :
    Cut p header ∨ p = header ∨ (∃ q, q ≠ [] ∧ Cut q (summaryBlock s) ∧ p = header ++ q) ∨
      p = s.encode ∨
        embedDebugNames = true ∧ ∃ q, q ≠ [] ∧ Cut q (debugNames s) ∧ p = s.encode ++ q := by
  rw [encode_eq] at h
  rcases h.append with hbefore | ⟨q, hcut, rfl⟩
  · rw [encode_false] at hbefore
    rcases hbefore.append with hheader | ⟨q, hcut, rfl⟩
    · exact .inl hheader
    · by_cases hq : q = []
      · rw [hq, List.append_nil]
        exact .inr (.inl rfl)
      · exact .inr (.inr (.inl ⟨q, hq, hcut, rfl⟩))
  · by_cases hq : q = []
    · rw [hq, List.append_nil]
      exact .inr (.inr (.inr (.inl rfl)))
    · cases embedDebugNames with
      | false => exact absurd (List.prefix_nil.mp hcut.isPrefix) hq
      | true => exact .inr (.inr (.inr (.inr ⟨rfl, q, hq, hcut, rfl⟩)))

/-- A file without its last bytes is found to be truncated, with two exceptions. The first five
bytes are a file without a module summary. The file without readable names is the beginning of the
one with them, a shorter one if any function has a readable name, and is read as it is. -/
theorem Made.decode_of_strict_prefix (h : s.Made) (hvtables : s.checkVtables = .ok ())
    (embedDebugNames : Bool) (hlen : (s.encode embedDebugNames).length < 2 ^ 64) :
    s.encode <+: s.encode embedDebugNames ∧
    (s.encode ≠ s.encode embedDebugNames ↔
      embedDebugNames = true ∧ ∃ id f, s.function? id = some f ∧ f.debugName ≠ none) ∧
    ∀ p, p <+: s.encode embedDebugNames → p ≠ s.encode embedDebugNames →
      (p.length = 5 → decode p = .error (.malformedHeader 5 .missingSummary)) ∧
      (p = s.encode → decode p = .ok s.withoutDebugNames) ∧
      (p.length ≠ 5 → p ≠ s.encode → Truncated p.length (decode p)) := by
  have hbegins : s.encode <+: s.encode embedDebugNames := by
    rw [encode_eq s embedDebugNames]
    exact List.prefix_append _ _
  have hshort : s.encode.length < 2 ^ 64 := lt_of_le_of_lt hbegins.length_le hlen
  refine ⟨hbegins, ?_, fun p hp hne => ⟨?_, ?_, ?_⟩⟩
  · rw [encode_eq s embedDebugNames, ne_eq, List.self_eq_append_right]
    cases embedDebugNames with
    | false => simp
    | true =>
      rw [if_pos rfl, debugNames_eq_nil_iff h.wellFormed]
      simp
  · intro hfive
    have hheader : header <+: s.encode embedDebugNames :=
      (encode_false s ▸ List.prefix_append _ _ : header <+: s.encode).trans hbegins
    have heq : p = header :=
      (List.prefix_of_prefix_length_le hp hheader (by rw [hfive, length_header])).eq_of_length
        (by rw [hfive, length_header])
    rw [heq, decode_header]
  · rintro rfl
    rw [h.wellFormed.decode_encode h.flagsKnown false hshort, hvtables]
    rfl
  · intro hfive hencode
    rcases cut_encode_cases ⟨hp, hne⟩ with
      hcut | rfl | ⟨q, hq, hcut, rfl⟩ | rfl | ⟨rfl, q, hq, hcut, rfl⟩
    · exact truncated_of_cut_header hcut
    · exact absurd length_header hfive
    · refine truncated_of_cut_summaryBlock ?_ hq hcut
      rw [encode_false, List.length_append] at hshort
      omega
    · exact absurd rfl hencode
    · exact truncated_of_cut_debugNames h.wellFormed h.flagsKnown hvtables hlen hq hcut

/-- Of the file of a store with a readable name, the first 21 bytes are the file without it. -/
theorem Made.decode_of_strict_prefix_of_named :
    let s := performAll "m" [.build (.recordFunction "f" {}), .setDebugName ⟨1⟩ (some "F")]
    (s.encode true).length = 28 ∧
      decode ((s.encode true).take 5) = .error (.malformedHeader 5 .missingSummary) ∧
      decode ((s.encode true).take 21) = .ok s.withoutDebugNames ∧
      Truncated ((s.encode true).take 24).length (decode ((s.encode true).take 24)) := by
  intro s
  have hmade : s.Made := ⟨⟨_, _, by simp [Operation.FlagsKnown]; rfl, rfl⟩, by decide +kernel⟩
  obtain ⟨-, -, hcut⟩ :=
    Made.decode_of_strict_prefix hmade (by decide +kernel) true (by decide +kernel)
  have htake : ∀ n, (s.encode true).take n <+: s.encode true := fun n => List.take_prefix n _
  exact ⟨by decide +kernel, (hcut _ (htake 5) (by decide +kernel)).1 (by decide +kernel),
    (hcut _ (htake 21) (by decide +kernel)).2.1 (by decide +kernel),
    (hcut _ (htake 24) (by decide +kernel)).2.2 (by decide +kernel) (by decide +kernel)⟩

end Store

end LinkSummary
