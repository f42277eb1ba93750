import LinkSummary.Binary.Decode
import LinkSummary.Proofs.Binary.Grammar
import Mathlib.Algebra.Order.Ring.Nat
import Mathlib.Tactic.Common

/-!
# Readers recognize formats

A reader recognizes a format if it yields exactly the values that the bytes before it spell, and
stops behind them. Readers that recognize compose as their formats do. A value that a reader
recognizes is spelled in one way only by given bytes.
-/

namespace LinkSummary

/-! ### Numbers -/

namespace Varint

variable {bytes rest : List UInt8} {n place : Nat}

lemma Digits.ne_nil (h : Digits bytes n) : bytes ≠ [] := by
  cases h <;> exact List.cons_ne_nil _ _

/-- Bytes spell a number of which the lowest digit has the given place. -/
structure SpellsFrom (place : Nat) (bytes : List UInt8) (n : Nat) : Prop where
  digits : Digits bytes n
  length_le : place + bytes.length ≤ 10
  lt : n < 2 ^ (64 - 7 * place)

/-- Before the tenth place a digit has all of its seven bits. -/
lemma two_pow_place (h : place < 9) :
    2 ^ (64 - 7 * place) = 128 * 2 ^ (64 - 7 * (place + 1)) := by
  have hsplit : 64 - 7 * place = 7 + (64 - 7 * (place + 1)) := by omega
  rw [hsplit, Nat.pow_add]

/-- There is room for a last digit. -/
lemma spellsFrom_singleton_iff {b : UInt8} : SpellsFrom place [b] n ↔
    ¬ (place ≥ 10 ∨ place = 9 ∧ b.toNat % 128 > 1) ∧ b.toNat < 128 ∧ n = b.toNat := by
  constructor
  · rintro ⟨hdigits, hlen, hlt⟩
    cases hdigits with
    | last hsmall =>
      rw [List.length_singleton] at hlen
      refine ⟨?_, hsmall, rfl⟩
      rintro (hplace | ⟨rfl, htwo⟩) <;> omega
    | more _ hnil => exact absurd rfl hnil.ne_nil
  · rintro ⟨hroom, hsmall, rfl⟩
    refine ⟨.last hsmall, by rw [List.length_singleton]; omega, ?_⟩
    by_cases hplace : place = 9
    · subst hplace
      omega
    · have hpos := Nat.two_pow_pos (64 - 7 * (place + 1))
      rw [two_pow_place (by omega)]
      omega

/-- There is room for a digit before others. -/
lemma spellsFrom_cons_iff {b : UInt8} (hne : bytes ≠ []) : SpellsFrom place (b :: bytes) n ↔
    128 ≤ b.toNat ∧ ∃ m, SpellsFrom (place + 1) bytes m ∧ b.toNat % 128 + 128 * m = n := by
  have hpos := List.length_pos_iff.mpr hne
  constructor
  · rintro ⟨hdigits, hlen, hlt⟩
    cases hdigits with
    | last => exact absurd rfl hne
    | @more _ _ m hbig hrest =>
      rw [List.length_cons] at hlen
      rw [two_pow_place (by omega)] at hlt
      exact ⟨hbig, m, ⟨hrest, by omega, by omega⟩, rfl⟩
  · rintro ⟨hbig, m, ⟨hrest, hlen, hlt⟩, rfl⟩
    refine ⟨.more hbig hrest, by rw [List.length_cons]; omega, ?_⟩
    rw [two_pow_place (by omega)]
    omega

/-- A number that is read is spelled by the bytes before the rest. -/
lemma decodeFrom_eq_ok_iff : decodeFrom place bytes = .ok (n, rest) ↔
    ∃ digits, bytes = digits ++ rest ∧ SpellsFrom place digits n := by
  induction bytes generalizing place n with
  | nil =>
    rw [decodeFrom]
    refine iff_of_false (by rintro ⟨⟩) ?_
    rintro ⟨digits, hbytes, hdigits⟩
    exact hdigits.digits.ne_nil (List.append_eq_nil_iff.mp hbytes.symm).1
  | cons b bs ih =>
    have hfirst : (∃ digits, b :: bs = digits ++ rest ∧ SpellsFrom place digits n) ↔
        ∃ digits, bs = digits ++ rest ∧ SpellsFrom place (b :: digits) n := by
      constructor
      · rintro ⟨_ | ⟨d, digits⟩, hbytes, hdigits⟩
        · exact absurd rfl hdigits.digits.ne_nil
        · obtain ⟨rfl, hbs⟩ := List.cons_eq_cons.mp hbytes
          exact ⟨digits, hbs, hdigits⟩
      · rintro ⟨digits, rfl, hdigits⟩
        exact ⟨b :: digits, rfl, hdigits⟩
    rw [hfirst, decodeFrom]
    split
    case isTrue hover =>
      refine iff_of_false (by rintro ⟨⟩) ?_
      rintro ⟨digits, -, hdigits⟩
      cases digits with
      | nil => exact (spellsFrom_singleton_iff.mp hdigits).1 hover
      | cons d digits =>
        have hlen := hdigits.length_le
        rw [List.length_cons, List.length_cons] at hlen
        omega
    case isFalse hroom =>
      split
      case isTrue hsmall =>
        rw [Except.ok.injEq, Prod.mk.injEq]
        constructor
        · rintro ⟨rfl, rfl⟩
          exact ⟨[], rfl, spellsFrom_singleton_iff.mpr ⟨hroom, hsmall, rfl⟩⟩
        · rintro ⟨_ | ⟨d, digits⟩, rfl, hdigits⟩
          · exact ⟨(spellsFrom_singleton_iff.mp hdigits).2.2.symm, rfl⟩
          · have hbig := ((spellsFrom_cons_iff (List.cons_ne_nil d digits)).mp hdigits).1
            omega
      case isFalse hbig =>
        have hmore : (∃ digits, bs = digits ++ rest ∧ SpellsFrom place (b :: digits) n) ↔
            ∃ m, decodeFrom (place + 1) bs = .ok (m, rest) ∧ b.toNat % 128 + 128 * m = n := by
          simp only [ih]
          constructor
          · rintro ⟨_ | ⟨d, digits⟩, hbs, hdigits⟩
            · exact absurd (spellsFrom_singleton_iff.mp hdigits).2.1 hbig
            · obtain ⟨-, m, hm, hn⟩ := (spellsFrom_cons_iff (List.cons_ne_nil d digits)).mp hdigits
              exact ⟨m, ⟨d :: digits, hbs, hm⟩, hn⟩
          · rintro ⟨m, ⟨digits, hbs, hm⟩, hn⟩
            exact ⟨digits, hbs, (spellsFrom_cons_iff hm.digits.ne_nil).mpr ⟨by omega, m, hm, hn⟩⟩
        rw [hmore]
        cases decodeFrom (place + 1) bs with
        | error e => simp
        | ok p => simp [Prod.ext_iff, and_comm]

/-- Reading a number accepts all of its spellings, and nothing else. -/
theorem decode_eq_ok_iff : decode bytes = .ok (n, rest) ↔
    ∃ digits, bytes = digits ++ rest ∧ Spells digits n := by
  rw [decode, decodeFrom_eq_ok_iff]
  refine exists_congr fun digits => and_congr_right fun _ => ?_
  constructor
  · rintro ⟨hdigits, hlen, hlt⟩
    exact ⟨hdigits, by omega, hlt⟩
  · rintro ⟨hdigits, hlen, hlt⟩
    exact ⟨hdigits, by omega, hlt⟩

end Varint

/-- A kind of call is stored as one number only. -/
lemma CallKind.eq_toStored {stored : Nat} {kind : CallKind} (h : ofStored stored = some kind) :
    stored = kind.toStored := by
  unfold ofStored at h
  split at h <;> cases h <;> rfl

/-! ### Recognizing -/

/-- A reader yields the values that a format gives to the bytes before it. -/
def Recognizes {α : Type} (r : Reader α) (F : Format α) : Prop :=
  ∀ c a c', r c = .ok (a, c') ↔
    ∃ bytes, c.rest = bytes ++ c'.rest ∧ c'.offset = c.offset + bytes.length ∧ F bytes a

namespace Recognizes

variable {α β : Type} {r : Reader α} {k : α → Reader β} {F F' : Format α} {G : α → Format β}
  {bytes : List UInt8} {a a' : α}

lemma congr (h : Recognizes r F) (hF : ∀ bytes a, F bytes a ↔ F' bytes a) : Recognizes r F' := by
  intro c a c'
  simp only [h c a c', hF]

lemma pure (a : α) : Recognizes (Pure.pure a) fun bytes b => bytes = [] ∧ b = a := by
  rintro ⟨rest, offset⟩ b ⟨rest', offset'⟩
  constructor
  · rintro ⟨⟩
    exact ⟨[], rfl, rfl, rfl, rfl⟩
  · rintro ⟨_, hrest, hoffset, rfl, rfl⟩
    dsimp only at hrest hoffset
    subst hrest hoffset
    rfl

lemma throw (e : DecodeError) : Recognizes (throw e : Reader α) fun _ _ => False := by
  intro c a c'
  refine iff_of_false nofun ?_
  rintro ⟨_, _, _, h⟩
  exact h

lemma throw_bind (e : DecodeError) (k : α → Reader β) :
    Recognizes (MonadExcept.throw e >>= k) fun _ _ => False := by
  intro c a c'
  refine iff_of_false nofun ?_
  rintro ⟨_, _, _, h⟩
  exact h

/-- Where a reader stands makes no difference. -/
lemma position_bind {k : Nat → Reader α} (h : ∀ offset, Recognizes (k offset) F) :
    Recognizes (Cursor.position >>= k) F :=
  fun c => h c.offset c

lemma bind_eq_ok_iff {c c' : Cursor} {b : β} :
    (r >>= k) c = .ok (b, c') ↔ ∃ a c₁, r c = .ok (a, c₁) ∧ k a c₁ = .ok (b, c') := by
  simp only [Bind.bind, StateT.bind, Except.bind]
  cases r c with
  | error e => simp
  | ok p => simp [Prod.ext_iff]

lemma bind (h : Recognizes r F) (h' : ∀ a, Recognizes (k a) (G a)) :
    Recognizes (r >>= k) fun bytes b =>
      ∃ first rest a, bytes = first ++ rest ∧ F first a ∧ G a rest b := by
  rintro c b c'
  simp only [bind_eq_ok_iff, h c, h' _ _ b c']
  constructor
  · rintro ⟨a, c₁, ⟨first, hfirst, hoffset, ha⟩, rest, hrest, hoffset', hb⟩
    refine ⟨first ++ rest, ?_, ?_, first, rest, a, rfl, ha, hb⟩
    · rw [hfirst, hrest, List.append_assoc]
    · rw [hoffset', hoffset, List.length_append, Nat.add_assoc]
  · rintro ⟨_, hbytes, hoffset, first, rest, a, rfl, ha, hb⟩
    refine ⟨a, ⟨rest ++ c'.rest, c.offset + first.length⟩, ⟨first, ?_, rfl, ha⟩, rest, rfl, ?_, hb⟩
    · rw [hbytes, List.append_assoc]
    · rw [hoffset, List.length_append, Nat.add_assoc]

/-- The last step of a reader takes no bytes of its own. -/
lemma bind_last {R : α → β → Prop} (h : Recognizes r F)
    (h' : ∀ a, Recognizes (k a) fun bytes b => bytes = [] ∧ R a b) :
    Recognizes (r >>= k) fun bytes b => ∃ a, F bytes a ∧ R a b := by
  refine (h.bind h').congr fun bytes b => ?_
  constructor
  · rintro ⟨first, _, a, rfl, ha, rfl, hb⟩
    exact ⟨a, by rwa [List.append_nil], hb⟩
  · rintro ⟨a, ha, hb⟩
    exact ⟨bytes, [], a, (List.append_nil bytes).symm, ha, rfl, hb⟩

lemma bind_pure (h : Recognizes r F) (g : α → β) :
    Recognizes (r >>= fun a => Pure.pure (g a)) fun bytes b => ∃ a, F bytes a ∧ b = g a :=
  h.bind_last fun a => pure (g a)

/-- Some bytes begin with a value if it can be read from them, wherever they stand. -/
lemma leading_iff (h : Recognizes r F) (c : Cursor) :
    Format.Leading F c.rest a ↔ ∃ c', r c = .ok (a, c') := by
  simp only [h c]
  constructor
  · rintro ⟨first, rest, hrest, ha⟩
    exact ⟨⟨rest, c.offset + first.length⟩, first, hrest, rfl, ha⟩
  · rintro ⟨c', first, hrest, -, ha⟩
    exact ⟨first, c'.rest, hrest, ha⟩

/-- Bytes begin with one value only, and it has one end. -/
lemma append_unique {first first' rest rest' : List UInt8} (h : Recognizes r F)
    (ha : F first a) (ha' : F first' a') (heq : first ++ rest = first' ++ rest') :
    a = a' ∧ rest = rest' := by
  have hread := (h (.ofBytes (first ++ rest)) a ⟨rest, 0 + first.length⟩).mpr ⟨first, rfl, rfl, ha⟩
  have hread' := (h (.ofBytes (first ++ rest)) a' ⟨rest', 0 + first'.length⟩).mpr
    ⟨first', heq, rfl, ha'⟩
  rw [hread, Except.ok.injEq, Prod.mk.injEq, Cursor.mk.injEq] at hread'
  exact ⟨hread'.1, hread'.2.1⟩

lemma leading_unique (h : Recognizes r F) (ha : Format.Leading F bytes a)
    (ha' : Format.Leading F bytes a') : a = a' := by
  obtain ⟨first, rest, rfl, ha⟩ := ha
  obtain ⟨first', rest', heq, ha'⟩ := ha'
  exact (h.append_unique ha ha' heq).1

/-! ### Lists -/

lemma repeated (h : Recognizes r F) (count : Nat) : Recognizes (Cursor.repeated r count)
    fun bytes as => as.length = count ∧ Format.Sequence F bytes as := by
  induction count with
  | zero =>
    refine (pure []).congr fun bytes as => ?_
    constructor
    · rintro ⟨rfl, rfl⟩
      exact ⟨rfl, .nil⟩
    · rintro ⟨hlen, has⟩
      cases has with
      | nil => exact ⟨rfl, rfl⟩
      | cons => cases hlen
  | succ count ih =>
    refine (h.bind fun a => ih.bind_pure (a :: ·)).congr fun bytes as => ?_
    constructor
    · rintro ⟨first, others, a, rfl, ha, as, ⟨rfl, has⟩, rfl⟩
      exact ⟨rfl, .cons ha has⟩
    · rintro ⟨hlen, has⟩
      cases has with
      | nil => cases hlen
      | cons ha has => exact ⟨_, _, _, rfl, ha, _, ⟨Nat.succ.inj hlen, has⟩, rfl⟩

lemma varint : Recognizes Cursor.varint Varint.Spells := by
  intro c n c'
  have hvarint : Cursor.varint c = .ok (n, c') ↔ Varint.decode c.rest = .ok (n, c'.rest) ∧
      c'.offset = c.offset + (c.rest.length - c'.rest.length) := by
    rw [Cursor.varint]
    obtain ⟨rest', offset'⟩ := c'
    cases Varint.decode c.rest with
    | error e => cases e <;> exact iff_of_false (by rintro ⟨⟩) (by rintro ⟨⟨⟩, -⟩)
    | ok p =>
      simp only [Except.ok.injEq, Prod.ext_iff, Cursor.mk.injEq, and_assoc]
      refine and_congr_right fun _ => and_congr_right fun hrest => ?_
      rw [hrest, eq_comm]
  rw [hvarint, Varint.decode_eq_ok_iff]
  constructor
  · rintro ⟨⟨first, hrest, hfirst⟩, hoffset⟩
    refine ⟨first, hrest, ?_, hfirst⟩
    rw [hoffset, hrest, List.length_append, Nat.add_sub_cancel]
  · rintro ⟨first, hrest, hoffset, hfirst⟩
    refine ⟨⟨first, hrest, hfirst⟩, ?_⟩
    rw [hoffset, hrest, List.length_append, Nat.add_sub_cancel]

lemma counted (h : Recognizes r F) : Recognizes (Cursor.counted r) (Format.Counted F) := by
  refine (varint.bind fun count => h.repeated count).congr fun bytes as => ?_
  constructor
  · rintro ⟨count, items, _, rfl, hcount, rfl, has⟩
    exact .mk hcount has
  · rintro ⟨hcount, has⟩
    exact ⟨_, _, _, rfl, hcount, rfl, has⟩

/-! ### Bytes of a given length -/

lemma bytes_eq_ok_iff {count : Nat} {c c' content : Cursor} :
    Cursor.bytes count c = .ok (content, c') ↔ c.rest = content.rest ++ c'.rest ∧
      content.rest.length = count ∧ content.offset = c.offset ∧ c'.offset = c.offset + count := by
  obtain ⟨rest, offset⟩ := c
  obtain ⟨rest', offset'⟩ := c'
  obtain ⟨content, contentAt⟩ := content
  rw [Cursor.bytes]
  dsimp only
  split
  · rename_i hle
    rw [Except.ok.injEq, Prod.mk.injEq, Cursor.mk.injEq, Cursor.mk.injEq]
    constructor
    · rintro ⟨⟨rfl, rfl⟩, rfl, rfl⟩
      exact ⟨(List.take_append_drop count rest).symm, List.length_take_of_le hle, rfl, rfl⟩
    · rintro ⟨rfl, rfl, rfl, rfl⟩
      exact ⟨⟨List.take_left, rfl⟩, List.drop_left, rfl⟩
  · rename_i hgt
    refine iff_of_false (by rintro ⟨⟩) ?_
    rintro ⟨rfl, rfl, -⟩
    exact hgt (by rw [List.length_append]; omega)

/-- Where some bytes stand makes no difference. -/
lemma bytes_bind {k : Cursor → Reader β} {G : List UInt8 → Format β} (count : Nat)
    (h : ∀ content, Recognizes (k content) (G content.rest)) :
    Recognizes (Cursor.bytes count >>= k) fun bytes b =>
      ∃ first rest, bytes = first ++ rest ∧ first.length = count ∧ G first rest b := by
  intro c b c'
  simp only [bind_eq_ok_iff, bytes_eq_ok_iff, h _ _ b c']
  constructor
  · rintro ⟨content, c₁, ⟨hrest, rfl, -, hoffset⟩, rest, hrest', hoffset', hb⟩
    refine ⟨content.rest ++ rest, ?_, ?_, content.rest, rest, rfl, rfl, hb⟩
    · rw [hrest, hrest', List.append_assoc]
    · rw [hoffset', hoffset, List.length_append, Nat.add_assoc]
  · rintro ⟨_, hrest, hoffset, first, rest, rfl, rfl, hb⟩
    refine ⟨⟨first, c.offset⟩, ⟨rest ++ c'.rest, c.offset + first.length⟩, ⟨?_, rfl, rfl, rfl⟩,
      rest, rfl, ?_, hb⟩
    · rw [hrest, List.append_assoc]
    · rw [hoffset, List.length_append, Nat.add_assoc]

/-! ### Fields -/

lemma word (field : NumberField) :
    Recognizes (Cursor.word field) fun bytes (n : UInt32) => Varint.Spells bytes n.toNat := by
  refine position_bind fun offset => (varint.bind_last (R := fun value n => value = n.toNat)
    fun value => ?_).congr fun bytes n => exists_eq_right
  split
  · rename_i hlt
    refine (pure _).congr fun bytes n => and_congr_right fun _ => ?_
    rw [← UInt32.toNat_inj, UInt32.toNat_ofNat_of_lt' hlt, eq_comm]
  · rename_i hge
    refine (throw _).congr fun bytes n => iff_of_false False.elim ?_
    rintro ⟨-, rfl⟩
    exact hge n.toNat_lt

lemma symbol : Recognizes Cursor.symbol Format.Symbol := by
  refine position_bind fun offset => ((word .symbol).bind_last
    (R := fun n id => id.val = n ∧ id ≠ .absent) fun n => ?_).congr fun bytes id => ?_
  · dsimp only
    split
    · rename_i habsent
      refine (throw _).congr fun bytes id => iff_of_false False.elim ?_
      rintro ⟨-, rfl, hne⟩
      exact hne (beq_iff_eq.mp habsent)
    · rename_i hpresent
      refine (pure _).congr fun bytes id => and_congr_right fun _ => ?_
      constructor
      · rintro rfl
        exact ⟨rfl, fun heq => hpresent (beq_iff_eq.mpr heq)⟩
      · rintro ⟨rfl, -⟩
        rfl
  · constructor
    · rintro ⟨_, hspells, rfl, hne⟩
      exact ⟨hspells, hne⟩
    · rintro ⟨hspells, hne⟩
      exact ⟨id.val, hspells, rfl, hne⟩

lemma text : Recognizes Cursor.text Format.Text := by
  refine (varint.bind fun count => bytes_bind
    (G := fun content rest s => rest = [] ∧ content = Utf8.encode s) count
    fun content => ?_).congr fun bytes s => ?_
  · cases hdecode : Utf8.decode? content.rest with
    | some s =>
      refine (pure s).congr fun bytes s' => and_congr_right fun _ => ?_
      rw [Utf8.eq_encode_of_decode? hdecode]
      constructor
      · rintro rfl
        rfl
      · intro heq
        have hback := congrArg Utf8.decode? heq
        rw [Utf8.decode?_encode, Utf8.decode?_encode, Option.some.injEq] at hback
        exact hback.symm
    | none =>
      refine (throw _).congr fun bytes s => iff_of_false False.elim ?_
      rintro ⟨-, heq⟩
      rw [heq, Utf8.decode?_encode] at hdecode
      cases hdecode
  · constructor
    · rintro ⟨length, _, _, rfl, hcount, content, _, rfl, rfl, rfl, rfl⟩
      rw [List.append_nil]
      exact .mk hcount
    · rintro ⟨hcount⟩
      exact ⟨_, _, _, rfl, hcount, _, [], (List.append_nil _).symm, rfl, rfl, rfl⟩

lemma call : Recognizes Layout.readCall Format.CallFields := by
  refine position_bind fun offset => (varint.bind (G := fun stored bytes edge =>
    ∃ b₂ b₃ preserved, bytes = b₂ ++ b₃ ∧ stored = edge.kind.toStored ∧
      Format.Symbol b₂ edge.callee ∧ Varint.Spells b₃ preserved ∧
        edge.preserved = (preserved != 0)) fun stored => ?_).congr fun bytes edge => ?_
  · split
    · rename_i hnone
      refine (throw _).congr fun bytes edge => iff_of_false False.elim ?_
      rintro ⟨_, _, _, -, rfl, -⟩
      rw [CallKind.ofStored_toStored] at hnone
      cases hnone
    · rename_i kind hkind
      refine (symbol.bind fun callee => varint.bind_pure fun preserved =>
        ({ callee, kind, preserved := preserved != 0 } : CallEdge)).congr fun bytes edge => ?_
      constructor
      · rintro ⟨b₂, b₃, callee, rfl, hcallee, preserved, hpreserved, rfl⟩
        exact ⟨b₂, b₃, preserved, rfl, CallKind.eq_toStored hkind, hcallee,
          hpreserved, rfl⟩
      · rintro ⟨b₂, b₃, preserved, rfl, rfl, hcallee, hpreserved, heq⟩
        rw [CallKind.ofStored_toStored, Option.some.injEq] at hkind
        refine ⟨b₂, b₃, edge.callee, rfl, hcallee, preserved, hpreserved, ?_⟩
        rw [← hkind, ← heq]
  · constructor
    · rintro ⟨b₁, _, _, rfl, hkind, b₂, b₃, preserved, rfl, rfl, hcallee, hpreserved, heq⟩
      obtain ⟨callee, kind, _⟩ := edge
      cases heq
      exact .mk hkind hcallee hpreserved
    · rintro ⟨hkind, hcallee, hpreserved⟩
      exact ⟨_, _, _, rfl, hkind, _, _, _, rfl, rfl, hcallee, hpreserved, rfl⟩

lemma function : Recognizes Layout.readFunction Format.FunctionFields := by
  refine (symbol.bind fun id => (word .functionFlags).bind fun flags =>
    (counted call).bind_pure fun calls =>
      ({ id, flags := (FunctionFlags.ofBits flags).known, calls } : FunctionSummary)).congr
        fun bytes f => ?_
  constructor
  · rintro ⟨b₁, _, id, rfl, hid, b₂, b₃, flags, rfl, hflags, calls, hcalls, rfl⟩
    exact .mk hid hflags hcalls
  · rintro ⟨hid, hflags, hcalls⟩
    exact ⟨_, _, _, rfl, hid, _, _, _, rfl, hflags, _, hcalls, rfl⟩

lemma witness : Recognizes Layout.readWitness Format.WitnessFields := by
  refine (symbol.bind fun requirement => symbol.bind_pure fun implementation =>
    (requirement, implementation)).congr fun bytes w => ?_
  constructor
  · rintro ⟨b₁, b₂, requirement, rfl, hrequirement, implementation, himplementation, rfl⟩
    exact .mk hrequirement himplementation
  · rintro ⟨hrequirement, himplementation⟩
    exact ⟨_, _, _, rfl, hrequirement, _, himplementation, rfl⟩

end Recognizes

/-- Read a type with all of its witnesses. -/
def readTypeRecord : Reader TypeRecord := do
  let id ← Cursor.symbol
  let base ← Cursor.word .baseType
  let slots ← Cursor.counted Cursor.symbol
  let witnesses ← Cursor.counted Layout.readWitness
  return { id, base := SymbolId.ofStored base, slots, witnesses }

/-- Of what is read of a type, the last witness for each requirement is kept. -/
lemma readType_eq_map : Layout.readType = (do return (← readTypeRecord).summary) := by
  simp only [Layout.readType, readTypeRecord, bind_assoc, pure_bind, TypeRecord.summary]

namespace Recognizes

lemma typeRecord : Recognizes readTypeRecord Format.TypeFields := by
  refine (symbol.bind fun id => (word .baseType).bind fun base => (counted symbol).bind fun slots =>
    (counted witness).bind_pure fun witnesses =>
      ({ id, base := SymbolId.ofStored base, slots, witnesses } : TypeRecord)).congr
        fun bytes t => ?_
  constructor
  · rintro ⟨b₁, _, id, rfl, hid, b₂, _, base, rfl, hbase, b₃, b₄, slots, rfl, hslots, witnesses,
      hwitnesses, rfl⟩
    exact .mk hid hbase hslots hwitnesses
  · rintro ⟨hid, hbase, hslots, hwitnesses⟩
    exact ⟨_, _, _, rfl, hid, _, _, _, rfl, hbase, _, _, _, rfl, hslots, _, hwitnesses, rfl⟩

lemma metadata : Recognizes Layout.readMetadata fun bytes s => ∃ livenessComputed moduleName,
    Format.MetadataFields bytes (livenessComputed, moduleName) ∧
      s = { moduleName, livenessComputed } := by
  refine (varint.bind fun flags => text.bind_pure fun moduleName =>
    ({ moduleName, livenessComputed := flags % 2 == 1 } : Store)).congr fun bytes s => ?_
  constructor
  · rintro ⟨b₁, b₂, flags, rfl, hflags, moduleName, hname, rfl⟩
    exact ⟨_, _, .mk hflags hname, rfl⟩
  · rintro ⟨_, _, ⟨hflags, hname⟩, rfl⟩
    exact ⟨_, _, _, rfl, hflags, _, hname, rfl⟩

lemma debugName (offset : Nat) : Recognizes (Layout.readDebugName offset) fun bytes p =>
    Format.DebugNameFields bytes (p.function, p.name) ∧ p.offset = offset := by
  refine ((word .symbol).bind fun function => text.bind_pure fun name =>
    ({ offset, function := ⟨function⟩, name } : PendingName)).congr fun bytes p => ?_
  constructor
  · rintro ⟨b₁, b₂, function, rfl, hfunction, name, hname, rfl⟩
    exact ⟨@Format.DebugNameFields.mk _ _ ⟨function⟩ _ hfunction hname, rfl⟩
  · obtain ⟨offset', function, name⟩ := p
    rintro ⟨⟨hfunction, hname⟩, rfl⟩
    exact ⟨_, _, _, rfl, hfunction, _, hname, rfl⟩

lemma header : Recognizes Layout.readHeader fun bytes _ =>
    ∃ version, bytes = Layout.signature ++ version ∧ Varint.Spells version Layout.version := by
  refine (bytes_bind (G := fun start rest _ => start = Layout.signature ∧
    Varint.Spells rest Layout.version) _ fun start => ?_).congr fun bytes _ => ?_
  · dsimp only
    split
    · rename_i hne
      exact (throw_bind _ _).congr fun bytes _ => iff_of_false False.elim fun h => hne h.1
    · rename_i hsignature
      rw [ne_eq, not_not] at hsignature
      refine position_bind fun offset => (varint.bind_last
        (R := fun found _ => found = Layout.version) fun found => ?_).congr fun bytes _ => ?_
      · split
        · rename_i hzero
          refine (throw_bind _ _).congr fun bytes _ => iff_of_false False.elim ?_
          rintro ⟨-, hversion⟩
          rw [hzero] at hversion
          cases hversion
        · rename_i hpos
          split
          · rename_i hgt
            refine (throw _).congr fun bytes _ => iff_of_false False.elim ?_
            rintro ⟨-, rfl⟩
            exact Nat.lt_irrefl _ hgt
          · rename_i hle
            have hversion : found = Layout.version := by
              rw [Layout.version] at hle ⊢
              omega
            exact (pure ()).congr fun bytes _ =>
              and_congr_right fun _ => iff_of_true rfl hversion
      · constructor
        · rintro ⟨_, hfound, rfl⟩
          exact ⟨hsignature, hfound⟩
        · rintro ⟨-, hfound⟩
          exact ⟨_, hfound, rfl⟩
  · constructor
    · rintro ⟨_, version, rfl, -, rfl, hversion⟩
      exact ⟨version, rfl, hversion⟩
    · rintro ⟨version, rfl, hversion⟩
      exact ⟨_, version, rfl, rfl, rfl, hversion⟩

end Recognizes

end LinkSummary
