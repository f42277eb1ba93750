import LinkSummary.Json.Printer
import LinkSummary.Proofs.Json.Spelling
import Mathlib.Data.List.DropRight

/-!
# Reading what was written

Both forms in which a value is written are read back as the value, and so is every text that puts
blanks where the forms have none or other ones.
-/

namespace LinkSummary.Json

variable {v : Json} {cs cs' gap rest : List Char} {fuel : Nat}

/-! ### Blanks -/

def Blanks (gap : List Char) : Prop := ∀ c ∈ gap, isBlank c = true

lemma blanks_singleton {c : Char} (h : isBlank c = true) : Blanks [c] :=
  List.forall_mem_singleton.mpr h

lemma skipBlanks_append (h : Blanks gap) (cs : List Char) :
    skipBlanks (gap ++ cs) = skipBlanks cs :=
  List.dropWhile_append_of_pos h

lemma skipBlanks_cons {c : Char} (h : isBlank c = false) : skipBlanks (c :: cs) = c :: cs := by
  rw [skipBlanks, List.dropWhile_cons, h]
  rfl

lemma skipBlanks_skipBlanks (cs : List Char) : skipBlanks (skipBlanks cs) = skipBlanks cs :=
  List.dropWhile_idempotent _ _

lemma readValue_congr (h : skipBlanks cs = skipBlanks cs') (fuel : Nat) :
    readValue fuel cs = readValue fuel cs' := by
  cases fuel with
  | zero => rw [readValue, readValue]
  | succ fuel => rw [readValue, readValue, h]

lemma readItems_congr (h : skipBlanks cs = skipBlanks cs') (fuel : Nat) :
    readItems fuel cs = readItems fuel cs' := by
  cases fuel with
  | zero => rw [readItems, readItems]
  | succ fuel => rw [readItems, readItems, readValue_congr h]

lemma readMembers_congr (h : skipBlanks cs = skipBlanks cs') (fuel : Nat) :
    readMembers fuel cs = readMembers fuel cs' := by
  cases fuel with
  | zero => rw [readMembers, readMembers]
  | succ fuel => rw [readMembers, readMembers, h]

/-! ### Values -/

/-- A text is read as a value wherever it stands, with fuel after its length. -/
def Reads (v : Json) (text : List Char) : Prop :=
  ∀ fuel rest, 2 * text.length ≤ fuel → EndsNumber rest →
    readValue fuel (text ++ rest) = some (v, rest)

lemma toList_quoted (s : String) (rest : List Char) :
    (quoted s).toList ++ rest = '"' :: (s.toList ++ '"' :: rest) := by
  rw [quoted, String.toList_append, String.toList_append, List.append_assoc, List.append_assoc]
  rfl

namespace Reads

lemma null : Reads .null "null".toList := by
  intro fuel rest hfuel _
  cases fuel with
  | zero => cases hfuel
  | succ fuel => rw [readValue]; rfl

lemma bool (b : Bool) : Reads (.bool b) (compact (.bool b)).toList := by
  intro fuel rest hfuel _
  cases fuel with
  | zero => cases b <;> cases hfuel
  | succ fuel => cases b <;> (rw [readValue]; rfl)

lemma number (n : Nat) : Reads (ofNat n) (toString n).toList := by
  intro fuel rest hfuel hrest
  obtain ⟨digit, digits, hdigits, hdigit⟩ := exists_toDigits_eq_cons n
  have hspelling := numberSpelling?_toString n hrest
  rw [toList_toString, hdigits] at hfuel hspelling ⊢
  rw [List.cons_append] at hspelling ⊢
  have hblank : isBlank digit = false := by
    rw [Bool.eq_false_iff]
    intro h
    simp only [isBlank, Bool.or_eq_true, beq_iff_eq] at h
    obtain ((rfl | rfl) | rfl) | rfl := h <;> cases hdigit
  cases fuel with
  | zero => cases hfuel
  | succ fuel =>
    rw [readValue, skipBlanks_cons hblank]
    split
    case h_7 =>
      rw [hspelling]
      rfl
    all_goals
      rename_i heq
      cases heq
      cases hdigit

lemma text (s : String) : Reads (ofText s) (quoted (escape s)).toList := by
  intro fuel rest hfuel _
  cases fuel with
  | zero => simp [quoted] at hfuel
  | succ fuel =>
    rw [toList_quoted, readValue, skipBlanks_cons (by decide)]
    simp only [textSpelling?_escape, Option.pure_def, Option.bind_eq_bind, Option.bind_some,
      String.ofList_toList, ofText]

end Reads

/-! ### Lists -/

/-- A text up to the closing bracket is read as the items of a list. -/
def ReadsItems (items : List Json) (printed : List Char) : Prop :=
  ∀ fuel rest, 2 * printed.length + 1 ≤ fuel →
    readItems fuel (printed ++ ']' :: rest) = some (items, rest)

lemma endsNumber_cons {c : Char} (h : c ∈ [',', ']', '\x7d', '\n', ' ']) (cs : List Char) :
    EndsNumber (c :: cs) := by
  simp only [List.mem_cons, List.not_mem_nil, or_false] at h
  rintro _ ⟨⟩
  obtain rfl | rfl | rfl | rfl | rfl := h <;> decide

lemma endsNumber_append (hgap : Blanks gap) (h : EndsNumber rest) : EndsNumber (gap ++ rest) := by
  cases gap with
  | nil => exact h
  | cons c cs =>
    have hblank := hgap c List.mem_cons_self
    simp only [isBlank, Bool.or_eq_true, beq_iff_eq] at hblank
    rintro _ ⟨⟩
    obtain ((rfl | rfl) | rfl) | rfl := hblank <;> decide

namespace ReadsItems

variable {items : List Json} {printed more : List Char}

/-- The last item, with blanks before the closing bracket. -/
lemma singleton (h : Reads v printed) (hgap : Blanks gap) : ReadsItems [v] (printed ++ gap) := by
  intro fuel rest hfuel
  rw [List.length_append] at hfuel
  cases fuel with
  | zero => cases hfuel
  | succ fuel =>
    have hends : EndsNumber (gap ++ ']' :: rest) :=
      endsNumber_append hgap (endsNumber_cons (by decide) rest)
    have hclosing : skipBlanks (']' :: rest) = ']' :: rest := skipBlanks_cons (by decide)
    rw [readItems, List.append_assoc, h fuel _ (by omega) hends]
    simp only [Option.bind_eq_bind, Option.bind_some, skipBlanks_append hgap, hclosing]
    rfl

/-- One more item, with blanks behind the comma. -/
lemma cons (h : Reads v printed) (hgap : Blanks gap) (hitems : ReadsItems items more) :
    ReadsItems (v :: items) (printed ++ ',' :: (gap ++ more)) := by
  intro fuel rest hfuel
  rw [List.length_append, List.length_cons, List.length_append] at hfuel
  cases fuel with
  | zero => cases hfuel
  | succ fuel =>
    have hends : EndsNumber (',' :: (gap ++ more ++ ']' :: rest)) :=
      endsNumber_cons (by decide) _
    have hcomma : skipBlanks (',' :: (gap ++ more ++ ']' :: rest)) =
        ',' :: (gap ++ more ++ ']' :: rest) := skipBlanks_cons (by decide)
    have hmore : readItems fuel (gap ++ more ++ ']' :: rest) = some (items, rest) := by
      rw [List.append_assoc, readItems_congr (skipBlanks_append hgap _)]
      exact hitems fuel rest (by omega)
    rw [readItems, List.append_assoc, List.cons_append, h fuel _ (by omega) hends]
    simp only [Option.bind_eq_bind, Option.bind_some, hcomma, hmore, Option.pure_def]

end ReadsItems

/-- No value begins with a closing bracket. -/
lemma readItems_of_bracket (h : skipBlanks cs = ']' :: rest) (fuel : Nat) :
    readItems fuel cs = none := by
  cases fuel with
  | zero => rw [readItems]
  | succ fuel =>
    have hvalue : readValue fuel cs = none := by
      cases fuel with
      | zero => rw [readValue]
      | succ fuel =>
        rw [readValue, h]
        rfl
    rw [readItems, hvalue]
    rfl

namespace Reads

lemma emptyArray : Reads (.array []) "[]".toList := by
  intro fuel rest hfuel _
  cases fuel with
  | zero => cases hfuel
  | succ fuel => rw [readValue]; rfl

/-- A list with some items, with blanks behind the opening bracket. -/
lemma array {items : List Json} {printed : List Char} (hitems : ReadsItems items printed)
    (hgap : Blanks gap) : Reads (.array items) ('[' :: (gap ++ printed ++ [']'])) := by
  intro fuel rest hfuel _
  simp only [List.length_cons, List.length_append, List.length_nil] at hfuel
  cases fuel with
  | zero => cases hfuel
  | succ fuel =>
    have hread := hitems fuel rest (by omega)
    rw [← readItems_congr (skipBlanks_append hgap _)] at hread
    have hopening : skipBlanks ('[' :: (gap ++ (printed ++ ']' :: rest))) =
        '[' :: (gap ++ (printed ++ ']' :: rest)) := skipBlanks_cons (by decide)
    rw [List.cons_append, List.append_assoc, List.append_assoc, List.singleton_append, readValue,
      hopening]
    simp only
    split
    · rename_i hbracket
      rw [readItems_of_bracket hbracket] at hread
      cases hread
    · rw [readItems_congr (skipBlanks_skipBlanks _), hread]
      rfl

end Reads

/-! ### Records -/

/-- A text up to the closing brace is read as the members of a record. -/
def ReadsMembers (members : List (String × Json)) (printed : List Char) : Prop :=
  ∀ fuel rest, 2 * printed.length + 1 ≤ fuel →
    readMembers fuel (printed ++ '\x7d' :: rest) = some (members, rest)

/-- A text is read as a member: a key in quotes, and a value after a colon and blanks. -/
inductive ReadsMember : String × Json → List Char → Prop
  | mk {key : String} {value : Json} {gap printed : List Char} (hgap : Blanks gap)
      (hvalue : Reads value printed) :
      ReadsMember (escape key, value) ((quoted (escape key)).toList ++ ':' :: (gap ++ printed))

variable {member : String × Json} {members : List (String × Json)} {printed more : List Char}

/-- What is read behind a member: more members after a comma, or the brace. -/
def readBehind (fuel : Nat) (member : String × Json) :
    List Char → Option (List (String × Json) × List Char)
  | ',' :: cs => do
    let (members, rest) ← readMembers fuel cs
    return (member :: members, rest)
  | '\x7d' :: rest => return ([member], rest)
  | _ => none

/-- The member at the front of a text is read as a whole. -/
lemma readMembers_append (h : ReadsMember member printed) (hfuel : 2 * printed.length ≤ fuel)
    (hrest : EndsNumber rest) :
    readMembers (fuel + 1) (printed ++ rest) = readBehind fuel member (skipBlanks rest) := by
  obtain @⟨key, value, gap, printed, hgap, hvalue⟩ := h
  rw [List.length_append, List.length_cons, List.length_append] at hfuel
  have hread : readValue fuel (gap ++ (printed ++ rest)) = some (value, rest) := by
    rw [readValue_congr (skipBlanks_append hgap _)]
    exact hvalue fuel rest (by omega) hrest
  have hcolon : skipBlanks (':' :: (gap ++ (printed ++ rest))) =
      ':' :: (gap ++ (printed ++ rest)) := skipBlanks_cons (by decide)
  rw [List.append_assoc, List.cons_append, List.append_assoc, toList_quoted, readMembers,
    skipBlanks_cons (by decide)]
  simp only [textSpelling?_escape, Option.bind_eq_bind, Option.bind_some, hcolon, hread,
    String.ofList_toList]
  rfl

namespace ReadsMembers

/-- The last member, with blanks before the closing brace. -/
lemma singleton (h : ReadsMember member printed) (hgap : Blanks gap) :
    ReadsMembers [member] (printed ++ gap) := by
  intro fuel rest hfuel
  rw [List.length_append] at hfuel
  cases fuel with
  | zero => cases hfuel
  | succ fuel =>
    have hends : EndsNumber (gap ++ '\x7d' :: rest) :=
      endsNumber_append hgap (endsNumber_cons (by decide) rest)
    have hclosing : skipBlanks (gap ++ '\x7d' :: rest) = '\x7d' :: rest := by
      rw [skipBlanks_append hgap, skipBlanks_cons (by decide)]
    rw [List.append_assoc, readMembers_append h (by omega) hends, hclosing]
    rfl

/-- One more member, with blanks behind the comma. -/
lemma cons (h : ReadsMember member printed) (hgap : Blanks gap)
    (hmembers : ReadsMembers members more) :
    ReadsMembers (member :: members) (printed ++ ',' :: (gap ++ more)) := by
  intro fuel rest hfuel
  rw [List.length_append, List.length_cons, List.length_append] at hfuel
  cases fuel with
  | zero => cases hfuel
  | succ fuel =>
    have hcomma : skipBlanks (',' :: (gap ++ more ++ '\x7d' :: rest)) =
        ',' :: (gap ++ more ++ '\x7d' :: rest) := skipBlanks_cons (by decide)
    have hmore : readMembers fuel (gap ++ more ++ '\x7d' :: rest) = some (members, rest) := by
      rw [List.append_assoc, readMembers_congr (skipBlanks_append hgap _)]
      exact hmembers fuel rest (by omega)
    rw [List.append_assoc, List.cons_append,
      readMembers_append h (by omega) (endsNumber_cons (by decide) _), hcomma]
    rw [readBehind, hmore]
    rfl

end ReadsMembers

/-- No member begins with a closing brace. -/
lemma readMembers_of_brace (h : skipBlanks cs = '\x7d' :: rest) (fuel : Nat) :
    readMembers fuel cs = none := by
  cases fuel with
  | zero => rw [readMembers]
  | succ fuel =>
    rw [readMembers, h]
    rfl

namespace Reads

lemma emptyObject : Reads (.object []) "\x7b\x7d".toList := by
  intro fuel rest hfuel _
  cases fuel with
  | zero => cases hfuel
  | succ fuel => rw [readValue]; rfl

/-- A record with some members, with blanks behind the opening brace. -/
lemma object (hmembers : ReadsMembers members printed) (hgap : Blanks gap) :
    Reads (.object members) ('\x7b' :: (gap ++ printed ++ ['\x7d'])) := by
  intro fuel rest hfuel _
  simp only [List.length_cons, List.length_append, List.length_nil] at hfuel
  cases fuel with
  | zero => cases hfuel
  | succ fuel =>
    have hread := hmembers fuel rest (by omega)
    rw [← readMembers_congr (skipBlanks_append hgap _)] at hread
    have hopening : skipBlanks ('\x7b' :: (gap ++ (printed ++ '\x7d' :: rest))) =
        '\x7b' :: (gap ++ (printed ++ '\x7d' :: rest)) := skipBlanks_cons (by decide)
    rw [List.cons_append, List.append_assoc, List.append_assoc, List.singleton_append, readValue,
      hopening]
    simp only
    split
    · rename_i hbrace
      rw [readMembers_of_brace hbrace] at hread
      cases hread
    · rw [readMembers_congr (skipBlanks_skipBlanks _), hread]
      rfl

end Reads

/-! ### Forms -/

section Forms

variable {gap closing : String} {print : Json → String}

lemma separated_cons_cons (separator s s' : String) (ss : List String) :
    separated separator (s :: s' :: ss) = s ++ separator ++ separated separator (s' :: ss) := rfl

lemma readsItems_separated {items : List Json} (hne : items ≠ []) (hgap : Blanks gap.toList)
    (hclosing : Blanks closing.toList) (h : ∀ item ∈ items, Reads item (print item).toList) :
    ReadsItems items
      ((separated ("," ++ gap) (items.map print)).toList ++ closing.toList) := by
  induction items with
  | nil => exact absurd rfl hne
  | cons item items ih =>
    rw [List.forall_mem_cons] at h
    cases items with
    | nil => exact .singleton h.1 hclosing
    | cons item' items =>
      have hmore := ReadsItems.cons h.1 hgap (ih (List.cons_ne_nil _ _) h.2)
      rw [List.map_cons, List.map_cons, separated_cons_cons]
      simp only [String.toList_append, List.append_assoc] at hmore ⊢
      exact hmore

lemma readsMembers_separated (blank : String) {fields : List (String × Json)} (hne : fields ≠ [])
    (hgap : Blanks gap.toList) (hclosing : Blanks closing.toList) (hblank : Blanks blank.toList)
    (h : ∀ field ∈ fields, Reads field.2 (print field.2).toList) :
    ReadsMembers (fields.map fun field => (escape field.1, field.2))
      ((separated ("," ++ gap) (fields.map fun field =>
        quoted (escape field.1) ++ ":" ++ blank ++ print field.2)).toList ++ closing.toList) := by
  have hmember : ∀ field : String × Json, Reads field.2 (print field.2).toList →
      ReadsMember (escape field.1, field.2)
        (quoted (escape field.1) ++ ":" ++ blank ++ print field.2).toList := by
    intro field hfield
    have hmember : ReadsMember (escape field.1, field.2)
        ((quoted (escape field.1)).toList ++ ':' :: (blank.toList ++ (print field.2).toList)) :=
      .mk hblank hfield
    simp only [String.toList_append, List.append_assoc]
    exact hmember
  induction fields with
  | nil => exact absurd rfl hne
  | cons field fields ih =>
    rw [List.forall_mem_cons] at h
    cases fields with
    | nil => exact .singleton (hmember field h.1) hclosing
    | cons field' fields =>
      have hmore := ReadsMembers.cons (hmember field h.1) hgap (ih (List.cons_ne_nil _ _) h.2)
      simp only [List.map_cons, separated_cons_cons, String.toList_append,
        List.append_assoc] at hmore ⊢
      exact hmore

/-- A list with its items between brackets. -/
lemma reads_array_separated {items : List Json} (hne : items ≠ []) (hgap : Blanks gap.toList)
    (hclosing : Blanks closing.toList) (h : ∀ item ∈ items, Reads item (print item).toList) :
    Reads (.array items)
      ("[" ++ gap ++ separated ("," ++ gap) (items.map print) ++ closing ++ "]").toList := by
  have harray := Reads.array (readsItems_separated hne hgap hclosing h) hgap
  simp only [String.toList_append, List.append_assoc] at harray ⊢
  exact harray

/-- A record with its members between braces. -/
lemma reads_ofFields_separated (blank : String) {fields : List (String × Json)} (hne : fields ≠ [])
    (hgap : Blanks gap.toList) (hclosing : Blanks closing.toList) (hblank : Blanks blank.toList)
    (h : ∀ field ∈ fields, Reads field.2 (print field.2).toList) :
    Reads (ofFields fields)
      ("\x7b" ++ gap ++ separated ("," ++ gap) (fields.map fun field =>
        quoted (escape field.1) ++ ":" ++ blank ++ print field.2) ++ closing ++ "\x7d").toList := by
  have hobject := Reads.object (readsMembers_separated blank hne hgap hclosing hblank h) hgap
  simp only [String.toList_append, List.append_assoc] at hobject ⊢
  exact hobject

end Forms

/-- Values whose keys, texts and numbers are spelled as they are written. -/
inductive WellSpelled : Json → Prop
  | null : WellSpelled .null
  | bool (b : Bool) : WellSpelled (.bool b)
  | ofNat (n : Nat) : WellSpelled (ofNat n)
  | ofText (s : String) : WellSpelled (ofText s)
  | array {items : List Json} (h : ∀ item ∈ items, WellSpelled item) : WellSpelled (.array items)
  | ofFields {fields : List (String × Json)} (h : ∀ field ∈ fields, WellSpelled field.2) :
      WellSpelled (ofFields fields)

lemma compactItems_eq_map (items : List Json) : compactItems items = items.map compact := by
  induction items with
  | nil => rw [compactItems, List.map_nil]
  | cons item items ih => rw [compactItems, List.map_cons, ih]

lemma compactMembers_eq_map (members : List (String × Json)) : compactMembers members =
    members.map fun member => quoted member.1 ++ ":" ++ compact member.2 := by
  induction members with
  | nil => rw [compactMembers, List.map_nil]
  | cons member members ih => rw [compactMembers, List.map_cons, ih]

lemma indentedItems_eq_map (depth : Nat) (items : List Json) :
    indentedItems depth items = items.map (indented (depth + 1)) := by
  induction items with
  | nil => rw [indentedItems, List.map_nil]
  | cons item items ih => rw [indentedItems, List.map_cons, ih]

lemma indentedMembers_eq_map (depth : Nat) (members : List (String × Json)) :
    indentedMembers depth members =
      members.map fun member => quoted member.1 ++ ": " ++ indented (depth + 1) member.2 := by
  induction members with
  | nil => rw [indentedMembers, List.map_nil]
  | cons member members ih => rw [indentedMembers, List.map_cons, ih]

lemma blanks_newLine (depth : Nat) : Blanks (newLine depth).toList := by
  intro c hc
  simp only [newLine, String.toList_append, String.toList_ofList, List.mem_append,
    List.mem_replicate] at hc
  obtain hc | ⟨-, rfl⟩ := hc
  · obtain rfl := List.mem_singleton.mp hc
    decide
  · decide

lemma blanks_nil : Blanks "".toList := nofun

namespace WellSpelled

/-- The compact form of a value is read as the value. -/
lemma reads_compact (h : WellSpelled v) : Reads v (compact v).toList := by
  induction h with
  | null => exact .null
  | bool b => exact .bool b
  | ofNat n => exact .number n
  | ofText s => exact .text s
  | @array items _ ih =>
    by_cases hne : items = []
    · subst hne
      exact .emptyArray
    · have harray := reads_array_separated hne blanks_nil blanks_nil ih
      simp only [String.append_empty] at harray
      rw [compact, compactItems_eq_map]
      exact harray
  | @ofFields fields _ ih =>
    by_cases hne : fields = []
    · subst hne
      exact .emptyObject
    · have hobject := reads_ofFields_separated "" hne blanks_nil blanks_nil blanks_nil ih
      simp only [String.append_empty] at hobject
      rw [Json.ofFields, compact, compactMembers_eq_map, List.map_map]
      exact hobject

/-- The indented form of a value is read as the value. -/
lemma reads_indented (h : WellSpelled v) (depth : Nat) : Reads v (indented depth v).toList := by
  induction h generalizing depth with
  | null => rw [indented]; exact .null
  | bool b => rw [indented]; exact .bool b
  | ofNat n => exact .number n
  | ofText s => exact .text s
  | @array items _ ih =>
    rw [indented, indentedItems_eq_map]
    cases items with
    | nil => exact .emptyArray
    | cons item items =>
      exact reads_array_separated (List.cons_ne_nil _ _) (blanks_newLine _) (blanks_newLine _)
        fun item hitem => ih item hitem (depth + 1)
  | @ofFields fields _ ih =>
    rw [Json.ofFields, indented, indentedMembers_eq_map, List.map_map]
    cases fields with
    | nil => exact .emptyObject
    | cons field fields =>
      have hcolon : ∀ s : String, s ++ ":" ++ " " = s ++ ": " := fun s => String.append_assoc
      have hobject := reads_ofFields_separated " " (List.cons_ne_nil field fields)
        (blanks_newLine (depth + 1)) (blanks_newLine depth) (blanks_singleton rfl)
        fun field hfield => ih field hfield (depth + 1)
      simp only [hcolon] at hobject
      exact hobject

end WellSpelled

/-- The text of a value may have blanks behind it. -/
lemma parse?_append {s gap : String} (h : Reads v s.toList) (hgap : Blanks gap.toList) :
    parse? (s ++ gap) = some v := by
  have hends : EndsNumber gap.toList := by
    rw [← List.append_nil gap.toList]
    exact endsNumber_append hgap nofun
  have hblank : skipBlanks gap.toList = [] := by
    rw [← List.append_nil gap.toList, skipBlanks_append hgap]
    rfl
  have hread := h (2 * (s.toList ++ gap.toList).length + 2) gap.toList
    (by rw [List.length_append]; omega) hends
  rw [parse?, String.toList_append]
  simp only [hread, Option.bind_eq_bind, Option.bind_some, hblank, List.isEmpty_nil, if_true]
  rfl

end LinkSummary.Json
