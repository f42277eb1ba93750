import LinkSummary.Proofs.Builder.Refusal

/-!
# Calls that fail

For each call there is an account of when it fails and with which error. A call that fails leaves
the store as it was. Only a builder that refuses a type or a witness keeps the names that it
interned for it.
-/

namespace LinkSummary.Store

variable {s : Store} {e : SummaryError} {operation : Operation}

/-- The error with which a call fails, if it does. -/
def refusal? (s : Store) : Operation → Option SummaryError
  | .insertFunction f => errorOf? (s.insertFunction f)
  | .insertType t => errorOf? (s.insertType t)
  | .setDebugName function name => errorOf? (s.setDebugName function name)
  | .markLive function => errorOf? (s.markLive function)
  | .build call => Builder.refusal? ⟨s⟩ call
  | .intern _ | .markLivenessComputed | .inheritMissingSlots => none

/-- When a store refuses a call. A symbol that is not interned comes before a definition that is
there already, and the first such symbol, in the order in which they are mentioned, is told. -/
inductive Refuses (s : Store) : Operation → SummaryError → Prop
  | unknownInFunction {f : FunctionSummary} {id : SymbolId}
    (hunknown : s.firstUnknown f.mentioned = some id) :
    Refuses s (.insertFunction f) (.unknownSymbol id)
  | functionTwice {f : FunctionSummary} (hknown : s.firstUnknown f.mentioned = none)
    (hdef : s.definesFunction f.id = true) :
    Refuses s (.insertFunction f) (.duplicateDefinition (s.shownName f.id))
  | unknownInType {t : TypeSummary} {id : SymbolId}
    (hunknown : s.firstUnknown t.mentioned = some id) :
    Refuses s (.insertType t) (.unknownSymbol id)
  | typeTwice {t : TypeSummary} (hknown : s.firstUnknown t.mentioned = none)
    (hdef : s.types.contains t.id = true) :
    Refuses s (.insertType t) (.duplicateDefinition (s.shownName t.id))
  | noFunction {function : SymbolId} {name : Option String}
    (hnone : s.definesFunction function = false) :
    Refuses s (.setDebugName function name) (.unknownFunction function)
  | notLive {function : SymbolId} (hnone : s.definesFunction function = false) :
    Refuses s (.markLive function) (.unknownFunction function)
  | build {call : Builder.Operation} {e : SummaryError} (hcall : Builder.Refuses s call e) :
    Refuses s (.build call) e

/-- The calls that leave names when they fail. -/
def Operation.leavesNames : Operation → Bool
  | .build call => call.leavesNames
  | _ => false

lemma orElse_error (s : Store) (e : SummaryError) : s.orElse (.error e) = s := rfl

theorem refusal?_eq_some_iff (hs : s.WellFormed)
    (hsize : (s.perform operation).symbols.size < 2 ^ 32) :
    s.refusal? operation = some e ↔ s.Refuses operation e := by
  cases operation with
  | insertFunction f =>
    rw [refusal?, errorOf?_eq_some_iff, insertFunction_eq_error_iff]
    constructor
    · rintro (⟨id, hunknown, rfl⟩ | ⟨hknown, hdef, rfl⟩)
      · exact .unknownInFunction hunknown
      · exact .functionTwice hknown hdef
    · rintro (hunknown | ⟨hknown, hdef⟩)
      · exact .inl ⟨_, hunknown, rfl⟩
      · exact .inr ⟨hknown, hdef, rfl⟩
  | insertType t =>
    rw [refusal?, errorOf?_eq_some_iff, insertType_eq_error_iff]
    constructor
    · rintro (⟨id, hunknown, rfl⟩ | ⟨hknown, hdef, rfl⟩)
      · exact .unknownInType hunknown
      · exact .typeTwice hknown hdef
    · intro hrefuses
      cases hrefuses with
      | unknownInType hunknown => exact .inl ⟨_, hunknown, rfl⟩
      | typeTwice hknown hdef => exact .inr ⟨hknown, hdef, rfl⟩
  | setDebugName function name =>
    rw [refusal?, errorOf?_eq_some_iff, setDebugName_eq_error_iff]
    constructor
    · rintro ⟨hnone, rfl⟩
      exact .noFunction hnone
    · rintro ⟨⟩
      exact ⟨‹_›, rfl⟩
  | markLive function =>
    rw [refusal?, errorOf?_eq_some_iff, markLive_eq_error_iff]
    constructor
    · rintro ⟨hnone, rfl⟩
      exact .notLive hnone
    · rintro ⟨⟩
      exact ⟨‹_›, rfl⟩
  | build call =>
    rw [refusal?, Builder.refusal?_eq_some_iff hs hsize]
    constructor
    · exact .build
    · rintro ⟨⟩
      exact ‹_›
  | intern name => exact ⟨nofun, nofun⟩
  | markLivenessComputed => exact ⟨nofun, nofun⟩
  | inheritMissingSlots => exact ⟨nofun, nofun⟩

/-- A call that leaves no names changes nothing when it fails. -/
theorem perform_of_refusal? (hs : s.WellFormed)
    (hsize : (s.perform operation).symbols.size < 2 ^ 32) (h : s.refusal? operation = some e)
    (hleaves : operation.leavesNames = false) : s.perform operation = s := by
  cases operation with
  | insertFunction f => rw [perform, errorOf?_eq_some_iff.mp h, orElse_error]
  | insertType t => rw [perform, errorOf?_eq_some_iff.mp h, orElse_error]
  | setDebugName function name => rw [perform, errorOf?_eq_some_iff.mp h, orElse_error]
  | markLive function =>
    rw [perform, errorOf?_eq_some_iff.mp h]
    rfl
  | build call =>
    have hsame := Builder.perform_of_refusal? (b := ⟨s⟩) hs hsize h hleaves
    rw [perform, hsame]
    rfl
  | intern | markLivenessComputed | inheritMissingSlots => cases h

theorem moreNames_of_refusal? (hs : s.WellFormed)
    (hsize : (s.perform operation).symbols.size < 2 ^ 32) (h : s.refusal? operation = some e) :
    s.MoreNames (s.perform operation) := by
  cases hleaves : operation.leavesNames with
  | false =>
    rw [perform_of_refusal? hs hsize h hleaves]
    exact .refl s
  | true =>
    cases operation with
    | build call => exact Builder.moreNames_of_refusal? (b := ⟨s⟩) hs hsize h
    | _ => cases hleaves

/-- A call on a store that was made by any calls fails exactly when it is refused, with the error
that the refusal tells, as long as ids can tell apart the names there are after it. What fails adds
names at the end at most, and only a type or a witness that a builder refuses does that. -/
theorem Built.refuses_iff_and_unchanged (hs : s.Built) (operation : Operation)
    (hsize : (s.perform operation).symbols.size < 2 ^ 32) (e : SummaryError) :
    (s.refusal? operation = some e ↔ s.Refuses operation e) ∧
      (s.refusal? operation = some e →
        s.MoreNames (s.perform operation) ∧
          (operation.leavesNames = false → s.perform operation = s)) :=
  ⟨refusal?_eq_some_iff hs.wellFormed hsize, fun h =>
    ⟨moreNames_of_refusal? hs.wellFormed hsize h, perform_of_refusal? hs.wellFormed hsize h⟩⟩

/-- A derived class that is too short leaves its names. A function that is there already and a call
from a symbol that is no function leave none, and a second definition is refused for the first of
its unknown callees. -/
theorem Built.refuses_iff_and_unchanged_of_class :
    let s := performAll "m" [.build (.recordType "C" none ["f", "g"]),
      .build (.recordFunction "f" {})]
    let short : Operation := .build (.recordType "D" (some "C") ["h"])
    let calls : Operation := .insertFunction
      { id := ⟨2⟩, flags := {}, calls := [⟨⟨9⟩, .direct, false⟩, ⟨⟨8⟩, .direct, false⟩] }
    s.Refuses short (.shortVtable "D" "C" 1 2) ∧ s.MoreNames (s.perform short) ∧
      (s.perform short).symbols.names = s.symbols.names ++ ["D", "h"] ∧
      s.perform (.build (.recordFunction "f" {})) = s ∧
      s.Refuses (.build (.recordCall ⟨3⟩ "k" .direct true)) (.unknownFunction ⟨3⟩) ∧
      s.perform (.build (.recordCall ⟨3⟩ "k" .direct true)) = s ∧
      s.Refuses calls (.unknownSymbol ⟨9⟩) := by
  intro s short calls
  have hs : s.Built := ⟨⟨"m", _, rfl⟩, by decide +kernel⟩
  have hshort := hs.refuses_iff_and_unchanged short (by decide +kernel) (.shortVtable "D" "C" 1 2)
  have hfunction := hs.refuses_iff_and_unchanged (.build (.recordFunction "f" {}))
    (by decide +kernel) (.duplicateDefinition "f")
  have hcall := hs.refuses_iff_and_unchanged (.build (.recordCall ⟨3⟩ "k" .direct true))
    (by decide +kernel) (.unknownFunction ⟨3⟩)
  have hcalls := hs.refuses_iff_and_unchanged calls (by decide +kernel) (.unknownSymbol ⟨9⟩)
  exact ⟨hshort.1.mp (by decide +kernel), (hshort.2 (by decide +kernel)).1, by decide +kernel,
    (hfunction.2 (by decide +kernel)).2 rfl, hcall.1.mp (by decide +kernel),
    (hcall.2 (by decide +kernel)).2 rfl, hcalls.1.mp (by decide +kernel)⟩

end LinkSummary.Store
