import LinkSummary.Proofs.Merge.Growth
import LinkSummary.Proofs.Merged
import LinkSummary.Proofs.Outline
import LinkSummary.Proofs.Store.Operation

/-!
# Merges by name

By name a merge is the union of its inputs with liveness spread over it. So its text form, its live
functions and its reports can be told without ids.
-/

namespace LinkSummary.Merged

variable {inputs : List Store} {d : Diagnostic} {name : String}

lemma isLive_eq_named (m : Merged) (name : String) :
    m.isLive name = (m.store.named.functions name).map (·.flags.live) := by
  rw [isLive, Store.named, Option.map_map]
  rfl

lemma raises_ofInputs (inputs : List Store) (traced : Option String) :
    (combine inputs).store.Raises (ofInputs inputs traced).store :=
  raises_propagate (wellFormed_combine inputs) traced

lemma faithful_combine (hsize : (combine inputs).store.symbols.size < 2 ^ 32) :
    (combine inputs).store.Faithful :=
  ⟨wellFormed_combine inputs, hsize⟩

lemma faithful_ofInputs (hsize : (combine inputs).store.symbols.size < 2 ^ 32)
    (traced : Option String) : (ofInputs inputs traced).store.Faithful :=
  (raises_ofInputs inputs traced).faithful (faithful_combine hsize)

lemma mem_symbols_combine (h : ∀ s ∈ inputs, s.WellFormed) :
    name ∈ (combine inputs).store.symbols.names ↔ name ∈ (Contribution.ofInputs inputs).symbols :=
  Combination.mem_symbols_ofInputs h

lemma continues_combine (h : ∀ s ∈ inputs, s.WellFormed)
    (hsize : (combine inputs).store.symbols.size < 2 ^ 32) :
    (Contribution.ofInputs inputs).program.Continues (combine inputs).store.named :=
  Combination.continues_ofInputs h hsize

lemma complete_combine (hsize : (combine inputs).store.symbols.size < 2 ^ 32) :
    (combine inputs).store.named.Complete :=
  Combination.complete_ofInputs hsize

lemma symbols_ofInputs (inputs : List Store) (traced : Option String) :
    (ofInputs inputs traced).store.symbols = (combine inputs).store.symbols :=
  (raises_ofInputs inputs traced).symbols

lemma moduleName_ofInputs (h : ∀ s ∈ inputs, s.WellFormed) (traced : Option String) :
    (ofInputs inputs traced).store.moduleName = combinedName :=
  (raises_ofInputs inputs traced).moduleName.trans (Combination.moduleName_ofInputs h)

lemma livenessComputed_ofInputs (inputs : List Store) (traced : Option String) :
    (ofInputs inputs traced).store.livenessComputed = true := rfl

/-- By name a merge is its union with the reachable functions live. -/
theorem named_ofInputs (hsize : (combine inputs).store.symbols.size < 2 ^ 32)
    (traced : Option String) :
    (ofInputs inputs traced).store.named = (combine inputs).store.named.spread :=
  Spread.named_ofStore (faithful_combine hsize) (combine inputs).trace (combine inputs).diagnostics

lemma isLive_ofInputs_iff (hsize : (combine inputs).store.symbols.size < 2 ^ 32)
    (traced : Option String) : (ofInputs inputs traced).isLive name = some true ↔
      ((combine inputs).store.named.functions name).isSome ∧
        (combine inputs).store.named.Reachable name := by
  rw [isLive_eq_named, named_ofInputs hsize, Program.spread, Option.map_map]
  cases (combine inputs).store.named.functions name with
  | none => simp
  | some f => simp [Program.Function.withLive]

/-- What a merge reports: the reports of the union, and the calls without an entry of the functions
that are reachable. -/
theorem mem_diagnostics_ofInputs (h : ∀ s ∈ inputs, s.WellFormed)
    (hsize : (combine inputs).store.symbols.size < 2 ^ 32) (traced : Option String) :
    d ∈ (ofInputs inputs traced).diagnostics ↔
      ((Contribution.ofInputs inputs).Reports d ∨ Combination.ReportsLonger
        (Contribution.ofInputs inputs).program (combine inputs).store.named d) ∨
      ∃ caller, (combine inputs).store.named.Reachable caller ∧
        (combine inputs).store.named.ReportsFrom caller d := by
  have hunion := Combination.mem_diagnostics_ofInputs (d := d) h hsize
  exact (Spread.mem_diagnostics_ofStore (faithful_combine hsize) (combine inputs).trace
    (combine inputs).diagnostics).trans (or_congr_left hunion)

/-- Merges that are the same by name have the same text form. -/
lemma toYaml_eq_of_named {inputs' : List Store} (h : ∀ s ∈ inputs, s.WellFormed)
    (h' : ∀ s ∈ inputs', s.WellFormed) (hsize : (combine inputs).store.symbols.size < 2 ^ 32)
    (hsize' : (combine inputs').store.symbols.size < 2 ^ 32) {traced traced' : Option String}
    (hnamed : (ofInputs inputs traced).store.named = (ofInputs inputs' traced').store.named) :
    (ofInputs inputs traced).store.toYaml = (ofInputs inputs' traced').store.toYaml :=
  Store.toYaml_eq_of_named (faithful_ofInputs hsize traced) (faithful_ofInputs hsize' traced')
    ((moduleName_ofInputs h traced).trans (moduleName_ofInputs h' traced').symm)
    ((livenessComputed_ofInputs inputs traced).trans
      (livenessComputed_ofInputs inputs' traced').symm) hnamed

/-- Fewer names need fewer ids. -/
lemma size_combine_lt {inputs' : List Store}
    (hnames : (combine inputs').store.symbols.names ⊆ (combine inputs).store.symbols.names)
    (hsize : (combine inputs).store.symbols.size < 2 ^ 32) :
    (combine inputs').store.symbols.size < 2 ^ 32 :=
  lt_of_le_of_lt (SymbolTable.size_le_of_subset hnames) hsize

end LinkSummary.Merged
