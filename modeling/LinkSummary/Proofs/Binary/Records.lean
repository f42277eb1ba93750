import LinkSummary.Binary.Decode
import LinkSummary.Proofs.Binary.Cursor
import LinkSummary.Proofs.IdMap

/-!
# The fields of records read back

A record reads back if the reserved id does not occur in it and only flags in use are set. The
readable name of a function is not among the fields of its record.
-/

namespace LinkSummary.Layout

variable {f : FunctionSummary} {t : TypeSummary}

lemma symbol_ne_nil (id : SymbolId) : symbol id ≠ [] :=
  Varint.encode_ne_nil _

lemma reads_call {edge : CallEdge} (h : edge.callee ≠ .absent) :
    Reads readCall (call edge) edge := by
  have hkind : edge.kind.toStored < 2 ^ 64 := by
    cases edge.kind <;> decide
  refine .position_bind fun offset => ?_
  rw [call, List.append_assoc]
  refine (Reads.varint hkind).bind ?_
  rw [CallKind.ofStored_toStored]
  refine (Reads.symbol h).bind ((Reads.flag edge.preserved).bind_pure ?_)
  have hpreserved : (edge.preserved.toNat != 0) = edge.preserved := by
    cases edge.preserved <;> rfl
  rw [hpreserved]
  exact .pure edge

lemma call_ne_nil (edge : CallEdge) : call edge ≠ [] := by
  simp [call, Varint.encode_ne_nil]

lemma reads_function (h : ∀ edge ∈ f.calls, edge.callee ≠ .absent) (hid : f.id ≠ .absent)
    (hflags : f.flags.known = f.flags) :
    Reads readFunction (function f) { f with debugName := none } := by
  rw [function, List.append_assoc]
  refine (Reads.symbol hid).bind ((Reads.word .functionFlags).bind ?_)
  refine (Reads.counted (fun edge _ => call_ne_nil edge) fun edge hedge =>
    reads_call (h edge hedge)).bind_pure ?_
  rw [FunctionFlags.ofBits_bits, hflags]
  exact .pure _

lemma reads_witness {requirement implementation : SymbolId} (h : requirement ≠ .absent)
    (h' : implementation ≠ .absent) :
    Reads readWitness (symbol requirement ++ symbol implementation)
      (requirement, implementation) :=
  (Reads.symbol h).bind ((Reads.symbol h').bind_pure (.pure _))

lemma reads_type (hid : t.id ≠ .absent) (hbase : t.base ≠ some .absent)
    (hslots : ∀ slot ∈ t.slots, slot ≠ .absent)
    (hwitnesses : ∀ entry ∈ t.witnesses.entries, entry.1 ≠ .absent ∧ entry.2 ≠ .absent) :
    Reads readType (type t) t := by
  rw [type, List.append_assoc, List.append_assoc]
  refine (Reads.symbol hid).bind ((Reads.word .baseType).bind ?_)
  refine (Reads.counted (fun slot _ => symbol_ne_nil slot) fun slot hslot =>
    Reads.symbol (hslots slot hslot)).bind ?_
  refine (Reads.counted (fun entry _ => ?_) fun entry hentry => ?_).bind_pure ?_
  · exact List.append_ne_nil_of_left_ne_nil (symbol_ne_nil entry.1) _
  · exact reads_witness (hwitnesses entry hentry).1 (hwitnesses entry hentry).2
  · rw [SymbolId.ofStored_toStored hbase, IdMap.ofList_entries]
    exact .pure t

lemma reads_metadata (s : Store) :
    Reads readMetadata (flag s.livenessComputed ++ text s.moduleName)
      { moduleName := s.moduleName, livenessComputed := s.livenessComputed } := by
  refine (Reads.flag s.livenessComputed).bind ((Reads.text s.moduleName).bind_pure ?_)
  have hcomputed : (s.livenessComputed.toNat % 2 == 1) = s.livenessComputed := by
    cases s.livenessComputed <;> rfl
  rw [hcomputed]
  exact .pure _

lemma reads_debugName (offset : Nat) (id : SymbolId) (name : String) :
    Reads (readDebugName offset) (symbol id ++ text name) ⟨offset, id, name⟩ :=
  (Reads.word (n := id.val) .symbol).bind ((Reads.text name).bind_pure (.pure _))

end LinkSummary.Layout
