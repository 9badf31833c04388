import BlockIR.Proofs.Findings
/-!
What a verified module promises about types.

The verifier looks at operands only.  An instruction of a module without findings satisfies the
preconditions of its row of the instruction table, against the operands it has now.  Its results have
the types of the row as well, unless it carries a type that was recorded when it was made, as a load
and a binary operation do, and an operand was exchanged since for one that has another type to offer.
-/

namespace BlockIR

/-- Whether the type of the result was read off an operand when the operation was made. -/
def Operation.recordsType : Operation → Bool
  | .load _ _ | .binary _ _ _ _ => true
  | _ => false

namespace Module

variable {m : Module} {function : FunctionId}

theorem operandTypes_eq_ok {index : Nat} {operands : List Operand} {types : List ValueType} :
    m.operandTypes function index operands = .ok types ↔
      List.Forall₂ (m.HasType function) operands types := by
  induction operands generalizing index types with
  | nil => cases types <;> simp [operandTypes]
  | cons operand rest ih =>
      simp only [operandTypes]
      cases htype : (m.operandType? operand).filter (fun _ => operand.isLocalTo function) with
      | none =>
          cases types with
          | nil => simp
          | cons type types =>
              have hnot : ¬m.HasType function operand type := by
                rintro ⟨hsome, hlocal⟩
                simp [hsome, hlocal] at htype
              simp [hnot]
      | some found =>
          obtain ⟨hfound, hlocal⟩ := Option.filter_eq_some_iff.1 htype
          cases types with
          | nil => cases m.operandTypes function (index + 1) rest <;> simp [Except.map]
          | cons type types =>
              have hhas : m.HasType function operand type ↔ found = type := by
                simp [HasType, hfound, hlocal]
              rw [List.forall₂_cons, hhas, ← @ih (index + 1) types]
              cases m.operandTypes function (index + 1) rest <;> simp [Except.map]

theorem exists_pointee_of_admits {type : ValueType} {intent : Intent}
    (h : type.admits intent = true) :
    ∃ pointee, type.pointee? = some pointee ∧
      ∀ access, type.access? = some access → intent.isPermittedBy access = true := by
  simp only [ValueType.admits, ValueType.isAddress, Bool.and_eq_true,
    Option.isSome_iff_exists] at h
  obtain ⟨⟨pointee, hpointee⟩, haccess⟩ := h
  refine ⟨pointee, hpointee, ?_⟩
  intro access hsome
  simpa [hsome] using haccess

theorem lt_length_of_unmetExpectation? {i : Instruction} {types : List ValueType} {index : Nat}
    {expected : Expectation} (hlength : i.operands.length = types.length)
    (hunmet : m.unmetExpectation? i types = some (index, expected)) : index < types.length := by
  obtain ⟨operation, site⟩ := i
  cases operation with
  | call callee arguments output =>
      simp only [unmetExpectation?, Option.bind_eq_bind, Option.bind_eq_some_iff, Option.some.injEq,
        Prod.mk.injEq] at hunmet
      obtain ⟨f, -, found, hfound, -, -, rfl, -⟩ := hunmet
      have hzip := (List.findIdx?_eq_some_iff_getElem.1 hfound).1
      simp only [List.length_zip] at hzip
      omega
  | _ =>
      rcases types with _ | ⟨first, _ | ⟨second, rest⟩⟩ <;>
        grind [unmetExpectation?, Instruction.operands, Operation.operands]

/-- Operands without a fault name live values, with types that the rules of the kind allow. -/
theorem types_of_operandFaults {id : InstructionId} {i : Instruction}
    (hnone : m.operandFaults true id i = []) :
    ∃ types, List.Forall₂ (m.HasType id.function) i.operands types ∧
      m.unmetExpectation? i types = none := by
  unfold operandFaults at hnone
  split at hnone
  · simp at hnone
  · rename_i types hok
    have htypes := operandTypes_eq_ok.1 hok
    refine ⟨types, htypes, ?_⟩
    cases hunmet : m.unmetExpectation? i types with
    | none => rfl
    | some unmet =>
        have hindex := lt_length_of_unmetExpectation? htypes.length_eq hunmet
        simp [hunmet, List.getElem?_eq_getElem hindex] at hnone

theorem eq_types_of_unmetExpectation? {callee : FunctionId} {arguments : List Operand}
    {output : ObjectType} {site : Span} {types : List ValueType} {f : Function}
    (hf : m.function? callee = some f) (hlength : f.inputs.length = types.length)
    (hmet : m.unmetExpectation? ⟨.call callee arguments output, site⟩ types = none) :
    f.inputs = types := by
  simp only [unmetExpectation?, hf, Option.bind_eq_bind, Option.bind_some,
    Option.bind_eq_none_iff] at hmet
  have hnone : (f.inputs.zip types).findIdx? (fun entry => entry.1 != entry.2) = none := by
    by_contra hsome
    obtain ⟨index, hindex⟩ := Option.ne_none_iff_exists'.1 hsome
    have hzip := (List.findIdx?_eq_some_iff_getElem.1 hindex).1
    have hinside : index < f.inputs.length := by
      simp only [List.length_zip] at hzip
      omega
    have hunmet := hmet index hindex _ (List.getElem?_eq_getElem hinside)
    simp at hunmet
  have hequal : List.Forall₂ (· = ·) f.inputs types := by
    refine List.forall₂_iff_zip.2 ⟨hlength, ?_⟩
    intro expected found hmem
    simpa using List.findIdx?_eq_none_iff.1 hnone (expected, found) hmem
  rwa [List.forall₂_eq_eq_eq] at hequal

/-- An instruction without a fault in its operands satisfies its row, and only a recorded type can
differ from the types of its results there. -/
theorem row_of_operandFaults {id : InstructionId} {i : Instruction}
    (hfixed : m.Fixed id.function i.operation) (hnone : m.operandFaults true id i = []) :
    ∃ results, m.Row id.function i.operation results ∧
      (i.operation.recordsType = false → i.resultTypes = results) := by
  obtain ⟨types, htypes, hmet⟩ := types_of_operandFaults hnone
  obtain ⟨operation, site⟩ := i
  cases operation with
  | allocStack type => exact ⟨_, .allocStack type, fun _ => rfl⟩
  | ret => exact ⟨_, .ret, fun _ => rfl⟩
  | branch target =>
      exact ⟨_, .branch (hfixed.1 target (by simp [Operation.successors])), fun _ => rfl⟩
  | deallocStack location =>
      obtain ⟨type, _, hlocation, -, rfl⟩ := List.forall₂_cons_left_iff.1 htypes
      have hallocation : m.isStackAllocation location = true := by
        simpa [unmetExpectation?] using hmet
      obtain ⟨slot, allocated, made, rfl, hslot⟩ := isStackAllocation_iff.1 hallocation
      have hlocal : slot.function = id.function := by
        simpa [Operand.isLocalTo, Operand.function?] using hlocation.2
      exact ⟨_, .deallocStack hslot hlocal, fun _ => rfl⟩
  | pointerToAddress source target =>
      obtain ⟨type, _, hsource, -, rfl⟩ := List.forall₂_cons_left_iff.1 htypes
      obtain rfl : type = .ofBuiltin .ptr := by simpa [unmetExpectation?] using hmet
      exact ⟨_, .pointerToAddress hfixed.2 hsource, fun _ => rfl⟩
  | load source recorded =>
      obtain ⟨type, _, hsource, -, rfl⟩ := List.forall₂_cons_left_iff.1 htypes
      have hreadable : type.admits .read = true := by simpa [unmetExpectation?] using hmet
      obtain ⟨pointee, hpointee, hread⟩ := exists_pointee_of_admits hreadable
      exact ⟨_, .load recorded hsource hpointee hread, by simp [Operation.recordsType]⟩
  | store object target =>
      obtain ⟨type, _, hobject, hrest, rfl⟩ := List.forall₂_cons_left_iff.1 htypes
      obtain ⟨address, _, htarget, -, rfl⟩ := List.forall₂_cons_left_iff.1 hrest
      have hwritable : address.admits .write = true := by
        cases hadmits : address.admits .write with
        | true => rfl
        | false =>
            cases hpointee : address.pointee? <;>
              simp [unmetExpectation?, hadmits, hpointee, Option.filter] at hmet
      obtain ⟨pointee, hpointee, hwrite⟩ := exists_pointee_of_admits hwritable
      obtain rfl : type = .object pointee := by
        simpa [unmetExpectation?, hwritable, hpointee, Option.filter] using hmet
      exact ⟨_, .store htarget hpointee hwrite hobject, fun _ => rfl⟩
  | binary operator recorded lhs rhs =>
      obtain ⟨left, _, hlhs, hrest, rfl⟩ := List.forall₂_cons_left_iff.1 htypes
      obtain ⟨right, _, hrhs, -, rfl⟩ := List.forall₂_cons_left_iff.1 hrest
      cases hleft : left.builtin? with
      | none => simp [unmetExpectation?, hleft] at hmet
      | some type =>
          obtain rfl := ValueType.builtin?_eq_some.1 hleft
          simp only [unmetExpectation?, List.getElem?_cons_zero, List.getElem?_cons_succ,
            Option.bind_eq_bind, Option.bind_some, hleft] at hmet
          split at hmet
          · simp at hmet
          · rename_i hbitwise
            split at hmet
            · rename_i hright
              obtain rfl := hright
              exact ⟨_, .binary recorded hlhs hrhs (by simpa using hbitwise),
                by simp [Operation.recordsType]⟩
            · simp at hmet
  | compare operator lhs rhs =>
      obtain ⟨left, _, hlhs, hrest, rfl⟩ := List.forall₂_cons_left_iff.1 htypes
      obtain ⟨right, _, hrhs, -, rfl⟩ := List.forall₂_cons_left_iff.1 hrest
      cases hleft : left.builtin? with
      | none => simp [unmetExpectation?, hleft] at hmet
      | some type =>
          obtain rfl : right = left := by simpa [unmetExpectation?, hleft] using hmet
          obtain rfl := ValueType.builtin?_eq_some.1 hleft
          exact ⟨_, .compare hlhs hrhs, fun _ => rfl⟩
  | call callee arguments output =>
      obtain ⟨f, hf, hlength, rfl⟩ := hfixed.2
      have hinputs : f.inputs.length = types.length := hlength.trans htypes.length_eq
      obtain rfl := eq_types_of_unmetExpectation? hf hinputs hmet
      exact ⟨_, .call f.output hf htypes, fun _ => rfl⟩
  | condBranch condition ifTrue ifFalse =>
      obtain ⟨type, _, hcondition, -, rfl⟩ := List.forall₂_cons_left_iff.1 htypes
      obtain rfl : type = .ofBuiltin .i1 := by simpa [unmetExpectation?] using hmet
      have htrue := hfixed.1 ifTrue (by simp [Operation.successors])
      have hfalse := hfixed.1 ifFalse (by simp [Operation.successors])
      exact ⟨_, .condBranch hcondition htrue hfalse, fun _ => rfl⟩

/-- No live instruction of a module without findings has a fault in its operands. -/
theorem operandFaults_eq_nil_of_findings (hm : m.Consistent) {options : Options}
    (hverified : Verifier.findings options m = []) {id : InstructionId} {i : Instruction}
    (hi : m.instruction? id = some i) : m.operandFaults options.checkOperandTypes id i = [] := by
  rw [List.eq_nil_iff_forall_not_mem]
  intro fault hfault
  obtain ⟨function, hfound⟩ := Verifier.exists_mem_findings_of_operandFaults hm hi hfault
  simp [hverified] at hfound

end Module

end BlockIR
