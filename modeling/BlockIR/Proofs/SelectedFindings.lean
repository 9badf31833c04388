import BlockIR.Proofs.Findings
/-!
Options select findings.

A check that is left out takes its own findings away and no others: those of the remaining checks
are found as before, and stand in the same order.  So a verification under any options is the
thorough one with a filter behind it.
-/

namespace BlockIR

namespace Options

/-- All checks. -/
def thorough : Options := ⟨true, true, true⟩

/-- Whether the options ask for a fault.  Three of the checks can be left out. -/
def asksFor (options : Options) : Fault → Bool
  | .operandTypeMismatch _ _ _ _ => options.checkOperandTypes
  | .unreachableBlock _ => options.rejectUnreachableBlocks
  | .deallocationOutOfOrder _ _ _ | .leakedAllocation _ _ | .inconsistentStackAtJoin _ =>
      options.checkStackDiscipline
  | .emptyBlock _ | .missingTerminator _ | .terminatorNotLast _ | .invalidSuccessor _ _
  | .danglingOperand _ _ => true

theorem asksFor_of_concernsStack (options : Options) {fault : Fault}
    (h : fault.concernsStack = true) : options.asksFor fault = options.checkStackDiscipline := by
  cases fault <;> simp_all [Fault.concernsStack, asksFor]

end Options

/-- A check that is made or left out as a switch says is a filter, if the switch alone decides about
its faults. -/
theorem ite_eq_filter {options : Options} {switch : Bool} {faults : List Fault}
    (h : ∀ fault ∈ faults, options.asksFor fault = switch) :
    (if switch = true then faults else []) = faults.filter options.asksFor := by
  cases switch with
  | false =>
      symm
      apply List.filter_eq_nil_iff.2
      intro fault hfault
      simp [h fault hfault]
  | true =>
      symm
      apply List.filter_eq_self.2
      exact h

namespace Verifier

variable (m : Module) (options : Options)

theorem operandFaults_eq_filter (id : InstructionId) (i : Instruction) :
    m.operandFaults options.checkOperandTypes id i =
      (m.operandFaults true id i).filter options.asksFor := by
  unfold Module.operandFaults
  split
  · rfl
  · rw [if_pos rfl]
    apply ite_eq_filter
    intro fault hfault
    split at hfault
    · simp at hfault
    · obtain ⟨_, -, rfl⟩ := List.mem_map.1 hfault
      rfl

theorem instructionFaults_eq_filter (f : Function) (b : Block) (id : InstructionId)
    (i : Instruction) :
    instructionFaults m options f b id i =
      (instructionFaults m .thorough f b id i).filter options.asksFor := by
  have hsuccessors : ∀ targets : List BlockId,
      (targets.map (Fault.invalidSuccessor id)).filter options.asksFor =
        targets.map (.invalidSuccessor id) := by
    intro targets
    apply List.filter_eq_self.2
    intro fault hfault
    obtain ⟨_, -, rfl⟩ := List.mem_map.1 hfault
    rfl
  unfold instructionFaults
  rw [List.filter_append, List.filter_append, hsuccessors, operandFaults_eq_filter]
  congr 2
  split <;> rfl

theorem blockFaults_eq_filter (f : Function) (id : BlockId) (b : Block) :
    blockFaults m options f id b =
      (blockFaults m .thorough f id b).filter options.asksFor := by
  unfold blockFaults
  split
  · rfl
  · rw [List.filter_append, List.filter_flatMap]
    simp only [← instructionFaults_eq_filter]
    congr 1
    split <;> rfl

/-- The faults that concern paths come behind those of the blocks, each check's on their own. -/
theorem functionFaults_eq_filter (f : Function) :
    functionFaults m options f = (functionFaults m .thorough f).filter options.asksFor := by
  have hunreachable : (if options.rejectUnreachableBlocks = true then
        (unreachableBlocks f (.ofFunction f)).map Fault.unreachableBlock else []) =
      ((unreachableBlocks f (.ofFunction f)).map Fault.unreachableBlock).filter options.asksFor := by
    apply ite_eq_filter
    intro fault hfault
    obtain ⟨_, -, rfl⟩ := List.mem_map.1 hfault
    rfl
  have hstack : (if options.checkStackDiscipline = true then
        StackDiscipline.faults f (.ofFunction f) else []) =
      (StackDiscipline.faults f (.ofFunction f)).filter options.asksFor := by
    apply ite_eq_filter
    intro fault hfault
    exact options.asksFor_of_concernsStack (StackDiscipline.concernsStack_of_mem_faults hfault)
  simp only [functionFaults, List.filter_append, List.filter_flatMap, hunreachable, hstack,
    ← blockFaults_eq_filter]
  rfl

theorem functionFindings_eq_filter (f : Function) :
    functionFindings m options f =
      (functionFindings m .thorough f).filter (fun finding => options.asksFor finding.fault) := by
  rw [functionFindings, functionFindings, List.filter_map, functionFaults_eq_filter]
  rfl

/-- Under any options the verifier finds what it finds when it makes all checks, in the same order
and without the findings of the checks that are left out. -/
theorem findings_eq_filter_thorough (options : Options) (m : Module) :
    findings options m =
      (findings .thorough m).filter (fun finding => options.asksFor finding.fault) := by
  rw [findings, findings, List.filter_flatMap]
  simp only [← functionFindings_eq_filter]

/-- A function that stores a truth value into the slot of an integer, leaks the slot and has a block
that no path leads to. -/
def neglected : Module :=
  let entry : BlockId := ⟨⟨0⟩, 0⟩
  let slot : Operand := .result ⟨entry, 0⟩ 0
  List.foldl Module.after (.empty "test")
    [.declareFunction "main" [] .void, .appendEntryBlock ⟨0⟩, .appendBlock ⟨0⟩ [],
      .make (.atEnd entry) (.allocStack (.builtin .i64)) .synthetic,
      .make (.atEnd entry) (.store (.constant (.integer 7 .i64)) slot) .synthetic,
      .make (.atEnd entry) .ret .synthetic, .make (.atEnd ⟨⟨0⟩, 1⟩) .ret .synthetic,
      .replaceOperand ⟨entry, 1⟩ 0 (.constant (.integer 1 .i1))]

/-- Each option takes one of the three findings away. -/
example :
    let mismatch : Finding := ⟨"main", .operandTypeMismatch ⟨⟨⟨0⟩, 0⟩, 1⟩ 0 "i64" "i1"⟩
    let unreachable : Finding := ⟨"main", .unreachableBlock ⟨⟨0⟩, 1⟩⟩
    let leak : Finding := ⟨"main", .leakedAllocation ⟨⟨⟨0⟩, 0⟩, 2⟩ 1⟩
    findings .thorough neglected = [mismatch, unreachable, leak] ∧
      findings ⟨false, true, true⟩ neglected = [mismatch, unreachable] ∧
      findings ⟨true, false, true⟩ neglected = [mismatch, leak] ∧
      findings ⟨true, true, false⟩ neglected = [unreachable, leak] := by
  decide +kernel

end Verifier

end BlockIR
