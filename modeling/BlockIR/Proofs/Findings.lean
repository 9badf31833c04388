import BlockIR.Proofs.StackPaths
import BlockIR.Verifier
/-!
What findings are about.

A finding names a block that is not finished, an instruction that breaks a rule by itself, a block
that no path leads to, or a fault against stack discipline.  Here it is said which finding comes from
which check, so that later proofs need not open the verifier.
-/

namespace BlockIR

/-- Whether a fault is about a value that an instruction consumes. -/
def Fault.concernsOperand : Fault → Bool
  | .danglingOperand _ _ | .operandTypeMismatch _ _ _ _ => true
  | _ => false

/-- Whether a fault is about a terminator that is not last or an edge that leads nowhere. -/
def Fault.concernsPlacement : Fault → Bool
  | .terminatorNotLast _ | .invalidSuccessor _ _ => true
  | _ => false

/-- Whether a fault is about the paths through a function, and not about a block by itself. -/
def Fault.concernsPaths : Fault → Bool
  | .unreachableBlock _ => true
  | fault => fault.concernsStack

theorem Fault.concernsPaths_eq_false_of_concernsOperand {fault : Fault}
    (h : fault.concernsOperand = true) : fault.concernsPaths = false := by
  cases fault <;> simp_all [concernsPaths, concernsStack, concernsOperand]

theorem Fault.concernsStack_eq_false_of_concernsPaths {fault : Fault}
    (h : fault.concernsPaths = false) : fault.concernsStack = false := by
  cases fault <;> simp_all [concernsPaths]

theorem Fault.concernsOperand_eq_false_of_concernsStack {fault : Fault}
    (h : fault.concernsStack = true) : fault.concernsOperand = false := by
  cases fault <;> simp_all [concernsStack, concernsOperand]

theorem Fault.concernsPlacement_eq_false_of_concernsStack {fault : Fault}
    (h : fault.concernsStack = true) : fault.concernsPlacement = false := by
  cases fault <;> simp_all [concernsStack, concernsPlacement]

theorem Fault.concernsPlacement_eq_false_of_concernsOperand {fault : Fault}
    (h : fault.concernsOperand = true) : fault.concernsPlacement = false := by
  cases fault <;> simp_all [concernsOperand, concernsPlacement]

namespace Module

variable {m : Module} {f : Function} {b : Block} {id : InstructionId} {i : Instruction}

/-- The operands of an instruction have a fault if one of them names no live value, or if all do and
the type of one is against the rules. -/
theorem cases_of_mem_operandFaults {checkTypes : Bool} {fault : Fault}
    (hfault : fault ∈ m.operandFaults checkTypes id i) :
    (∃ index, fault = .danglingOperand id index) ∨
    ∃ types index expected found, m.operandTypes id.function 0 i.operands = .ok types ∧
      m.unmetExpectation? i types = some (index, expected) ∧ types[index]? = some found ∧
      fault = .operandTypeMismatch id index expected.text found.text := by
  unfold operandFaults at hfault
  split at hfault
  · exact .inl ⟨_, List.mem_singleton.1 hfault⟩
  · rename_i types htypes
    split at hfault
    · split at hfault
      · simp at hfault
      · rename_i index expected hunmet
        obtain ⟨found, hfound, rfl⟩ := List.mem_map.1 hfault
        exact .inr ⟨types, index, expected, found, htypes, hunmet, Option.mem_toList.1 hfound, rfl⟩
    · simp at hfault

theorem concernsOperand_of_mem_operandFaults {checkTypes : Bool} {fault : Fault}
    (hfault : fault ∈ m.operandFaults checkTypes id i) : fault.concernsOperand = true := by
  rcases cases_of_mem_operandFaults hfault with ⟨_, rfl⟩ | ⟨_, _, _, _, -, -, -, rfl⟩
  · rfl
  · rfl

/-- A live instruction, with the function and the block that it stands in. -/
structure Stands (m : Module) (f : Function) (b : Block) (id : InstructionId) (i : Instruction) :
    Prop where
  function : m.function? id.function = some f
  block : f.block? id.block = some b
  live : b.get? id.address = some i

theorem exists_stands_iff : (∃ f b, m.Stands f b id i) ↔ m.instruction? id = some i := by
  constructor
  · rintro ⟨f, b, hfunction, hblock, hlive⟩
    exact instruction?_eq_some.2 ⟨b, block?_eq_some.2 ⟨f, hfunction, hblock⟩, hlive⟩
  · intro hi
    obtain ⟨b, hb, hlive⟩ := instruction?_eq_some.1 hi
    obtain ⟨f, hfunction, hblock⟩ := block?_eq_some.1 hb
    exact ⟨f, b, hfunction, hblock, hlive⟩

theorem Stands.block? (h : m.Stands f b id i) : m.block? id.block = some b :=
  block?_eq_some.2 ⟨f, h.function, h.block⟩

theorem Stands.instruction? (h : m.Stands f b id i) : m.instruction? id = some i :=
  exists_stands_iff.1 ⟨f, b, h⟩

theorem Consistent.block?_of_mem_blocksWithId (hm : m.Consistent) (hf : f ∈ m.functions)
    {block : BlockId} (hmem : (block, b) ∈ f.blocksWithId) :
    m.function? block.function = some f ∧ f.block? block = some b := by
  have hb := Function.block?_of_mem_blocksWithId hmem
  rw [Function.function_of_block? hb]
  exact ⟨hm.function?_of_mem hf, hb⟩

end Module

namespace Verifier

variable {m : Module} {options : Options} {f : Function} {b : Block} {fault : Fault}

theorem concernsPaths_of_mem_instructionFaults {id : InstructionId} {i : Instruction}
    (hfault : fault ∈ instructionFaults m options f b id i) : fault.concernsPaths = false := by
  simp only [instructionFaults, List.mem_append] at hfault
  rcases hfault with (hplace | hsuccessor) | hoperand
  · split at hplace
    · obtain rfl := List.mem_singleton.1 hplace
      rfl
    · simp at hplace
  · obtain ⟨target, -, rfl⟩ := List.mem_map.1 hsuccessor
    rfl
  · exact Fault.concernsPaths_eq_false_of_concernsOperand
      (Module.concernsOperand_of_mem_operandFaults hoperand)

/-- What is wrong with a block by itself says nothing about the paths that lead to it. -/
theorem concernsPaths_of_mem_blockFaults {block : BlockId}
    (hfault : fault ∈ blockFaults m options f block b) : fault.concernsPaths = false := by
  unfold blockFaults at hfault
  split at hfault
  · obtain rfl := List.mem_singleton.1 hfault
    rfl
  · rcases List.mem_append.1 hfault with hinstruction | hend
    · obtain ⟨entry, -, hentry⟩ := List.mem_flatMap.1 hinstruction
      exact concernsPaths_of_mem_instructionFaults hentry
    · split at hend
      · simp at hend
      · obtain rfl := List.mem_singleton.1 hend
        rfl

/-- The faults of a block: it has no instruction, an instruction has a fault, or the end is
missing. -/
theorem mem_blockFaults_iff (hb : b.Ordered) {block : BlockId} :
    fault ∈ blockFaults m options f block b ↔
      (b.isEmpty = true ∧ fault = .emptyBlock block) ∨
      (∃ address i, b.get? address = some i ∧
        fault ∈ instructionFaults m options f b ⟨block, address⟩ i) ∨
      (b.isEmpty = false ∧ b.isTerminated = false ∧ fault = .missingTerminator block) := by
  unfold blockFaults
  by_cases hempty : b.isEmpty = true
  · have hdead : ∀ address i, b.get? address ≠ some i := by
      intro address i hi
      have hmem := (hb.mem_iff address).2 (by simp [hi])
      rw [List.isEmpty_iff.1 hempty] at hmem
      simp at hmem
    simp [hempty, hdead]
  · have hlast : fault ∈ (if b.isTerminated then [] else [Fault.missingTerminator block]) ↔
        b.isTerminated = false ∧ fault = .missingTerminator block := by
      cases b.isTerminated <;> simp
    rw [if_neg hempty, List.mem_append, hlast]
    simp [hb.mem_instructions, hempty]

/-- Where a fault of a function comes from. -/
theorem cases_of_mem_functionFaults (hm : m.Consistent) (hf : f ∈ m.functions)
    (hfault : fault ∈ functionFaults m options f) :
    (∃ block, fault = .emptyBlock block ∨ fault = .missingTerminator block) ∨
    (∃ b id i, m.Stands f b id i ∧ fault ∈ instructionFaults m options f b id i) ∨
    (options.rejectUnreachableBlocks = true ∧ ∃ block, fault = .unreachableBlock block) ∨
    (options.checkStackDiscipline = true ∧ fault.concernsStack = true) := by
  simp only [functionFaults, List.mem_append, List.mem_flatMap] at hfault
  rcases hfault with (⟨⟨block, b⟩, hmem, hblock⟩ | hunreachable) | hstack
  · obtain ⟨hfunction, hb⟩ := hm.block?_of_mem_blocksWithId hf hmem
    have hordered := hm.ordered block b (Module.block?_eq_some.2 ⟨f, hfunction, hb⟩)
    rcases (mem_blockFaults_iff hordered).1 hblock with
      ⟨-, rfl⟩ | ⟨address, i, hi, hin⟩ | ⟨-, -, rfl⟩
    · exact .inl ⟨block, .inl rfl⟩
    · exact .inr (.inl ⟨b, ⟨block, address⟩, i, ⟨hfunction, hb, hi⟩, hin⟩)
    · exact .inl ⟨block, .inr rfl⟩
  · split at hunreachable
    · rename_i hoption
      obtain ⟨block, -, rfl⟩ := List.mem_map.1 hunreachable
      exact .inr (.inr (.inl ⟨hoption, block, rfl⟩))
    · simp at hunreachable
  · split at hstack
    · rename_i hoption
      exact .inr (.inr (.inr ⟨hoption, StackDiscipline.concernsStack_of_mem_faults hstack⟩))
    · simp at hstack

/-- Faults against stack discipline come from the traversal only. -/
theorem mem_faults_of_concernsStack (hstack : fault.concernsStack = true)
    (hfault : fault ∈ functionFaults m options f) :
    options.checkStackDiscipline = true ∧ fault ∈ StackDiscipline.faults f (.ofFunction f) := by
  simp only [functionFaults, List.mem_append, List.mem_flatMap] at hfault
  rcases hfault with (⟨⟨block, b⟩, -, hblock⟩ | hunreachable) | htraversal
  · have hother :=
      Fault.concernsStack_eq_false_of_concernsPaths (concernsPaths_of_mem_blockFaults hblock)
    simp [hother] at hstack
  · split at hunreachable
    · obtain ⟨block, -, rfl⟩ := List.mem_map.1 hunreachable
      simp [Fault.concernsStack] at hstack
    · simp at hunreachable
  · split at htraversal
    · rename_i hoption
      exact ⟨hoption, htraversal⟩
    · simp at htraversal

/-- A fault of a live instruction is reported, in the name of its function. -/
theorem mem_findings_of_stands (hm : m.Consistent) {id : InstructionId} {i : Instruction}
    (hi : m.Stands f b id i) (hfault : fault ∈ instructionFaults m options f b id i) :
    ⟨f.name, fault⟩ ∈ findings options m := by
  have hbody : f ∈ bodies m := by
    refine List.mem_filter.2 ⟨List.mem_of_getElem? hi.function, ?_⟩
    simp [Function.entry?_of_block? hi.block]
  have hblock : fault ∈ blockFaults m options f id.block b :=
    (mem_blockFaults_iff (hm.ordered _ b hi.block?)).2 (.inr (.inl ⟨_, i, hi.live, hfault⟩))
  have hfunction : fault ∈ functionFaults m options f := by
    simp only [functionFaults, List.mem_append, List.mem_flatMap]
    exact .inl (.inl ⟨_, Function.mem_blocksWithId_of_block? hi.block, hblock⟩)
  exact List.mem_flatMap.2 ⟨f, hbody, List.mem_map.2 ⟨fault, hfunction, rfl⟩⟩

theorem exists_mem_findings_of_operandFaults (hm : m.Consistent) {id : InstructionId}
    {i : Instruction} (hi : m.instruction? id = some i)
    (hfault : fault ∈ m.operandFaults options.checkOperandTypes id i) :
    ∃ function, ⟨function, fault⟩ ∈ findings options m := by
  obtain ⟨f, b, hstands⟩ := Module.exists_stands_iff.2 hi
  exact ⟨f.name, mem_findings_of_stands hm hstands (List.mem_append_right _ hfault)⟩

/-- A finding is a fault of a function of the module. -/
theorem exists_of_mem_findings {finding : Finding} (h : finding ∈ findings options m) :
    ∃ f ∈ m.functions, finding.function = f.name ∧ finding.fault ∈ functionFaults m options f := by
  obtain ⟨f, hbody, hfinding⟩ := List.mem_flatMap.1 h
  obtain ⟨fault, hfault, rfl⟩ := List.mem_map.1 hfinding
  exact ⟨f, (List.mem_filter.1 hbody).1, rfl, hfault⟩

end Verifier

end BlockIR
