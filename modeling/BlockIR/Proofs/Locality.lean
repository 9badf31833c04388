import BlockIR.Proofs.Persistence
import BlockIR.Proofs.VerifiedRows
/-!
Findings belong to one function.

What is found in a function is read off its own blocks: an operand that names a value of another
function is dangling, whether that value is there or not, and of a callee only the inputs are looked
at, which no edit changes.  So an edit of another function, or the declaration of a new one, leaves
the findings in a function as they are.
-/

namespace BlockIR

/-- The instruction that a fault is found at; a fault of a block is found at none. -/
def Fault.instruction? : Fault → Option InstructionId
  | .terminatorNotLast instruction | .invalidSuccessor instruction _
  | .danglingOperand instruction _ | .operandTypeMismatch instruction _ _ _
  | .deallocationOutOfOrder instruction _ _ | .leakedAllocation instruction _ => some instruction
  | .emptyBlock _ | .missingTerminator _ | .unreachableBlock _ | .inconsistentStackAtJoin _ => none

theorem Fault.block_of_instruction? {fault : Fault} {id : InstructionId}
    (h : fault.instruction? = some id) : fault.block = id.block := by
  cases fault <;> simp_all [Fault.instruction?, Fault.block]

namespace StackDiscipline

variable {f : Function} {fault : Fault}

theorem instruction?_of_mem_step {id : InstructionId} {i : Instruction} {live : Stack}
    (hfault : fault ∈ (step id i live).2) : fault.instruction? = some id := by
  rcases cases_of_mem_step hfault with ⟨_, _, -, -, -, rfl⟩ | ⟨-, -, rfl⟩ <;> rfl

theorem instruction?_of_mem_walk {block : BlockId} {live : Stack}
    {instructions : List (Nat × Instruction)} (hfault : fault ∈ (walk block live instructions).2) :
    ∃ address ∈ instructions.map Prod.fst, fault.instruction? = some ⟨block, address⟩ := by
  induction instructions generalizing live with
  | nil => simp [walk] at hfault
  | cons head tail ih =>
      obtain ⟨address, i⟩ := head
      simp only [walk, List.mem_append] at hfault
      rcases hfault with hhere | hlater
      · exact ⟨address, List.mem_cons_self, instruction?_of_mem_step hhere⟩
      · obtain ⟨other, hother, hfound⟩ := ih hlater
        exact ⟨other, List.mem_cons_of_mem _ hother, hfound⟩

theorem block?_of_mem_faults {g : FlowGraph} (hfault : fault ∈ faults f g) :
    (f.block? fault.block).isSome := by
  cases arises_of_mem_faults hfault with
  | step hlive hstep =>
      rw [Fault.block_of_instruction? (instruction?_of_mem_step hstep)]
      exact Function.block?_of_mem_instructions hlive.mem_instructions
  | join hpresent => exact hpresent

end StackDiscipline

namespace Verifier

variable {m n : Module} {options : Options} {f : Function} {fault : Fault}

theorem instruction?_of_mem_operandFaults {checkTypes : Bool} {id : InstructionId}
    {i : Instruction} {fault : Fault} (hfault : fault ∈ m.operandFaults checkTypes id i) :
    fault.instruction? = some id := by
  rcases Module.cases_of_mem_operandFaults hfault with ⟨_, rfl⟩ | ⟨_, _, _, _, -, -, -, rfl⟩
  · rfl
  · rfl

theorem block_of_mem_instructionFaults {b : Block} {id : InstructionId} {i : Instruction}
    (hfault : fault ∈ instructionFaults m options f b id i) : fault.block = id.block := by
  simp only [instructionFaults, List.mem_append] at hfault
  rcases hfault with (hplace | hsuccessor) | hoperand
  · split at hplace
    · obtain rfl := List.mem_singleton.1 hplace
      rfl
    · simp at hplace
  · obtain ⟨target, -, rfl⟩ := List.mem_map.1 hsuccessor
    rfl
  · exact Fault.block_of_instruction? (instruction?_of_mem_operandFaults hoperand)

theorem block_of_mem_blockFaults {block : BlockId} {b : Block}
    (hfault : fault ∈ blockFaults m options f block b) : fault.block = block := by
  unfold blockFaults at hfault
  split at hfault
  · obtain rfl := List.mem_singleton.1 hfault
    rfl
  · rcases List.mem_append.1 hfault with hinstruction | hend
    · obtain ⟨entry, -, hentry⟩ := List.mem_flatMap.1 hinstruction
      exact block_of_mem_instructionFaults hentry
    · split at hend
      · simp at hend
      · obtain rfl := List.mem_singleton.1 hend
        rfl

/-- A fault of a function is found in one of its blocks. -/
theorem block?_of_mem_functionFaults (hfault : fault ∈ functionFaults m options f) :
    (f.block? fault.block).isSome := by
  simp only [functionFaults, List.mem_append, List.mem_flatMap] at hfault
  rcases hfault with (⟨⟨block, b⟩, hmem, hblock⟩ | hunreachable) | hstack
  · simp [block_of_mem_blockFaults hblock, Function.block?_of_mem_blocksWithId hmem]
  · split at hunreachable
    · obtain ⟨block, hblock, rfl⟩ := List.mem_map.1 hunreachable
      obtain ⟨⟨_, b⟩, hmem, rfl⟩ := List.mem_map.1 (List.mem_filter.1 hblock).1
      simp [Fault.block, Function.block?_of_mem_blocksWithId hmem]
    · simp at hunreachable
  · split at hstack
    · exact StackDiscipline.block?_of_mem_faults hstack
    · simp at hstack

theorem function_of_mem_functionFaults (hfault : fault ∈ functionFaults m options f) :
    fault.block.function = f.id := by
  obtain ⟨b, hb⟩ := Option.isSome_iff_exists.1 (block?_of_mem_functionFaults hfault)
  exact Function.function_of_block? hb

/-- A function without a body has no findings. -/
theorem functionFindings_eq_nil (hf : f.blocks = []) : functionFindings m options f = [] := by
  rw [functionFindings, List.map_eq_nil_iff, List.eq_nil_iff_forall_not_mem]
  intro fault hfault
  have hblock := block?_of_mem_functionFaults hfault
  simp [Function.block?, hf] at hblock

/-- Declared functions can be taken along, since nothing is found in them. -/
theorem findings_eq_flatMap (options : Options) (m : Module) :
    findings options m = m.functions.flatMap (functionFindings m options) := by
  rw [findings, bodies]
  induction m.functions with
  | nil => rfl
  | cons f rest ih =>
      by_cases hentry : f.blocks = []
      · simpa [hentry, Function.entry?, functionFindings_eq_nil hentry] using ih
      · simpa [hentry, Function.entry?] using ih

/-- The findings in the blocks of one function. -/
def findingsIn (options : Options) (m : Module) (function : FunctionId) : List Finding :=
  (findings options m).filter (fun finding => finding.fault.block.function = function)

end Verifier

namespace Module

variable {m n : Module}

/-- Of functions that stand at their identities one is picked by its identity. -/
theorem flatMap_filter_id {α : Type} (found : Function → List α) (functions : List Function)
    (start index : Nat)
    (hids : ∀ (place : Nat) (f : Function), functions[place]? = some f → f.id = ⟨start + place⟩) :
    functions.flatMap (fun f => if f.id = ⟨start + index⟩ then found f else []) =
      (functions[index]?.map found).getD [] := by
  induction functions generalizing start index with
  | nil => simp
  | cons f rest ih =>
      have hrest : ∀ (place : Nat) (g : Function), rest[place]? = some g →
          g.id = ⟨start + 1 + place⟩ := by
        intro place g hg
        rw [hids (place + 1) g (by simpa using hg), Nat.add_assoc, Nat.add_comm 1]
      have hfirst : f.id = ⟨start⟩ := hids 0 f rfl
      cases index with
      | zero =>
          have hnone : rest.flatMap (fun g => if g.id = ⟨start⟩ then found g else []) = [] := by
            rw [List.flatMap_eq_nil_iff]
            intro g hg
            obtain ⟨place, hplace⟩ := List.getElem?_of_mem hg
            rw [hrest place g hplace, if_neg]
            simp only [FunctionId.mk.injEq]
            omega
          simp [hfirst, hnone]
      | succ index =>
          have hnext := ih (start + 1) index hrest
          rw [Nat.add_assoc, Nat.add_comm 1] at hnext
          simpa [hfirst] using hnext

/-- The findings in a function are those that its verification gives. -/
theorem Consistent.findingsIn_eq (hm : m.Consistent) (options : Options) (function : FunctionId) :
    Verifier.findingsIn options m function =
      ((m.function? function).map (Verifier.functionFindings m options)).getD [] := by
  have hone : ∀ f, (Verifier.functionFindings m options f).filter
      (fun finding => finding.fault.block.function = function) =
      if f.id = function then Verifier.functionFindings m options f else [] := by
    intro f
    have hfunction : ∀ finding ∈ Verifier.functionFindings m options f,
        finding.fault.block.function = f.id := by
      intro finding hfinding
      obtain ⟨fault, hfault, rfl⟩ := List.mem_map.1 hfinding
      exact Verifier.function_of_mem_functionFaults hfault
    split
    · rename_i heq
      rw [List.filter_eq_self]
      intro finding hfinding
      simpa [heq] using hfunction finding hfinding
    · rename_i hne
      rw [List.filter_eq_nil_iff]
      intro finding hfinding
      simpa [hfunction finding hfinding] using hne
  rw [Verifier.findingsIn, Verifier.findings_eq_flatMap, List.filter_flatMap]
  simp only [hone]
  have hpick := flatMap_filter_id (Verifier.functionFindings m options) m.functions 0 function.index
    (fun place f hf => by simpa using hm.ids ⟨place⟩ f hf)
  simpa [function?] using hpick

section Reading

variable {function : FunctionId}

/-- What a verification of a function reads off an operand: the type of a live value that the
function may name. -/
def localType? (m : Module) (function : FunctionId) (operand : Operand) : Option ValueType :=
  (m.operandType? operand).filter (fun _ => operand.isLocalTo function)

/-- Operands of the same types leave off at the same place or give the same list. -/
theorem operandTypes_congr {operands others : List Operand}
    (h : others.map (n.localType? function) = operands.map (m.localType? function)) (index : Nat) :
    n.operandTypes function index others = m.operandTypes function index operands := by
  induction operands generalizing others index with
  | nil =>
      obtain rfl : others = [] := by simpa using h
      rfl
  | cons operand rest ih =>
      obtain ⟨other, more, rfl⟩ : ∃ other more, others = other :: more := by
        cases others with
        | nil => simp at h
        | cons other more => exact ⟨other, more, rfl⟩
      rw [List.map_cons, List.map_cons, List.cons.injEq] at h
      have hhead : (n.operandType? other).filter (fun _ => other.isLocalTo function) =
          (m.operandType? operand).filter (fun _ => operand.isLocalTo function) := h.1
      rw [operandTypes, operandTypes, hhead, ih h.2]

/-- Of a module the rules of an instruction read which operands are slots, and the inputs of the
callee. -/
theorem unmetExpectation?_eq_of_slots {i : Instruction}
    (hslots : ∀ operand ∈ i.operands, n.isStackAllocation operand = m.isStackAllocation operand)
    (hinputs : ∀ callee, i.operation.kind = .call callee →
      (n.function? callee).map Function.inputs = (m.function? callee).map Function.inputs)
    (types : List ValueType) : n.unmetExpectation? i types = m.unmetExpectation? i types := by
  obtain ⟨operation, site⟩ := i
  cases operation with
  | deallocStack location =>
      have hslot := hslots location (by simp [Instruction.operands, Operation.operands])
      simp only [unmetExpectation?, hslot]
  | call callee arguments output =>
      have hcallee := hinputs callee rfl
      cases hf : m.function? callee with
      | none =>
          obtain hg : n.function? callee = none := by simpa [hf] using hcallee
          simp only [unmetExpectation?, hf, hg]
      | some f =>
          obtain ⟨g, hg, hsame⟩ : ∃ g, n.function? callee = some g ∧ g.inputs = f.inputs := by
            simpa [hf] using hcallee
          simp only [unmetExpectation?, hf, hg, hsame, Option.bind_eq_bind, Option.bind_some]
  | _ => rfl

end Reading

section Agreement

variable {function : FunctionId}

/-- Two modules are the same to a verification of a function: they have the same function there, and
whatever the first declares has the same inputs in the second. -/
structure AgreesOn (m n : Module) (function : FunctionId) : Prop where
  function : n.function? function = m.function? function
  inputs : ∀ callee f, m.function? callee = some f →
    ∃ g, n.function? callee = some g ∧ g.inputs = f.inputs

theorem AgreesOn.block? (h : m.AgreesOn n function) {id : BlockId} (hid : id.function = function) :
    n.block? id = m.block? id := by
  rw [Module.block?, Module.block?, hid, h.function]

theorem AgreesOn.instruction? (h : m.AgreesOn n function) {id : InstructionId}
    (hid : id.function = function) : n.instruction? id = m.instruction? id := by
  rw [Module.instruction?, Module.instruction?, h.block? hid]

theorem AgreesOn.operandType? (h : m.AgreesOn n function) {operand : Operand}
    (hlocal : operand.isLocalTo function = true) :
    n.operandType? operand = m.operandType? operand := by
  cases operand with
  | result id index =>
      have hid : id.function = function := by
        simpa [Operand.isLocalTo, Operand.function?] using hlocal
      rw [Module.operandType?, Module.operandType?, h.instruction? hid]
  | parameter id index =>
      have hid : id.function = function := by
        simpa [Operand.isLocalTo, Operand.function?] using hlocal
      rw [Module.operandType?, Module.operandType?, h.block? hid]
  | constant value => rfl

theorem AgreesOn.isStackAllocation (h : m.AgreesOn n function) {operand : Operand}
    (hlocal : operand.isLocalTo function = true) :
    n.isStackAllocation operand = m.isStackAllocation operand := by
  unfold Module.isStackAllocation
  split
  · rename_i id
    have hid : id.function = function := by
      simpa [Operand.isLocalTo, Operand.function?] using hlocal
    rw [h.instruction? hid]
  · rfl

/-- An operand of another function counts as dangling in either module. -/
theorem AgreesOn.operandTypes (h : m.AgreesOn n function) (index : Nat) (operands : List Operand) :
    n.operandTypes function index operands = m.operandTypes function index operands := by
  refine operandTypes_congr (List.map_congr_left fun operand _ => ?_) index
  unfold localType?
  cases hlocal : operand.isLocalTo function with
  | false => simp
  | true => rw [h.operandType? hlocal]

theorem AgreesOn.unmetExpectation? (h : m.AgreesOn n function) {i : Instruction}
    (hfixed : m.Fixed function i.operation)
    (hlocal : ∀ operand ∈ i.operands, operand.isLocalTo function = true) (types : List ValueType) :
    n.unmetExpectation? i types = m.unmetExpectation? i types := by
  refine unmetExpectation?_eq_of_slots
    (fun operand hoperand => h.isStackAllocation (hlocal operand hoperand)) ?_ types
  intro callee hkind
  obtain ⟨f, hf⟩ : ∃ f, m.function? callee = some f := by
    obtain ⟨operation, site⟩ := i
    cases operation with
    | call other arguments output =>
        obtain rfl : other = callee := by simpa [Operation.kind] using hkind
        obtain ⟨f, hf, -⟩ := hfixed.2
        exact ⟨f, hf⟩
    | _ => simp [Operation.kind] at hkind
  obtain ⟨g, hg, hinputs⟩ := h.inputs callee f hf
  simp [hf, hg, hinputs]

theorem AgreesOn.operandFaults {id : InstructionId} (h : m.AgreesOn n id.function) {i : Instruction}
    (hfixed : m.Fixed id.function i.operation) (checkTypes : Bool) :
    n.operandFaults checkTypes id i = m.operandFaults checkTypes id i := by
  rw [Module.operandFaults, Module.operandFaults, h.operandTypes]
  cases htypes : m.operandTypes id.function 0 i.operands with
  | error index => rfl
  | ok types =>
      have hlocal : ∀ operand ∈ i.operands, operand.isLocalTo id.function = true := by
        intro operand hoperand
        have hall := operandTypes_eq_ok.1 htypes
        obtain ⟨index, hindex, rfl⟩ := List.getElem_of_mem hoperand
        exact (hall.get hindex (hall.length_eq ▸ hindex)).2
      simp only [h.unmetExpectation? hfixed hlocal]

/-- What is found in a function is the same in modules that agree on it. -/
theorem AgreesOn.functionFindings (h : m.AgreesOn n function) (hm : m.Consistent) {f : Function}
    (hf : m.function? function = some f) (options : Options) :
    Verifier.functionFindings n options f = Verifier.functionFindings m options f := by
  have hblocks : ∀ entry ∈ f.blocksWithId,
      Verifier.blockFaults n options f entry.1 entry.2 =
        Verifier.blockFaults m options f entry.1 entry.2 := by
    rintro ⟨block, b⟩ hentry
    obtain ⟨hfunction, hblock⟩ := hm.block?_of_listed hf hentry
    have hinstructions : ∀ entry ∈ b.instructions,
        Verifier.instructionFaults n options f b ⟨block, entry.1⟩ entry.2 =
          Verifier.instructionFaults m options f b ⟨block, entry.1⟩ entry.2 := by
      rintro ⟨address, i⟩ hlisted
      have hi : m.instruction? ⟨block, address⟩ = some i :=
        instruction?_eq_some.2 ⟨b, hblock, (hm.ordered block b hblock).mem_instructions.1 hlisted⟩
      have hagree : m.AgreesOn n (InstructionId.function ⟨block, address⟩) := by
        rw [InstructionId.function, hfunction]
        exact h
      rw [Verifier.instructionFaults, Verifier.instructionFaults,
        hagree.operandFaults (hm.fixed _ i hi)]
    unfold Verifier.blockFaults
    rw [List.flatMap_congr hinstructions]
  simp only [Verifier.functionFindings, Verifier.functionFaults]
  rw [List.flatMap_congr hblocks]

end Agreement

end Module

/-- The function that an edit works on; a declaration works on none that is there. -/
def Command.target? : Command → Option FunctionId
  | .rename _ | .declareFunction _ _ _ => none
  | .appendBlock function _ | .appendEntryBlock function => some function
  | .make point _ _ => some point.block.function
  | .replaceOperand id _ _ | .replaceSuccessor id _ _ | .removeInstruction id => some id.function

namespace Module

variable {m n : Module}

/-- An edit leaves the functions alone that it does not work on; it may declare one more, which has
no body. -/
theorem function?_of_effect {command : Command} (heffect : command.Effect m n)
    {function : FunctionId} (htarget : command.target? ≠ some function) :
    n.function? function = m.function? function ∨
      m.function? function = none ∧ ∃ f, n.function? function = some f ∧ f.blocks = [] := by
  have hmodify : ∀ {other change}, some other ≠ some function →
      (m.modifyFunction other change).function? function = m.function? function := by
    intro other change hne
    rw [function?_modifyFunction, if_neg (fun heq => hne (by rw [heq]))]
  cases heffect with
  | rename name => exact .inl rfl
  | declareFunction name inputs output =>
      rw [function?_withFunction]
      split
      · rename_i heq
        exact .inr ⟨by simp [function?, heq], _, rfl, rfl⟩
      · exact .inl rfl
  | appendBlock _ _ => exact .inl (hmodify htarget)
  | appendEntryBlock _ => exact .inl (hmodify htarget)
  | @make point _ _ _ _ => cases point <;> exact .inl (hmodify htarget)
  | replaceOperand _ _ _ => exact .inl (hmodify htarget)
  | replaceSuccessor _ _ _ _ _ => exact .inl (hmodify htarget)
  | removeInstruction _ _ => exact .inl (hmodify htarget)

/-- An edit, whether it succeeds or fails, changes nothing about the findings in a function that it
does not work on, in their number, their order or their text. -/
theorem findingsIn_after {m : Module} (hm : m.Reachable) (options : Options)
    {function : FunctionId} {command : Command} (htarget : command.target? ≠ some function) :
    Verifier.findingsIn options (m.after command) function =
      Verifier.findingsIn options m function := by
  have hbefore := hm.consistent
  rcases m.after_eq_or_effect command with hsame | heffect
  · rw [hsame]
  · rw [(hbefore.after command).findingsIn_eq, hbefore.findingsIn_eq]
    have hextends := extends_of_effect hbefore heffect
    rcases function?_of_effect heffect htarget with hkept | ⟨hnone, f, hnew, hempty⟩
    · rw [hkept]
      cases hf : m.function? function with
      | none => rfl
      | some f =>
          have hagree : m.AgreesOn (m.after command) function := by
            refine ⟨hkept, fun callee g hg => ?_⟩
            obtain ⟨after, hafter, hinputs, -⟩ := hextends.functions callee g hg
            exact ⟨after, hafter, hinputs⟩
          simp [hagree.functionFindings hbefore hf]
    · simp [hnone, hnew, Verifier.functionFindings_eq_nil hempty]

section Planted

/-- A function that calls another, and was made to load from a slot of it. -/
def planted : Module :=
  let main : BlockId := ⟨⟨0⟩, 0⟩
  let callee : BlockId := ⟨⟨1⟩, 0⟩
  let make (block : BlockId) (draft : Draft) : Command := .make (.atEnd block) draft .synthetic
  List.foldl Module.after (.empty "test")
    [.declareFunction "main" [] .void, .appendEntryBlock ⟨0⟩,
      .declareFunction "callee" [.ofBuiltin .i64] .void, .appendEntryBlock ⟨1⟩,
      make main (.allocStack (.builtin .i64)), make main (.load (.result ⟨main, 0⟩ 0)),
      make main (.call ⟨1⟩ [.result ⟨main, 1⟩ 0]), make callee (.allocStack (.builtin .i64)),
      .replaceOperand ⟨main, 1⟩ 0 (.result ⟨callee, 0⟩ 0)]

theorem planted_findingsIn :
    (let removal : Command := .removeInstruction ⟨⟨⟨1⟩, 0⟩, 0⟩
    (removal.perform.run planted).result.isOk = true ∧
    Verifier.findingsIn .standard planted ⟨1⟩ = [⟨"callee", .missingTerminator ⟨⟨1⟩, 0⟩⟩] ∧
    Verifier.findingsIn .standard (planted.after removal) ⟨1⟩ =
      [⟨"callee", .emptyBlock ⟨⟨1⟩, 0⟩⟩] ∧
    Verifier.findingsIn .standard planted ⟨0⟩ =
      [⟨"main", .danglingOperand ⟨⟨⟨0⟩, 0⟩, 1⟩ 0⟩, ⟨"main", .missingTerminator ⟨⟨0⟩, 0⟩⟩] ∧
    ∀ options, Verifier.findingsIn options (planted.after removal) ⟨0⟩ =
      Verifier.findingsIn options planted ⟨0⟩) := by
  have hreachable : planted.Reachable := (Reachable.empty "test").edits _
  refine ⟨by decide +kernel, by decide +kernel, by decide +kernel, by decide +kernel, ?_⟩
  exact fun options => findingsIn_after hreachable options (by decide)

end Planted

end Module

end BlockIR
