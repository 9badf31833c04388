import BlockIR.Proofs.Consistency
/-!
What an edit keeps of the instructions that it does not remove.

An instruction is what it is by its kind, with the operator or the callee, by the number of its
operands, the types of its results and the site it comes from.  No edit changes these; operands are
exchanged and edges redirected only by a request that names the instruction.
-/

namespace BlockIR

/-- What an operation does, apart from the values, types and blocks it is applied to. -/
inductive Kind where
  | allocStack
  | deallocStack
  | pointerToAddress
  | load
  | store
  | binary (operator : BinaryOperator)
  | compare (operator : CompareOperator)
  | call (callee : FunctionId)
  | branch
  | condBranch
  | ret
deriving DecidableEq

/-- Whether operations of the kind end a block. -/
def Kind.isTerminator : Kind → Bool
  | .branch | .condBranch | .ret => true
  | _ => false

namespace Operation

def kind : Operation → Kind
  | .allocStack _ => .allocStack
  | .deallocStack _ => .deallocStack
  | .pointerToAddress _ _ => .pointerToAddress
  | .load _ _ => .load
  | .store _ _ => .store
  | .binary operator _ _ _ => .binary operator
  | .compare operator _ _ => .compare operator
  | .call callee _ _ => .call callee
  | .branch _ => .branch
  | .condBranch _ _ _ => .condBranch
  | .ret => .ret

theorem isTerminator_kind (operation : Operation) :
    operation.kind.isTerminator = operation.isTerminator := by
  cases operation <;> rfl

theorem kind_setOperand (operation : Operation) (index : Nat) (new : Operand) :
    (operation.setOperand index new).kind = operation.kind := by
  cases operation <;> rfl

theorem kind_mapSuccessors (operation : Operation) (f : BlockId → BlockId) :
    (operation.mapSuccessors f).kind = operation.kind := by
  cases operation <;> rfl

theorem resultTypes_setOperand (operation : Operation) (index : Nat) (new : Operand) :
    (operation.setOperand index new).resultTypes = operation.resultTypes := by
  cases operation <;> rfl

theorem resultTypes_mapSuccessors (operation : Operation) (f : BlockId → BlockId) :
    (operation.mapSuccessors f).resultTypes = operation.resultTypes := by
  cases operation <;> rfl

theorem operands_mapSuccessors (operation : Operation) (f : BlockId → BlockId) :
    (operation.mapSuccessors f).operands = operation.operands := by
  cases operation <;> rfl

theorem successors_setOperand (operation : Operation) (index : Nat) (new : Operand) :
    (operation.setOperand index new).successors = operation.successors := by
  cases operation <;> rfl

end Operation

namespace Instruction

variable {i j k : Instruction}

/-- The second instruction is what edits can make of the first in its slot. -/
structure Alike (i j : Instruction) : Prop where
  kind : j.operation.kind = i.operation.kind
  arity : j.operands.length = i.operands.length
  resultTypes : j.resultTypes = i.resultTypes
  site : j.site = i.site

theorem Alike.refl (i : Instruction) : i.Alike i := ⟨rfl, rfl, rfl, rfl⟩

theorem Alike.trans (hij : i.Alike j) (hjk : j.Alike k) : i.Alike k where
  kind := hjk.kind.trans hij.kind
  arity := hjk.arity.trans hij.arity
  resultTypes := hjk.resultTypes.trans hij.resultTypes
  site := hjk.site.trans hij.site

theorem Alike.setOperand (i : Instruction) (index : Nat) (new : Operand) :
    i.Alike { i with operation := i.operation.setOperand index new } where
  kind := Operation.kind_setOperand _ _ _
  arity := by simp [operands, Operation.operands_setOperand]
  resultTypes := Operation.resultTypes_setOperand _ _ _
  site := rfl

theorem Alike.mapSuccessors (i : Instruction) (f : BlockId → BlockId) :
    i.Alike { i with operation := i.operation.mapSuccessors f } where
  kind := Operation.kind_mapSuccessors _ _
  arity := by simp [operands, Operation.operands_mapSuccessors]
  resultTypes := Operation.resultTypes_mapSuccessors _ _
  site := rfl

theorem isTerminator_congr (h : j.operation.kind = i.operation.kind) :
    j.isTerminator = i.isTerminator := by
  rw [Instruction.isTerminator, ← Operation.isTerminator_kind, h, Operation.isTerminator_kind]
  rfl

theorem Alike.isTerminator (h : i.Alike j) : j.isTerminator = i.isTerminator :=
  isTerminator_congr h.kind

/-- An allocation has neither operands nor edges, so nothing about it can change. -/
theorem Alike.eq_of_allocStack {type : ObjectType} {site : Span}
    (h : Alike ⟨.allocStack type, site⟩ j) : j = ⟨.allocStack type, site⟩ := by
  obtain ⟨operation, made⟩ := j
  obtain rfl : made = site := h.site
  cases operation with
  | allocStack found =>
      obtain rfl : found = type := by
        simpa [Instruction.resultTypes, Operation.resultTypes] using h.resultTypes
      rfl
  | _ => exact absurd h.kind (by simp [Operation.kind])

end Instruction

namespace Command

/-- The command exchanges an operand of an instruction. -/
def ReplacesOperandOf (id : InstructionId) (command : Command) : Prop :=
  ∃ index new, command = .replaceOperand id index new

theorem not_replacesOperandOf_of_isConstruction {command : Command}
    (h : command.isConstruction = true) (id : InstructionId) : ¬command.ReplacesOperandOf id := by
  rintro ⟨index, new, rfl⟩
  simp [isConstruction] at h

/-- The command redirects edges of an instruction. -/
def ReplacesSuccessorOf (id : InstructionId) (command : Command) : Prop :=
  ∃ old new, command = .replaceSuccessor id old new

end Command

namespace Module

variable {m n : Module} {id : InstructionId} {i : Instruction}

/-- What stands at an identity in the first module stands there in the second, apart from operands
and edges. -/
def Keeps (m n : Module) (id : InstructionId) : Prop :=
  ∀ i, m.instruction? id = some i → ∃ j, n.instruction? id = some j ∧ i.Alike j

/-- What an edit leaves of an instruction that it does not remove. -/
theorem persists_of_effect (hm : m.Consistent) {command : Command} (heffect : command.Effect m n)
    (hi : m.instruction? id = some i) (hkept : command ≠ .removeInstruction id) :
    ∃ j, n.instruction? id = some j ∧ i.Alike j ∧
      (¬command.ReplacesOperandOf id → j.operands = i.operands) ∧
      (¬command.ReplacesSuccessorOf id → j.successors = i.successors) := by
  have hsame : n.instruction? id = m.instruction? id →
      ∃ j, n.instruction? id = some j ∧ i.Alike j ∧
        (¬command.ReplacesOperandOf id → j.operands = i.operands) ∧
        (¬command.ReplacesSuccessorOf id → j.successors = i.successors) :=
    fun heq => ⟨i, heq.trans hi, .refl i, fun _ => rfl, fun _ => rfl⟩
  cases heffect with
  | rename name => exact hsame rfl
  | declareFunction name inputs output =>
      exact hsame (m.instruction?_withFunction name inputs output id)
  | appendBlock hf _ => exact hsame (instruction?_withBlock hf (hm.ids _ _ hf) _ id)
  | appendEntryBlock hf => exact hsame (instruction?_withBlock hf (hm.ids _ _ hf) _ id)
  | make hprepare site =>
      exact hsame
        ((instruction?_place_of_live (block?_isSome_of_prepare hprepare) _ hi).trans hi.symm)
  | @replaceOperand target old index hold hindex new =>
      by_cases heq : id = target
      · subst heq
        obtain rfl := Option.some.inj (hold.symm.trans hi)
        refine ⟨_, by rw [instruction?_exchange (by simp [hold]), if_pos rfl],
          .setOperand _ index new, ?_, fun _ => Operation.successors_setOperand _ _ _⟩
        exact fun hnot => absurd ⟨index, new, rfl⟩ hnot
      · exact hsame (by rw [instruction?_exchange (by simp [hold]), if_neg heq])
  | @replaceSuccessor target old new before hold _ _ _ =>
      by_cases heq : id = target
      · subst heq
        obtain rfl := Option.some.inj (hold.symm.trans hi)
        refine ⟨_, by rw [instruction?_exchange (by simp [hold]), if_pos rfl],
          .mapSuccessors _ _, fun _ => Operation.operands_mapSuccessors _ _, ?_⟩
        exact fun hnot => absurd ⟨before, new, rfl⟩ hnot
      · exact hsame (by rw [instruction?_exchange (by simp [hold]), if_neg heq])
  | @removeInstruction target _ _ _ =>
      refine hsame ?_
      rw [instruction?_without, if_neg]
      rintro rfl
      exact hkept rfl

/-- Where the instruction at an identity comes from after an edit: it stood there before, was made, or
had an operand exchanged or edges redirected. -/
inductive Origin (m : Module) (id : InstructionId) : Command → Instruction → Prop where
  | kept {command : Command} {i : Instruction} (hi : m.instruction? id = some i) :
      Origin m id command i
  | made {point : InsertionPoint} {draft : Draft} {operation : Operation} {site : Span}
      (hprepare : m.prepare point draft = .ok operation)
      (hid : id = m.nextInstruction point.block) :
      Origin m id (.make point draft site) ⟨operation, site⟩
  | exchanged {i : Instruction} {index : Nat} {new : Operand} (hi : m.instruction? id = some i) :
      Origin m id (.replaceOperand id index new)
        { i with operation := i.operation.setOperand index new }
  | redirected {i : Instruction} {old new : BlockId} (hi : m.instruction? id = some i)
      (hlocal : new.function = id.function) (hnew : (m.block? new).isSome) :
      Origin m id (.replaceSuccessor id old new)
        { i with operation := i.operation.mapSuccessors (fun b => if b = old then new else b) }

theorem origin_of_effect (hm : m.Consistent) {command : Command} (heffect : command.Effect m n)
    (hi : n.instruction? id = some i) : m.Origin id command i := by
  cases heffect with
  | rename name => exact .kept hi
  | declareFunction name inputs output =>
      rw [instruction?_withFunction] at hi
      exact .kept hi
  | appendBlock hf _ =>
      rw [instruction?_withBlock hf (hm.ids _ _ hf)] at hi
      exact .kept hi
  | appendEntryBlock hf =>
      rw [instruction?_withBlock hf (hm.ids _ _ hf)] at hi
      exact .kept hi
  | make hprepare site =>
      rw [instruction?_place (block?_isSome_of_prepare hprepare)] at hi
      split at hi
      · rename_i heq
        obtain rfl := Option.some.inj hi
        exact .made hprepare heq
      · exact .kept hi
  | replaceOperand hold _ new =>
      rw [instruction?_exchange (by simp [hold])] at hi
      split at hi
      · rename_i heq
        subst heq
        obtain rfl := Option.some.inj hi
        exact .exchanged hold
      · exact .kept hi
  | replaceSuccessor old hold _ hlocal hnew =>
      rw [instruction?_exchange (by simp [hold])] at hi
      split at hi
      · rename_i heq
        subst heq
        obtain rfl := Option.some.inj hi
        exact .redirected hold hlocal hnew
      · exact .kept hi
  | removeInstruction _ _ =>
      rw [instruction?_without] at hi
      split at hi
      · simp at hi
      · exact .kept hi

theorem extends_of_effect (hm : m.Consistent) {command : Command} (heffect : command.Effect m n) :
    m.Extends n := by
  cases heffect with
  | rename name => exact ⟨(Extends.refl m).functions, (Extends.refl m).blocks⟩
  | declareFunction name inputs output => exact .withFunction m name inputs output
  | appendBlock hf _ => exact .withBlock hf (hm.ids _ _ hf) _
  | appendEntryBlock hf => exact .withBlock hf (hm.ids _ _ hf) _
  | @make point _ _ _ _ => cases point <;> exact .modifyBlock (fun _ => rfl)
  | replaceOperand _ _ _ => exact .modifyBlock (fun _ => rfl)
  | replaceSuccessor _ _ _ _ _ => exact .modifyBlock (fun _ => rfl)
  | removeInstruction _ _ => exact .modifyBlock (fun _ => rfl)

theorem keeps_of_effect (hm : m.Consistent) {command : Command} (heffect : command.Effect m n)
    (hkept : command ≠ .removeInstruction id) : m.Keeps n id := by
  intro i hi
  obtain ⟨j, hj, halike, -⟩ := persists_of_effect hm heffect hi hkept
  exact ⟨j, hj, halike⟩

end Module

end BlockIR
