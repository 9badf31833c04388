import BlockIR.Module.Edit
import Mathlib.Data.List.Forall2
/-!
What the checks of an edit let pass.  Each check is a chain of look-ups and tests; here it is said,
one check after the other, what holds of a module in which it passes.
-/

namespace BlockIR

/-- The request that an operation answers: the operation without the types that are read off its
operands and its callee. -/
def Operation.draft : Operation → Draft
  | .allocStack type => .allocStack type
  | .deallocStack location => .deallocStack location
  | .pointerToAddress source target => .pointerToAddress source target
  | .load source _ => .load source
  | .store object target => .store object target
  | .binary operator _ lhs rhs => .binary operator lhs rhs
  | .compare operator lhs rhs => .compare operator lhs rhs
  | .call callee arguments _ => .call callee arguments
  | .branch target => .branch target
  | .condBranch condition ifTrue ifFalse => .condBranch condition ifTrue ifFalse
  | .ret => .ret

namespace Checks

variable {α β : Type} {violation : Violation}

/-- A chain of checks passes exactly where each of them does. -/
theorem bind_eq_ok {first : Except Violation α} {next : α → Except Violation β} {value : β} :
    first >>= next = .ok value ↔ ∃ middle, first = .ok middle ∧ next middle = .ok value := by
  cases first <;> simp [bind, Except.bind]

@[simp] theorem pure_eq_ok {value result : α} :
    (pure value : Except Violation α) = .ok result ↔ value = result := by
  simp [pure, Except.pure]

@[simp] theorem throw_eq_ok {result : α} :
    (throw violation : Except Violation α) = .ok result ↔ False := by
  simp [throw, throwThe, MonadExceptOf.throw]

theorem ite_eq_ok {c : Prop} [Decidable c] {first second : Except Violation α} {result : α} :
    (if c then first else second) = .ok result ↔
      (c ∧ first = .ok result) ∨ (¬c ∧ second = .ok result) := by
  by_cases h : c <;> simp [h]

theorem seq_eq_ok {first : Except Violation Unit} {next : Except Violation β} {value : β} :
    (first >>= fun _ => next) = .ok value ↔ first = .ok () ∧ next = .ok value := by
  cases first <;> simp [bind, Except.bind]

theorem map_eq_ok {g : α → β} {check : Except Violation α} {value : β} :
    g <$> check = .ok value ↔ ∃ middle, check = .ok middle ∧ g middle = value := by
  cases check <;> simp [Functor.map, Except.map]

theorem forM_eq_ok {check : α → Except Violation Unit} {items : List α} :
    forM items check = .ok () ↔ ∀ item ∈ items, check item = .ok () := by
  induction items with
  | nil => simp
  | cons item rest ih => simp [seq_eq_ok, ih]

end Checks

namespace Module

open Checks

variable {m : Module}

theorem getFunction_eq_ok {id : FunctionId} {f : Function} :
    m.getFunction id = .ok f ↔ m.function? id = some f := by
  unfold getFunction
  cases m.function? id <;> simp

theorem getBlock_eq_ok {id : BlockId} {b : Block} :
    m.getBlock id = .ok b ↔ m.block? id = some b := by
  unfold getBlock
  cases m.block? id <;> simp

theorem getInstruction_eq_ok {id : InstructionId} {i : Instruction} :
    m.getInstruction id = .ok i ↔ m.instruction? id = some i := by
  unfold getInstruction
  cases m.instruction? id <;> simp

theorem locateInstruction_eq_ok {id : InstructionId} {i : Instruction} :
    m.locateInstruction id = .ok i ↔ m.instruction? id = some i := by
  simp only [locateInstruction, locateBlock, bind_eq_ok, getFunction_eq_ok, getBlock_eq_ok,
    getInstruction_eq_ok]
  constructor
  · rintro ⟨_, _, hi⟩
    exact hi
  · intro hi
    obtain ⟨b, hb, hget⟩ := Option.bind_eq_some_iff.1 hi
    obtain ⟨f, hf, hblock⟩ := Option.bind_eq_some_iff.1 hb
    exact ⟨b, ⟨f, hf, hb⟩, hi⟩

theorem typeOf_eq_ok {operand : Operand} {type : ValueType} :
    m.typeOf operand = .ok type ↔ m.operandType? operand = some type := by
  unfold typeOf
  cases m.operandType? operand <;> simp

theorem checkType_eq_ok {instruction : String} {index : Nat} {operand : Operand}
    {expected : ValueType} :
    m.checkType instruction index operand expected = .ok () ↔
      m.operandType? operand = some expected := by
  simp [checkType, bind_eq_ok, typeOf_eq_ok, ite_eq_ok]

theorem accessedType_eq_ok {instruction : String} {index : Nat} {address : Operand}
    {intent : Intent} {pointee : ObjectType} :
    m.accessedType instruction index address intent = .ok pointee ↔
      ∃ type, m.operandType? address = some type ∧ type.pointee? = some pointee ∧
        ∀ access, type.access? = some access → intent.isPermittedBy access = true := by
  simp only [accessedType, bind_eq_ok, typeOf_eq_ok]
  refine exists_congr (fun type => and_congr_right (fun _ => ?_))
  cases type with
  | object type => simp [ValueType.pointee?]
  | address type => simp [ValueType.pointee?, ValueType.access?]
  | remote type => simp [ValueType.pointee?, ValueType.access?, ite_eq_ok, and_comm]

theorem commonBuiltin_eq_ok {instruction : String} {lhs rhs : Operand} {type : Builtin} :
    m.commonBuiltin instruction lhs rhs = .ok type ↔
      m.operandType? lhs = some (.ofBuiltin type) ∧
        m.operandType? rhs = some (.ofBuiltin type) := by
  simp only [commonBuiltin, bind_eq_ok, typeOf_eq_ok]
  constructor
  · rintro ⟨left, hleft, hrest⟩
    cases hbuiltin : left.builtin? with
    | none => simp [hbuiltin] at hrest
    | some found =>
        simp only [hbuiltin, seq_eq_ok, checkType_eq_ok, pure_eq_ok] at hrest
        obtain ⟨hright, rfl⟩ := hrest
        exact ⟨by rw [hleft, ValueType.builtin?_eq_some.1 hbuiltin], hright⟩
  · rintro ⟨hleft, hright⟩
    refine ⟨_, hleft, ?_⟩
    simp only [ValueType.builtin?_eq_some.2 rfl, seq_eq_ok, checkType_eq_ok, pure_eq_ok, and_true]
    exact hright

theorem checkArguments_eq_ok {index : Nat} {inputs : List ValueType} {arguments : List Operand}
    (hlength : inputs.length = arguments.length) :
    m.checkArguments index inputs arguments = .ok () ↔
      List.Forall₂ (fun argument input => m.operandType? argument = some input)
        arguments inputs := by
  induction inputs generalizing index arguments with
  | nil =>
      obtain rfl : arguments = [] := by simpa using hlength.symm
      simp [checkArguments]
  | cons input inputs ih =>
      cases arguments with
      | nil => simp at hlength
      | cons argument arguments =>
          simp [checkArguments, seq_eq_ok, checkType_eq_ok, ih (by simpa using hlength)]

theorem isStackAllocation_iff {operand : Operand} :
    m.isStackAllocation operand = true ↔
      ∃ id type site, operand = .result id 0 ∧ m.instruction? id = some ⟨.allocStack type, site⟩ := by
  constructor
  · intro h
    unfold isStackAllocation at h
    split at h
    · rename_i id
      obtain ⟨⟨operation, site⟩, hi, hallocation⟩ := (Option.any_eq_true _ _).1 h
      cases operation <;> simp [Instruction.isAllocation] at hallocation
      exact ⟨id, _, site, rfl, hi⟩
    · simp at h
  · rintro ⟨id, type, site, rfl, hid⟩
    simp [isStackAllocation, hid, Instruction.isAllocation]

theorem checkOperand_eq_ok {function : FunctionId} {operand : Operand} :
    m.checkOperand function operand = .ok () ↔
      (m.operandType? operand).isSome ∧ operand.isLocalTo function = true := by
  simp [checkOperand, bind_eq_ok, typeOf_eq_ok, ite_eq_ok, Option.isSome_iff_exists]

theorem checkTarget_eq_ok {function : FunctionId} {target : BlockId} :
    m.checkTarget function target = .ok () ↔
      target.function = function ∧ (m.block? target).isSome := by
  simp [checkTarget, bind_eq_ok, map_eq_ok, getBlock_eq_ok, ite_eq_ok, Option.isSome_iff_exists]

theorem checkPlace_eq_ok {point : InsertionPoint} {operation : Operation} :
    m.checkPlace point operation = .ok () ↔
      ∃ b, m.block? point.block = some b ∧
        match point with
        | .atEnd _ => b.isTerminated = false
        | .before anchor => operation.isTerminator = false ∧ anchor.address ∈ b.order := by
  cases point <;> simp [checkPlace, bind_eq_ok, getBlock_eq_ok, ite_eq_ok]

theorem checkInsertion_eq_ok {point : InsertionPoint} {operation : Operation} :
    m.checkInsertion point operation = .ok () ↔
      m.checkPlace point operation = .ok () ∧
      (∀ operand ∈ operation.operands,
        (m.operandType? operand).isSome ∧ operand.isLocalTo point.block.function = true) ∧
      ∀ target ∈ operation.successors,
        target.function = point.block.function ∧ (m.block? target).isSome := by
  simp [checkInsertion, seq_eq_ok, forM_eq_ok, checkOperand_eq_ok, checkTarget_eq_ok]

theorem prepare_eq_ok {point : InsertionPoint} {draft : Draft} {operation : Operation} :
    m.prepare point draft = .ok operation ↔
      m.complete point.block.function draft = .ok operation ∧
        m.checkInsertion point operation = .ok () := by
  simp only [prepare, bind_eq_ok, pure_eq_ok]
  constructor
  · rintro ⟨_, hcomplete, _, hcheck, rfl⟩
    exact ⟨hcomplete, hcheck⟩
  · rintro ⟨hcomplete, hcheck⟩
    exact ⟨operation, hcomplete, (), hcheck, rfl⟩

/-- What completes a draft answers it, since every branch ends with the operation that was asked
for. -/
theorem draft_of_complete {function : FunctionId} {draft : Draft} {operation : Operation}
    (h : m.complete function draft = .ok operation) : operation.draft = draft := by
  cases draft <;>
    simp only [complete, Checks.bind_eq_ok, Checks.ite_eq_ok, Checks.pure_eq_ok,
      Checks.throw_eq_ok, and_false, or_false, false_or] at h <;>
    grind [Operation.draft]

theorem draft_of_prepare {point : InsertionPoint} {draft : Draft} {operation : Operation}
    (hprepare : m.prepare point draft = .ok operation) : operation.draft = draft :=
  draft_of_complete (prepare_eq_ok.1 hprepare).1

theorem withOperand_eq_ok {id : InstructionId} {index : Nat} {new : Operand} {after : Instruction} :
    m.withOperand id index new = .ok after ↔
      ∃ i, m.instruction? id = some i ∧ index < i.operands.length ∧
        { i with operation := i.operation.setOperand index new } = after := by
  simp only [withOperand, bind_eq_ok, locateInstruction_eq_ok, Instruction.replaceOperand]
  constructor
  · rintro ⟨i, hi, hreplace⟩
    split at hreplace
    · simp at hreplace
    · split at hreplace
      · rename_i hindex
        exact ⟨i, hi, hindex, Except.ok.inj hreplace⟩
      · simp at hreplace
  · rintro ⟨i, hi, hindex, rfl⟩
    have hsome : i.operands.isEmpty = false := by
      cases hoperands : i.operands with
      | nil => simp [hoperands] at hindex
      | cons _ _ => rfl
    exact ⟨i, hi, by simp [hsome, hindex]⟩

theorem withSuccessor_eq_ok {id : InstructionId} {old new : BlockId} {replaced : Bool}
    {after : Instruction} :
    m.withSuccessor id old new = .ok (replaced, after) ↔
      (new.function = id.function ∧ (m.block? new).isSome) ∧
        ∃ i, m.instruction? id = some i ∧ i.isTerminator = true ∧
          decide (old ∈ i.successors) = replaced ∧
          { i with operation :=
              i.operation.mapSuccessors (fun b => if b = old then new else b) } = after := by
  rw [withSuccessor, seq_eq_ok, checkTarget_eq_ok, bind_eq_ok]
  simp [locateInstruction_eq_ok, Instruction.replaceSuccessor, ite_eq_ok]

theorem checkRemoval_eq_ok {id : InstructionId} {i : Instruction} :
    m.checkRemoval id = .ok i ↔ m.uses id = [] ∧ m.instruction? id = some i := by
  simp [checkRemoval, ite_eq_ok, locateInstruction_eq_ok]

end Module

end BlockIR
