import BlockIR.Expectation
import BlockIR.Module.Basic
import BlockIR.Verifier.Finding
/-!
Operands of a verified instruction: each has to name a live value of the function, and their types
have to be what the rules of the instruction's kind ask for.
-/

namespace BlockIR

namespace Module

/-- The types of operands that all name live values of a function, or the index, counted from
`index`, of the first that does not. -/
def operandTypes (m : Module) (function : FunctionId) (index : Nat) :
    List Operand → Except Nat (List ValueType)
  | [] => .ok []
  | operand :: rest =>
      match (m.operandType? operand).filter (fun _ => operand.isLocalTo function) with
      | none => .error index
      | some type => (m.operandTypes function (index + 1) rest).map (type :: ·)

/-- The first operand of an instruction, with what it has to be, whose type in `types` is against
the rules of the instruction's kind. -/
def unmetExpectation? (m : Module) (i : Instruction) (types : List ValueType) :
    Option (Nat × Expectation) :=
  match i.operation with
  | .allocStack _ | .branch _ | .ret => none
  | .deallocStack location =>
      if m.isStackAllocation location then none else some (0, .stackAllocation)
  | .pointerToAddress _ _ =>
      types[0]?.bind (fun source =>
        if source = .ofBuiltin .ptr then none else some (0, .exactly (.ofBuiltin .ptr)))
  | .load _ _ =>
      types[0]?.bind (fun source =>
        if source.admits .read then none else some (0, .readableAddress))
  | .store _ _ => do
      let object ← types[0]?
      let target ← types[1]?
      match target.pointee?.filter (fun _ => target.admits .write) with
      | none => some (1, .writableAddress)
      | some pointee =>
          if object = .object pointee then none else some (0, .exactly (.object pointee))
  | .binary operator _ _ _ => do
      let left ← types[0]?
      let right ← types[1]?
      match left.builtin? with
      | none => some (0, .builtinValue)
      | some type =>
          if operator.isBitwise && !type.isInteger then some (0, .integerValue)
          else if right = left then none
          else some (1, .exactly left)
  | .compare _ _ _ => do
      let left ← types[0]?
      let right ← types[1]?
      match left.builtin? with
      | none => some (0, .builtinValue)
      | some _ => if right = left then none else some (1, .exactly left)
  | .call callee _ _ => do
      let f ← m.function? callee
      let index ← (f.inputs.zip types).findIdx? (fun (expected, found) => expected != found)
      let expected ← f.inputs[index]?
      some (index, .exactly expected)
  | .condBranch _ _ _ =>
      types[0]?.bind (fun condition =>
        if condition = .ofBuiltin .i1 then none else some (0, .exactly (.ofBuiltin .i1)))

/-- The fault of the operands of an instruction, if there is one. -/
def operandFaults (m : Module) (checkTypes : Bool) (id : InstructionId) (i : Instruction) :
    List Fault :=
  match m.operandTypes id.function 0 i.operands with
  | .error index => [.danglingOperand id index]
  | .ok types =>
      if checkTypes then
        match m.unmetExpectation? i types with
        | none => []
        | some (index, expected) =>
            types[index]?.toList.map (fun found =>
              .operandTypeMismatch id index expected.text found.text)
      else []

end Module

end BlockIR
