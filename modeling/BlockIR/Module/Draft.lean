import BlockIR.Expectation
import BlockIR.Module.Basic
/-!
Drafts: instructions that a module is asked to take in.  A draft names operands and leaves out what
the module knows; the rules of its kind are checked when it is completed to an operation, and the
rules on places and references when the operation is inserted.
-/

namespace BlockIR

/-- An instruction to be made. -/
inductive Draft where
  | allocStack (type : ObjectType)
  | deallocStack (location : Operand)
  | pointerToAddress (source : Operand) (target : RemoteType)
  | load (source : Operand)
  | store (object target : Operand)
  | binary (operator : BinaryOperator) (lhs rhs : Operand)
  | compare (operator : CompareOperator) (lhs rhs : Operand)
  | call (callee : FunctionId) (arguments : List Operand)
  | branch (target : BlockId)
  | condBranch (condition : Operand) (ifTrue ifFalse : BlockId)
  | ret
deriving DecidableEq

namespace Module

/-- The report that an operand is not what the rules of an instruction ask for. -/
def mismatch (instruction : String) (index : Nat) (expected : Expectation) (found : ValueType) :
    Violation :=
  .operandTypeMismatch instruction index expected.text found.text

/-- Check that an operand has the expected type. -/
def checkType (m : Module) (instruction : String) (index : Nat) (operand : Operand)
    (expected : ValueType) : Except Violation Unit := do
  let found ← m.typeOf operand
  if found = expected then return ()
  else throw (mismatch instruction index (.exactly expected) found)

/-- The type of the object behind an address that is to be read or written. -/
def accessedType (m : Module) (instruction : String) (index : Nat) (address : Operand)
    (intent : Intent) : Except Violation ObjectType := do
  let type ← m.typeOf address
  match type.pointee?, type.access? with
  | none, _ => throw (mismatch instruction index .address type)
  | some pointee, none => return pointee
  | some pointee, some access =>
      if intent.isPermittedBy access then return pointee
      else throw (.accessDenied instruction intent.text access.text)

/-- The builtin type that two operands share. -/
def commonBuiltin (m : Module) (instruction : String) (lhs rhs : Operand) :
    Except Violation Builtin := do
  let left ← m.typeOf lhs
  match left.builtin? with
  | none => throw (mismatch instruction 0 .builtinValue left)
  | some type =>
      m.checkType instruction 1 rhs (.ofBuiltin type)
      return type

/-- Check the arguments of a call one by one, numbered from `index`. -/
def checkArguments (m : Module) (index : Nat) :
    List ValueType → List Operand → Except Violation Unit
  | expected :: inputs, argument :: arguments => do
      m.checkType "call" index argument expected
      m.checkArguments (index + 1) inputs arguments
  | _, _ => return ()

/-- The operation that a draft stands for in a function, if the rules of its kind hold. -/
def complete (m : Module) (function : FunctionId) : Draft → Except Violation Operation
  | .allocStack type => return .allocStack type
  | .deallocStack location =>
      if m.isStackAllocation location && location.isLocalTo function then
        return .deallocStack location
      else throw (.deallocOfNonAllocation location.text)
  | .pointerToAddress source target => do
      if AccessSet.addressCapabilities.contains target.access then
        m.checkType "pointer_to_address" 0 source (.ofBuiltin .ptr)
        return .pointerToAddress source target
      else throw (.invalidAccessCapability target.access.text)
  | .load source => do
      let type ← m.accessedType "load" 0 source .read
      return .load source type
  | .store object target => do
      let type ← m.accessedType "store" 1 target .write
      m.checkType "store" 0 object (.object type)
      return .store object target
  | .binary operator lhs rhs => do
      let type ← m.commonBuiltin "binary" lhs rhs
      if operator.isBitwise && !type.isInteger then
        throw (mismatch "binary" 0 .integerValue (.ofBuiltin type))
      else return .binary operator type lhs rhs
  | .compare operator lhs rhs => do
      let _ ← m.commonBuiltin "compare" lhs rhs
      return .compare operator lhs rhs
  | .call callee arguments => do
      let f ← m.getFunction callee
      if f.inputs.length = arguments.length then
        m.checkArguments 0 f.inputs arguments
        return .call callee arguments f.output
      else throw (.argumentCountMismatch f.name f.inputs.length arguments.length)
  | .branch target => return .branch target
  | .condBranch condition ifTrue ifFalse => do
      m.checkType "cond_branch" 0 condition (.ofBuiltin .i1)
      return .condBranch condition ifTrue ifFalse
  | .ret => return .ret

/-- Whether an operation may stand at a place: a block takes nothing behind its terminator, and a
terminator in no other place than the end. -/
def checkPlace (m : Module) (place : InsertionPoint) (operation : Operation) :
    Except Violation Unit := do
  let b ← m.getBlock place.block
  match place with
  | .atEnd block =>
      if b.isTerminated then throw (.insertAfterTerminator block.text) else return ()
  | .before anchor =>
      if operation.isTerminator then throw (.terminatorNotLast operation.text)
      else if anchor.address ∈ b.order then return ()
      else throw (.unknownEntity "instruction" anchor.text)

/-- Whether an operand names a live value of a function. -/
def checkOperand (m : Module) (function : FunctionId) (operand : Operand) :
    Except Violation Unit := do
  let _ ← m.typeOf operand
  if operand.isLocalTo function then return ()
  else throw (.danglingOperand operand.text)

/-- Whether a block exists in a function. -/
def checkTarget (m : Module) (function : FunctionId) (target : BlockId) :
    Except Violation Unit := do
  if target.function = function then
    let _ ← m.getBlock target
    return ()
  else
    let f ← m.getFunction function
    throw (.foreignBlock target.qualifiedText f.name)

/-- Whether an operation may be stored at a place: the place, each operand and each successor. -/
def checkInsertion (m : Module) (place : InsertionPoint) (operation : Operation) :
    Except Violation Unit := do
  m.checkPlace place operation
  operation.operands.forM (m.checkOperand place.block.function)
  operation.successors.forM (m.checkTarget place.block.function)

/-- The operation that is stored for a draft at a place, if every rule holds. -/
def prepare (m : Module) (place : InsertionPoint) (draft : Draft) :
    Except Violation Operation := do
  let operation ← m.complete place.block.function draft
  m.checkInsertion place operation
  return operation

end Module

end BlockIR
