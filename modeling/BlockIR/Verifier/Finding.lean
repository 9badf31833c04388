import BlockIR.Identity
/-!
Findings: what is wrong with a function of a module, as the verifier reports it.
-/

namespace BlockIR

/-- Something wrong in the body of a function.  Types and slots stand as they are shown. -/
inductive Fault where
  | emptyBlock (block : BlockId)
  | missingTerminator (block : BlockId)
  | terminatorNotLast (instruction : InstructionId)
  | invalidSuccessor (instruction : InstructionId) (target : BlockId)
  | danglingOperand (instruction : InstructionId) (index : Nat)
  | operandTypeMismatch (instruction : InstructionId) (index : Nat) (expected found : String)
  | unreachableBlock (block : BlockId)
  | deallocationOutOfOrder (instruction : InstructionId) (freed expected : String)
  | leakedAllocation (instruction : InstructionId) (live : Nat)
  | inconsistentStackAtJoin (block : BlockId)
deriving DecidableEq

namespace Fault

/-- The block that a fault is found in. -/
def block : Fault → BlockId
  | .emptyBlock block | .missingTerminator block | .unreachableBlock block
  | .inconsistentStackAtJoin block => block
  | .terminatorNotLast instruction | .invalidSuccessor instruction _
  | .danglingOperand instruction _ | .operandTypeMismatch instruction _ _ _
  | .deallocationOutOfOrder instruction _ _ | .leakedAllocation instruction _ => instruction.block

def text : Fault → String
  | .emptyBlock block => s!"block {block.text} is empty"
  | .missingTerminator block => s!"block {block.text} does not end with a terminator"
  | .terminatorNotLast instruction =>
      s!"terminator {instruction.text} is not the last instruction of its block"
  | .invalidSuccessor instruction target =>
      s!"{instruction.text} branches to missing block {target.qualifiedText}"
  | .danglingOperand instruction index =>
      s!"operand {index} of {instruction.text} does not name a live value"
  | .operandTypeMismatch instruction index expected found =>
      s!"operand {index} of {instruction.text} must be {expected}, found {found}"
  | .unreachableBlock block => s!"block {block.text} is unreachable"
  | .deallocationOutOfOrder instruction freed expected =>
      s!"{instruction.text} frees {freed}, but the innermost live allocation is {expected}"
  | .leakedAllocation instruction live =>
      s!"{instruction.text} returns with {live} live stack allocation(s)"
  | .inconsistentStackAtJoin block =>
      s!"predecessors of block {block.text} disagree on live stack allocations"

end Fault

/-- A fault and the name of the function it is in. -/
structure Finding where
  function : String
  fault : Fault
deriving DecidableEq

def Finding.message (finding : Finding) : String :=
  s!"in `{finding.function}`: {finding.fault.text}"

end BlockIR
