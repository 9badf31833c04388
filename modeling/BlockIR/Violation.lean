/-!
Violations: the rules that a call can break, with what its message names.
-/

namespace BlockIR

/-- A broken rule of the interface.  Names and types stand as they are shown. -/
inductive Violation where
  | operandIndexOutOfRange (instruction : String) (index arity : Nat)
  | noOperands (instruction : String)
  | notATerminator (instruction : String)
  | deallocOfNonAllocation (operand : String)
  | invalidAccessCapability (access : String)
  | accessDenied (instruction action access : String)
  | operandTypeMismatch (instruction : String) (index : Nat) (expected found : String)
  | argumentCountMismatch (callee : String) (expected found : Nat)
  | insertAfterTerminator (block : String)
  | terminatorNotLast (instruction : String)
  | danglingOperand (operand : String)
  | unknownEntity (entity id : String)
  | foreignBlock (block function : String)
  | instructionInUse (instruction : String) (users : Nat)
  | entryParameterMismatch (function : String)
  | noInsertionBlock
  | noOpenFrame
  | frameClosedAfterBranch (slots : Nat)
deriving DecidableEq

namespace Violation

def text : Violation → String
  | .operandIndexOutOfRange instruction index arity =>
      s!"operand index {index} is out of range for `{instruction}` (arity {arity})"
  | .noOperands instruction => s!"`{instruction}` has no operands to replace"
  | .notATerminator instruction => s!"`{instruction}` is not a terminator"
  | .deallocOfNonAllocation operand =>
      s!"`dealloc_stack` operand {operand} is not the result of an `alloc_stack`"
  | .invalidAccessCapability access =>
      s!"access capability `{access}` is not one of `let`, `inout` or `set`"
  | .accessDenied instruction action access =>
      s!"`{instruction}` cannot {action} through an address with `{access}` capability"
  | .operandTypeMismatch instruction index expected found =>
      s!"operand {index} of `{instruction}` must be {expected}, found {found}"
  | .argumentCountMismatch callee expected found =>
      s!"call to `{callee}` expects {expected} argument(s), found {found}"
  | .insertAfterTerminator block => s!"cannot insert into block {block} after its terminator"
  | .terminatorNotLast instruction =>
      s!"cannot insert terminator `{instruction}` in the middle of a block"
  | .danglingOperand operand => s!"operand {operand} does not name a live value"
  | .unknownEntity entity id => s!"unknown {entity} {id}"
  | .foreignBlock block function => s!"block {block} does not belong to function {function}"
  | .instructionInUse instruction users => s!"instruction {instruction} still has {users} use(s)"
  | .entryParameterMismatch function =>
      s!"entry block of `{function}` must take the function inputs as parameters"
  | .noInsertionBlock =>
      "no insertion block: the current block is terminated or no function was begun"
  | .noOpenFrame => "no lexical frame is open"
  | .frameClosedAfterBranch slots =>
      s!"cannot close a frame owning {slots} stack slot(s) after a branch ended its block"

/-- The message that a violation is reported with. -/
def message (violation : Violation) : String :=
  "IR contract violation: " ++ violation.text

end Violation

end BlockIR
