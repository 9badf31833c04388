import BlockIR.Instruction
/-!
Events: what is logged about a module while it is built, edited and verified.
-/

namespace BlockIR

/-- How fine a logged step is. -/
inductive Level where
  | trace
  | debug
deriving DecidableEq

def Level.text : Level → String
  | .trace => "TRACE"
  | .debug => "DEBUG"

/-- One logged step. -/
inductive Event where
  | declaredFunction (name : String) (id : FunctionId)
  | appendedBlock (function : String) (block : BlockId)
  | insertedInstruction (block : BlockId) (instruction : Instruction)
  | replacingOperand (instruction : InstructionId) (index : Nat) (operand : Operand)
  | replacingSuccessor (instruction : InstructionId) (old new : BlockId) (replaced : Bool)
  | removedInstruction (instruction : InstructionId)
  | verifiedFunction (function : String) (findings : Nat)
  | pushedFrame (depth : Nat)
  | poppedFrame (depth : Nat)
deriving DecidableEq

namespace Event

/-- The value of a field of a logged event. -/
inductive Field where
  | text (value : String)
  | number (value : Nat)
  | flag (value : Bool)
deriving DecidableEq

/-- Steps on single instructions are finer than those on blocks, functions and frames. -/
def level : Event → Level
  | .insertedInstruction _ _ | .replacingOperand _ _ _ | .replacingSuccessor _ _ _ _
  | .removedInstruction _ => .trace
  | .declaredFunction _ _ | .appendedBlock _ _ | .verifiedFunction _ _ | .pushedFrame _
  | .poppedFrame _ => .debug

def message : Event → String
  | .declaredFunction _ _ => "declared function"
  | .appendedBlock _ _ => "appended block"
  | .insertedInstruction _ _ => "inserted instruction"
  | .replacingOperand _ _ _ => "replacing operand"
  | .replacingSuccessor _ _ _ _ => "replacing successor"
  | .removedInstruction _ => "removed instruction"
  | .verifiedFunction _ _ => "verified function"
  | .pushedFrame _ => "pushed frame"
  | .poppedFrame _ => "popped frame"

def fields : Event → List (String × Field)
  | .declaredFunction name id => [("function", .text name), ("id", .text id.text)]
  | .appendedBlock function block =>
      [("function", .text function), ("block", .text block.text)]
  | .insertedInstruction block instruction =>
      [("block", .text block.text), ("instruction", .text instruction.text),
        ("site", .text instruction.site.text)]
  | .replacingOperand instruction index operand =>
      [("instruction", .text instruction.text), ("index", .number index),
        ("operand", .text operand.text)]
  | .replacingSuccessor instruction old new replaced =>
      [("instruction", .text instruction.text), ("old", .text old.text),
        ("new", .text new.text), ("replaced", .flag replaced)]
  | .removedInstruction instruction => [("instruction", .text instruction.text)]
  | .verifiedFunction function findings =>
      [("function", .text function), ("errors", .number findings)]
  | .pushedFrame depth => [("depth", .number depth)]
  | .poppedFrame depth => [("depth", .number depth)]

end Event

end BlockIR
