import BlockIR.Decimal
import BlockIR.Identity
import BlockIR.Type
/-!
Operands: references to the values that an instruction consumes.
-/

namespace BlockIR

/-- Values known when the program is built. -/
inductive Constant where
  | integer (value : Int64) (type : Builtin)
  | float (value : Binary64)
  | bool (value : Bool)
  | void
deriving DecidableEq

namespace Constant

def type : Constant → ValueType
  | .integer _ type => .ofBuiltin type
  | .float _ => .ofBuiltin .f64
  | .bool _ => .ofBuiltin .i1
  | .void => .object .void

def text : Constant → String
  | .integer value type => s!"{type.text} {value.toInt}"
  | .float value => s!"f64 {value.text}"
  | .bool true => "true"
  | .bool false => "false"
  | .void => "void"

end Constant

/-- A value consumed by an instruction: a result, a block parameter or a constant. -/
inductive Operand where
  | result (instruction : InstructionId) (index : Nat)
  | parameter (block : BlockId) (index : Nat)
  | constant (value : Constant)
deriving DecidableEq

namespace Operand

/-- The instruction that produces the operand. -/
def instruction? : Operand → Option InstructionId
  | .result instruction _ => some instruction
  | _ => none

/-- The function that the value belongs to; a constant belongs to none. -/
def function? : Operand → Option FunctionId
  | .result instruction _ => some instruction.function
  | .parameter block _ => some block.function
  | .constant _ => none

/-- Whether instructions of a function may name the operand. -/
def isLocalTo (operand : Operand) (function : FunctionId) : Bool :=
  operand.function?.all (· == function)

def isConstant : Operand → Bool
  | .constant _ => true
  | _ => false

/-- The first result of an instruction is written like the instruction itself. -/
def text : Operand → String
  | .result instruction 0 => instruction.text
  | .result instruction index => s!"{instruction.text}#{index}"
  | .parameter block index => s!"%{block.text}.arg{index}"
  | .constant value => value.text

end Operand

end BlockIR
