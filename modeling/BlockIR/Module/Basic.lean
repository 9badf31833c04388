import BlockIR.Function
/-!
Modules: the functions of a program, and what can be asked about them.
-/

namespace BlockIR

/-- A named list of functions.  A function's identity is its place in the list. -/
structure Module where
  name : String
  functions : List Function
deriving DecidableEq

namespace Module

/-- A module without functions. -/
def empty (name : String) : Module := ⟨name, []⟩

def function? (m : Module) (id : FunctionId) : Option Function :=
  m.functions[id.index]?

def block? (m : Module) (id : BlockId) : Option Block :=
  (m.function? id.function).bind (fun f => f.block? id)

/-- The instruction with an identity, unless it was removed. -/
def instruction? (m : Module) (id : InstructionId) : Option Instruction :=
  (m.block? id.block).bind (fun b => b.get? id.address)

/-- The first function of a name. -/
def functionNamed? (m : Module) (name : String) : Option FunctionId :=
  (m.functions.find? (fun f => f.name == name)).map Function.id

/-- A function that has to exist. -/
def getFunction (m : Module) (id : FunctionId) : Except Violation Function :=
  match m.function? id with
  | some f => .ok f
  | none => .error (.unknownEntity "function" id.text)

/-- A block that has to exist. -/
def getBlock (m : Module) (id : BlockId) : Except Violation Block :=
  match m.block? id with
  | some b => .ok b
  | none => .error (.unknownEntity "block" id.text)

/-- An instruction that has to be live. -/
def getInstruction (m : Module) (id : InstructionId) : Except Violation Instruction :=
  match m.instruction? id with
  | some i => .ok i
  | none => .error (.unknownEntity "instruction" id.text)

/-- The block to change, found through its function; the outermost coordinate that names nothing
is reported. -/
def locateBlock (m : Module) (id : BlockId) : Except Violation Block := do
  let _ ← m.getFunction id.function
  m.getBlock id

/-- The instruction to change, found through its function and block; the outermost coordinate that
names nothing is reported. -/
def locateInstruction (m : Module) (id : InstructionId) : Except Violation Instruction := do
  let _ ← m.locateBlock id.block
  m.getInstruction id

/-- The type of an operand, if it names a live value. -/
def operandType? (m : Module) : Operand → Option ValueType
  | .result instruction index => (m.instruction? instruction).bind (fun i => i.resultTypes[index]?)
  | .parameter block index => (m.block? block).bind (fun b => b.params[index]?)
  | .constant value => some value.type

/-- The type of an operand that has to name a live value. -/
def typeOf (m : Module) (operand : Operand) : Except Violation ValueType :=
  match m.operandType? operand with
  | some type => .ok type
  | none => .error (.danglingOperand operand.text)

/-- The operand that names a result of an instruction. -/
def result (m : Module) (instruction : InstructionId) (index : Nat) : Except Violation Operand := do
  let _ ← m.typeOf (.result instruction index)
  return .result instruction index

/-- Whether an operand is the slot of a live stack allocation. -/
def isStackAllocation (m : Module) : Operand → Bool
  | .result instruction 0 => (m.instruction? instruction).any Instruction.isAllocation
  | _ => false

/-- Where the results of an instruction are used: users in program order, with the index of the
operand. -/
def uses (m : Module) (id : InstructionId) : List (InstructionId × Nat) :=
  match m.function? id.function with
  | none => []
  | some f =>
      f.instructions.flatMap (fun (user, i) =>
        (i.operands.zipIdx.filter (fun (operand, _) => operand.instruction? == some id)).map
          (fun (_, index) => (user, index)))

/-- Whether every block ends with its only terminator. -/
def isComplete (m : Module) : Bool :=
  m.functions.all (fun f => f.blocks.all Block.isComplete)

def text (m : Module) : String :=
  s!"; Module: {m.name}\n" ++ String.join (m.functions.map (fun f => "\n" ++ f.text))

end Module

end BlockIR
