import BlockIR.Action
import BlockIR.Module.Draft
/-!
Edits of a module.  Every edit checks first and changes the module only if no rule is broken.
-/

namespace BlockIR

namespace Module

/-- The module with one of its functions changed. -/
def modifyFunction (m : Module) (id : FunctionId) (change : Function → Function) : Module :=
  { m with functions := m.functions.modify id.index change }

/-- The module with one of its blocks changed. -/
def modifyBlock (m : Module) (id : BlockId) (change : Block → Block) : Module :=
  m.modifyFunction id.function (fun f => f.modifyBlock id.address change)

/-- The identity that the next instruction of a block gets. -/
def nextInstruction (m : Module) (block : BlockId) : InstructionId :=
  ⟨block, ((m.block? block).map Block.nextAddress).getD 0⟩

/-- The module with an instruction more, at a place. -/
def place (m : Module) (point : InsertionPoint) (i : Instruction) : Module :=
  match point with
  | .atEnd block => m.modifyBlock block (fun b => b.push i)
  | .before anchor => m.modifyBlock anchor.block (fun b => b.insertBefore anchor.address i)

/-- Give the module another name. -/
def rename (name : String) : Action Module Unit := fun m =>
  ⟨.ok (), { m with name := name }, []⟩

/-- Declare a function without a body. -/
def declareFunction (name : String) (inputs : List ValueType) (output : ObjectType) :
    Action Module FunctionId := fun m =>
  let id : FunctionId := ⟨m.functions.length⟩
  ⟨.ok id, { m with functions := m.functions ++ [⟨id, name, inputs, output, []⟩] },
    [.declaredFunction name id]⟩

/-- Append a block to a function.  The first one is its entry and takes its inputs. -/
def appendBlock (function : FunctionId) (params : List ValueType) :
    Action Module BlockId := fun m =>
  match m.getFunction function with
  | .error violation => ⟨.error violation, m, []⟩
  | .ok f =>
      if f.blocks.isEmpty && f.inputs != params then
        ⟨.error (.entryParameterMismatch f.name), m, []⟩
      else
        let id : BlockId := ⟨f.id, f.blocks.length⟩
        ⟨.ok id,
          m.modifyFunction function (fun f => { f with blocks := f.blocks ++ [.empty params] }),
          [.appendedBlock f.name id]⟩

/-- Append a block that takes the inputs of its function. -/
def appendEntryBlock (function : FunctionId) : Action Module BlockId := fun m =>
  match m.getFunction function with
  | .error violation => ⟨.error violation, m, []⟩
  | .ok f => appendBlock function f.inputs m

/-- Make the instruction of a draft at a place. -/
def make (point : InsertionPoint) (draft : Draft) (site : Span) :
    Action Module InstructionId := fun m =>
  match m.prepare point draft with
  | .error violation => ⟨.error violation, m, []⟩
  | .ok operation =>
      ⟨.ok (m.nextInstruction point.block), m.place point ⟨operation, site⟩,
        [.insertedInstruction point.block ⟨operation, site⟩]⟩

/-- An instruction with another operand in one place.  The new operand is not checked. -/
def withOperand (m : Module) (id : InstructionId) (index : Nat) (new : Operand) :
    Except Violation Instruction := do
  let i ← m.locateInstruction id
  i.replaceOperand index new

/-- Replace an operand of an instruction.  The request is logged before it is checked. -/
def replaceOperand (id : InstructionId) (index : Nat) (new : Operand) :
    Action Module Unit := fun m =>
  match m.withOperand id index new with
  | .error violation => ⟨.error violation, m, [.replacingOperand id index new]⟩
  | .ok i =>
      ⟨.ok (), m.modifyBlock id.block (fun b => b.set id.address i),
        [.replacingOperand id index new]⟩

/-- A terminator with its edges to one block led to another, which has to be a block of the same
function, and whether there was such an edge. -/
def withSuccessor (m : Module) (id : InstructionId) (old new : BlockId) :
    Except Violation (Bool × Instruction) := do
  m.checkTarget id.function new
  let i ← m.locateInstruction id
  i.replaceSuccessor old new

/-- Lead the edges of a terminator from one block to another.  The result says whether there was
such an edge. -/
def replaceSuccessor (id : InstructionId) (old new : BlockId) : Action Module Bool := fun m =>
  match m.withSuccessor id old new with
  | .error violation => ⟨.error violation, m, []⟩
  | .ok (replaced, i) =>
      ⟨.ok replaced, m.modifyBlock id.block (fun b => b.set id.address i),
        [.replacingSuccessor id old new replaced]⟩

/-- The instruction to remove, whose results have to be unused. -/
def checkRemoval (m : Module) (id : InstructionId) : Except Violation Instruction :=
  if (m.uses id).isEmpty then m.locateInstruction id
  else throw (.instructionInUse id.text (m.uses id).length)

/-- Remove an instruction, whose results have to be unused. -/
def removeInstruction (id : InstructionId) : Action Module Instruction := fun m =>
  match m.checkRemoval id with
  | .error violation => ⟨.error violation, m, []⟩
  | .ok i =>
      ⟨.ok i, m.modifyBlock id.block (fun b => b.erase id.address), [.removedInstruction id]⟩

end Module

end BlockIR
