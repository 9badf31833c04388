import BlockIR.Module.Edit
/-!
The emitter builds functions block by block.  It remembers the block that new instructions go to and
the lexical frames that are open, and frees the stack slots of a frame, the last one first, when the
frame is closed or the function returns.
-/

namespace BlockIR

/-- A module under construction. -/
structure Emitter where
  module : Module
  /-- The function begun last. -/
  function : Option FunctionId
  /-- The block that new instructions go to, until a terminator ends it. -/
  insertionBlock : Option BlockId
  /-- Whether the block ended last was ended by a return. -/
  returned : Bool
  /-- The slots of each open frame, the innermost frame and the newest slot first. -/
  frames : List (List Operand)
deriving DecidableEq

namespace Emitter

/-- An emitter that has begun no function. -/
def ofModule (m : Module) : Emitter := ⟨m, none, none, false, []⟩

/-- The slots of all open frames, the newest first. -/
def slots (e : Emitter) : List Operand := e.frames.flatten

/-- Edit the module. -/
def edit {α : Type} (action : Action Module α) : Action Emitter α :=
  action.onPart Emitter.module (fun e m => { e with module := m })

/-- The block that new instructions go to, which there has to be. -/
def currentBlock : Action Emitter BlockId := fun e =>
  match e.insertionBlock with
  | some block => ⟨.ok block, e, []⟩
  | none => ⟨.error .noInsertionBlock, e, []⟩

/-- The function begun last, which there has to be. -/
def currentFunction : Action Emitter FunctionId := fun e =>
  match e.function with
  | some function => ⟨.ok function, e, []⟩
  | none => ⟨.error .noInsertionBlock, e, []⟩

/-- Declare a function, append its entry block and open the frame of its body. -/
def beginFunction (name : String) (inputs : List ValueType) (output : ObjectType) :
    Action Emitter FunctionId := do
  let function ← edit (Module.declareFunction name inputs output)
  let entry ← edit (Module.appendEntryBlock function)
  Action.modify (fun e =>
    { e with function := some function, insertionBlock := some entry, returned := false,
             frames := [[]] })
  return function

/-- Append a block to the current function; new instructions go where they went before. -/
def appendBlock (params : List ValueType) : Action Emitter BlockId := do
  let function ← currentFunction
  edit (Module.appendBlock function params)

/-- Let new instructions go to a block. -/
def setInsertionBlock (block : BlockId) : Action Emitter Unit :=
  Action.modify (fun e => { e with insertionBlock := some block, returned := false })

/-- Append an instruction to the current block. -/
def append (draft : Draft) (site : Span) : Action Emitter InstructionId := do
  let block ← currentBlock
  edit (Module.make (.atEnd block) draft site)

/-- Append an instruction and name its result. -/
def appendValue (draft : Draft) (site : Span) : Action Emitter Operand := do
  let id ← append draft site
  let e ← Action.get
  Action.require (e.module.result id 0)

/-- Append a terminator, after which there is no current block. -/
def appendTerminator (draft : Draft) (returned : Bool) (site : Span) :
    Action Emitter InstructionId := do
  let id ← append draft site
  Action.modify (fun e => { e with insertionBlock := none, returned := returned })
  return id

/-- Free slots one after the other. -/
def free (block : BlockId) (site : Span) : List Operand → Action Emitter Unit
  | [] => return ()
  | slot :: rest => do
      let _ ← edit (Module.make (.atEnd block) (.deallocStack slot) site)
      free block site rest

/-- Free slots in a block, if there is one. -/
def release (block : Option BlockId) (site : Span) (slots : List Operand) : Action Emitter Unit :=
  match block with
  | none => return ()
  | some block => free block site slots

/-- Open a frame. -/
def pushFrame : Action Emitter Unit := do
  Action.modify (fun e => { e with frames := [] :: e.frames })
  let e ← Action.get
  Action.note (.pushedFrame e.frames.length)

/-- The slots of the innermost frame, if it may be closed now: once a branch has ended the block
there is nowhere left to free them. -/
def closable (e : Emitter) : Except Violation (List Operand) :=
  match e.frames with
  | [] => .error .noOpenFrame
  | frame :: _ =>
      if e.insertionBlock.isNone && !e.returned && !frame.isEmpty then
        .error (.frameClosedAfterBranch frame.length)
      else .ok frame

/-- Close the innermost frame and free its slots in the current block.  A return has freed them
already. -/
def popFrame (site : Span) : Action Emitter Unit := do
  let e ← Action.get
  let frame ← Action.require e.closable
  Action.modify (fun e => { e with frames := e.frames.tail })
  release e.insertionBlock site frame
  Action.note (.poppedFrame e.frames.tail.length)

/-- Give a slot to the innermost frame. -/
def own (slot : Operand) : Action Emitter Unit := fun e =>
  match e.frames with
  | [] => ⟨.error .noOpenFrame, e, []⟩
  | frame :: frames => ⟨.ok (), { e with frames := (slot :: frame) :: frames }, []⟩

/-- Allocate a stack slot that the innermost frame owns. -/
def allocateLocal (type : ObjectType) (site : Span) : Action Emitter Operand := do
  let slot ← appendValue (.allocStack type) site
  own slot
  return slot

def emitStore (object target : Operand) (site : Span) : Action Emitter InstructionId :=
  append (.store object target) site

def emitLoad (source : Operand) (site : Span) : Action Emitter Operand :=
  appendValue (.load source) site

def emitBinary (operator : BinaryOperator) (lhs rhs : Operand) (site : Span) :
    Action Emitter Operand :=
  appendValue (.binary operator lhs rhs) site

def emitCompare (operator : CompareOperator) (lhs rhs : Operand) (site : Span) :
    Action Emitter Operand :=
  appendValue (.compare operator lhs rhs) site

def emitCall (callee : FunctionId) (arguments : List Operand) (site : Span) :
    Action Emitter InstructionId :=
  append (.call callee arguments) site

def emitBranch (target : BlockId) (site : Span) : Action Emitter InstructionId :=
  appendTerminator (.branch target) false site

def emitCondBranch (condition : Operand) (ifTrue ifFalse : BlockId) (site : Span) :
    Action Emitter InstructionId :=
  appendTerminator (.condBranch condition ifTrue ifFalse) false site

/-- Free the slots of all open frames and return.  The frames stay open for what is emitted on
other paths. -/
def emitReturn (site : Span) : Action Emitter InstructionId := do
  let block ← currentBlock
  let e ← Action.get
  free block site e.slots
  appendTerminator .ret true site

end Emitter

end BlockIR
