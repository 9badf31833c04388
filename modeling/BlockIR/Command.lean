import BlockIR.Emitter
/-!
Commands: the edits of a module and the calls of an emitter as data, so that a whole history can be
spoken of.  A failed command is part of a history too, with what it left behind.
-/

namespace BlockIR

/-- What a command answers. -/
inductive Reply where
  | done
  | function (id : FunctionId)
  | block (id : BlockId)
  | instruction (id : InstructionId)
  | operand (operand : Operand)
  | flag (value : Bool)
  | removed (instruction : Instruction)
deriving DecidableEq

/-- An edit of a module. -/
inductive Command where
  | rename (name : String)
  | declareFunction (name : String) (inputs : List ValueType) (output : ObjectType)
  | appendBlock (function : FunctionId) (params : List ValueType)
  | appendEntryBlock (function : FunctionId)
  | make (point : InsertionPoint) (draft : Draft) (site : Span)
  | replaceOperand (instruction : InstructionId) (index : Nat) (new : Operand)
  | replaceSuccessor (instruction : InstructionId) (old new : BlockId)
  | removeInstruction (instruction : InstructionId)
deriving DecidableEq

def Command.perform : Command → Action Module Reply
  | .rename name => (fun _ => .done) <$> Module.rename name
  | .declareFunction name inputs output =>
      Reply.function <$> Module.declareFunction name inputs output
  | .appendBlock function params => Reply.block <$> Module.appendBlock function params
  | .appendEntryBlock function => Reply.block <$> Module.appendEntryBlock function
  | .make point draft site => Reply.instruction <$> Module.make point draft site
  | .replaceOperand instruction index new =>
      (fun _ => .done) <$> Module.replaceOperand instruction index new
  | .replaceSuccessor instruction old new =>
      Reply.flag <$> Module.replaceSuccessor instruction old new
  | .removeInstruction instruction => Reply.removed <$> Module.removeInstruction instruction

namespace Emitter

/-- A call of an emitter. -/
inductive Command where
  | beginFunction (name : String) (inputs : List ValueType) (output : ObjectType)
  | appendBlock (params : List ValueType)
  | setInsertionBlock (block : BlockId)
  | pushFrame
  | popFrame (site : Span)
  | allocateLocal (type : ObjectType) (site : Span)
  | store (object target : Operand) (site : Span)
  | load (source : Operand) (site : Span)
  | binary (operator : BinaryOperator) (lhs rhs : Operand) (site : Span)
  | compare (operator : CompareOperator) (lhs rhs : Operand) (site : Span)
  | call (callee : FunctionId) (arguments : List Operand) (site : Span)
  | branch (target : BlockId) (site : Span)
  | condBranch (condition : Operand) (ifTrue ifFalse : BlockId) (site : Span)
  | ret (site : Span)
deriving DecidableEq

def Command.perform : Command → Action Emitter Reply
  | .beginFunction name inputs output => Reply.function <$> Emitter.beginFunction name inputs output
  | .appendBlock params => Reply.block <$> Emitter.appendBlock params
  | .setInsertionBlock block => (fun _ => .done) <$> Emitter.setInsertionBlock block
  | .pushFrame => (fun _ => .done) <$> Emitter.pushFrame
  | .popFrame site => (fun _ => .done) <$> Emitter.popFrame site
  | .allocateLocal type site => Reply.operand <$> Emitter.allocateLocal type site
  | .store object target site => Reply.instruction <$> emitStore object target site
  | .load source site => Reply.operand <$> emitLoad source site
  | .binary operator lhs rhs site => Reply.operand <$> emitBinary operator lhs rhs site
  | .compare operator lhs rhs site => Reply.operand <$> emitCompare operator lhs rhs site
  | .call callee arguments site => Reply.instruction <$> emitCall callee arguments site
  | .branch target site => Reply.instruction <$> emitBranch target site
  | .condBranch condition ifTrue ifFalse site =>
      Reply.instruction <$> emitCondBranch condition ifTrue ifFalse site
  | .ret site => Reply.instruction <$> emitReturn site

/-- The emitter after one call more, whether it succeeds or fails. -/
def after (e : Emitter) (command : Command) : Emitter :=
  (command.perform.run e).state

end Emitter

/-- The module after one edit more, whether it succeeds or fails. -/
def Module.after (m : Module) (command : Command) : Module :=
  (command.perform.run m).state

/-- The modules that a history of edits and emitter calls leads to from an empty module. -/
inductive Module.Reachable : Module → Prop where
  | empty (name : String) : Reachable (.empty name)
  | edit {m : Module} (h : Reachable m) (command : Command) : Reachable (m.after command)
  | emit {m : Module} (h : Reachable m) (calls : List Emitter.Command) :
      Reachable (calls.foldl Emitter.after (.ofModule m)).module

end BlockIR
