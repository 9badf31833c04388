import BlockIR.Operand
import BlockIR.Operator
import BlockIR.Span
import BlockIR.Violation
/-!
Instructions: one closed family of operations, each with the values it consumes, the types of the
values it produces and, at the end of a block, the blocks that can follow.
-/

namespace BlockIR

/-- What an instruction does.  The types of results that depend on operands are fixed when the
instruction is made and stay when an operand is replaced. -/
inductive Operation where
  | allocStack (type : ObjectType)
  | deallocStack (location : Operand)
  | pointerToAddress (source : Operand) (target : RemoteType)
  | load (source : Operand) (type : ObjectType)
  | store (object target : Operand)
  | binary (operator : BinaryOperator) (type : Builtin) (lhs rhs : Operand)
  | compare (operator : CompareOperator) (lhs rhs : Operand)
  | call (callee : FunctionId) (arguments : List Operand) (output : ObjectType)
  | branch (target : BlockId)
  | condBranch (condition : Operand) (ifTrue ifFalse : BlockId)
  | ret
deriving DecidableEq

namespace Operation

def name : Operation → String
  | .allocStack _ => "alloc_stack"
  | .deallocStack _ => "dealloc_stack"
  | .pointerToAddress _ _ => "pointer_to_address"
  | .load _ _ => "load"
  | .store _ _ => "store"
  | .binary _ _ _ _ => "binary"
  | .compare _ _ _ => "compare"
  | .call _ _ _ => "call"
  | .branch _ => "branch"
  | .condBranch _ _ _ => "cond_branch"
  | .ret => "return"

/-- The values consumed, in order. -/
def operands : Operation → List Operand
  | .allocStack _ | .branch _ | .ret => []
  | .deallocStack location => [location]
  | .pointerToAddress source _ => [source]
  | .load source _ => [source]
  | .store object target => [object, target]
  | .binary _ _ lhs rhs => [lhs, rhs]
  | .compare _ lhs rhs => [lhs, rhs]
  | .call _ arguments _ => arguments
  | .condBranch condition _ _ => [condition]

/-- The operation with its `index`-th operand replaced; unchanged where there is none. -/
def setOperand (index : Nat) (new : Operand) : Operation → Operation
  | .allocStack type => .allocStack type
  | .deallocStack location => .deallocStack (if index = 0 then new else location)
  | .pointerToAddress source target =>
      .pointerToAddress (if index = 0 then new else source) target
  | .load source type => .load (if index = 0 then new else source) type
  | .store object target =>
      .store (if index = 0 then new else object) (if index = 1 then new else target)
  | .binary operator type lhs rhs =>
      .binary operator type (if index = 0 then new else lhs) (if index = 1 then new else rhs)
  | .compare operator lhs rhs =>
      .compare operator (if index = 0 then new else lhs) (if index = 1 then new else rhs)
  | .call callee arguments output => .call callee (arguments.set index new) output
  | .branch target => .branch target
  | .condBranch condition ifTrue ifFalse =>
      .condBranch (if index = 0 then new else condition) ifTrue ifFalse
  | .ret => .ret

/-- The types of the values produced, in order. -/
def resultTypes : Operation → List ValueType
  | .allocStack type => [.address type]
  | .pointerToAddress _ target => [.remote target]
  | .load _ type => [.object type]
  | .binary _ type _ _ => [.ofBuiltin type]
  | .compare _ _ _ => [.ofBuiltin .i1]
  | .call _ _ output => if output.isVoid then [] else [.object output]
  | .deallocStack _ | .store _ _ | .branch _ | .condBranch _ _ _ | .ret => []

/-- The blocks that can follow, in order. -/
def successors : Operation → List BlockId
  | .branch target => [target]
  | .condBranch _ ifTrue ifFalse => [ifTrue, ifFalse]
  | _ => []

/-- The operation with each of its successors changed by `f`. -/
def mapSuccessors (f : BlockId → BlockId) : Operation → Operation
  | .branch target => .branch (f target)
  | .condBranch condition ifTrue ifFalse => .condBranch condition (f ifTrue) (f ifFalse)
  | operation => operation

/-- Whether the operation ends a block. -/
def isTerminator : Operation → Bool
  | .branch _ | .condBranch _ _ _ | .ret => true
  | _ => false

/-- The texts of operands, with commas between them. -/
def operandsText (operands : List Operand) : String :=
  ", ".intercalate (operands.map Operand.text)

def text : Operation → String
  | .allocStack type => s!"alloc_stack {type.text}"
  | .deallocStack location => s!"dealloc_stack {location.text}"
  | .pointerToAddress source target => s!"pointer_to_address {source.text} as {target.text}"
  | .load source type => s!"load {type.text} {source.text}"
  | .store object target => s!"store {object.text}, {target.text}"
  | .binary operator type lhs rhs =>
      s!"{operator.text} {type.text} {operandsText [lhs, rhs]}"
  | .compare operator lhs rhs => s!"cmp {operator.text} {operandsText [lhs, rhs]}"
  | .call callee arguments output =>
      s!"call {output.text} {callee.text}({operandsText arguments})"
  | .branch target => s!"branch {target.text}"
  | .condBranch condition ifTrue ifFalse =>
      s!"cond_branch {condition.text}, {ifTrue.text}, {ifFalse.text}"
  | .ret => "return"

theorem operands_setOperand (operation : Operation) (index : Nat) (new : Operand) :
    (operation.setOperand index new).operands = operation.operands.set index new := by
  rcases index with _ | _ | index <;> cases operation <;> simp [setOperand, operands]

theorem successors_mapSuccessors (operation : Operation) (f : BlockId → BlockId) :
    (operation.mapSuccessors f).successors = operation.successors.map f := by
  cases operation <;> rfl

theorem successors_eq_nil_of_not_isTerminator {operation : Operation}
    (h : operation.isTerminator = false) : operation.successors = [] := by
  cases operation <;> simp_all [isTerminator, successors]

end Operation

/-- An operation and the source site it comes from. -/
structure Instruction where
  operation : Operation
  site : Span
deriving DecidableEq

namespace Instruction

def name (i : Instruction) : String := i.operation.name

def operands (i : Instruction) : List Operand := i.operation.operands

def resultTypes (i : Instruction) : List ValueType := i.operation.resultTypes

def successors (i : Instruction) : List BlockId := i.operation.successors

def isTerminator (i : Instruction) : Bool := i.operation.isTerminator

def text (i : Instruction) : String := i.operation.text

/-- Whether the instruction allocates a stack slot. -/
def isAllocation (i : Instruction) : Bool :=
  match i.operation with
  | .allocStack _ => true
  | _ => false

/-- The instruction with its `index`-th operand replaced.  The new operand is not checked. -/
def replaceOperand (i : Instruction) (index : Nat) (new : Operand) :
    Except Violation Instruction :=
  if i.operands.isEmpty then .error (.noOperands i.name)
  else if index < i.operands.length then
    .ok { i with operation := i.operation.setOperand index new }
  else .error (.operandIndexOutOfRange i.name index i.operands.length)

/-- The terminator with every edge to `old` led to `new`, and whether there was one. -/
def replaceSuccessor (i : Instruction) (old new : BlockId) :
    Except Violation (Bool × Instruction) :=
  if i.isTerminator then
    .ok (decide (old ∈ i.successors),
      { i with operation := i.operation.mapSuccessors (fun b => if b = old then new else b) })
  else .error (.notATerminator i.name)

end Instruction

end BlockIR
