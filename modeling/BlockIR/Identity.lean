/-!
Identities of functions, blocks and instructions: coordinates into a module, which own nothing and
are compared from the outermost coordinate to the innermost.
-/

namespace BlockIR

/-- The place of a function in its module. -/
structure FunctionId where
  index : Nat
deriving DecidableEq, Ord

def FunctionId.text (id : FunctionId) : String :=
  s!"@f{id.index}"

/-- The place of a block in its function. -/
structure BlockId where
  function : FunctionId
  address : Nat
deriving DecidableEq, Ord

namespace BlockId

def text (id : BlockId) : String :=
  s!"bb{id.address}"

/-- The text of a block together with its function. -/
def qualifiedText (id : BlockId) : String :=
  id.function.text ++ ":" ++ id.text

def sort (ids : List BlockId) : List BlockId :=
  ids.mergeSort (fun a b => (compare a b).isLE)

end BlockId

/-- The slot of an instruction in its block.  A slot is never used twice. -/
structure InstructionId where
  block : BlockId
  address : Nat
deriving DecidableEq, Ord

namespace InstructionId

def function (id : InstructionId) : FunctionId :=
  id.block.function

def text (id : InstructionId) : String :=
  s!"%{id.block.text}.{id.address}"

def sort (ids : List InstructionId) : List InstructionId :=
  ids.mergeSort (fun a b => (compare a b).isLE)

end InstructionId

/-- Where a new instruction goes. -/
inductive InsertionPoint where
  /-- After the last instruction of a block. -/
  | atEnd (block : BlockId)
  /-- Immediately before an instruction. -/
  | before (anchor : InstructionId)
deriving DecidableEq

def InsertionPoint.block : InsertionPoint → BlockId
  | .atEnd block => block
  | .before anchor => anchor.block

end BlockIR
