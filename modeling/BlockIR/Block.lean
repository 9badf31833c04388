import BlockIR.Instruction
/-!
Basic blocks.  Instructions stand in slots that are only ever appended, so that a slot's number
keeps naming the same instruction; the program order is kept apart.
-/

namespace BlockIR

/-- A basic block: straight-line instructions that end with a terminator once it is complete. -/
structure Block where
  params : List ValueType
  /-- The instruction of each address; `none` marks a removed one. -/
  slots : List (Option Instruction)
  /-- The addresses of the live instructions, in program order. -/
  order : List Nat
deriving DecidableEq

namespace Block

/-- A block with no instruction. -/
def empty (params : List ValueType) : Block :=
  ⟨params, [], []⟩

/-- The live instruction at an address. -/
def get? (b : Block) (address : Nat) : Option Instruction :=
  b.slots[address]?.join

/-- The number of live instructions. -/
def size (b : Block) : Nat := b.order.length

def isEmpty (b : Block) : Bool := b.order.isEmpty

/-- The live instructions with their addresses, in program order. -/
def instructions (b : Block) : List (Nat × Instruction) :=
  b.order.filterMap (fun address => (b.get? address).map (fun i => (address, i)))

def lastAddress? (b : Block) : Option Nat := b.order.getLast?

/-- The terminator, if the block ends with one. -/
def terminator? (b : Block) : Option Instruction :=
  (b.lastAddress?.bind b.get?).filter Instruction.isTerminator

def isTerminated (b : Block) : Bool := b.terminator?.isSome

/-- Whether the block ends with a terminator and has no other. -/
def isComplete (b : Block) : Bool :=
  b.isTerminated && (b.instructions.countP (fun entry => entry.2.isTerminator) == 1)

/-- The address that the next instruction gets. -/
def nextAddress (b : Block) : Nat := b.slots.length

/-- The block with an instruction more, behind the last one. -/
def push (b : Block) (i : Instruction) : Block :=
  { b with slots := b.slots ++ [some i], order := b.order ++ [b.nextAddress] }

/-- The block with an instruction more, immediately before the one at `anchor`. -/
def insertBefore (b : Block) (anchor : Nat) (i : Instruction) : Block :=
  { b with
    slots := b.slots ++ [some i]
    order := b.order.insertIdx (b.order.idxOf anchor) b.nextAddress }

/-- The block with a live instruction exchanged in its slot. -/
def set (b : Block) (address : Nat) (i : Instruction) : Block :=
  { b with slots := b.slots.set address (some i) }

/-- The block without the instruction at an address.  The slot stays, so that it is not used
again. -/
def erase (b : Block) (address : Nat) : Block :=
  { b with slots := b.slots.set address none, order := b.order.erase address }

/-- The types of the parameters in parentheses. -/
def paramsText (types : List ValueType) : String :=
  "(" ++ ", ".intercalate (types.map ValueType.text) ++ ")"

end Block

end BlockIR
