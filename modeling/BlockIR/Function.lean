import BlockIR.Block
/-!
Functions: a signature and the blocks of the body, the first of which is the entry.
-/

namespace BlockIR

/-- A function; without blocks it is only declared. -/
structure Function where
  id : FunctionId
  name : String
  inputs : List ValueType
  output : ObjectType
  blocks : List Block
deriving DecidableEq

namespace Function

/-- The entry block, if the function has a body. -/
def entry? (f : Function) : Option BlockId :=
  if f.blocks.isEmpty then none else some ⟨f.id, 0⟩

def blockCount (f : Function) : Nat := f.blocks.length

/-- The block with an identity, which has to name this function. -/
def block? (f : Function) (id : BlockId) : Option Block :=
  if id.function = f.id then f.blocks[id.address]? else none

/-- The blocks with their identities, in creation order. -/
def blocksWithId (f : Function) : List (BlockId × Block) :=
  f.blocks.zipIdx.map (fun (block, address) => (⟨f.id, address⟩, block))

theorem mem_blocksWithId_of_block? {f : Function} {id : BlockId} {b : Block}
    (h : f.block? id = some b) : (id, b) ∈ f.blocksWithId := by
  obtain ⟨function, address⟩ := id
  simp only [block?] at h
  split at h
  · rename_i hid
    subst hid
    simp only [blocksWithId, List.mem_map]
    exact ⟨(b, address), List.mem_zipIdx_iff_getElem?.2 h, rfl⟩
  · simp at h

/-- The live instructions with their identities, block by block. -/
def instructions (f : Function) : List (InstructionId × Instruction) :=
  f.blocksWithId.flatMap (fun (id, block) =>
    block.instructions.map (fun (address, i) => (⟨id, address⟩, i)))

/-- The function with one of its blocks changed. -/
def modifyBlock (f : Function) (address : Nat) (change : Block → Block) : Function :=
  { f with blocks := f.blocks.modify address change }

/-- One line of a body: an instruction stands behind the name of its result, if it has one. -/
def line (id : InstructionId) (i : Instruction) : String :=
  if i.resultTypes.isEmpty then s!"  {i.text}\n" else s!"  {id.text} = {i.text}\n"

def blockText (id : BlockId) (block : Block) : String :=
  s!"{id.text}{Block.paramsText block.params}:\n" ++
    String.join (block.instructions.map (fun (address, i) => line ⟨id, address⟩ i))

def text (f : Function) : String :=
  s!"fun {f.name}{Block.paramsText f.inputs} -> {f.output.text} \x7b\n" ++
    String.join (f.blocksWithId.map (fun (id, block) => blockText id block)) ++ "\x7d\n"

end Function

end BlockIR
