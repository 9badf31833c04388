import BlockIR.Module.Basic
import BlockIR.Event
import BlockIR.Verifier.Operands
import BlockIR.Verifier.Options
import BlockIR.Verifier.StackDiscipline
/-!
The verifier.  Making an instruction checks what concerns that instruction; the verifier checks what
concerns a whole function, and the operands once more, since replacing one checks nothing.
-/

namespace BlockIR

namespace Verifier

/-- The faults of an instruction: where it stands, where it leads, and what it consumes. -/
def instructionFaults (m : Module) (options : Options) (f : Function) (b : Block)
    (id : InstructionId) (i : Instruction) : List Fault :=
  (if i.isTerminator && b.lastAddress? != some id.address then [.terminatorNotLast id] else []) ++
    (i.successors.filter (fun target => (f.block? target).isNone)).map (.invalidSuccessor id) ++
    m.operandFaults options.checkOperandTypes id i

/-- The faults of a block by itself. -/
def blockFaults (m : Module) (options : Options) (f : Function) (id : BlockId) (b : Block) :
    List Fault :=
  if b.isEmpty then [.emptyBlock id]
  else
    b.instructions.flatMap (fun (address, i) =>
        instructionFaults m options f b ⟨id, address⟩ i) ++
      (if b.isTerminated then [] else [.missingTerminator id])

/-- The blocks of a function that no path from its entry leads to. -/
def unreachableBlocks (f : Function) (g : FlowGraph) : List BlockId :=
  (f.blocksWithId.map Prod.fst).filter (fun id => id ∉ g.reachable)

/-- The faults of a function: block by block, then those that concern paths. -/
def functionFaults (m : Module) (options : Options) (f : Function) : List Fault :=
  let g := FlowGraph.ofFunction f
  f.blocksWithId.flatMap (fun (id, b) => blockFaults m options f id b) ++
    (if options.rejectUnreachableBlocks then (unreachableBlocks f g).map .unreachableBlock
      else []) ++
    (if options.checkStackDiscipline then StackDiscipline.faults f g else [])

/-- The findings in a function. -/
def functionFindings (m : Module) (options : Options) (f : Function) : List Finding :=
  (functionFaults m options f).map (fun fault => ⟨f.name, fault⟩)

/-- The functions that have a body; the others are only declared. -/
def bodies (m : Module) : List Function :=
  m.functions.filter (fun f => f.entry?.isSome)

/-- Everything that is wrong with a module, function by function. -/
def findings (options : Options) (m : Module) : List Finding :=
  (bodies m).flatMap (functionFindings m options)

/-- What a verification logs: each function with the number of its findings. -/
def log (options : Options) (m : Module) : List Event :=
  (bodies m).map (fun f => .verifiedFunction f.name (functionFindings m options f).length)

/-- Whether nothing is wrong with a module. -/
def passes (options : Options) (m : Module) : Bool :=
  (findings options m).isEmpty

end Verifier

end BlockIR
