import BlockIR.Function
/-!
Control-flow graphs: the edges that the terminators of a function's blocks define.  A graph is a
snapshot, and later changes of the function do not show in it.
-/

namespace BlockIR

/-- The blocks that a block's terminator leads to inside the function, as often as it names them. -/
def Block.edges (function : FunctionId) (b : Block) : List BlockId :=
  match b.terminator? with
  | none => []
  | some i => i.successors.filter (fun target => target.function == function)

/-- For each block address the blocks after and before it. -/
structure EdgeTables where
  outgoing : List (List BlockId)
  incoming : List (List BlockId)
deriving DecidableEq

namespace EdgeTables

/-- The tables of a function whose edges are not known yet. -/
def blank (count : Nat) : EdgeTables :=
  ⟨List.replicate count [], List.replicate count []⟩

/-- A row with a block more at its end, unless it has the block already. -/
def enter (block : BlockId) (row : List BlockId) : List BlockId :=
  if block ∈ row then row else row ++ [block]

/-- The tables with an edge more: either end goes into the row of the other.  An address without a
row is passed over. -/
def connect (t : EdgeTables) (source target : BlockId) : EdgeTables where
  outgoing := t.outgoing.modify source.address (enter target)
  incoming := t.incoming.modify target.address (enter source)

/-- The tables with the edges more that leave a block. -/
def leave (t : EdgeTables) (source : BlockId) (targets : List BlockId) : EdgeTables :=
  targets.foldl (fun t target => t.connect source target) t

end EdgeTables

/-- The entry of a function, and its edges. -/
structure FlowGraph extends EdgeTables where
  entry? : Option BlockId
deriving DecidableEq

namespace FlowGraph

/-- The graph of a function, put together block by block and edge by edge. -/
def ofFunction (f : Function) : FlowGraph where
  entry? := f.entry?
  toEdgeTables := f.blocksWithId.foldl (fun t entry => t.leave entry.1 (entry.2.edges f.id))
    (.blank f.blockCount)

/-- The blocks that can follow a block. -/
def successors (g : FlowGraph) (block : BlockId) : List BlockId :=
  g.outgoing[block.address]?.getD []

/-- The blocks that a block can follow. -/
def predecessors (g : FlowGraph) (block : BlockId) : List BlockId :=
  g.incoming[block.address]?.getD []

/-- The number of edges that leave unvisited blocks, for the blocks from an address on. -/
def openEdgesFrom (visited : List Nat) (address : Nat) : List (List BlockId) → Nat
  | [] => 0
  | targets :: rest =>
      (if address ∈ visited then 0 else targets.length) + openEdgesFrom visited (address + 1) rest

/-- The number of edges that leave unvisited blocks. -/
def openEdges (g : FlowGraph) (visited : List Nat) : Nat :=
  openEdgesFrom visited 0 g.outgoing

theorem openEdgesFrom_cons_of_lt {visited : List Nat} {address start : Nat}
    (h : address < start) (lists : List (List BlockId)) :
    openEdgesFrom (address :: visited) start lists = openEdgesFrom visited start lists := by
  induction lists generalizing start with
  | nil => rfl
  | cons targets rest ih =>
      have hne : start ≠ address := by omega
      simp [openEdgesFrom, hne, ih (Nat.lt_succ_of_lt h)]

theorem openEdgesFrom_cons {visited : List Nat} {address start : Nat} (hstart : start ≤ address)
    (hvisited : address ∉ visited) (lists : List (List BlockId)) :
    openEdgesFrom (address :: visited) start lists + (lists[address - start]?.getD []).length =
      openEdgesFrom visited start lists := by
  induction lists generalizing start with
  | nil => simp [openEdgesFrom]
  | cons targets rest ih =>
      by_cases hhere : start = address
      · subst hhere
        simp [openEdgesFrom, hvisited, openEdgesFrom_cons_of_lt (Nat.lt_succ_self start)]
        omega
      · have hlt : start + 1 ≤ address := by omega
        have hindex : address - start = (address - (start + 1)) + 1 := by omega
        have hrest := ih hlt
        simp only [openEdgesFrom, List.mem_cons, hhere, false_or, hindex,
          List.getElem?_cons_succ]
        omega

theorem openEdges_visit (g : FlowGraph) {visited : List Nat} {block : BlockId}
    (hvisited : block.address ∉ visited) :
    g.openEdges (block.address :: visited) + (g.successors block).length =
      g.openEdges visited :=
  openEdgesFrom_cons (Nat.zero_le _) hvisited g.outgoing

/-- Visit the blocks on a stack, and before the rest of it the blocks that can follow them.  A block
is visited once, when it comes off the stack for the first time. -/
def search (g : FlowGraph) (visited : List Nat) : List BlockId → List BlockId
  | [] => []
  | block :: stack =>
      if block.address < g.outgoing.length ∧ block.address ∉ visited then
        block :: g.search (block.address :: visited) (g.successors block ++ stack)
      else g.search visited stack
termination_by stack => g.openEdges visited + stack.length
decreasing_by
  · rename_i h
    have := g.openEdges_visit h.2
    simp only [List.length_append, List.length_cons]
    omega
  · simp

/-- The blocks reachable from the entry, in depth-first preorder. -/
def reachable (g : FlowGraph) : List BlockId :=
  g.search [] g.entry?.toList

end FlowGraph

end BlockIR
