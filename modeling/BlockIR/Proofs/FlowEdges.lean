import BlockIR.Proofs.StackPaths
/-!
Edges forwards and backwards.

In a reachable module every edge leads to a block of its function, so that the graph of a function
leaves none of them out.  Its two tables tell the same edges: the one from where they start, the other
from where they lead to.
-/

namespace BlockIR

namespace Function

variable {f : Function} {source target : BlockId}

theorem successors_eq_eraseDups (hinside : f.EdgesInside) {b : Block}
    (hb : f.block? source = some b) :
    (FlowGraph.ofFunction f).successors source = b.targets.eraseDups := by
  rw [FlowGraph.successors_ofFunction (Function.mem_blocksWithId_of_block? hb),
    edges_eq_targets hb hinside]

/-- The blocks before a block are picked from all blocks by what comes after them. -/
theorem predecessors_eq_filter (htarget : (f.block? target).isSome) :
    (FlowGraph.ofFunction f).predecessors target = (f.blocksWithId.map Prod.fst).filter
      (fun source => target ∈ (FlowGraph.ofFunction f).successors source) := by
  obtain ⟨c, hc⟩ := Option.isSome_iff_exists.1 htarget
  rw [FlowGraph.predecessors_ofFunction (Function.mem_blocksWithId_of_block? hc),
    List.filter_map]
  congr 1
  apply List.filter_congr
  rintro ⟨id, b⟩ hentry
  simp only [Function.comp_apply, FlowGraph.successors_ofFunction hentry, List.mem_eraseDups]

theorem mem_predecessors_iff (hsource : (f.block? source).isSome)
    (htarget : (f.block? target).isSome) :
    source ∈ (FlowGraph.ofFunction f).predecessors target ↔
      target ∈ (FlowGraph.ofFunction f).successors source := by
  obtain ⟨b, hb⟩ := Option.isSome_iff_exists.1 hsource
  have hlisted : source ∈ f.blocksWithId.map Prod.fst :=
    List.mem_map.2 ⟨_, Function.mem_blocksWithId_of_block? hb, rfl⟩
  rw [predecessors_eq_filter htarget, List.mem_filter, decide_eq_true_eq]
  exact and_iff_right hlisted

end Function

namespace Module

/-- The graph of a function is exact: after a block come the targets of its terminator, the first of
each, and before a block come the blocks that lead to it, once each and in the order in which they
were made.  So one block comes after another exactly where the other comes before it. -/
theorem graph_exact_and_dual {m : Module} (hm : m.Reachable) {f : Function}
    (hf : f ∈ m.functions) :
    (∀ source b, f.block? source = some b →
      (FlowGraph.ofFunction f).successors source = b.targets.eraseDups) ∧
    (∀ target, (f.block? target).isSome →
      (FlowGraph.ofFunction f).predecessors target = (f.blocksWithId.map Prod.fst).filter
        (fun source => target ∈ (FlowGraph.ofFunction f).successors source) ∧
      ((FlowGraph.ofFunction f).predecessors target).Nodup) ∧
    ∀ source target, (f.block? source).isSome → (f.block? target).isSome →
      (target ∈ (FlowGraph.ofFunction f).successors source ↔
        source ∈ (FlowGraph.ofFunction f).predecessors target) := by
  have hconsistent := hm.consistent
  have hinside : f.EdgesInside := hconsistent.edgesInside (hconsistent.function?_of_mem hf)
  refine ⟨?_, ?_, ?_⟩
  · intro source b hb
    exact Function.successors_eq_eraseDups hinside hb
  · intro target htarget
    have hpicked := Function.predecessors_eq_filter htarget
    refine ⟨hpicked, ?_⟩
    rw [hpicked]
    exact f.nodup_blocksWithId.filter _
  · intro source target hsource htarget
    exact (Function.mem_predecessors_iff hsource htarget).symm

section Knot

/-- A function with a block that leads to itself, one whose two edges were led to the same block, and
one without a terminator. -/
def knot : Module :=
  let block (address : Nat) : BlockId := ⟨⟨0⟩, address⟩
  let fork (source first second : Nat) : Command :=
    .make (.atEnd (block source))
      (.condBranch (.parameter (block 0) 0) (block first) (block second)) .synthetic
  List.foldl Module.after (.empty "test")
    [.declareFunction "main" [.ofBuiltin .i1] .void, .appendEntryBlock ⟨0⟩, .appendBlock ⟨0⟩ [],
      .appendBlock ⟨0⟩ [], .appendBlock ⟨0⟩ [], fork 2 3 1, fork 1 1 3, fork 0 1 2,
      .replaceSuccessor ⟨block 2, 0⟩ (block 3) (block 1)]

def knotFunction : Function :=
  (knot.function? ⟨0⟩).getD ⟨⟨0⟩, "main", [], .void, []⟩

theorem knot_exact_and_dual :
    (let block (address : Nat) : BlockId := ⟨⟨0⟩, address⟩
    (knotFunction.block? (block 2)).map Block.targets = some [block 1, block 1] ∧
    (FlowGraph.ofFunction knotFunction).successors (block 2) = [block 1] ∧
    (FlowGraph.ofFunction knotFunction).successors (block 3) = [] ∧
    (FlowGraph.ofFunction knotFunction).predecessors (block 1) = [block 0, block 1, block 2] ∧
    block 1 ∈ (FlowGraph.ofFunction knotFunction).predecessors (block 1)) := by
  have hreachable : knot.Reachable := (Reachable.empty "test").edits _
  have hmem : knotFunction ∈ knot.functions := by decide +kernel
  obtain ⟨hsuccessors, hpredecessors, hdual⟩ := graph_exact_and_dual hreachable hmem
  obtain ⟨b, hb, htargets⟩ : ∃ b, knotFunction.block? ⟨⟨0⟩, 2⟩ = some b ∧
      b.targets = [⟨⟨0⟩, 1⟩, ⟨⟨0⟩, 1⟩] := by
    refine ⟨(knotFunction.block? ⟨⟨0⟩, 2⟩).getD (.empty []), by decide +kernel, by decide +kernel⟩
  obtain ⟨c, hc, hopen⟩ : ∃ c, knotFunction.block? ⟨⟨0⟩, 3⟩ = some c ∧ c.targets = [] := by
    refine ⟨(knotFunction.block? ⟨⟨0⟩, 3⟩).getD (.empty []), by decide +kernel, by decide +kernel⟩
  refine ⟨by simp [hb, htargets], ?_, ?_, ?_, ?_⟩
  · rw [hsuccessors _ b hb, htargets]
    decide
  · rw [hsuccessors _ c hc, hopen]
    rfl
  · rw [(hpredecessors ⟨⟨0⟩, 1⟩ (by decide +kernel)).1]
    decide +kernel
  · exact (hdual ⟨⟨0⟩, 1⟩ ⟨⟨0⟩, 1⟩ (by decide +kernel) (by decide +kernel)).1 (by decide +kernel)

end Knot

end Module

end BlockIR
