import BlockIR.Proofs.Locality
import Mathlib.Data.List.Nodup
/-!
Depth-first search, by a stack and by recursion.

The search over a flow graph keeps a stack on which blocks can wait more than once, and decides only
when a block comes off it whether it is new.  The recursive search visits a block, then what its
successors lead to, one after the other.  Both list the same blocks in the same order: those that
paths from the entry lead to.
-/

namespace BlockIR

namespace FlowGraph

variable {g : FlowGraph} {visited : List Nat} {block : BlockId}

/-- The addresses that are visited once blocks were found. -/
def mark (visited : List Nat) (found : List BlockId) : List Nat :=
  found.foldl (fun visited block => block.address :: visited) visited

theorem mark_append (visited : List Nat) (first second : List BlockId) :
    mark visited (first ++ second) = mark (mark visited first) second :=
  List.foldl_append

theorem mem_mark {visited : List Nat} {found : List BlockId} {address : Nat} :
    address ∈ mark visited found ↔ address ∈ visited ∨ address ∈ found.map BlockId.address := by
  induction found generalizing visited with
  | nil => simp [mark]
  | cons block rest ih =>
      change address ∈ mark (block.address :: visited) rest ↔ _
      rw [ih, List.map_cons, List.mem_cons, List.mem_cons]
      tauto

/-- The number of blocks that are not visited. -/
def unvisited (g : FlowGraph) (visited : List Nat) : Nat :=
  (List.range g.outgoing.length).countP (fun address => address ∉ visited)

theorem unvisited_mark_le (g : FlowGraph) (visited : List Nat) (found : List BlockId) :
    g.unvisited (mark visited found) ≤ g.unvisited visited := by
  apply List.countP_mono_left
  intro address _ hnew
  simp only [decide_eq_true_eq] at hnew ⊢
  exact fun hvisited => hnew (mem_mark.2 (.inl hvisited))

theorem unvisited_cons_lt (hin : block.address < g.outgoing.length)
    (hnew : block.address ∉ visited) :
    g.unvisited (block.address :: visited) < g.unvisited visited := by
  refine countP_add_one_le (List.mem_range.2 hin) ?_ ?_ ?_
  · simp
  · simpa using hnew
  · intro address haddress
    simp only [decide_eq_true_eq, List.mem_cons, not_or] at haddress ⊢
    exact haddress.2

/-- The blocks found by recursion from blocks one after the other, in preorder: a block that was not
visited before, what its successors lead to, and then what the rest leads to beyond that. -/
def depthFirst (g : FlowGraph) (visited : List Nat) : List BlockId → List BlockId
  | [] => []
  | block :: rest =>
      if block.address < g.outgoing.length ∧ block.address ∉ visited then
        let found := block :: g.depthFirst (block.address :: visited) (g.successors block)
        found ++ g.depthFirst (mark visited found) rest
      else g.depthFirst visited rest
termination_by blocks => (g.unvisited visited, blocks.length)
decreasing_by
  · rename_i h
    exact Prod.Lex.left _ _ (unvisited_cons_lt h.1 h.2)
  · rcases Nat.lt_or_eq_of_le (g.unvisited_mark_le visited found) with hless | hsame
    · exact Prod.Lex.left _ _ hless
    · rw [hsame]
      exact Prod.Lex.right _ (by simp)
  · exact Prod.Lex.right _ (by simp)

/-- What waits on the stack is searched when everything that the blocks above it lead to was found,
with all of that visited. -/
theorem search_append (g : FlowGraph) (visited : List Nat) (blocks stack : List BlockId) :
    g.search visited (blocks ++ stack) =
      g.depthFirst visited blocks ++
        g.search (mark visited (g.depthFirst visited blocks)) stack := by
  fun_induction depthFirst g visited blocks generalizing stack with
  | case1 visited => rfl
  | case2 visited block rest hnew found ihinner ihrest =>
      have hfound : mark visited found = mark (block.address :: visited)
          (g.depthFirst (block.address :: visited) (g.successors block)) := rfl
      rw [List.cons_append, search, if_pos hnew, ihinner, ← hfound, ihrest, mark_append,
        List.append_assoc]
      rfl
  | case3 visited block rest hold ih =>
      rw [List.cons_append, search, if_neg hold, ih]

theorem search_eq_depthFirst (g : FlowGraph) (visited : List Nat) (blocks : List BlockId) :
    g.search visited blocks = g.depthFirst visited blocks := by
  have hall := g.search_append visited blocks []
  rw [List.append_nil, search, List.append_nil] at hall
  exact hall

/-- A block is found once, and only if it was not visited before. -/
theorem search_new (g : FlowGraph) (visited : List Nat) (stack : List BlockId) :
    ((g.search visited stack).map BlockId.address).Nodup ∧
      ∀ block ∈ g.search visited stack, block.address ∉ visited := by
  fun_induction search g visited stack with
  | case1 visited => simp
  | case2 visited block stack hnew ih =>
      obtain ⟨hnodup, hfresh⟩ := ih
      refine ⟨?_, ?_⟩
      · rw [List.map_cons, List.nodup_cons]
        refine ⟨fun hmem => ?_, hnodup⟩
        obtain ⟨other, hother, heq⟩ := List.mem_map.1 hmem
        exact hfresh other hother (heq ▸ List.mem_cons_self)
      · intro other hother
        rcases List.mem_cons.1 hother with rfl | hlater
        · exact hnew.2
        · exact fun hvisited => hfresh other hlater (List.mem_cons_of_mem _ hvisited)
  | case3 visited block stack hold ih => exact ih

/-- What holds of the blocks on the stack and goes over to successors holds of all that is found. -/
theorem search_induction {P : BlockId → Prop} {stack : List BlockId}
    (hstack : ∀ block ∈ stack, P block)
    (hnext : ∀ block, P block → ∀ target ∈ g.successors block, P target) :
    ∀ block ∈ g.search visited stack, P block := by
  fun_induction search g visited stack with
  | case1 visited => simp
  | case2 visited block stack hnew ih =>
      have hblock : P block := hstack block List.mem_cons_self
      have hlater : ∀ other ∈ g.successors block ++ stack, P other := by
        intro other hother
        rcases List.mem_append.1 hother with htarget | hwaiting
        · exact hnext block hblock other htarget
        · exact hstack other (List.mem_cons_of_mem _ hwaiting)
      intro other hother
      rcases List.mem_cons.1 hother with rfl | hfound
      · exact hblock
      · exact ih hlater other hfound
  | case3 visited block stack hold ih =>
      exact ih (fun other hother => hstack other (List.mem_cons_of_mem _ hother))

/-- Nothing is left out: a block on the stack is found unless it was visited before, and so is a
successor of a block that is found. -/
theorem search_covers (g : FlowGraph) (visited : List Nat) (stack : List BlockId) :
    (∀ block ∈ stack, block.address < g.outgoing.length →
      block.address ∈ visited ∨ block.address ∈ (g.search visited stack).map BlockId.address) ∧
    ∀ block ∈ g.search visited stack, ∀ target ∈ g.successors block,
      target.address < g.outgoing.length →
      target.address ∈ visited ∨ target.address ∈ (g.search visited stack).map BlockId.address := by
  fun_induction search g visited stack with
  | case1 visited => simp
  | case2 visited block stack hnew ih =>
      obtain ⟨hwaiting, htargets⟩ := ih
      -- What the rest of the search counts as visited is visited before, or is the block itself.
      have hweaken : ∀ {address : Nat}, address ∈ block.address :: visited ∨
          address ∈ (g.search (block.address :: visited) (g.successors block ++ stack)).map
            BlockId.address →
          address ∈ visited ∨ address ∈ (block :: g.search (block.address :: visited)
            (g.successors block ++ stack)).map BlockId.address := by
        intro address haddress
        rw [List.map_cons, List.mem_cons]
        rw [List.mem_cons] at haddress
        tauto
      refine ⟨?_, ?_⟩
      · intro other hother hin
        rcases List.mem_cons.1 hother with rfl | hrest
        · exact .inr List.mem_cons_self
        · exact hweaken (hwaiting other (List.mem_append_right _ hrest) hin)
      · intro other hother target htarget hin
        rcases List.mem_cons.1 hother with rfl | hfound
        · exact hweaken (hwaiting target (List.mem_append_left _ htarget) hin)
        · exact hweaken (htargets other hfound target htarget hin)
  | case3 visited block stack hold ih =>
      refine ⟨?_, ih.2⟩
      intro other hother hin
      rcases List.mem_cons.1 hother with rfl | hrest
      · exact .inl (by_contra fun hnew => hold ⟨hin, hnew⟩)
      · exact ih.1 other hrest hin

theorem reachable_eq_depthFirst (g : FlowGraph) :
    g.reachable = g.depthFirst [] g.entry?.toList :=
  g.search_eq_depthFirst [] g.entry?.toList

theorem nodup_reachable (g : FlowGraph) : g.reachable.Nodup :=
  List.Nodup.of_map _ (g.search_new [] g.entry?.toList).1

end FlowGraph

namespace Function

variable {f : Function} {block : BlockId}

/-- Some path from the entry leads to a block. -/
def Reaches (f : Function) (block : BlockId) : Prop :=
  ∃ path, f.IsPath (path ++ [block])

theorem address_lt_of_block? {b : Block} (h : f.block? block = some b) :
    block.address < (FlowGraph.ofFunction f).outgoing.length := by
  simp only [block?] at h
  split at h
  · simpa [FlowGraph.length_outgoing_ofFunction] using (List.getElem?_eq_some_iff.1 h).1
  · simp at h

theorem Reaches.entry {entry : BlockId} (hentry : f.entry? = some entry) : f.Reaches entry :=
  ⟨[], isPath_singleton.2 hentry⟩

theorem Reaches.edge {target : BlockId} (h : f.Reaches block) (hedge : f.Edge block target) :
    f.Reaches target := by
  obtain ⟨path, hpath⟩ := h
  exact ⟨path ++ [block], isPath_concat.2 ⟨hpath, hedge⟩⟩

/-- What holds of the entry and goes along edges holds of every block that a path leads to. -/
theorem Reaches.induction {P : BlockId → Prop} (hentry : ∀ entry, f.entry? = some entry → P entry)
    (hedge : ∀ source target, P source → f.Edge source target → P target) (h : f.Reaches block) :
    P block := by
  obtain ⟨path, hpath⟩ := h
  induction path using List.reverseRecOn generalizing block with
  | nil => exact hentry block (isPath_singleton.1 hpath)
  | append_singleton path last ih =>
      obtain ⟨hbefore, hlast⟩ := isPath_concat.1 hpath
      exact hedge last block (ih hbefore) hlast

/-- What the search finds are blocks of the function that paths lead to. -/
theorem reaches_of_mem_reachable (hinside : f.EdgesInside)
    (hmem : block ∈ (FlowGraph.ofFunction f).reachable) :
    (f.block? block).isSome ∧ f.Reaches block := by
  have hentry : ∀ entry ∈ f.entry?.toList, (f.block? entry).isSome ∧ f.Reaches entry := by
    intro entry hentry
    have hfirst : f.entry? = some entry := Option.mem_toList.1 hentry
    exact ⟨block?_entry hfirst, .entry hfirst⟩
  refine FlowGraph.search_induction (P := fun block => (f.block? block).isSome ∧ f.Reaches block)
    hentry ?_ block hmem
  rintro source ⟨hpresent, hsource⟩ target htarget
  obtain ⟨b, hb⟩ := Option.isSome_iff_exists.1 hpresent
  have hedge : f.Edge source target := ⟨b, hb, (block?_edges hb hinside).1 htarget⟩
  exact ⟨hinside source target hedge, hsource.edge hedge⟩

/-- The search compares addresses, which tell the blocks of one function apart. -/
theorem mem_reachable_of_address (hinside : f.EdgesInside) {b : Block}
    (hb : f.block? block = some b)
    (hmem : block.address ∈ (FlowGraph.ofFunction f).reachable.map BlockId.address) :
    block ∈ (FlowGraph.ofFunction f).reachable := by
  obtain ⟨other, hother, haddress⟩ := List.mem_map.1 hmem
  obtain ⟨c, hc⟩ := Option.isSome_iff_exists.1 (reaches_of_mem_reachable hinside hother).1
  have hfunction : other.function = block.function :=
    (function_of_block? hc).trans (function_of_block? hb).symm
  have heq : other = block := by
    cases other
    cases block
    simp_all
  exact heq ▸ hother

/-- The search from the entry finds exactly the blocks that paths lead to. -/
theorem mem_reachable_iff (hinside : f.EdgesInside) :
    block ∈ (FlowGraph.ofFunction f).reachable ↔ f.Reaches block := by
  obtain ⟨hentries, htargets⟩ := (FlowGraph.ofFunction f).search_covers [] f.entry?.toList
  constructor
  · exact fun hmem => (reaches_of_mem_reachable hinside hmem).2
  · intro hreaches
    refine hreaches.induction (P := fun block => block ∈ (FlowGraph.ofFunction f).reachable) ?_ ?_
    · intro entry hentry
      obtain ⟨b, hb⟩ := Option.isSome_iff_exists.1 (block?_entry hentry)
      apply mem_reachable_of_address hinside hb
      have hfound := hentries entry (by simp [hentry]) (address_lt_of_block? hb)
      exact hfound.resolve_left List.not_mem_nil
    · rintro source target hsource ⟨b, hb, htarget⟩
      obtain ⟨c, hc⟩ := Option.isSome_iff_exists.1 (hinside source target ⟨b, hb, htarget⟩)
      apply mem_reachable_of_address hinside hc
      have hfound := htargets source hsource target ((block?_edges hb hinside).2 htarget)
        (address_lt_of_block? hc)
      exact hfound.resolve_left List.not_mem_nil

theorem head?_reachable (f : Function) : (FlowGraph.ofFunction f).reachable.head? = f.entry? := by
  have hgraph : FlowGraph.entry? (.ofFunction f) = f.entry? := rfl
  rw [FlowGraph.reachable, hgraph]
  cases hentry : f.entry? with
  | none => simp [FlowGraph.search]
  | some entry =>
      obtain ⟨b, hb⟩ := Option.isSome_iff_exists.1 (block?_entry hentry)
      simp [FlowGraph.search, address_lt_of_block? hb]

end Function

namespace Verifier

variable {m : Module} {options : Options} {f : Function} {fault : Fault}

theorem mem_unreachableBlocks_iff {g : FlowGraph} {block : BlockId} :
    block ∈ unreachableBlocks f g ↔ (f.block? block).isSome ∧ block ∉ g.reachable := by
  simp only [unreachableBlocks, List.mem_filter, decide_eq_true_eq, and_congr_left_iff]
  intro _
  constructor
  · intro hmem
    obtain ⟨⟨_, b⟩, hlisted, rfl⟩ := List.mem_map.1 hmem
    simp [Function.block?_of_mem_blocksWithId hlisted]
  · intro hpresent
    obtain ⟨b, hb⟩ := Option.isSome_iff_exists.1 hpresent
    exact List.mem_map.2 ⟨_, Function.mem_blocksWithId_of_block? hb, rfl⟩

theorem unreachableBlock_mem_functionFaults_iff (hreject : options.rejectUnreachableBlocks = true)
    {block : BlockId} :
    .unreachableBlock block ∈ functionFaults m options f ↔
      block ∈ unreachableBlocks f (.ofFunction f) := by
  simp only [functionFaults, List.mem_append, List.mem_flatMap, if_pos hreject]
  constructor
  · rintro ((⟨entry, -, hblock⟩ | hunreachable) | hstack)
    · simpa [Fault.concernsPaths] using concernsPaths_of_mem_blockFaults hblock
    · simpa using hunreachable
    · split at hstack
      · simpa [Fault.concernsStack] using StackDiscipline.concernsStack_of_mem_faults hstack
      · simp at hstack
  · exact fun hmem => .inl (.inr (List.mem_map.2 ⟨block, hmem, rfl⟩))

end Verifier

namespace Module

theorem Consistent.mem_findings_iff {m : Module} (hm : m.Consistent) {options : Options}
    {f : Function} (hf : f ∈ m.functions) {name : String} {fault : Fault}
    (hfault : fault.block.function = f.id) :
    ⟨name, fault⟩ ∈ Verifier.findings options m ↔
      name = f.name ∧ fault ∈ Verifier.functionFaults m options f := by
  have hin : ⟨name, fault⟩ ∈ Verifier.findings options m ↔
      ⟨name, fault⟩ ∈ Verifier.findingsIn options m f.id := by
    simp [Verifier.findingsIn, hfault]
  rw [hin, hm.findingsIn_eq, hm.function?_of_mem hf]
  simp [Verifier.functionFindings, and_comm, eq_comm]

/-- The search by a stack lists what the recursive search from the entry lists, in the same order:
first the entry, no block twice, and those blocks that paths lead to.  So where unreachable blocks
are to be reported, exactly those are that no path leads to. -/
theorem reachable_preorder {m : Module} (hm : m.Reachable) {f : Function} (hf : f ∈ m.functions) :
    (FlowGraph.ofFunction f).reachable = (FlowGraph.ofFunction f).depthFirst [] f.entry?.toList ∧
    (FlowGraph.ofFunction f).reachable.head? = f.entry? ∧
    (FlowGraph.ofFunction f).reachable.Nodup ∧
    (∀ block, block ∈ (FlowGraph.ofFunction f).reachable ↔ ∃ path, f.IsPath (path ++ [block])) ∧
    ∀ options : Options, options.rejectUnreachableBlocks = true →
      ∀ name block, block.function = f.id →
        (⟨name, .unreachableBlock block⟩ ∈ Verifier.findings options m ↔
          name = f.name ∧ (f.block? block).isSome ∧ ¬∃ path, f.IsPath (path ++ [block])) := by
  have hconsistent := hm.consistent
  have hinside : f.EdgesInside := hconsistent.edgesInside (hconsistent.function?_of_mem hf)
  refine ⟨FlowGraph.reachable_eq_depthFirst _, f.head?_reachable, FlowGraph.nodup_reachable _,
    fun block => Function.mem_reachable_iff hinside, ?_⟩
  intro options hreject name block hblock
  have hfault : (Fault.unreachableBlock block).block.function = f.id := hblock
  rw [hconsistent.mem_findings_iff hf hfault,
    Verifier.unreachableBlock_mem_functionFaults_iff hreject, Verifier.mem_unreachableBlocks_iff,
    Function.mem_reachable_iff hinside, Function.Reaches]

section Maze

/-- A function whose blocks lead back and across, with one block that nothing leads to. -/
def maze : Module :=
  let block (address : Nat) : BlockId := ⟨⟨0⟩, address⟩
  let fork (source first second : Nat) : Command :=
    .make (.atEnd (block source))
      (.condBranch (.parameter (block 0) 0) (block first) (block second)) .synthetic
  List.foldl Module.after (.empty "test")
    [.declareFunction "main" [.ofBuiltin .i1] .void, .appendEntryBlock ⟨0⟩, .appendBlock ⟨0⟩ [],
      .appendBlock ⟨0⟩ [], .appendBlock ⟨0⟩ [], .appendBlock ⟨0⟩ [], fork 0 1 2, fork 1 3 2,
      .make (.atEnd (block 2)) .ret .synthetic, fork 3 0 2, fork 4 4 2]

def mazeFunction : Function :=
  (maze.function? ⟨0⟩).getD ⟨⟨0⟩, "main", [], .void, []⟩

theorem maze_preorder :
    (FlowGraph.ofFunction mazeFunction).reachable =
      [0, 1, 3, 2].map (fun address => ⟨⟨0⟩, address⟩) ∧
    (FlowGraph.ofFunction mazeFunction).depthFirst [] [⟨⟨0⟩, 0⟩] =
      [0, 1, 3, 2].map (fun address => ⟨⟨0⟩, address⟩) ∧
    (∃ path, mazeFunction.IsPath (path ++ [⟨⟨0⟩, 2⟩])) ∧
    (¬∃ path, mazeFunction.IsPath (path ++ [⟨⟨0⟩, 4⟩])) ∧
    ⟨"main", .unreachableBlock ⟨⟨0⟩, 4⟩⟩ ∈ Verifier.findings ⟨false, true, false⟩ maze := by
  have hreachable : maze.Reachable := (Reachable.empty "test").edits _
  have hmem : mazeFunction ∈ maze.functions := by decide +kernel
  have hlist : (FlowGraph.ofFunction mazeFunction).reachable =
      [0, 1, 3, 2].map (fun address => ⟨⟨0⟩, address⟩) := by decide +kernel
  have hentry : mazeFunction.entry? = some ⟨⟨0⟩, 0⟩ := by decide +kernel
  obtain ⟨hsearch, -, -, hpaths, hreport⟩ := reachable_preorder hreachable hmem
  have hnone : ¬∃ path, mazeFunction.IsPath (path ++ [⟨⟨0⟩, 4⟩]) := by
    rw [← hpaths, hlist]
    decide
  refine ⟨hlist, ?_, ?_, hnone, ?_⟩
  · rw [← hlist, hsearch, hentry]
    rfl
  · rw [← hpaths, hlist]
    decide
  · exact (hreport ⟨false, true, false⟩ rfl "main" ⟨⟨0⟩, 4⟩ rfl).2 ⟨rfl, rfl, hnone⟩

end Maze

end Module

end BlockIR
