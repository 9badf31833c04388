import BlockIR.Proofs.FlowEdges
import BlockIR.Proofs.Placement
import BlockIR.Proofs.Rewriting
/-!
Redirecting the edges of a terminator.

A terminator stands last in its block, so that its targets are the edges of the block in the graph of
the function.  To lead those that go to one block on to another changes one row of blocks that come
after, and of the rows of blocks that come before at most the two of the targets.  Everything else in
the module stays, and a request that cannot be granted changes nothing.
-/

namespace BlockIR

/-- Where an edge leads once the edges to `old` lead to `new`. -/
def BlockId.redirect (old new target : BlockId) : BlockId :=
  if target = old then new else target

theorem BlockId.mem_map_redirect {old new target : BlockId} {targets : List BlockId}
    (hold : target ≠ old) (hnew : target ≠ new) :
    target ∈ targets.map (redirect old new) ↔ target ∈ targets := by
  rw [List.mem_map]
  constructor
  · rintro ⟨before, hbefore, hafter⟩
    rw [redirect] at hafter
    split at hafter
    · exact absurd hafter.symm hnew
    · exact hafter ▸ hbefore
  · intro hmem
    exact ⟨target, hmem, if_neg hold⟩

section Related

variable {α : Type} {R : α → α → Prop} {p : α → Bool} {first second : List α}

theorem countP_eq_of_forall₂ (h : List.Forall₂ R first second) (hp : ∀ x y, R x y → p y = p x) :
    second.countP p = first.countP p := by
  induction h with
  | nil => rfl
  | cons hxy _ ih => rw [List.countP_cons, List.countP_cons, ih, hp _ _ hxy]

theorem all_eq_of_forall₂ (h : List.Forall₂ R first second) (hp : ∀ x y, R x y → p y = p x) :
    second.all p = first.all p := by
  induction h with
  | nil => rfl
  | cons hxy _ ih => rw [List.all_cons, List.all_cons, ih, hp _ _ hxy]

end Related

namespace Block

variable {R : Instruction → Instruction → Prop} {b c : Block}

theorem TerminatorLast.targets (h : b.TerminatorLast) {address : Nat} {i : Instruction}
    (hi : b.get? address = some i) (hterminator : i.isTerminator = true) :
    b.targets = i.successors := by
  have hlast := h address i hi hterminator
  simp [Block.targets, terminator?, hlast, hi, Option.filter, hterminator]

theorem Rewrites.isComplete (h : b.Rewrites R c)
    (hterminator : ∀ i j, R i j → j.isTerminator = i.isTerminator) :
    c.isComplete = b.isComplete := by
  rw [Block.isComplete, Block.isComplete, h.isTerminated hterminator,
    countP_eq_of_forall₂ h.instructions fun _ _ hxy => hterminator _ _ hxy.2]

end Block

namespace Function

variable {f g : Function} {target : BlockId}

/-- What comes before a block is the same in two graphs if the edges to it are. -/
theorem predecessors_congr (hblocks : g.blocksWithId.map Prod.fst = f.blocksWithId.map Prod.fst)
    (hf : (f.block? target).isSome) (hg : (g.block? target).isSome)
    (hedges : ∀ source, (f.block? source).isSome →
      (target ∈ (FlowGraph.ofFunction g).successors source ↔
        target ∈ (FlowGraph.ofFunction f).successors source)) :
    (FlowGraph.ofFunction g).predecessors target =
      (FlowGraph.ofFunction f).predecessors target := by
  rw [predecessors_eq_filter hf, predecessors_eq_filter hg, hblocks]
  apply List.filter_congr
  intro source hsource
  obtain ⟨⟨_, b⟩, hentry, rfl⟩ := List.mem_map.1 hsource
  have hb := block?_of_mem_blocksWithId hentry
  exact decide_eq_decide.2 (hedges _ (by simp [hb]))

/-- The graph of the second function is that of the first with the edges of one block led from `old`
to `new`. -/
structure Redirects (f g : Function) (source old new : BlockId) : Prop where
  entry : FlowGraph.entry? (.ofFunction g) = FlowGraph.entry? (.ofFunction f)
  successors : ∃ b, f.block? source = some b ∧ (FlowGraph.ofFunction g).successors source =
    (b.targets.map (.redirect old new)).eraseDups
  others : ∀ block, (f.block? block).isSome → block ≠ source →
    (FlowGraph.ofFunction g).successors block = (FlowGraph.ofFunction f).successors block
  predecessors : ∀ block, (f.block? block).isSome → block ≠ old → block ≠ new →
    (FlowGraph.ofFunction g).predecessors block = (FlowGraph.ofFunction f).predecessors block

theorem Rewrites.redirects {R : Instruction → Instruction → Prop} (h : f.Rewrites R g)
    (hf : f.EdgesInside) (hg : g.EdgesInside) {source old new : BlockId} {b c : Block}
    (hb : f.block? source = some b) (hc : g.block? source = some c)
    (htargets : c.targets = b.targets.map (.redirect old new))
    (hothers : ∀ block, block ≠ source → g.block? block = f.block? block) :
    f.Redirects g source old new := by
  have hsource : (FlowGraph.ofFunction g).successors source =
      (b.targets.map (.redirect old new)).eraseDups := by
    rw [successors_eq_eraseDups hg hc, htargets]
  have hrows : ∀ block, (f.block? block).isSome → block ≠ source →
      (FlowGraph.ofFunction g).successors block = (FlowGraph.ofFunction f).successors block := by
    intro block hblock hne
    obtain ⟨d, hd⟩ := Option.isSome_iff_exists.1 hblock
    rw [successors_eq_eraseDups hf hd, successors_eq_eraseDups hg ((hothers block hne).trans hd)]
  have hentry := h.entry?
  refine ⟨hentry, ⟨b, hb, hsource⟩, hrows, ?_⟩
  intro target htarget hold hnew
  have hkept : (g.block? target).isSome := by
    rwa [← Option.not_isNone, isNone_eq_of_rel (h.block? target), Option.not_isNone]
  apply predecessors_congr h.map_fst_blocksWithId htarget hkept
  intro block hblock
  by_cases heq : block = source
  · -- The only row that changed does so in `old` and `new` alone.
    rw [heq, hsource, successors_eq_eraseDups hf hb, List.mem_eraseDups, List.mem_eraseDups]
    exact BlockId.mem_map_redirect hold hnew
  · rw [hrows block hblock heq]

end Function

namespace Module

variable {m n : Module} {id : InstructionId} {old new : BlockId} {i j : Instruction}

theorem Consistent.isComplete_exchange (hm : m.Consistent) (hi : m.instruction? id = some i)
    (hterminator : j.isTerminator = i.isTerminator) :
    (m.exchange id j).isComplete = m.isComplete := by
  have hrewrites := hm.rewrites_exchange (R := fun _ i j => j.isTerminator = i.isTerminator)
    (fun _ _ => rfl) hi hterminator
  apply all_eq_of_forall₂ hrewrites
  intro f g hfg
  apply all_eq_of_forall₂ hfg.blocks
  intro b c hbc
  exact hbc.isComplete fun _ _ hij => hij

/-- The instruction with its edges to `old` led to `new`. -/
def redirected (old new : BlockId) (i : Instruction) : Instruction :=
  { i with operation := i.operation.mapSuccessors (.redirect old new) }

/-- The second module is the first with the edges of one terminator led from `old` to `new`. -/
structure Redirects (m n : Module) (id : InstructionId) (old new : BlockId) : Prop
    extends m.AltersOnly n id.block where
  terminator : ∃ i j, m.instruction? id = some i ∧ n.instruction? id = some j ∧ i.Alike j ∧
    j.operands = i.operands ∧ j.successors = i.successors.map (.redirect old new)
  instructions : ∀ other, other ≠ id → n.instruction? other = m.instruction? other
  order : ∃ b c, m.block? id.block = some b ∧ n.block? id.block = some c ∧
    c.order = b.order ∧ c.params = b.params ∧ c.nextAddress = b.nextAddress
  isComplete : n.isComplete = m.isComplete

theorem Consistent.redirects_exchange (hm : m.Consistent) (hi : m.instruction? id = some i)
    (old new : BlockId) : m.Redirects (m.exchange id (redirected old new i)) id old new := by
  obtain ⟨b, hb, -⟩ := instruction?_eq_some.1 hi
  have hlive : (m.instruction? id).isSome := by simp [hi]
  have halike : i.Alike (redirected old new i) := .mapSuccessors i _
  refine ⟨.modifyBlock (by simp [hb]) _, ?_, ?_, ?_, ?_⟩
  · refine ⟨i, redirected old new i, hi, ?_, halike, ?_, ?_⟩
    · rw [instruction?_exchange hlive, if_pos rfl]
    · exact Operation.operands_mapSuccessors _ _
    · exact Operation.successors_mapSuccessors _ _
  · intro other hother
    rw [instruction?_exchange hlive, if_neg hother]
  · refine ⟨b, b.set id.address (redirected old new i), hb, ?_, rfl, rfl, ?_⟩
    · rw [Module.exchange, block?_modifyBlock, if_pos rfl, hb]
      rfl
    · simp [Block.nextAddress, Block.set]
  · exact hm.isComplete_exchange hi halike.isTerminator

theorem function?_exchange {f : Function} (hf : m.function? id.function = some f)
    (j : Instruction) : (m.exchange id j).function? id.function =
      some (f.modifyBlock id.block.address (fun b => b.set id.address j)) := by
  change (m.modifyFunction id.function _).function? id.function = _
  rw [function?_modifyFunction, if_pos rfl, hf]
  rfl

/-- An instruction that is exchanged leaves the other blocks of its function alone. -/
theorem Consistent.stands_exchange (hm : m.Consistent) {f : Function} {b : Block}
    (hi : m.Stands f b id i) (j : Instruction) :
    ∃ g, (m.exchange id j).Stands g (b.set id.address j) id j ∧
      ∀ block, block ≠ id.block → g.block? block = f.block? block := by
  have hblocks := f.block?_modifyBlock id.block (fun b => b.set id.address j)
  refine ⟨_, ⟨function?_exchange hi.function j, ?_, ?_⟩, ?_⟩
  · rw [hblocks id.block rfl, if_pos rfl, hi.block]
    rfl
  · rw [Block.get?_set (by simp [hi.live]), if_pos rfl]
  · intro block hne
    by_cases hlocal : block.function = id.block.function
    · rw [hblocks block hlocal, if_neg hne]
    · have hid : f.id = id.function := hm.ids _ f hi.function
      have hforeign : block.function ≠ f.id := fun heq => hlocal (heq.trans hid)
      simp [Function.block?, Function.modifyBlock, hforeign]

theorem Consistent.rewrites_of_exchange (hm : m.Consistent) {f g : Function}
    (hi : m.instruction? id = some i) (hij : i.Alike j) (hf : m.function? id.function = some f)
    (hg : (m.exchange id j).function? id.function = some g) : f.Rewrites Instruction.Alike g := by
  have hrel := rel_getElem?_of_forall₂
    (hm.rewrites_exchange (R := fun _ => Instruction.Alike) (fun _ => .refl) hi hij)
    id.function.index
  change Option.Rel _ (m.function? id.function) (function? _ id.function) at hrel
  rw [hf, hg] at hrel
  cases hrel with
  | some hfg => exact hfg

/-- The edges of a terminator are the edges of its block. -/
theorem Stands.targets {f : Function} {b : Block} (hi : m.Stands f b id i) (hm : m.Reachable)
    (hterminator : i.isTerminator = true) : b.targets = i.successors :=
  (hm.terminatorsLast _ b hi.block?).targets hi.live hterminator

/-- Redirecting a terminator redirects the edges of its block in the graph. -/
theorem Reachable.redirects_graph (hm : m.Reachable) {f : Function} {b : Block}
    (hi : m.Stands f b id i) (hterminator : i.isTerminator = true)
    (hn : (m.exchange id (redirected old new i)).Reachable) :
    ∃ g, (m.exchange id (redirected old new i)).function? id.function = some g ∧
      f.Redirects g id.block old new := by
  have halike : i.Alike (redirected old new i) := .mapSuccessors i _
  have hid : f.id = id.function := hm.consistent.ids _ f hi.function
  obtain ⟨g, hj, hothers⟩ := hm.consistent.stands_exchange hi (redirected old new i)
  have hrewrites := hm.consistent.rewrites_of_exchange hi.instruction? halike hi.function hj.function
  refine ⟨g, hj.function, hrewrites.redirects ?_ ?_ hi.block hj.block ?_ hothers⟩
  · exact hm.consistent.edgesInside (hid ▸ hi.function)
  · apply hn.consistent.edgesInside
    rw [hrewrites.id, hid]
    exact hj.function
  · rw [hj.targets hn (halike.isTerminator.trans hterminator), hi.targets hm hterminator]
    exact Operation.successors_mapSuccessors _ _

/-- The edges of a live terminator can be led from any block to a block of its function.  The answer
says whether there were such edges; then the targets of the terminator are those of before with each
`old` exchanged for `new`, in the graph of the function the edges of its block are the new targets,
those of other blocks and the blocks before any but `old` and `new` are what they were, and nothing
else in the module changes.  A request for a target that is not in the function, or for what is not
a live terminator, fails and changes nothing. -/
theorem redirection_exact {m : Module} (hm : m.Reachable) (id : InstructionId)
    (old new : BlockId) :
    (∀ f b i, m.Stands f b id i → i.isTerminator = true → (f.block? new).isSome →
      ∃ n g, ((replaceSuccessor id old new).run m).result = .ok (decide (old ∈ i.successors)) ∧
        ((replaceSuccessor id old new).run m).state = n ∧ m.Redirects n id old new ∧
        n.function? id.function = some g ∧ b.targets = i.successors ∧
        f.Redirects g id.block old new) ∧
    ((new.function ≠ id.function ∨ m.block? new = none ∨
        ∀ i, m.instruction? id = some i → i.isTerminator = false) →
      ∃ violation, ((replaceSuccessor id old new).run m).result = .error violation ∧
        ((replaceSuccessor id old new).run m).state = m) := by
  constructor
  · intro f b i hi hterminator hnew
    have hid : f.id = id.function := hm.consistent.ids _ f hi.function
    have hwith : m.withSuccessor id old new =
        .ok (decide (old ∈ i.successors), redirected old new i) := by
      obtain ⟨c, hc⟩ := Option.isSome_iff_exists.1 hnew
      have hlocal : new.function = id.function := (Function.function_of_block? hc).trans hid
      have hblock : m.block? new = some c := block?_eq_some.2 ⟨f, hlocal ▸ hi.function, hc⟩
      exact withSuccessor_eq_ok.2
        ⟨⟨hlocal, by simp [hblock]⟩, i, hi.instruction?, hterminator, rfl, rfl⟩
    have hrun : (replaceSuccessor id old new).run m =
        ⟨.ok (decide (old ∈ i.successors)), m.exchange id (redirected old new i),
          [.replacingSuccessor id old new (decide (old ∈ i.successors))]⟩ := by
      simp only [Action.run, replaceSuccessor, hwith]
      rfl
    have hreachable : (m.exchange id (redirected old new i)).Reachable := by
      have hafter := hm.edit (.replaceSuccessor id old new)
      rwa [Module.after, Command.perform, Action.run_map, hrun] at hafter
    obtain ⟨g, hg, hgraph⟩ := hm.redirects_graph hi hterminator hreachable
    refine ⟨_, g, by rw [hrun], by rw [hrun], ?_, hg, hi.targets hm hterminator, hgraph⟩
    exact hm.consistent.redirects_exchange hi.instruction? old new
  · intro hbad
    simp only [Action.run, replaceSuccessor]
    cases hwith : m.withSuccessor id old new with
    | error violation => exact ⟨violation, rfl, rfl⟩
    | ok answer =>
        obtain ⟨replaced, after⟩ := answer
        obtain ⟨⟨hlocal, hsome⟩, i, hi, hterminator, -⟩ := withSuccessor_eq_ok.1 hwith
        rcases hbad with hforeign | hmissing | hother
        · exact absurd hlocal hforeign
        · simp [hmissing] at hsome
        · simp [hother i hi] at hterminator

section Detour

/-- A function with a block that leads to itself and on to the last block, and another function. -/
def detour : Module :=
  let block (address : Nat) : BlockId := ⟨⟨0⟩, address⟩
  let make (source : Nat) (draft : Draft) : Command := .make (.atEnd (block source)) draft .synthetic
  let fork (source first second : Nat) : Command :=
    make source (.condBranch (.parameter (block 0) 0) (block first) (block second))
  List.foldl Module.after (.empty "test")
    [.declareFunction "main" [.ofBuiltin .i1] .void, .appendEntryBlock ⟨0⟩, .appendBlock ⟨0⟩ [],
      .appendBlock ⟨0⟩ [], .appendBlock ⟨0⟩ [], fork 0 1 2, fork 1 1 3, make 2 (.branch (block 3)),
      make 3 .ret, .declareFunction "other" [] .void, .appendEntryBlock ⟨1⟩]

/-- The edge to itself is led to the last block, where another edge leads already. -/
theorem detour_redirected :
    let block (address : Nat) : BlockId := ⟨⟨0⟩, address⟩
    let granted := (replaceSuccessor ⟨block 1, 0⟩ (block 1) (block 3)).run detour
    let foreign := (replaceSuccessor ⟨block 1, 0⟩ (block 1) ⟨⟨1⟩, 0⟩).run detour
    granted.result = .ok true ∧
    detour.Redirects granted.state ⟨block 1, 0⟩ (block 1) (block 3) ∧
    (∃ g, granted.state.function? ⟨0⟩ = some g ∧
      (FlowGraph.ofFunction g).successors (block 1) = [block 3] ∧
      (FlowGraph.ofFunction g).predecessors (block 2) = [block 0]) ∧
    (∃ violation, foreign.result = .error violation) ∧ foreign.state = detour := by
  intro block granted foreign
  have hreachable : detour.Reachable := (Reachable.empty "test").edits _
  obtain ⟨hgranted, -⟩ := redirection_exact hreachable ⟨block 1, 0⟩ (block 1) (block 3)
  obtain ⟨-, hrefused⟩ := redirection_exact hreachable ⟨block 1, 0⟩ (block 1) ⟨⟨1⟩, 0⟩
  let i : Instruction := ⟨.condBranch (.parameter (block 0) 0) (block 1) (block 3), .synthetic⟩
  have hi : detour.instruction? ⟨block 1, 0⟩ = some i := by decide +kernel
  obtain ⟨f, b, hstands⟩ := exists_stands_iff.2 hi
  have hpresent : ∀ address ∈ [2, 3], (f.block? (block address)).isSome := by
    intro address haddress
    have hblock : (detour.block? (block address)).isSome := by
      rcases List.mem_pair.1 haddress with rfl | rfl <;> decide +kernel
    rwa [Module.block?, show detour.function? (block address).function = some f from
      hstands.function, Option.bind_some] at hblock
  obtain ⟨n, g, hresult, rfl, hredirects, hg, htargets, hgraph⟩ :=
    hgranted f b i hstands rfl (hpresent 3 (by simp))
  obtain ⟨violation, herror, hkept⟩ := hrefused (.inl (by decide))
  refine ⟨hresult.trans (by decide), hredirects, ⟨g, hg, ?_, ?_⟩, ⟨violation, herror⟩, hkept⟩
  · obtain ⟨c, hc, hsuccessors⟩ := hgraph.successors
    obtain rfl : b = c := Option.some.inj (hstands.block.symm.trans hc)
    rw [hsuccessors, htargets]
    decide
  · rw [hgraph.predecessors (block 2) (hpresent 2 (by simp)) (by decide) (by decide)]
    have hbefore : (detour.function? ⟨0⟩).map
        (fun f => (FlowGraph.ofFunction f).predecessors (block 2)) = some [block 0] := by
      decide +kernel
    rw [show detour.function? ⟨0⟩ = some f from hstands.function, Option.map_some] at hbefore
    exact Option.some.inj hbefore

end Detour

end Module

end BlockIR
