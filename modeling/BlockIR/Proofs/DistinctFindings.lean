import BlockIR.Proofs.Placement
import BlockIR.Proofs.SingleVisits
/-!
No finding is reported twice.

Faults are told apart by where they are found.  An instruction has at most one fault in its operands
and one against stack discipline, since its block is walked once; a block where paths disagree is
remembered when it is reported; and blocks and functions are gone through once each.
-/

namespace BlockIR

/-- Lists put together have no repetition if none of them has one and a mark of their members tells
from which list they come. -/
theorem nodup_flatMap_of_mark {α β κ : Type} {items : List α} {parts : α → List β} {key : α → κ}
    (mark : β → κ) (hkeys : (items.map key).Nodup) (hparts : ∀ item ∈ items, (parts item).Nodup)
    (hmark : ∀ item ∈ items, ∀ part ∈ parts item, mark part = key item) :
    (items.flatMap parts).Nodup := by
  rw [List.nodup_flatMap]
  refine ⟨hparts, (List.pairwise_map.1 hkeys).imp_of_mem ?_⟩
  intro first second hfirst hsecond hne part hleft hright
  apply hne
  rw [← hmark first hfirst part hleft, hmark second hsecond part hright]

namespace StackDiscipline

variable {f : Function} {g : FlowGraph} {fault : Fault}

theorem nodup_step (id : InstructionId) (i : Instruction) (live : Stack) :
    (step id i live).2.Nodup := by
  unfold step
  split
  · exact List.nodup_nil
  · split
    · exact List.nodup_nil
    · split
      · exact List.nodup_nil
      · exact List.nodup_singleton _
  · split
    · exact List.nodup_nil
    · exact List.nodup_singleton _
  · exact List.nodup_nil

theorem nodup_walk {block : BlockId} {live : Stack} {instructions : List (Nat × Instruction)}
    (hdistinct : (instructions.map Prod.fst).Nodup) :
    (walk block live instructions).2.Nodup := by
  induction instructions generalizing live with
  | nil => exact List.nodup_nil
  | cons head tail ih =>
      obtain ⟨address, i⟩ := head
      rw [List.map_cons, List.nodup_cons] at hdistinct
      simp only [walk, List.nodup_append]
      refine ⟨nodup_step _ i live, ih hdistinct.2, ?_⟩
      rintro fault hhere _ hlater rfl
      obtain ⟨other, hother, hfound⟩ := instruction?_of_mem_walk hlater
      rw [instruction?_of_mem_step hhere] at hfound
      apply hdistinct.1
      simp_all

namespace Sweep

variable {s : Sweep}

/-- Following edges reports blocks that were not reported before, and remembers them. -/
theorem exists_reports (f : Function) (live : Stack) (s : Sweep) (targets : List BlockId) :
    ∃ new : List BlockId, (follow f live s targets).2 = new.map .inconsistentStackAtJoin ∧
      new.Nodup ∧ (∀ block ∈ new, block ∉ s.reported) ∧
      ∀ block, block ∈ (follow f live s targets).1.reported ↔ block ∈ new ∨ block ∈ s.reported := by
  induction targets generalizing s with
  | nil => exact ⟨[], rfl, List.nodup_nil, by simp, by simp [follow]⟩
  | cons target rest ih =>
      rw [follow]
      split
      · exact ih s
      · split
        · exact ih { s with entered := (target, live) :: s.entered, pending := target :: s.pending }
        · split
          · exact ih s
          · rename_i stack _ hreport
            obtain ⟨new, hfaults, hdistinct, hfresh, hkept⟩ :=
              ih { s with reported := target :: s.reported }
            have htarget : target ∉ s.reported := fun hmem => hreport (.inr hmem)
            refine ⟨target :: new, by simp [hfaults], ?_, ?_, ?_⟩
            · rw [List.nodup_cons]
              exact ⟨fun hmem => hfresh target hmem List.mem_cons_self, hdistinct⟩
            · intro block hblock
              rcases List.mem_cons.1 hblock with rfl | hlater
              · exact htarget
              · exact fun hold => hfresh block hlater (List.mem_cons_of_mem _ hold)
            · intro block
              simp only [hkept, List.mem_cons]
              tauto

/-- A turn reports what is found in its block, and then blocks where paths disagree. -/
theorem exists_reports_advance {block : BlockId} {b : Block} {live : Stack}
    (hb : f.block? block = some b) (hlive : s.stackAt? block = some live) :
    ∃ new : List BlockId, (advance f g s block).2 =
        (walk block live b.instructions).2 ++ new.map .inconsistentStackAtJoin ∧
      new.Nodup ∧ (∀ block ∈ new, block ∉ s.reported) ∧
      ∀ other, other ∈ (advance f g s block).1.reported ↔ other ∈ new ∨ other ∈ s.reported := by
  obtain ⟨new, hjoins, hrest⟩ :=
    exists_reports f (walk block live b.instructions).1 s (g.successors block)
  refine ⟨new, ?_, ?_⟩
  · simp only [advance, hb, hlive, hjoins]
  · simpa only [advance, hb, hlive] using hrest

/-- A fault that a traversal can still report: a block where paths disagree that was not reported so
far, or a fault of an instruction in one of the blocks to be walked. -/
def Outstanding (s : Sweep) (blocks : List BlockId) (fault : Fault) : Prop :=
  (∃ block, fault = .inconsistentStackAtJoin block ∧ block ∉ s.reported) ∨
    ∃ id, fault.instruction? = some id ∧ id.block ∈ blocks

theorem Walks.outstanding {visits : List (BlockId × List Fault)} (h : Walks f g s visits) :
    ∀ fault ∈ visits.flatMap Prod.snd, s.Outstanding (visits.map Prod.fst) fault := by
  induction h with
  | done entered reported => simp
  | @turn entered block pending reported b live visits hb hlive hrest ih =>
      obtain ⟨new, hfaults, -, hfresh, hkept⟩ := exists_reports_advance (g := g) hb hlive
      intro fault hfault
      rw [List.flatMap_cons, hfaults, List.mem_append, List.mem_append] at hfault
      rcases hfault with (hwalk | hjoin) | hlater
      · obtain ⟨address, -, hfound⟩ := instruction?_of_mem_walk hwalk
        exact .inr ⟨_, hfound, List.mem_cons_self⟩
      · obtain ⟨join, hnew, rfl⟩ := List.mem_map.1 hjoin
        exact .inl ⟨join, rfl, hfresh join hnew⟩
      · rcases ih fault hlater with ⟨join, rfl, hjoin⟩ | ⟨id, hfound, hblock⟩
        · exact .inl ⟨join, rfl, fun hold => hjoin ((hkept join).2 (.inr hold))⟩
        · exact .inr ⟨id, hfound, List.mem_cons_of_mem _ hblock⟩

/-- A traversal that walks no block twice reports no fault twice. -/
theorem Walks.nodup {visits : List (BlockId × List Fault)} (h : Walks f g s visits)
    (hordered : ∀ block b, f.block? block = some b → b.Ordered)
    (hdistinct : (visits.map Prod.fst).Nodup) : (visits.flatMap Prod.snd).Nodup := by
  induction h with
  | done entered reported => simp
  | @turn entered block pending reported b live visits hb hlive hrest ih =>
      rw [List.map_cons, List.nodup_cons] at hdistinct
      obtain ⟨new, hfaults, hnew, -, hkept⟩ := exists_reports_advance (g := g) hb hlive
      have hb_ordered := hordered block b hb
      have hwalk : (walk block live b.instructions).2.Nodup :=
        nodup_walk (hb_ordered.map_fst_instructions ▸ hb_ordered.nodup)
      have hjoins : (new.map Fault.inconsistentStackAtJoin).Nodup :=
        hnew.map (fun _ _ heq => Fault.inconsistentStackAtJoin.inj heq)
      rw [List.flatMap_cons, hfaults, List.nodup_append, List.nodup_append]
      refine ⟨⟨hwalk, hjoins, ?_⟩, ih hdistinct.2, ?_⟩
      · rintro fault hfound _ hjoin rfl
        obtain ⟨join, -, rfl⟩ := List.mem_map.1 hjoin
        obtain ⟨address, -, hnone⟩ := instruction?_of_mem_walk hfound
        simp [Fault.instruction?] at hnone
      · -- Later turns are in other blocks, and what this turn reported is remembered.
        rintro fault hhere _ hlater rfl
        rcases List.mem_append.1 hhere with hfound | hjoin
        · obtain ⟨address, -, hat⟩ := instruction?_of_mem_walk hfound
          rcases hrest.outstanding fault hlater with ⟨join, rfl, -⟩ | ⟨id, hid, hblock⟩
          · simp [Fault.instruction?] at hat
          · obtain rfl := Option.some.inj (hat.symm.trans hid)
            exact hdistinct.1 hblock
        · obtain ⟨join, hreported, rfl⟩ := List.mem_map.1 hjoin
          rcases hrest.outstanding _ hlater with ⟨other, heq, hfresh⟩ | ⟨id, hid, -⟩
          · obtain rfl := Fault.inconsistentStackAtJoin.inj heq
            exact hfresh ((hkept join).2 (.inl hreported))
          · simp [Fault.instruction?] at hid

end Sweep

/-- The faults of a function against stack discipline are all different. -/
theorem nodup_faults (hinside : f.EdgesInside)
    (hordered : ∀ block b, f.block? block = some b → b.Ordered) :
    (faults f (.ofFunction f)).Nodup := by
  unfold faults
  split
  · exact List.nodup_nil
  · rename_i entry hentry
    obtain ⟨visits, hwalks, hperm⟩ := Sweep.exists_walks_start hinside hentry
    rw [hwalks.run_eq]
    exact hwalks.nodup hordered (hperm.nodup_iff.2 (FlowGraph.nodup_reachable _))

end StackDiscipline

namespace Module

variable {m : Module} {options : Options} {f : Function}

theorem nodup_operandFaults (m : Module) (checkTypes : Bool) (id : InstructionId)
    (i : Instruction) : (m.operandFaults checkTypes id i).Nodup := by
  unfold operandFaults
  split
  · exact List.nodup_singleton _
  · rename_i types _
    split
    · split
      · exact List.nodup_nil
      · rename_i index _ _
        cases types[index]? with
        | none => exact List.nodup_nil
        | some found => exact List.nodup_singleton _
    · exact List.nodup_nil

theorem nodup_blockFaults (hm : m.Consistent) (hlast : m.TerminatorsLast) (hf : f ∈ m.functions)
    {block : BlockId} {b : Block} (hb : (block, b) ∈ f.blocksWithId) :
    (Verifier.blockFaults m options f block b).Nodup := by
  obtain ⟨hfunction, hblock⟩ := hm.block?_of_mem_blocksWithId hf hb
  have hordered := hm.ordered block b (block?_eq_some.2 ⟨f, hfunction, hblock⟩)
  have hsame : ∀ entry ∈ b.instructions,
      Verifier.instructionFaults m options f b ⟨block, entry.1⟩ entry.2 =
        m.operandFaults options.checkOperandTypes ⟨block, entry.1⟩ entry.2 := by
    rintro ⟨address, i⟩ hentry
    exact instructionFaults_eq_operandFaults hm hlast options
      ⟨hfunction, hblock, hordered.mem_instructions.1 hentry⟩
  have hkeys : (b.instructions.map (fun entry =>
      some (InstructionId.mk block entry.1))).Nodup := by
    have haddresses : (b.instructions.map Prod.fst).Nodup :=
      hordered.map_fst_instructions ▸ hordered.nodup
    have hmapped := haddresses.map (f := fun address => some (InstructionId.mk block address))
      (fun first second heq => by simpa using heq)
    rwa [List.map_map] at hmapped
  unfold Verifier.blockFaults
  rw [List.flatMap_congr hsame]
  split
  · exact List.nodup_singleton _
  · rw [List.nodup_append]
    refine ⟨?_, ?_, ?_⟩
    · refine nodup_flatMap_of_mark Fault.instruction? hkeys ?_ ?_
      · exact fun entry _ => nodup_operandFaults m _ _ _
      · exact fun entry _ fault hfault => Verifier.instruction?_of_mem_operandFaults hfault
    · split
      · exact List.nodup_nil
      · exact List.nodup_singleton _
    · rintro fault hfault _ hend rfl
      obtain ⟨entry, -, hentry⟩ := List.mem_flatMap.1 hfault
      have hat := Verifier.instruction?_of_mem_operandFaults hentry
      split at hend
      · simp at hend
      · obtain rfl := List.mem_singleton.1 hend
        simp [Fault.instruction?] at hat

theorem nodup_unreachableBlocks (f : Function) (g : FlowGraph) :
    ((Verifier.unreachableBlocks f g).map Fault.unreachableBlock).Nodup := by
  apply List.Nodup.map
  · exact fun _ _ heq => Fault.unreachableBlock.inj heq
  · exact f.nodup_blocksWithId.filter _

/-- The faults of a function are all different: those of its blocks are found in different ones, and
the checks of paths report other kinds of faults than those of blocks and than each other. -/
theorem nodup_functionFaults (hm : m.Consistent) (hlast : m.TerminatorsLast)
    (hf : f ∈ m.functions) : (Verifier.functionFaults m options f).Nodup := by
  have hblocks : (f.blocksWithId.flatMap
      (fun entry => Verifier.blockFaults m options f entry.1 entry.2)).Nodup := by
    refine nodup_flatMap_of_mark Fault.block f.nodup_blocksWithId ?_ ?_
    · exact fun entry hentry => nodup_blockFaults hm hlast hf hentry
    · exact fun entry _ fault hfault => Verifier.block_of_mem_blockFaults hfault
  have hfunction := hm.function?_of_mem hf
  have hstack : (StackDiscipline.faults f (.ofFunction f)).Nodup := by
    refine StackDiscipline.nodup_faults (hm.edgesInside hfunction) ?_
    intro block b hb
    refine hm.ordered block b (block?_eq_some.2 ⟨f, ?_, hb⟩)
    rw [Function.function_of_block? hb, hfunction]
  simp only [Verifier.functionFaults, List.nodup_append]
  refine ⟨⟨hblocks, ?_, ?_⟩, ?_, ?_⟩
  · split
    · exact nodup_unreachableBlocks f _
    · exact List.nodup_nil
  · rintro fault hblock _ hunreachable rfl
    obtain ⟨entry, -, hentry⟩ := List.mem_flatMap.1 hblock
    have hpaths := Verifier.concernsPaths_of_mem_blockFaults hentry
    split at hunreachable
    · obtain ⟨other, -, rfl⟩ := List.mem_map.1 hunreachable
      simp [Fault.concernsPaths] at hpaths
    · simp at hunreachable
  · split
    · exact hstack
    · exact List.nodup_nil
  · rintro fault hearlier _ hfound rfl
    have hconcerns : fault.concernsStack = true := by
      split at hfound
      · exact StackDiscipline.concernsStack_of_mem_faults hfound
      · simp at hfound
    rcases List.mem_append.1 hearlier with hblock | hunreachable
    · obtain ⟨entry, -, hentry⟩ := List.mem_flatMap.1 hblock
      have hpaths := Verifier.concernsPaths_of_mem_blockFaults hentry
      simp [Fault.concernsStack_eq_false_of_concernsPaths hpaths] at hconcerns
    · split at hunreachable
      · obtain ⟨other, -, rfl⟩ := List.mem_map.1 hunreachable
        simp [Fault.concernsStack] at hconcerns
      · simp at hunreachable

theorem Consistent.nodup_ids (hm : m.Consistent) : (m.functions.map Function.id).Nodup := by
  have hindices : m.functions.map (fun f => f.id.index) = List.range m.functions.length := by
    apply List.ext_getElem
    · simp
    · intro index hmapped hrange
      have hin : index < m.functions.length := by simpa using hmapped
      have hid := hm.ids ⟨index⟩ m.functions[index] (by simp [function?])
      simp [hid]
  apply List.Nodup.of_map FunctionId.index
  rw [List.map_map]
  exact hindices ▸ List.nodup_range

theorem nodup_findings (hm : m.Consistent) (hlast : m.TerminatorsLast) (options : Options) :
    (Verifier.findings options m).Nodup := by
  rw [Verifier.findings_eq_flatMap]
  refine nodup_flatMap_of_mark (fun finding => finding.fault.block.function) hm.nodup_ids ?_ ?_
  · intro f hf
    apply List.Nodup.map
    · exact fun _ _ heq => (Finding.mk.inj heq).2
    · exact nodup_functionFaults hm hlast hf
  · intro f _ finding hfinding
    obtain ⟨fault, hfault, rfl⟩ := List.mem_map.1 hfinding
    exact Verifier.function_of_mem_functionFaults hfault

/-- Whatever the verifier is asked to check, it reports no finding twice; and the traversal of a
function with a body comes to its end, where it has walked each block that the search from the entry
lists once, and no other. -/
theorem findings_distinct_blocks_walked_once {m : Module} (hm : m.Reachable) :
    (∀ options, (Verifier.findings options m).Nodup) ∧
    ∀ f ∈ m.functions, ∀ entry, f.entry? = some entry →
      ∃ visits, StackDiscipline.Sweep.Walks f (.ofFunction f) (.start entry) visits ∧
        StackDiscipline.faults f (.ofFunction f) = visits.flatMap Prod.snd ∧
        (visits.map Prod.fst).Nodup ∧
        ∀ block, block ∈ visits.map Prod.fst ↔ block ∈ (FlowGraph.ofFunction f).reachable := by
  have hconsistent := hm.consistent
  refine ⟨nodup_findings hconsistent hm.terminatorsLast, ?_⟩
  intro f hf entry hentry
  have hinside : f.EdgesInside := hconsistent.edgesInside (hconsistent.function?_of_mem hf)
  obtain ⟨visits, hwalks, hperm⟩ := StackDiscipline.Sweep.exists_walks_start hinside hentry
  refine ⟨visits, hwalks, ?_, hperm.nodup_iff.2 (FlowGraph.nodup_reachable _), ?_⟩
  · rw [StackDiscipline.faults, hentry]
    exact hwalks.run_eq
  · exact fun block => hperm.mem_iff

section Contested

/-- A function with a block that three paths bring different stacks to, and another function of the
same name. -/
def contested : Module :=
  let block (address : Nat) : BlockId := ⟨⟨0⟩, address⟩
  let make (address : Nat) (draft : Draft) : Command :=
    .make (.atEnd (block address)) draft .synthetic
  let fork (first second : Nat) : Draft :=
    .condBranch (.parameter (block 0) 0) (block first) (block second)
  List.foldl Module.after (.empty "test")
    [.declareFunction "main" [.ofBuiltin .i1] .void, .appendEntryBlock ⟨0⟩, .appendBlock ⟨0⟩ [],
      .appendBlock ⟨0⟩ [], .appendBlock ⟨0⟩ [], .appendBlock ⟨0⟩ [], .appendBlock ⟨0⟩ [],
      .appendBlock ⟨0⟩ [], make 0 (fork 1 2), make 1 (fork 3 4),
      make 2 (.allocStack (.builtin .i64)), make 2 (.branch (block 5)),
      make 3 (.allocStack (.builtin .i64)), make 3 (.branch (block 5)),
      make 4 (.allocStack (.builtin .i64)), make 4 (.branch (block 5)), make 5 .ret,
      .declareFunction "main" [] .void, .appendEntryBlock ⟨1⟩]

def contestedFunction : Function :=
  (contested.function? ⟨0⟩).getD ⟨⟨0⟩, "main", [], .void, []⟩

theorem contested_distinct_walked_once :
    (let block (address : Nat) : BlockId := ⟨⟨0⟩, address⟩
    Verifier.findings ⟨true, true, true⟩ contested =
      [⟨"main", .emptyBlock (block 6)⟩, ⟨"main", .unreachableBlock (block 6)⟩,
        ⟨"main", .leakedAllocation ⟨block 5, 0⟩ 1⟩, ⟨"main", .inconsistentStackAtJoin (block 5)⟩,
        ⟨"main", .emptyBlock ⟨⟨1⟩, 0⟩⟩] ∧
    (Verifier.findings ⟨true, true, true⟩ contested).Nodup ∧
    ∃ visits, StackDiscipline.Sweep.Walks contestedFunction (.ofFunction contestedFunction)
        (.start (block 0)) visits ∧
      (visits.map Prod.fst).Nodup ∧
      ∀ other, other ∈ visits.map Prod.fst ↔ other ∈ [0, 1, 3, 5, 4, 2].map block) := by
  have hreachable : contested.Reachable := (Reachable.empty "test").edits _
  have hmem : contestedFunction ∈ contested.functions := by decide +kernel
  have hentry : contestedFunction.entry? = some ⟨⟨0⟩, 0⟩ := by decide +kernel
  have hlist : (FlowGraph.ofFunction contestedFunction).reachable =
      [0, 1, 3, 5, 4, 2].map (fun address => ⟨⟨0⟩, address⟩) := by decide +kernel
  obtain ⟨hdistinct, hwalked⟩ := findings_distinct_blocks_walked_once hreachable
  obtain ⟨visits, hwalks, -, hnodup, hblocks⟩ := hwalked contestedFunction hmem ⟨⟨0⟩, 0⟩ hentry
  refine ⟨by decide +kernel, hdistinct _, visits, hwalks, hnodup, ?_⟩
  intro other
  rw [hblocks, hlist]

end Contested

end Module

end BlockIR
