import BlockIR.Proofs.Consistency
import BlockIR.Proofs.EdgeTables
import BlockIR.Proofs.TraversalFaults
import Mathlib.Data.List.Chain
/-!
Paths through a function and the stacks they bring along.

The discipline is stated over paths of any length, without the traversal that checks it: every
instruction on a path keeps it, and all paths to a block bring the same stack.  A labelling of blocks
with stacks stands between the two: the traversal finds no fault exactly where there is one, and one
exists exactly where the paths keep the discipline.
-/

namespace BlockIR

/-- The faults against stack discipline. -/
def Fault.concernsStack : Fault → Bool
  | .deallocationOutOfOrder _ _ _ | .leakedAllocation _ _ | .inconsistentStackAtJoin _ => true
  | _ => false

/-- The blocks that the terminator of a block leads to. -/
def Block.targets (b : Block) : List BlockId :=
  (b.terminator?.map Instruction.successors).getD []

namespace Function

/-- The live instructions of a block; a block that is not there has none. -/
def instructionsAt (f : Function) (block : BlockId) : List (Nat × Instruction) :=
  ((f.block? block).map Block.instructions).getD []

/-- The terminator of one block leads to another. -/
def Edge (f : Function) (source target : BlockId) : Prop :=
  ∃ b, f.block? source = some b ∧ target ∈ b.targets

/-- Blocks as a run can enter them one after the other, beginning with the entry. -/
def IsPath (f : Function) (path : List BlockId) : Prop :=
  path.head? = f.entry? ∧ path.IsChain f.Edge

/-- Every edge leads to a block of the function. -/
def EdgesInside (f : Function) : Prop :=
  ∀ source target, f.Edge source target → (f.block? target).isSome

end Function

namespace StackDiscipline

/-- The stack after an instruction, unless the instruction breaks the discipline. -/
def execute (id : InstructionId) (i : Instruction) (live : Stack) : Option Stack :=
  match i.operation with
  | .allocStack _ => some (id :: live)
  | .deallocStack location =>
      match location.instruction? with
      | none => some live
      | some freed => if live.head? = some freed then some live.tail else none
  | .ret => if live = [] then some live else none
  | _ => some live

/-- The stack after instructions of a block, unless one of them breaks the discipline. -/
def executeAll (block : BlockId) (live : Stack) : List (Nat × Instruction) → Option Stack
  | [] => some live
  | (address, i) :: rest =>
      (execute ⟨block, address⟩ i live).bind (fun after => executeAll block after rest)

/-- The stack after the blocks of a path, unless an instruction on it breaks the discipline. -/
def traverse (f : Function) (live : Stack) : List BlockId → Option Stack
  | [] => some live
  | block :: rest =>
      (executeAll block live (f.instructionsAt block)).bind (fun after => traverse f after rest)

/-- The discipline over paths: no instruction on a path breaks it, and any two paths arrive at a
block with the same stack. -/
structure KeptOnPaths (f : Function) : Prop where
  unbroken : ∀ path, f.IsPath path → (traverse f [] path).isSome
  agreeing : ∀ first second block, f.IsPath (first ++ [block]) → f.IsPath (second ++ [block]) →
    traverse f [] first = traverse f [] second

/-- A stack for each labelled block such that the entry begins with none and a labelled block hands
its final stack on to every block after it. -/
structure Labelling (f : Function) (label : BlockId → Option Stack) : Prop where
  entry : ∀ entry, f.entry? = some entry → label entry = some []
  flow : ∀ block live, label block = some live →
    ∃ out, executeAll block live (f.instructionsAt block) = some out ∧
      ∀ target, f.Edge block target → label target = some out

theorem executeAll_append (block : BlockId) (live : Stack) (first second : List (Nat × Instruction)) :
    executeAll block live (first ++ second) =
      (executeAll block live first).bind (fun after => executeAll block after second) := by
  induction first generalizing live with
  | nil => rfl
  | cons head tail ih =>
      obtain ⟨address, i⟩ := head
      simp only [List.cons_append, executeAll, ih, Option.bind_assoc]

theorem traverse_append (f : Function) (live : Stack) (first second : List BlockId) :
    traverse f live (first ++ second) =
      (traverse f live first).bind (fun after => traverse f after second) := by
  induction first generalizing live with
  | nil => rfl
  | cons block rest ih => simp only [List.cons_append, traverse, ih, Option.bind_assoc]

theorem traverse_singleton (f : Function) (live : Stack) (block : BlockId) :
    traverse f live [block] = executeAll block live (f.instructionsAt block) := by
  simp [traverse]

end StackDiscipline

namespace Function

theorem isPath_singleton {f : Function} {block : BlockId} :
    f.IsPath [block] ↔ f.entry? = some block := by
  simp [IsPath, eq_comm]

theorem isPath_concat {f : Function} {path : List BlockId} {last block : BlockId} :
    f.IsPath (path ++ [last] ++ [block]) ↔ f.IsPath (path ++ [last]) ∧ f.Edge last block := by
  have hhead : (path ++ [last] ++ [block]).head? = (path ++ [last]).head? := by
    cases path <;> rfl
  rw [IsPath, IsPath, hhead, List.append_assoc, List.singleton_append,
    List.isChain_append_cons_cons]
  simp [and_assoc]

theorem block?_entry {f : Function} {entry : BlockId} (hentry : f.entry? = some entry) :
    (f.block? entry).isSome := by
  unfold Function.entry? at hentry
  split at hentry
  · simp at hentry
  · rename_i hblocks
    obtain rfl := Option.some.inj hentry
    cases hlist : f.blocks with
    | nil => simp [hlist] at hblocks
    | cons b rest => simp [block?, hlist]

/-- Where edges stay inside, none of them is left out of the graph. -/
theorem edges_eq_targets {f : Function} {block : BlockId} {b : Block}
    (hb : f.block? block = some b) (hinside : f.EdgesInside) : b.edges f.id = b.targets := by
  have hlocal : ∀ target ∈ b.targets, target.function = f.id := by
    intro target htarget
    obtain ⟨c, hc⟩ := Option.isSome_iff_exists.1 (hinside block target ⟨b, hb, htarget⟩)
    exact function_of_block? hc
  rw [Block.targets] at hlocal ⊢
  rw [Block.edges]
  cases hterminator : b.terminator? with
  | none => rfl
  | some i =>
      simp only [hterminator, Option.map_some, Option.getD_some] at hlocal ⊢
      apply List.filter_eq_self.2
      intro target htarget
      simpa using hlocal target htarget

theorem block?_edges {f : Function} {block target : BlockId} {b : Block}
    (hb : f.block? block = some b) (hinside : f.EdgesInside) :
    target ∈ (FlowGraph.ofFunction f).successors block ↔ target ∈ b.targets := by
  rw [FlowGraph.successors_ofFunction (Function.mem_blocksWithId_of_block? hb),
    List.mem_eraseDups, edges_eq_targets hb hinside]

end Function

namespace StackDiscipline

/-- The checker's step finds a fault exactly where the instruction breaks the discipline, and leaves
the same stack otherwise. -/
theorem step_eq_nil_iff (id : InstructionId) (i : Instruction) (live after : Stack) :
    step id i live = (after, []) ↔ execute id i live = some after := by
  unfold step execute
  cases i.operation with
  | deallocStack location =>
      cases hfreed : location.instruction? with
      | none => simp [hfreed]
      | some freed => by_cases htop : live.head? = some freed <;> simp [hfreed, htop]
  | ret => cases live <;> simp
  | _ => simp

theorem walk_eq_nil_iff (block : BlockId) (live after : Stack)
    (instructions : List (Nat × Instruction)) :
    walk block live instructions = (after, []) ↔
      executeAll block live instructions = some after := by
  induction instructions generalizing live with
  | nil => simp [walk, executeAll]
  | cons head tail ih =>
      obtain ⟨address, i⟩ := head
      simp only [walk, executeAll, Option.bind_eq_some_iff, ← step_eq_nil_iff, ← ih]
      rcases step ⟨block, address⟩ i live with ⟨middle, faults⟩
      simp only [Prod.mk.injEq, List.append_eq_nil_iff]
      constructor
      · rintro ⟨hafter, hfaults, hrest⟩
        exact ⟨middle, ⟨rfl, hfaults⟩, Prod.ext hafter hrest⟩
      · rintro ⟨_, ⟨rfl, hfaults⟩, hwalk⟩
        simp [hwalk, hfaults]

namespace Sweep

/-- What a traversal that has found no fault keeps: pending blocks are entered, entered blocks exist,
and an entered block that is not pending has handed its final stack on. -/
structure Settled (f : Function) (s : Sweep) : Prop where
  unreported : s.reported = []
  pending : ∀ block ∈ s.pending, (s.stackAt? block).isSome
  present : ∀ block live, s.stackAt? block = some live → (f.block? block).isSome
  walked : ∀ block live, s.stackAt? block = some live → block ∉ s.pending →
    ∃ out, executeAll block live (f.instructionsAt block) = some out ∧
      ∀ target, f.Edge block target → s.stackAt? target = some out

/-- What following edges to `targets` with the stack `live` leaves, where no fault is found. -/
structure Followed (f : Function) (live : Stack) (targets : List BlockId) (s after : Sweep) :
    Prop where
  unreported : after.reported = []
  kept : ∀ block stack, s.stackAt? block = some stack → after.stackAt? block = some stack
  delayed : ∀ block ∈ s.pending, block ∈ after.pending
  pending : ∀ block ∈ after.pending, block ∈ s.pending ∨ (after.stackAt? block).isSome
  fresh : ∀ block stack, after.stackAt? block = some stack →
    s.stackAt? block = some stack ∨ block ∈ after.pending ∧ (f.block? block).isSome
  reached : ∀ target ∈ targets, (f.block? target).isSome → after.stackAt? target = some live

theorem Followed.nil {f : Function} {live : Stack} {s : Sweep} (hreported : s.reported = []) :
    Followed f live [] s s where
  unreported := hreported
  kept := fun _ _ h => h
  delayed := fun _ h => h
  pending := fun _ h => Or.inl h
  fresh := fun _ _ h => Or.inl h
  reached := by simp

/-- A target that is missing, or that is entered with the same stack already, changes nothing. -/
theorem Followed.skip {f : Function} {live : Stack} {target : BlockId} {rest : List BlockId}
    {s after : Sweep} (hrest : Followed f live rest s after)
    (htarget : (f.block? target).isSome → s.stackAt? target = some live) :
    Followed f live (target :: rest) s after where
  unreported := hrest.unreported
  kept := hrest.kept
  delayed := hrest.delayed
  pending := hrest.pending
  fresh := hrest.fresh
  reached := by
    intro block hblock hsome
    rcases List.mem_cons.1 hblock with rfl | hblock
    · exact hrest.kept block live (htarget hsome)
    · exact hrest.reached block hblock hsome

theorem Followed.enter {f : Function} {live : Stack} {target : BlockId} {rest : List BlockId}
    {s after : Sweep} (hpresent : (f.block? target).isSome) (hnone : s.stackAt? target = none)
    (hrest : Followed f live rest
      { s with entered := (target, live) :: s.entered, pending := target :: s.pending } after) :
    Followed f live (target :: rest) s after := by
  have hkept := hrest.kept
  have hfresh := hrest.fresh
  simp only [stackAt?_enter] at hkept hfresh
  have htarget : after.stackAt? target = some live := hkept target live (by simp)
  refine ⟨hrest.unreported, ?_, ?_, ?_, ?_, ?_⟩
  · intro block stack hblock
    have hne : block ≠ target := by
      rintro rfl
      simp [hnone] at hblock
    exact hkept block stack (by simpa [hne] using hblock)
  · exact fun block hblock => hrest.delayed block (List.mem_cons_of_mem _ hblock)
  · intro block hblock
    rcases hrest.pending block hblock with hmem | hsome
    · rcases List.mem_cons.1 hmem with rfl | hmem
      · exact Or.inr (by simp [htarget])
      · exact Or.inl hmem
    · exact Or.inr hsome
  · intro block stack hblock
    rcases hfresh block stack hblock with hstack | hnew
    · by_cases heq : block = target
      · subst heq
        exact Or.inr ⟨hrest.delayed block List.mem_cons_self, hpresent⟩
      · exact Or.inl (by simpa [heq] using hstack)
    · exact Or.inr hnew
  · intro block hblock hsome
    rcases List.mem_cons.1 hblock with rfl | hblock
    · exact htarget
    · exact hrest.reached block hblock hsome

theorem followed_of_no_fault {f : Function} {live : Stack} {s after : Sweep}
    {targets : List BlockId} (hreported : s.reported = [])
    (hfollow : follow f live s targets = (after, [])) : Followed f live targets s after := by
  induction targets generalizing s with
  | nil =>
      simp only [follow, Prod.mk.injEq, and_true] at hfollow
      subst hfollow
      exact Followed.nil hreported
  | cons target rest ih =>
      rw [follow] at hfollow
      split at hfollow
      · rename_i hmissing
        refine (ih hreported hfollow).skip (fun hsome => ?_)
        simp [Option.isNone_iff_eq_none.1 hmissing] at hsome
      · rename_i hpresent
        split at hfollow
        · rename_i hnone
          refine Followed.enter ?_ hnone (ih hreported hfollow)
          simpa [Option.isSome_iff_ne_none] using hpresent
        · rename_i stack hstack
          split at hfollow
          · rename_i hsame
            have hlive : stack = live := by simpa [hreported] using hsame
            exact (ih hreported hfollow).skip (fun _ => hlive ▸ hstack)
          · simp at hfollow

/-- Walking a pending block without finding a fault keeps the traversal settled. -/
theorem Settled.advance {f : Function} (hinside : f.EdgesInside) {entered : List (BlockId × Stack)}
    {block : BlockId} {pending reported : List BlockId} {after : Sweep}
    (hsettled : Settled f ⟨entered, block :: pending, reported⟩)
    (hadvance : advance f (.ofFunction f) ⟨entered, pending, reported⟩ block = (after, [])) :
    Settled f after ∧ ∀ other live, Sweep.stackAt? ⟨entered, pending, reported⟩ other = some live →
      after.stackAt? other = some live := by
  obtain ⟨live, hlive⟩ :=
    Option.isSome_iff_exists.1 (hsettled.pending block List.mem_cons_self)
  obtain ⟨b, hb⟩ := Option.isSome_iff_exists.1 (hsettled.present block live hlive)
  have hlive' : Sweep.stackAt? ⟨entered, pending, reported⟩ block = some live := hlive
  simp only [Sweep.advance, hb, hlive', Prod.mk.injEq, List.append_eq_nil_iff] at hadvance
  obtain ⟨hafter, hwalk, hjoins⟩ := hadvance
  have hexecute : executeAll block live b.instructions =
      some (walk block live b.instructions).1 :=
    (walk_eq_nil_iff _ _ _ _).1 (Prod.ext rfl hwalk)
  have hfollowed := followed_of_no_fault (s := ⟨entered, pending, reported⟩)
    hsettled.unreported (Prod.ext hafter hjoins)
  refine ⟨⟨hfollowed.unreported, ?_, ?_, ?_⟩, hfollowed.kept⟩
  · intro other hother
    rcases hfollowed.pending other hother with hmem | hsome
    · obtain ⟨stack, hstack⟩ :=
        Option.isSome_iff_exists.1 (hsettled.pending other (List.mem_cons_of_mem _ hmem))
      exact Option.isSome_iff_exists.2 ⟨stack, hfollowed.kept other stack hstack⟩
    · exact hsome
  · intro other stack hother
    rcases hfollowed.fresh other stack hother with hold | hnew
    · exact hsettled.present other stack hold
    · exact hnew.2
  · intro other stack hother hwaiting
    have hold : Sweep.stackAt? ⟨entered, pending, reported⟩ other = some stack := by
      rcases hfollowed.fresh other stack hother with hold | hnew
      · exact hold
      · exact absurd hnew.1 hwaiting
    by_cases heq : other = block
    · -- the block just walked: its targets were entered with its final stack
      subst heq
      obtain rfl : live = stack := by simpa [hlive'] using hold
      refine ⟨_, by simpa [Function.instructionsAt, hb] using hexecute, ?_⟩
      rintro target ⟨b', hb', htarget⟩
      obtain rfl : b = b' := by simpa [hb] using hb'
      exact hfollowed.reached target ((Function.block?_edges hb hinside).2 htarget)
        (hinside other target ⟨b, hb, htarget⟩)
    · have hdone : other ∉ block :: pending := by
        intro hmem
        rcases List.mem_cons.1 hmem with h | h
        · exact heq h
        · exact hwaiting (hfollowed.delayed other h)
      obtain ⟨out, hout, htargets⟩ := hsettled.walked other stack hold hdone
      exact ⟨out, hout, fun target hedge => hfollowed.kept target out (htargets target hedge)⟩

/-- A traversal that ends without a fault leaves a stack for each block it entered, and each of these
blocks hands its final stack on. -/
theorem Settled.exists_flow {f : Function} (hinside : f.EdgesInside) {s : Sweep}
    (hsettled : Settled f s) (hrun : run f (.ofFunction f) s = []) :
    ∃ label : BlockId → Option Stack,
      (∀ block live, s.stackAt? block = some live → label block = some live) ∧
      ∀ block live, label block = some live →
        ∃ out, executeAll block live (f.instructionsAt block) = some out ∧
          ∀ target, f.Edge block target → label target = some out := by
  induction s using run.induct f (.ofFunction f) with
  | case1 entered reported =>
      exact ⟨stackAt? ⟨entered, [], reported⟩, fun _ _ h => h,
        fun block live hlive => hsettled.walked block live hlive (by simp)⟩
  | case2 entered block pending reported next ih =>
      rw [run] at hrun
      obtain ⟨hfaults, hrest⟩ := List.append_eq_nil_iff.1 hrun
      obtain ⟨hnext, hkept⟩ := hsettled.advance hinside (Prod.ext rfl hfaults)
      obtain ⟨label, hlabel, hflow⟩ := ih hnext hrest
      exact ⟨label, fun other live hother => hlabel other live (hkept other live hother), hflow⟩

/-- The traversal has entered blocks with the stacks they are labelled with, and no others. -/
def Agrees (label : BlockId → Option Stack) (s : Sweep) : Prop :=
  s.reported = [] ∧ ∀ block live, s.stackAt? block = some live → label block = some live

theorem Agrees.follow {f : Function} {label : BlockId → Option Stack} {live : Stack} {s : Sweep}
    {targets : List BlockId} (hagrees : Agrees label s)
    (htargets : ∀ target ∈ targets, (f.block? target).isSome → label target = some live) :
    (follow f live s targets).2 = [] ∧ Agrees label (follow f live s targets).1 := by
  induction targets generalizing s with
  | nil => exact ⟨rfl, hagrees⟩
  | cons target rest ih =>
      have hrest : ∀ target ∈ rest, (f.block? target).isSome → label target = some live :=
        fun block hblock => htargets block (List.mem_cons_of_mem _ hblock)
      rw [Sweep.follow]
      split
      · exact ih hagrees hrest
      · rename_i hpresent
        have hlabel : label target = some live :=
          htargets target List.mem_cons_self (by simpa [Option.isSome_iff_ne_none] using hpresent)
        split
        · refine ih ⟨hagrees.1, ?_⟩ hrest
          intro block stack hblock
          rw [stackAt?_enter] at hblock
          split at hblock
          · rename_i heq
            rw [heq, hlabel, ← hblock]
          · exact hagrees.2 block stack hblock
        · rename_i stack hstack
          have hsame : stack = live := by
            have := hagrees.2 target stack hstack
            rw [hlabel] at this
            exact (Option.some.inj this).symm
          rw [if_pos (Or.inl hsame)]
          exact ih hagrees hrest

theorem Agrees.advance {f : Function} (hinside : f.EdgesInside)
    {label : BlockId → Option Stack} (hlabelling : Labelling f label) {s : Sweep}
    (hagrees : Agrees label s) (block : BlockId) :
    (advance f (.ofFunction f) s block).2 = [] ∧
      Agrees label (advance f (.ofFunction f) s block).1 := by
  rw [Sweep.advance]
  split
  · rename_i b live hb hlive
    obtain ⟨out, hout, hedges⟩ := hlabelling.flow block live (hagrees.2 block live hlive)
    have hwalk : walk block live b.instructions = (out, []) := by
      apply (walk_eq_nil_iff _ _ _ _).2
      simpa [Function.instructionsAt, hb] using hout
    have htargets : ∀ target ∈ (FlowGraph.ofFunction f).successors block,
        (f.block? target).isSome → label target = some out := fun target htarget _ =>
      hedges target ⟨b, hb, (Function.block?_edges hb hinside).1 htarget⟩
    simp only [hwalk, List.nil_append]
    exact hagrees.follow htargets
  · exact ⟨rfl, hagrees⟩

theorem Agrees.run {f : Function} (hinside : f.EdgesInside)
    {label : BlockId → Option Stack} (hlabelling : Labelling f label) {s : Sweep}
    (hagrees : Agrees label s) : run f (.ofFunction f) s = [] := by
  induction s using run.induct f (.ofFunction f) with
  | case1 entered reported => rw [Sweep.run]
  | case2 entered block pending reported next ih =>
      have hbefore : Agrees label ⟨entered, pending, reported⟩ := hagrees
      obtain ⟨hfaults, hnext⟩ := hbefore.advance hinside hlabelling block
      rw [Sweep.run]
      exact List.append_eq_nil_iff.2 ⟨hfaults, ih hnext⟩

end Sweep

/-- The traversal finds no fault exactly where the blocks can be labelled with stacks. -/
theorem faults_eq_nil_iff_labelling {f : Function} (hinside : f.EdgesInside) {entry : BlockId}
    (hentry : f.entry? = some entry) :
    faults f (.ofFunction f) = [] ↔ ∃ label, Labelling f label := by
  have hstart : ∀ block live, (Sweep.start entry).stackAt? block = some live →
      block = entry ∧ live = [] := by
    intro block live hblock
    rw [Sweep.start, Sweep.stackAt?, List.lookup_cons] at hblock
    split at hblock
    · rename_i heq
      exact ⟨by simpa using heq, (Option.some.inj hblock).symm⟩
    · simp at hblock
  have hfirst : (Sweep.start entry).stackAt? entry = some [] := by
    simp [Sweep.start, Sweep.stackAt?]
  simp only [faults, hentry]
  constructor
  · intro hrun
    have hsettled : Sweep.Settled f (Sweep.start entry) := by
      refine ⟨rfl, ?_, ?_, ?_⟩
      · intro block hblock
        obtain rfl : block = entry := by simpa [Sweep.start] using hblock
        simp [hfirst]
      · intro block live hblock
        obtain ⟨rfl, -⟩ := hstart block live hblock
        exact Function.block?_entry hentry
      · intro block live hblock hwaiting
        obtain ⟨rfl, -⟩ := hstart block live hblock
        simp [Sweep.start] at hwaiting
    obtain ⟨label, hlabel, hflow⟩ := hsettled.exists_flow hinside hrun
    refine ⟨label, ⟨?_, hflow⟩⟩
    intro other hother
    obtain rfl : entry = other := by simpa [hentry] using hother
    exact hlabel entry [] hfirst
  · rintro ⟨label, hlabelling⟩
    refine Sweep.Agrees.run hinside hlabelling ⟨rfl, ?_⟩
    intro block live hblock
    obtain ⟨rfl, rfl⟩ := hstart block live hblock
    exact hlabelling.entry block hentry

/-- A path arrives at a labelled block with the stack of its label. -/
theorem Labelling.arrive {f : Function} {label : BlockId → Option Stack}
    (hlabelling : Labelling f label) {path : List BlockId} {block : BlockId}
    (hpath : f.IsPath (path ++ [block])) :
    ∃ live, traverse f [] path = some live ∧ label block = some live := by
  induction path using List.reverseRecOn generalizing block with
  | nil => exact ⟨[], rfl, hlabelling.entry block (Function.isPath_singleton.1 hpath)⟩
  | append_singleton path last ih =>
      obtain ⟨hbefore, hedge⟩ := Function.isPath_concat.1 hpath
      obtain ⟨live, htraverse, hlabel⟩ := ih hbefore
      obtain ⟨out, hout, hedges⟩ := hlabelling.flow last live hlabel
      refine ⟨out, ?_, hedges block hedge⟩
      rw [traverse_append, htraverse, Option.bind_some, traverse_singleton, hout]

theorem Labelling.keptOnPaths {f : Function} {label : BlockId → Option Stack}
    (hlabelling : Labelling f label) : KeptOnPaths f where
  unbroken := by
    intro path hpath
    cases path using List.reverseRecOn with
    | nil => simp [traverse]
    | append_singleton path last =>
        obtain ⟨live, htraverse, hlabel⟩ := hlabelling.arrive hpath
        obtain ⟨out, hout, -⟩ := hlabelling.flow last live hlabel
        simp [traverse_append, htraverse, traverse_singleton, hout]
  agreeing := by
    intro first second block hfirst hsecond
    obtain ⟨live, htraverse, hlabel⟩ := hlabelling.arrive hfirst
    obtain ⟨live', htraverse', hlabel'⟩ := hlabelling.arrive hsecond
    rw [htraverse, htraverse', ← hlabel, ← hlabel']

open Classical in
/-- The stack that a path brings to a block, where there is a path to it. -/
noncomputable def arrivingStack (f : Function) (block : BlockId) : Option Stack :=
  if h : ∃ path, f.IsPath (path ++ [block]) then traverse f [] h.choose else none

theorem KeptOnPaths.arrivingStack_eq {f : Function} (hkept : KeptOnPaths f) {path : List BlockId}
    {block : BlockId} (hpath : f.IsPath (path ++ [block])) :
    arrivingStack f block = traverse f [] path := by
  have hexists : ∃ path, f.IsPath (path ++ [block]) := ⟨path, hpath⟩
  rw [arrivingStack, dif_pos hexists]
  exact hkept.agreeing _ _ block hexists.choose_spec hpath

theorem KeptOnPaths.labelling {f : Function} (hkept : KeptOnPaths f) :
    Labelling f (arrivingStack f) where
  entry := by
    intro entry hentry
    have hpath : f.IsPath ([] ++ [entry]) := Function.isPath_singleton.2 hentry
    exact hkept.arrivingStack_eq hpath
  flow := by
    intro block live hlive
    obtain ⟨path, hpath⟩ : ∃ path, f.IsPath (path ++ [block]) := by
      by_contra hnone
      rw [arrivingStack, dif_neg hnone] at hlive
      simp at hlive
    have htraverse : traverse f [] path = some live := by
      rw [← hkept.arrivingStack_eq hpath, hlive]
    obtain ⟨out, hout⟩ := Option.isSome_iff_exists.1 (hkept.unbroken _ hpath)
    refine ⟨out, ?_, ?_⟩
    · rwa [traverse_append, htraverse, Option.bind_some, traverse_singleton] at hout
    · intro target hedge
      have hlonger := Function.isPath_concat.2 ⟨hpath, hedge⟩
      rw [hkept.arrivingStack_eq hlonger, hout]

theorem exists_labelling_iff_keptOnPaths {f : Function} :
    (∃ label, Labelling f label) ↔ KeptOnPaths f :=
  ⟨fun ⟨_, hlabelling⟩ => hlabelling.keptOnPaths, fun hkept => ⟨_, hkept.labelling⟩⟩

/-- The traversal reports nothing else than faults against stack discipline. -/
theorem concernsStack_of_mem_faults {f : Function} {g : FlowGraph} {fault : Fault}
    (hfault : fault ∈ faults f g) : fault.concernsStack = true := by
  cases arises_of_mem_faults hfault with
  | step _ hstep => rcases cases_of_mem_step hstep with ⟨_, _, -, -, -, rfl⟩ | ⟨-, -, rfl⟩ <;> rfl
  | join _ => rfl

theorem faults_eq_nil_iff {f : Function} {g : FlowGraph} :
    faults f g = [] ↔ ∀ fault ∈ faults f g, fault.concernsStack = false := by
  constructor
  · intro hnil
    simp [hnil]
  · intro hnone
    apply List.eq_nil_iff_forall_not_mem.2
    intro fault hfault
    have hstack := concernsStack_of_mem_faults hfault
    rw [hnone fault hfault] at hstack
    simp at hstack

end StackDiscipline

namespace Module

theorem Consistent.function?_of_mem {m : Module} (hm : m.Consistent) {f : Function}
    (hf : f ∈ m.functions) : m.function? f.id = some f := by
  obtain ⟨index, hindex⟩ := List.getElem?_of_mem hf
  have hid : f.id = ⟨index⟩ := hm.ids ⟨index⟩ f hindex
  rw [hid]
  exact hindex

theorem Consistent.edgesInside {m : Module} (hm : m.Consistent) {f : Function}
    (hf : m.function? f.id = some f) : f.EdgesInside := by
  rintro source target ⟨b, hb, htarget⟩
  rw [Block.targets] at htarget
  cases hterminator : b.terminator? with
  | none => simp [hterminator] at htarget
  | some i =>
      simp only [hterminator, Option.map_some, Option.getD_some] at htarget
      obtain ⟨hlast, -⟩ := Option.filter_eq_some_iff.1 hterminator
      obtain ⟨address, -, hget⟩ := Option.bind_eq_some_iff.1 hlast
      have hsource : source.function = f.id := Function.function_of_block? hb
      have hblock : m.block? source = some b := by
        rw [block?, hsource, hf, Option.bind_some, hb]
      have hi : m.instruction? ⟨source, address⟩ = some i := by
        simp [instruction?, hblock, hget]
      obtain ⟨hlocal, hsome⟩ := (hm.fixed _ i hi).1 target htarget
      have hfunction : target.function = f.id := hlocal.trans hsource
      rwa [block?, hfunction, hf, Option.bind_some] at hsome

end Module

namespace StackDiscipline

/-- Stack discipline is checked exactly: the traversal reports no fault of a function of a reachable
module exactly where every path through the function keeps the discipline and paths agree. -/
theorem no_fault_iff_keptOnPaths {m : Module} (hm : m.Reachable) {f : Function}
    (hf : f ∈ m.functions) {entry : BlockId} (hentry : f.entry? = some entry) :
    (∀ fault ∈ faults f (.ofFunction f), fault.concernsStack = false) ↔ KeptOnPaths f := by
  have hconsistent := hm.consistent
  have hinside : f.EdgesInside := hconsistent.edgesInside (hconsistent.function?_of_mem hf)
  rw [← faults_eq_nil_iff, faults_eq_nil_iff_labelling hinside hentry,
    exists_labelling_iff_keptOnPaths]

/-- A module with a loop: its body allocates and frees a slot, and another slot is live around it. -/
def loop : Module :=
  let block (address : Nat) : BlockId := ⟨⟨0⟩, address⟩
  let slot (address index : Nat) : Operand := .result ⟨block address, index⟩ 0
  let make (address : Nat) (draft : Draft) : Command :=
    .make (.atEnd (block address)) draft .synthetic
  List.foldl Module.after (.empty "loop")
    [.declareFunction "main" [.ofBuiltin .i1] .void, .appendEntryBlock ⟨0⟩,
      .appendBlock ⟨0⟩ [], .appendBlock ⟨0⟩ [], .appendBlock ⟨0⟩ [],
      make 0 (.allocStack (.builtin .i64)), make 0 (.branch (block 1)),
      make 1 (.condBranch (.parameter (block 0) 0) (block 2) (block 3)),
      make 2 (.allocStack (.builtin .i1)), make 2 (.deallocStack (slot 2 0)),
      make 2 (.branch (block 1)), make 3 (.deallocStack (slot 0 0)), make 3 .ret]

def loopFunction : Function :=
  (loop.function? ⟨0⟩).getD ⟨⟨0⟩, "main", [], .void, []⟩

theorem loop_keptOnPaths : loopFunction ∈ loop.functions ∧ KeptOnPaths loopFunction := by
  have hmem : loopFunction ∈ loop.functions := by decide +kernel
  have hentry : loopFunction.entry? = some ⟨⟨0⟩, 0⟩ := by decide +kernel
  have hnone : ∀ fault ∈ faults loopFunction (.ofFunction loopFunction),
      fault.concernsStack = false := by decide +kernel
  have hreachable : loop.Reachable := (Module.Reachable.empty "loop").edits _
  exact ⟨hmem, (no_fault_iff_keptOnPaths hreachable hmem hentry).1 hnone⟩

end StackDiscipline

end BlockIR
