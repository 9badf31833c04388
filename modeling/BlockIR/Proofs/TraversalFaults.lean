import BlockIR.Proofs.Lookup
import BlockIR.Verifier.StackDiscipline
/-!
Where the faults of the traversal come from.

A fault is found at an instruction of the function, with the slots that are live there, or at a block
of the function where paths disagree.  Every stack that the traversal carries along is brought by a
path from the entry, so that the live slots are those that instructions of the function made.
-/

namespace BlockIR

theorem Function.mem_instructions_of_block? {f : Function} {block : BlockId} {b : Block}
    (hb : f.block? block = some b) {entry : Nat × Instruction} (hentry : entry ∈ b.instructions) :
    ((⟨block, entry.1⟩ : InstructionId), entry.2) ∈ f.instructions :=
  List.mem_flatMap.2 ⟨_, Function.mem_blocksWithId_of_block? hb,
    List.mem_map.2 ⟨entry, hentry, rfl⟩⟩

theorem Function.block?_of_mem_instructions {f : Function} {entry : InstructionId × Instruction}
    (h : entry ∈ f.instructions) : (f.block? entry.1.block).isSome := by
  obtain ⟨⟨block, b⟩, hblock, hentry⟩ := List.mem_flatMap.1 h
  obtain ⟨_, -, rfl⟩ := List.mem_map.1 hentry
  simp [block?_of_mem_blocksWithId hblock]

namespace StackDiscipline

variable {P : InstructionId → Prop} {f : Function} {g : FlowGraph} {live : Stack}
  {block : BlockId} {fault : Fault}

/-- A path from the entry brings a stack to a block, if each block on the way is walked with what the
one before it leaves. -/
inductive Arrives (f : Function) (g : FlowGraph) : BlockId → Stack → Prop where
  | entry {entry : BlockId} (hentry : f.entry? = some entry) : Arrives f g entry []
  | edge {block target : BlockId} {b : Block} {live : Stack} (harrives : Arrives f g block live)
      (hb : f.block? block = some b) (hedge : target ∈ g.successors block) :
      Arrives f g target (walk block live b.instructions).1

/-- The slots that are live in front of an instruction, the innermost first, on a path to it. -/
inductive LiveAt (f : Function) (g : FlowGraph) : InstructionId → Instruction → Stack → Prop where
  | walk {block : BlockId} {b : Block} {start : Stack} {before after : List (Nat × Instruction)}
      {address : Nat} {i : Instruction} (harrives : Arrives f g block start)
      (hb : f.block? block = some b) (hsplit : b.instructions = before ++ (address, i) :: after) :
      LiveAt f g ⟨block, address⟩ i (walk block start before).1

/-- A fault arises in a function: at an instruction, with the slots that are live there, or at a
block where paths disagree. -/
inductive Arises (f : Function) (g : FlowGraph) : Fault → Prop where
  | step {id : InstructionId} {i : Instruction} {live : Stack} {fault : Fault}
      (hlive : LiveAt f g id i live) (hfault : fault ∈ (step id i live).2) : Arises f g fault
  | join {target : BlockId} (hpresent : (f.block? target).isSome) :
      Arises f g (.inconsistentStackAtJoin target)

/-- An instruction is at fault if it frees another slot than the innermost live one, or returns while
slots are live. -/
theorem cases_of_mem_step {id : InstructionId} {i : Instruction}
    (hfault : fault ∈ (step id i live).2) :
    (∃ location slot, i.operation = .deallocStack location ∧ location.instruction? = some slot ∧
      live.head? ≠ some slot ∧
      fault = .deallocationOutOfOrder id slot.text (innermostText live)) ∨
    (i.operation = .ret ∧ live ≠ [] ∧ fault = .leakedAllocation id live.length) := by
  unfold step at hfault
  split at hfault
  · simp at hfault
  · rename_i location hoperation
    split at hfault
    · simp at hfault
    · rename_i slot hslot
      split at hfault
      · simp at hfault
      · rename_i hhead
        exact .inl ⟨location, slot, hoperation, hslot, hhead, List.mem_singleton.1 hfault⟩
  · rename_i hoperation
    split at hfault
    · simp at hfault
    · rename_i hlive
      exact .inr ⟨hoperation, by simpa using hlive, List.mem_singleton.1 hfault⟩
  · simp at hfault

/-- What holds of the live slots, and of the one that an instruction makes, holds of the slots that
are live behind the instruction. -/
theorem forall_mem_step {id : InstructionId} {i : Instruction} (hlive : ∀ slot ∈ live, P slot)
    (hmade : i.isAllocation = true → P id) : ∀ slot ∈ (step id i live).1, P slot := by
  obtain ⟨operation, site⟩ := i
  cases operation with
  | allocStack type =>
      intro slot hslot
      rcases List.mem_cons.1 hslot with rfl | hold
      · exact hmade rfl
      · exact hlive slot hold
  | deallocStack location =>
      simp only [step]
      split
      · exact hlive
      · split
        · exact fun slot hslot => hlive slot (List.mem_of_mem_tail hslot)
        · exact fun slot hslot => hlive slot (List.mem_of_mem_filter hslot)
  | _ => exact hlive

theorem forall_mem_walk {instructions : List (Nat × Instruction)}
    (hmade : ∀ entry ∈ instructions, entry.2.isAllocation = true → P ⟨block, entry.1⟩)
    (hlive : ∀ slot ∈ live, P slot) : ∀ slot ∈ (walk block live instructions).1, P slot := by
  induction instructions generalizing live with
  | nil => exact hlive
  | cons head tail ih =>
      exact ih (fun entry hentry => hmade entry (List.mem_cons_of_mem _ hentry))
        (forall_mem_step hlive (hmade head List.mem_cons_self))

theorem Arrives.forall_mem
    (hmade : ∀ entry ∈ f.instructions, entry.2.isAllocation = true → P entry.1)
    (h : Arrives f g block live) : ∀ slot ∈ live, P slot := by
  induction h with
  | entry _ => simp
  | edge _ hb _ ih =>
      refine forall_mem_walk (fun entry hentry => ?_) ih
      exact hmade _ (Function.mem_instructions_of_block? hb hentry)

theorem LiveAt.mem_instructions {id : InstructionId} {i : Instruction} (h : LiveAt f g id i live) :
    (id, i) ∈ f.instructions := by
  cases h with
  | @walk _ b _ _ _ address _ _ hb hsplit =>
      have hmem : (address, i) ∈ b.instructions := by simp [hsplit]
      exact Function.mem_instructions_of_block? hb hmem

/-- What holds of every slot that the function makes holds of the live ones. -/
theorem LiveAt.forall_mem
    (hmade : ∀ entry ∈ f.instructions, entry.2.isAllocation = true → P entry.1)
    {id : InstructionId} {i : Instruction} (h : LiveAt f g id i live) : ∀ slot ∈ live, P slot := by
  cases h with
  | walk harrives hb hsplit =>
      refine forall_mem_walk (fun entry hentry => ?_) (harrives.forall_mem hmade)
      exact hmade _ (Function.mem_instructions_of_block? hb (by simp [hsplit, hentry]))

/-- A fault of a walk is found at one of the instructions, with what those before it leave. -/
theorem exists_step_of_mem_walk {instructions : List (Nat × Instruction)}
    (hfault : fault ∈ (walk block live instructions).2) :
    ∃ before address i after, instructions = before ++ (address, i) :: after ∧
      fault ∈ (step ⟨block, address⟩ i (walk block live before).1).2 := by
  induction instructions generalizing live with
  | nil => simp [walk] at hfault
  | cons head tail ih =>
      rcases List.mem_append.1 hfault with hhere | hlater
      · exact ⟨[], head.1, head.2, tail, rfl, hhere⟩
      · obtain ⟨before, address, i, after, rfl, hfound⟩ := ih hlater
        exact ⟨head :: before, address, i, after, rfl, hfound⟩

namespace Sweep

variable {s : Sweep}

theorem stackAt?_enter (s : Sweep) (target block : BlockId) (live : Stack)
    (pending : List BlockId) :
    stackAt? { s with entered := (target, live) :: s.entered, pending := pending } block =
      if block = target then some live else s.stackAt? block := by
  by_cases hblock : block = target
  · simp [stackAt?, hblock]
  · have hne : (block == target) = false := by simpa using hblock
    simp [stackAt?, List.lookup_cons, hne, hblock]

/-- A fault found by following edges is a block of the function where paths disagree. -/
theorem exists_join_of_mem_follow {targets : List BlockId}
    (hfault : fault ∈ (s.follow f live targets).2) :
    ∃ target, (f.block? target).isSome ∧ fault = .inconsistentStackAtJoin target := by
  induction targets generalizing s with
  | nil => simp [follow] at hfault
  | cons target rest ih =>
      rw [follow] at hfault
      split at hfault
      · exact ih hfault
      · rename_i hpresent
        split at hfault
        · exact ih hfault
        · split at hfault
          · exact ih hfault
          · rcases List.mem_cons.1 hfault with rfl | hrest
            · exact ⟨target, by simpa [Option.isSome_iff_ne_none] using hpresent, rfl⟩
            · exact ih hrest

/-- Every block found so far is entered with a stack that a path brings. -/
def Carries (f : Function) (g : FlowGraph) (s : Sweep) : Prop :=
  ∀ block live, s.stackAt? block = some live → Arrives f g block live

theorem Carries.start {entry : BlockId} (hentry : f.entry? = some entry) :
    (start entry).Carries f g := by
  intro block live hlive
  simp only [Sweep.start, stackAt?, List.lookup_cons, List.lookup_nil] at hlive
  split at hlive
  · rename_i heq
    obtain rfl := Option.some.inj hlive
    obtain rfl : block = entry := by simpa using heq
    exact .entry hentry
  · simp at hlive

theorem Carries.follow (hs : s.Carries f g) {targets : List BlockId}
    (hlive : ∀ target ∈ targets, Arrives f g target live) :
    (s.follow f live targets).1.Carries f g := by
  induction targets generalizing s with
  | nil => exact hs
  | cons target rest ih =>
      obtain ⟨hhere, hrest⟩ := List.forall_mem_cons.1 hlive
      rw [Sweep.follow]
      split
      · exact ih hs hrest
      · split
        · refine ih (fun block other hother => ?_) hrest
          rw [stackAt?_enter] at hother
          split at hother
          · rename_i heq
            obtain rfl := Option.some.inj hother
            rwa [heq]
          · exact hs block other hother
        · split
          · exact ih hs hrest
          · exact ih (s := { s with reported := target :: s.reported }) hs hrest

theorem Carries.advance (hs : s.Carries f g) (block : BlockId) :
    (advance f g s block).1.Carries f g := by
  rw [Sweep.advance]
  split
  · rename_i b live hb hlive
    exact hs.follow (fun target hedge => .edge (hs block live hlive) hb hedge)
  · exact hs

theorem Carries.arises_of_mem_advance (hs : s.Carries f g)
    (hfault : fault ∈ (Sweep.advance f g s block).2) : Arises f g fault := by
  rw [Sweep.advance] at hfault
  split at hfault
  · rename_i b live hb hlive
    rcases List.mem_append.1 hfault with hwalk | hfollow
    · obtain ⟨before, address, i, after, hsplit, hstep⟩ := exists_step_of_mem_walk hwalk
      exact .step (.walk (hs block live hlive) hb hsplit) hstep
    · obtain ⟨target, hpresent, rfl⟩ := exists_join_of_mem_follow hfollow
      exact .join hpresent
  · simp at hfault

theorem Carries.arises_of_mem_run (hs : s.Carries f g) (hfault : fault ∈ s.run f g) :
    Arises f g fault := by
  induction s using run.induct f g with
  | case1 entered reported => simp [run] at hfault
  | case2 entered block pending reported next ih =>
      have hpopped : Carries f g ⟨entered, pending, reported⟩ := hs
      rw [run] at hfault
      rcases List.mem_append.1 hfault with hturn | hlater
      · exact hpopped.arises_of_mem_advance hturn
      · exact ih (hpopped.advance block) hlater

end Sweep

/-- Every fault that the traversal finds arises in the function. -/
theorem arises_of_mem_faults (hfault : fault ∈ faults f g) : Arises f g fault := by
  rw [faults] at hfault
  split at hfault
  · simp at hfault
  · rename_i entry hentry
    exact (Sweep.Carries.start hentry).arises_of_mem_run hfault

end StackDiscipline

end BlockIR
