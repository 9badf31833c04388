import BlockIR.FlowGraph
import BlockIR.Verifier.Finding
/-!
Stack discipline: slots are freed in reverse order of allocation on every path through a function.

Each reachable block is walked once, with the stack of live allocations that the first path to it
brings along; every other path has to bring the same stack.
-/

namespace BlockIR

section Lists

/-- Where one test implies another and fails at a member that the other accepts, it accepts fewer. -/
theorem countP_add_one_le {α : Type} {p q : α → Bool} {list : List α} {x : α} (hx : x ∈ list)
    (hp : p x = false) (hq : q x = true) (hpq : ∀ y, p y = true → q y = true) :
    list.countP p + 1 ≤ list.countP q := by
  induction list with
  | nil => simp at hx
  | cons head tail ih =>
      have hmono : tail.countP p ≤ tail.countP q := List.countP_mono_left (fun y _ => hpq y)
      simp only [List.countP_cons]
      rcases List.mem_cons.1 hx with rfl | htail
      · simp [hp, hq, hmono]
      · have := ih htail
        cases hhead : p head with
        | false => simp; omega
        | true => simp [hpq head hhead]; omega

end Lists

namespace StackDiscipline

/-- The live allocations, the innermost first. -/
abbrev Stack := List InstructionId

/-- The text of the innermost live allocation. -/
def innermostText (live : Stack) : String :=
  match live.head? with
  | none => "none"
  | some innermost => innermost.text

/-- The stack after an instruction, and the fault found at it.  An allocation freed out of order is
taken off the stack wherever it stands. -/
def step (id : InstructionId) (i : Instruction) (live : Stack) : Stack × List Fault :=
  match i.operation with
  | .allocStack _ => (id :: live, [])
  | .deallocStack location =>
      match location.instruction? with
      | none => (live, [])
      | some freed =>
          if live.head? = some freed then (live.tail, [])
          else (live.filter (· != freed),
            [.deallocationOutOfOrder id freed.text (innermostText live)])
  | .ret => (live, if live.isEmpty then [] else [.leakedAllocation id live.length])
  | _ => (live, [])

/-- The stack after the instructions of a block, and the faults found on the way. -/
def walk (block : BlockId) (live : Stack) : List (Nat × Instruction) → Stack × List Fault
  | [] => (live, [])
  | (address, i) :: rest =>
      let (after, faults) := step ⟨block, address⟩ i live
      let (final, more) := walk block after rest
      (final, faults ++ more)

/-- What is known while a function is walked. -/
structure Sweep where
  /-- The stack that each block found so far is entered with. -/
  entered : List (BlockId × Stack)
  /-- The blocks still to be walked, the next one first. -/
  pending : List BlockId
  /-- The blocks reported because paths to them disagree. -/
  reported : List BlockId

namespace Sweep

/-- The stack that a block is entered with, if a path to it was found. -/
def stackAt? (s : Sweep) (block : BlockId) : Option Stack :=
  s.entered.lookup block

/-- Before the first block is walked. -/
def start (entry : BlockId) : Sweep :=
  ⟨[(entry, [])], [entry], []⟩

/-- Follow the edges to blocks of the function with the stack that their source leaves. -/
def follow (f : Function) (live : Stack) (s : Sweep) : List BlockId → Sweep × List Fault
  | [] => (s, [])
  | target :: rest =>
      if (f.block? target).isNone then follow f live s rest
      else
        match s.stackAt? target with
        | none =>
            follow f live
              { s with entered := (target, live) :: s.entered, pending := target :: s.pending } rest
        | some stack =>
            if stack = live ∨ target ∈ s.reported then follow f live s rest
            else
              let (after, faults) :=
                follow f live { s with reported := target :: s.reported } rest
              (after, .inconsistentStackAtJoin target :: faults)

/-- The number of blocks that no path was found to. -/
def unentered (f : Function) (s : Sweep) : Nat :=
  f.blocksWithId.countP (fun entry => (s.stackAt? entry.1).isNone)

/-- Following edges enters a block for each block it puts off. -/
theorem follow_measure (f : Function) (live : Stack) (s : Sweep) (targets : List BlockId) :
    (follow f live s targets).1.pending.length + (follow f live s targets).1.unentered f ≤
      s.pending.length + s.unentered f := by
  induction targets generalizing s with
  | nil => simp [follow]
  | cons target rest ih =>
      rw [follow]
      split
      · exact ih s
      · rename_i hblock
        obtain ⟨b, hb⟩ : ∃ b, f.block? target = some b := by
          cases hcase : f.block? target with
          | none => simp [hcase] at hblock
          | some b => exact ⟨b, rfl⟩
        split
        · rename_i hnone
          refine Nat.le_trans (ih _) ?_
          have hstrict : unentered f
              { s with entered := (target, live) :: s.entered, pending := target :: s.pending }
                + 1 ≤ s.unentered f := by
            refine countP_add_one_le (Function.mem_blocksWithId_of_block? hb) ?_ ?_ ?_
            · simp [stackAt?]
            · simp [hnone]
            · intro entry hentry
              simp only [stackAt?, List.lookup_cons] at hentry ⊢
              split at hentry
              · simp at hentry
              · exact hentry
          simp only [List.length_cons]
          omega
        · split
          · exact ih s
          · exact ih { s with reported := target :: s.reported }

/-- Walk a block and follow its edges. -/
def advance (f : Function) (g : FlowGraph) (s : Sweep) (block : BlockId) : Sweep × List Fault :=
  match f.block? block, s.stackAt? block with
  | some b, some live =>
      let (final, faults) := walk block live b.instructions
      let (after, joins) := follow f final s (g.successors block)
      (after, faults ++ joins)
  | _, _ => (s, [])

theorem advance_measure (f : Function) (g : FlowGraph) (s : Sweep) (block : BlockId) :
    (advance f g s block).1.pending.length + (advance f g s block).1.unentered f ≤
      s.pending.length + s.unentered f := by
  rw [advance]
  split
  · exact follow_measure f _ s (g.successors block)
  · exact Nat.le_refl _

/-- Walk the pending blocks until none is left, and list the faults found. -/
def run (f : Function) (g : FlowGraph) : Sweep → List Fault
  | ⟨_, [], _⟩ => []
  | ⟨entered, block :: pending, reported⟩ =>
      let next := advance f g ⟨entered, pending, reported⟩ block
      next.2 ++ run f g next.1
termination_by s => s.pending.length + s.unentered f
decreasing_by
  refine Nat.lt_of_le_of_lt (advance_measure f g ⟨entered, pending, reported⟩ block) ?_
  change pending.length + unentered f ⟨entered, block :: pending, reported⟩ <
    pending.length + 1 + unentered f ⟨entered, block :: pending, reported⟩
  omega

end Sweep

/-- The faults of a function against stack discipline. -/
def faults (f : Function) (g : FlowGraph) : List Fault :=
  match f.entry? with
  | none => []
  | some entry => Sweep.run f g (.start entry)

end StackDiscipline

end BlockIR
