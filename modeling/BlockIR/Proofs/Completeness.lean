import BlockIR.Complaint
import BlockIR.Proofs.Locality
import BlockIR.Proofs.Placement
/-!
Complete modules.

A module is complete if every block ends with its only terminator.  The verifier looks for the same
in another way: it passes over functions without a body, says of an empty block nothing else,
compares each terminator with the last address, and asks for the end of a block apart from that.
The two agree whatever else the verifier is asked to check, so that a module without findings needs
no second check.
-/

namespace BlockIR

/-- Whether a fault says that a block does not end with its only terminator. -/
def Fault.concernsEnding : Fault → Bool
  | .emptyBlock _ | .missingTerminator _ | .terminatorNotLast _ => true
  | _ => false

theorem Fault.concernsEnding_eq_false_of_concernsOperand {fault : Fault}
    (h : fault.concernsOperand = true) : fault.concernsEnding = false := by
  cases fault <;> simp_all [concernsOperand, concernsEnding]

theorem Fault.concernsEnding_eq_false_of_concernsStack {fault : Fault}
    (h : fault.concernsStack = true) : fault.concernsEnding = false := by
  cases fault <;> simp_all [concernsStack, concernsEnding]

namespace Block

variable {b : Block}

theorem isTerminated_iff : b.isTerminated = true ↔ ∃ address i,
    b.lastAddress? = some address ∧ b.get? address = some i ∧ i.isTerminator = true := by
  rw [isTerminated, Option.isSome_iff_exists]
  simp only [terminator?, Option.filter_eq_some_iff, Option.bind_eq_some_iff]
  constructor
  · rintro ⟨i, ⟨address, hlast, hget⟩, hterminator⟩
    exact ⟨address, i, hlast, hget, hterminator⟩
  · rintro ⟨address, i, hlast, hget, hterminator⟩
    exact ⟨i, ⟨address, hlast, hget⟩, hterminator⟩

theorem isEmpty_eq_false_of_isTerminated (h : b.isTerminated = true) : b.isEmpty = false := by
  obtain ⟨address, -, hlast, -⟩ := isTerminated_iff.1 h
  have hmem : address ∈ b.order := List.mem_of_getLast? hlast
  rw [isEmpty, List.isEmpty_eq_false_iff]
  exact List.ne_nil_of_mem hmem

/-- The number of terminators is one where the last instruction is one and no other is. -/
theorem Ordered.isComplete_iff (h : b.Ordered) :
    b.isComplete = true ↔ b.isTerminated = true ∧ b.TerminatorLast := by
  rw [isComplete, Bool.and_eq_true, beq_iff_eq]
  refine and_congr_right (fun hended => ?_)
  obtain ⟨last, i, hlast, hi, hterminator⟩ := isTerminated_iff.1 hended
  have hmem : ∀ address j, b.get? address = some j → j.isTerminator = true →
      (address, j) ∈ b.instructions.filter (fun entry => entry.2.isTerminator) :=
    fun address j hj hend => List.mem_filter.2 ⟨h.mem_instructions.2 hj, hend⟩
  constructor
  · intro hone address j hj hend
    rw [List.countP_eq_length_filter] at hone
    obtain ⟨only, honly⟩ := List.length_eq_one_iff.1 hone
    have hthis := hmem address j hj hend
    have hthat := hmem last i hi hterminator
    rw [honly, List.mem_singleton] at hthis hthat
    obtain ⟨rfl, -⟩ := Prod.mk.inj (hthis.trans hthat.symm)
    exact hlast
  · intro hplaced
    have hmost := hplaced.countP_le_one h
    have hleast : 0 < b.instructions.countP (fun entry => entry.2.isTerminator) :=
      List.countP_pos_iff.2 ⟨_, h.mem_instructions.2 hi, hterminator⟩
    omega

end Block

theorem Function.map_snd_blocksWithId (f : Function) : f.blocksWithId.map Prod.snd = f.blocks := by
  rw [blocksWithId, List.map_map]
  exact List.zipIdx_map_fst 0 f.blocks

namespace Verifier

variable {m : Module} {options : Options} {f : Function} {b : Block} {fault : Fault}

theorem terminatorNotLast_mem_instructionFaults {id : InstructionId} {i : Instruction}
    (hterminator : i.isTerminator = true) (hlast : b.lastAddress? ≠ some id.address) :
    .terminatorNotLast id ∈ instructionFaults m options f b id i := by
  simp [instructionFaults, hterminator, hlast]

/-- No other fault of an instruction concerns the end of its block. -/
theorem misplaced_of_concernsEnding {id : InstructionId} {i : Instruction}
    (hfault : fault ∈ instructionFaults m options f b id i)
    (hending : fault.concernsEnding = true) :
    i.isTerminator = true ∧ b.lastAddress? ≠ some id.address := by
  simp only [instructionFaults, List.mem_append] at hfault
  rcases hfault with (hplace | hsuccessor) | hoperand
  · split at hplace
    · rename_i hmisplaced
      simpa using hmisplaced
    · simp at hplace
  · obtain ⟨target, -, rfl⟩ := List.mem_map.1 hsuccessor
    simp [Fault.concernsEnding] at hending
  · have hconcerns := Module.concernsOperand_of_mem_operandFaults hoperand
    simp [Fault.concernsEnding_eq_false_of_concernsOperand hconcerns] at hending

/-- A block is complete exactly where none of its faults concerns its end. -/
theorem concernsEnding_blockFaults_iff (hb : b.Ordered) {block : BlockId} :
    (∀ fault ∈ blockFaults m options f block b, fault.concernsEnding = false) ↔
      b.isComplete = true := by
  rw [hb.isComplete_iff]
  constructor
  · intro hnone
    have hfull : b.isEmpty = false := by
      by_contra hempty
      have hfault := hnone (.emptyBlock block)
        ((mem_blockFaults_iff hb).2 (.inl ⟨by simpa using hempty, rfl⟩))
      simp [Fault.concernsEnding] at hfault
    refine ⟨?_, ?_⟩
    · by_contra hopen
      have hfault := hnone (.missingTerminator block)
        ((mem_blockFaults_iff hb).2 (.inr (.inr ⟨hfull, by simpa using hopen, rfl⟩)))
      simp [Fault.concernsEnding] at hfault
    · intro address i hi hterminator
      by_contra hlast
      have hfault := hnone (.terminatorNotLast ⟨block, address⟩) ((mem_blockFaults_iff hb).2
        (.inr (.inl ⟨address, i, hi, terminatorNotLast_mem_instructionFaults hterminator hlast⟩)))
      simp [Fault.concernsEnding] at hfault
  · rintro ⟨hended, hplaced⟩ fault hfault
    rcases (mem_blockFaults_iff hb).1 hfault with
      ⟨hempty, -⟩ | ⟨address, i, hi, hin⟩ | ⟨-, hopen, -⟩
    · simp [Block.isEmpty_eq_false_of_isTerminated hended] at hempty
    · by_contra hending
      obtain ⟨hterminator, hlast⟩ := misplaced_of_concernsEnding hin (by simpa using hending)
      exact hlast (hplaced address i hi hterminator)
    · simp [hended] at hopen

/-- The checks that concern paths say nothing about the end of a block. -/
theorem concernsEnding_functionFaults_iff (hm : m.Consistent) (hf : f ∈ m.functions) :
    (∀ fault ∈ functionFaults m options f, fault.concernsEnding = false) ↔
      f.blocks.all Block.isComplete = true := by
  have hblock : ∀ {block : BlockId} {b : Block}, (block, b) ∈ f.blocksWithId → b.Ordered := by
    intro block b hmem
    obtain ⟨hfunction, hb⟩ := hm.block?_of_mem_blocksWithId hf hmem
    exact hm.ordered block b (Module.block?_eq_some.2 ⟨f, hfunction, hb⟩)
  have hblocks : (∀ entry ∈ f.blocksWithId, ∀ fault ∈ blockFaults m options f entry.1 entry.2,
      fault.concernsEnding = false) ↔ ∀ entry ∈ f.blocksWithId, entry.2.isComplete = true :=
    forall₂_congr (fun _ hentry => concernsEnding_blockFaults_iff (hblock hentry))
  have hall : f.blocks.all Block.isComplete = true ↔
      ∀ entry ∈ f.blocksWithId, entry.2.isComplete = true := by
    rw [List.all_eq_true, ← f.map_snd_blocksWithId, List.forall_mem_map]
  rw [hall, ← hblocks]
  constructor
  · intro hnone entry hentry fault hfault
    apply hnone
    simp only [functionFaults, List.mem_append, List.mem_flatMap]
    exact .inl (.inl ⟨entry, hentry, hfault⟩)
  · intro hnone fault hfault
    simp only [functionFaults, List.mem_append, List.mem_flatMap] at hfault
    rcases hfault with (⟨entry, hentry, hin⟩ | hunreachable) | hstack
    · exact hnone entry hentry fault hin
    · split at hunreachable
      · obtain ⟨block, -, rfl⟩ := List.mem_map.1 hunreachable
        rfl
      · simp at hunreachable
    · split at hstack
      · exact Fault.concernsEnding_eq_false_of_concernsStack
          (StackDiscipline.concernsStack_of_mem_faults hstack)
      · simp at hstack

end Verifier

namespace Module

variable {m : Module}

theorem Consistent.isComplete_iff (hm : m.Consistent) (options : Options) :
    m.isComplete = true ↔
      ∀ finding ∈ Verifier.findings options m, finding.fault.concernsEnding = false := by
  have hfunctions : (∀ f ∈ m.functions, f.blocks.all Block.isComplete = true) ↔
      ∀ f ∈ m.functions, ∀ fault ∈ Verifier.functionFaults m options f,
        fault.concernsEnding = false :=
    forall₂_congr (fun _ hf => (Verifier.concernsEnding_functionFaults_iff hm hf).symm)
  rw [isComplete, List.all_eq_true, hfunctions, Verifier.findings_eq_flatMap]
  constructor
  · intro hnone finding hfinding
    obtain ⟨f, hf, hin⟩ := List.mem_flatMap.1 hfinding
    obtain ⟨fault, hfault, rfl⟩ := List.mem_map.1 hin
    exact hnone f hf fault hfault
  · intro hnone f hf fault hfault
    exact hnone ⟨f.name, fault⟩
      (List.mem_flatMap.2 ⟨f, hf, List.mem_map.2 ⟨fault, hfault, rfl⟩⟩)

/-- A module is complete exactly where the verifier, whatever else it is asked to check, finds no
block that is empty, has no terminator at its end, or has one elsewhere.  So a module is well formed
exactly where it passes the standard verification. -/
theorem complete_iff_no_open_end {m : Module} (hm : m.Reachable) :
    (∀ options, m.isComplete = true ↔
      ∀ finding ∈ Verifier.findings options m, finding.fault.concernsEnding = false) ∧
    (m.checkWellFormed = .ok () ↔ Verifier.passes .standard m = true) := by
  have hcomplete := hm.consistent.isComplete_iff
  refine ⟨hcomplete, ?_⟩
  rw [checkWellFormed]
  constructor
  · intro hok
    split at hok
    · split at hok
      · assumption
      · cases hok
    · cases hok
  · intro hpasses
    have hnone : Verifier.findings .standard m = [] := List.isEmpty_iff.1 hpasses
    have hended : m.isComplete = true := (hcomplete .standard).2 (by simp [hnone])
    rw [if_pos hended, if_pos hpasses]

section Patchwork

/-- Beside a function that is only declared, one whose entry lost its terminator and whose second
block is empty. -/
def patchwork : Module :=
  let block (address : Nat) : BlockId := ⟨⟨1⟩, address⟩
  let make (address : Nat) (draft : Draft) : Command :=
    .make (.atEnd (block address)) draft .synthetic
  List.foldl Module.after (.empty "test")
    [.declareFunction "outside" [] .void, .declareFunction "main" [] .void, .appendEntryBlock ⟨1⟩,
      .appendBlock ⟨1⟩ [], make 0 (.allocStack (.builtin .i64)), make 0 (.branch (block 1)),
      .removeInstruction ⟨block 0, 1⟩]

/-- The same with the slot freed and both blocks ended. -/
def finished : Module :=
  let block (address : Nat) : BlockId := ⟨⟨1⟩, address⟩
  let make (address : Nat) (draft : Draft) : Command :=
    .make (.atEnd (block address)) draft .synthetic
  List.foldl Module.after patchwork
    [make 0 (.deallocStack (.result ⟨block 0, 0⟩ 0)), make 0 (.branch (block 1)), make 1 .ret]

theorem patchwork_open_finished_complete :
    patchwork.isComplete = false ∧
    (∀ options, ∃ finding ∈ Verifier.findings options patchwork,
      finding.fault.concernsEnding = true) ∧
    Verifier.passes .standard finished = true ∧ finished.checkWellFormed = .ok () := by
  have hpatchwork : patchwork.Reachable := (Reachable.empty "test").edits _
  have hopen : patchwork.isComplete = false := by decide +kernel
  have hpasses : Verifier.passes .standard finished = true := by decide +kernel
  refine ⟨hopen, ?_, hpasses, (complete_iff_no_open_end (hpatchwork.edits _)).2.2 hpasses⟩
  intro options
  by_contra hnone
  have hcomplete : patchwork.isComplete = true := by
    refine ((complete_iff_no_open_end hpatchwork).1 options).2 ?_
    intro finding hfinding
    by_contra hending
    exact hnone ⟨finding, hfinding, by simpa using hending⟩
  simp [hopen] at hcomplete

end Patchwork

end Module

end BlockIR
