import BlockIR.Proofs.Consistency
import BlockIR.Proofs.EdgeTables
import BlockIR.Verifier.StackDiscipline
/-!
Uses of results, and the removal of what is not used.

The uses of an instruction are found by going through the instructions of its function in program
order, and through the operands of each.  What is found is every place of the function that names one
of its results, once and in order, and an instruction can be removed exactly if there is none.  Its
slot stays behind empty, and nothing else of the module changes.
-/

namespace BlockIR

theorem Operand.instruction?_eq_some {operand : Operand} {id : InstructionId} :
    operand.instruction? = some id ↔ ∃ result, operand = .result id result := by
  cases operand <;> simp [Operand.instruction?]

theorem pairwise_snd_zipIdx {α : Type} (list : List α) :
    list.zipIdx.Pairwise (fun x y => x.2 < y.2) := by
  rw [← List.pairwise_map, List.zipIdx_map_snd]
  exact List.pairwise_lt_range'

namespace Module

variable {m n : Module} {function : FunctionId} {f : Function} {id user : InstructionId}
  {i : Instruction}

/-- The instructions of a function are the live ones with an identity in it. -/
theorem Consistent.mem_instructions (hm : m.Consistent) (hf : m.function? function = some f) :
    (id, i) ∈ f.instructions ↔ id.function = function ∧ m.instruction? id = some i := by
  simp only [Function.instructions, List.mem_flatMap, List.mem_map, Prod.exists, Prod.mk.injEq]
  constructor
  · rintro ⟨block, b, hmem, address, _, hlisted, rfl, rfl⟩
    obtain ⟨hfunction, hblock⟩ := hm.block?_of_listed hf hmem
    exact ⟨hfunction, instruction?_eq_some.2
      ⟨b, hblock, (hm.ordered block b hblock).mem_instructions.1 hlisted⟩⟩
  · rintro ⟨rfl, hi⟩
    obtain ⟨b, hblock, hlive⟩ := instruction?_eq_some.1 hi
    obtain ⟨g, hg, hb⟩ := block?_eq_some.1 hblock
    obtain rfl : g = f := Option.some.inj (hg.symm.trans hf)
    exact ⟨id.block, b, Function.mem_blocksWithId_of_block? hb, id.address, i,
      (hm.ordered _ b hblock).mem_instructions.2 hlive, rfl, rfl⟩

/-- A use is a place of the function that names a result. -/
theorem Consistent.mem_uses (hm : m.Consistent) {index : Nat} :
    (user, index) ∈ m.uses id ↔ user.function = id.function ∧ ∃ i result,
      m.instruction? user = some i ∧ i.operands[index]? = some (.result id result) := by
  unfold uses
  cases hf : m.function? id.function with
  | none =>
      refine ⟨fun h => by simp at h, ?_⟩
      rintro ⟨hfunction, i, result, hi, -⟩
      obtain ⟨b, hblock, -⟩ := instruction?_eq_some.1 hi
      obtain ⟨f, hsome, -⟩ := block?_eq_some.1 hblock
      change m.function? user.function = some f at hsome
      simp [hfunction, hf] at hsome
  | some f =>
      simp only [List.mem_flatMap, List.mem_map, List.mem_filter, Prod.exists, Prod.mk.injEq,
        hm.mem_instructions hf, List.mem_zipIdx_iff_getElem?, beq_iff_eq,
        Operand.instruction?_eq_some]
      constructor
      · rintro ⟨_, i, ⟨hfunction, hi⟩, _, _, ⟨hoperand, result, rfl⟩, rfl, rfl⟩
        exact ⟨hfunction, i, result, hi, hoperand⟩
      · rintro ⟨hfunction, i, result, hi, hoperand⟩
        exact ⟨user, i, ⟨hfunction, hi⟩, _, index, ⟨hoperand, result, rfl⟩, rfl, rfl⟩

/-- An instruction stands before another of its function: in an earlier block, or earlier in the
order of the same block. -/
def StandsBefore (m : Module) (first second : InstructionId) : Prop :=
  first.block.address < second.block.address ∨
    first.block = second.block ∧
      ∃ b, m.block? first.block = some b ∧ [first.address, second.address].Sublist b.order

/-- A use comes before another: its user stands before the other, or both are operands of one user
and it is the earlier one. -/
def UsedBefore (m : Module) (first second : InstructionId × Nat) : Prop :=
  m.StandsBefore first.1 second.1 ∨ first.1 = second.1 ∧ first.2 < second.2

theorem Consistent.not_standsBefore_self (hm : m.Consistent) (id : InstructionId) :
    ¬m.StandsBefore id id := by
  rintro (hlt | ⟨-, b, hb, hsublist⟩)
  · exact Nat.lt_irrefl _ hlt
  · simpa using (hm.ordered _ b hb).nodup.sublist hsublist

theorem Consistent.pairwise_instructions (hm : m.Consistent) (hf : m.function? function = some f) :
    f.instructions.Pairwise (fun first second => m.StandsBefore first.1 second.1) := by
  have haddresses : f.blocksWithId.Pairwise (fun x y => x.1.address < y.1.address) := by
    rw [← List.pairwise_map, f.map_address_blocksWithId]
    exact List.pairwise_lt_range
  refine List.pairwise_flatMap.2 ⟨?_, haddresses.imp ?_⟩
  · -- Inside a block the instructions stand as its order lists them.
    rintro ⟨block, b⟩ hmem
    obtain ⟨-, hblock⟩ := hm.block?_of_listed hf hmem
    have horder : (b.instructions.map Prod.fst).Pairwise
        (fun first second => [first, second].Sublist b.order) := by
      rw [(hm.ordered block b hblock).map_fst_instructions]
      exact List.pairwise_of_forall_sublist fun hsublist => hsublist
    rw [List.pairwise_map]
    exact (List.pairwise_map.1 horder).imp fun hsublist => .inr ⟨rfl, b, hblock, hsublist⟩
  · intro x y hlt first hfirst second hsecond
    obtain ⟨_, -, rfl⟩ := List.mem_map.1 hfirst
    obtain ⟨_, -, rfl⟩ := List.mem_map.1 hsecond
    exact .inl hlt

theorem Consistent.pairwise_uses (hm : m.Consistent) (id : InstructionId) :
    (m.uses id).Pairwise m.UsedBefore := by
  unfold uses
  cases hf : m.function? id.function with
  | none => exact .nil
  | some f =>
      refine List.pairwise_flatMap.2 ⟨?_, (hm.pairwise_instructions hf).imp ?_⟩
      · rintro ⟨user, i⟩ -
        rw [List.pairwise_map]
        exact ((pairwise_snd_zipIdx i.operands).filter _).imp fun hlt => .inr ⟨rfl, hlt⟩
      · intro x y hbefore first hfirst second hsecond
        obtain ⟨_, -, rfl⟩ := List.mem_map.1 hfirst
        obtain ⟨_, -, rfl⟩ := List.mem_map.1 hsecond
        exact .inl hbefore

theorem Consistent.nodup_uses (hm : m.Consistent) (id : InstructionId) : (m.uses id).Nodup := by
  refine (hm.pairwise_uses id).imp ?_
  rintro use _ (hbefore | ⟨-, hlt⟩) rfl
  · exact hm.not_standsBefore_self use.1 hbefore
  · exact Nat.lt_irrefl _ hlt

/-- The second module is the first without an instruction. -/
structure Loses (m n : Module) (id : InstructionId) : Prop extends m.AltersOnly n id.block where
  instructions : ∀ other,
    n.instruction? other = if other = id then none else m.instruction? other
  order : ∃ b c before after, m.block? id.block = some b ∧ n.block? id.block = some c ∧
    b.order = before ++ id.address :: after ∧ c.order = before ++ after ∧ id.address ∉ c.order ∧
    c.params = b.params ∧ c.nextAddress = b.nextAddress
  types : ∀ operand, operand.instruction? ≠ some id →
    n.operandType? operand = m.operandType? operand

theorem operandType?_without (m : Module) {operand : Operand}
    (hother : operand.instruction? ≠ some id) :
    (m.without id).operandType? operand = m.operandType? operand := by
  cases operand with
  | result producer index =>
      have hne : producer ≠ id := fun heq => hother (by rw [heq]; rfl)
      rw [operandType?, operandType?, instruction?_without, if_neg hne]
  | parameter block index =>
      rw [operandType?, operandType?, without, block?_modifyBlock]
      split
      · rename_i heq
        rw [heq, Option.bind_map]
        rfl
      · rfl
  | constant value => rfl

theorem Consistent.loses_without (hm : m.Consistent) (hi : m.instruction? id = some i) :
    m.Loses (m.without id) id := by
  obtain ⟨b, hb, hlive⟩ := instruction?_eq_some.1 hi
  have hordered := hm.ordered _ b hb
  have hmem : id.address ∈ b.order := (hordered.mem_iff _).2 (by simp [hlive])
  obtain ⟨before, after, -, horder, herase⟩ := List.exists_erase_eq hmem
  refine ⟨.modifyBlock (by simp [hb]) _, m.instruction?_without id, ?_,
    fun _ => m.operandType?_without⟩
  refine ⟨b, b.erase id.address, before, after, hb, ?_, horder, herase, ?_, rfl, ?_⟩
  · rw [Module.without, block?_modifyBlock, if_pos rfl, hb]
    rfl
  · exact fun h => (hordered.nodup.mem_erase_iff.1 h).1 rfl
  · simp [Block.nextAddress, Block.erase]

/-- The uses of an instruction are the places of its function that name a result of it, each once, in
the order in which they stand.  A removal succeeds if and only if the instruction is live and has no
uses; it then returns the instruction and takes it out of the program, and changes nothing else.  One
that fails changes nothing. -/
theorem uses_and_removal_exact {m : Module} (hm : m.Reachable) (id : InstructionId) :
    (∀ user index, (user, index) ∈ m.uses id ↔ user.function = id.function ∧ ∃ i result,
      m.instruction? user = some i ∧ i.operands[index]? = some (.result id result)) ∧
    (m.uses id).Nodup ∧ (m.uses id).Pairwise m.UsedBefore ∧
    ((∃ i, ((removeInstruction id).run m).result = .ok i) ↔
      (m.instruction? id).isSome ∧ m.uses id = []) ∧
    (∀ i, ((removeInstruction id).run m).result = .ok i →
      m.instruction? id = some i ∧ m.Loses ((removeInstruction id).run m).state id) ∧
    ∀ violation, ((removeInstruction id).run m).result = .error violation →
      ((removeInstruction id).run m).state = m := by
  have hconsistent := hm.consistent
  refine ⟨fun user index => hconsistent.mem_uses, hconsistent.nodup_uses id,
    hconsistent.pairwise_uses id, ?_⟩
  simp only [Action.run, removeInstruction]
  cases hcheck : m.checkRemoval id with
  | error violation =>
      refine ⟨⟨by simp, ?_⟩, by simp, by simp⟩
      rintro ⟨hlive, hunused⟩
      obtain ⟨i, hi⟩ := Option.isSome_iff_exists.1 hlive
      simp [checkRemoval_eq_ok.2 ⟨hunused, hi⟩] at hcheck
  | ok i =>
      obtain ⟨hunused, hi⟩ := checkRemoval_eq_ok.1 hcheck
      refine ⟨by simp [hunused, hi], ?_, by simp⟩
      intro j hj
      obtain rfl := Except.ok.inj hj
      exact ⟨hi, hconsistent.loses_without hi⟩

section Worn

/-- A slot that is used in two blocks, a sum that was made to add itself, and a load whose result
only another function was made to name. -/
def worn : Module :=
  let main (address : Nat) : BlockId := ⟨⟨0⟩, address⟩
  let other : BlockId := ⟨⟨1⟩, 0⟩
  let make (block : BlockId) (draft : Draft) : Command := .make (.atEnd block) draft .synthetic
  let slot : Operand := .result ⟨main 0, 0⟩ 0
  let one : Operand := .constant (.integer 1 .i64)
  List.foldl Module.after (.empty "test")
    [.declareFunction "main" [] .void, .appendEntryBlock ⟨0⟩, .appendBlock ⟨0⟩ [],
      make (main 0) (.allocStack (.builtin .i64)), make (main 0) (.load slot),
      make (main 0) (.branch (main 1)),
      .make (.before ⟨main 0, 1⟩) (.store one slot) .synthetic,
      .replaceOperand ⟨main 0, 3⟩ 0 slot,
      make (main 1) (.load slot), make (main 1) (.binary .add one one), make (main 1) .ret,
      .replaceOperand ⟨main 1, 1⟩ 0 (.result ⟨main 1, 1⟩ 0),
      .declareFunction "other" [] .void, .appendEntryBlock ⟨1⟩,
      make other (.binary .add one one), .replaceOperand ⟨other, 0⟩ 0 (.result ⟨main 1, 0⟩ 0)]

theorem worn_uses_and_removals :
    let main (block address : Nat) : InstructionId := ⟨⟨⟨0⟩, block⟩, address⟩
    let granted := (removeInstruction (main 1 0)).run worn
    let refused := (removeInstruction (main 1 1)).run worn
    worn.uses (main 0 0) = [(main 0 3, 0), (main 0 3, 1), (main 0 1, 0), (main 1 0, 0)] ∧
    (worn.uses (main 0 0)).Pairwise worn.UsedBefore ∧
    worn.uses (main 1 0) = [] ∧ (∃ i, granted.result = .ok i) ∧
    worn.Loses granted.state (main 1 0) ∧
    (granted.state.block? ⟨⟨0⟩, 1⟩).map Block.order = some [1, 2] ∧
    worn.uses (main 1 1) = [(main 1 1, 0)] ∧ refused.state = worn := by
  intro main granted refused
  have hreachable : worn.Reachable := (Reachable.empty "test").edits _
  have hunused : worn.uses (main 1 0) = [] := by decide +kernel
  have hown : worn.uses (main 1 1) = [(main 1 1, 0)] := by decide +kernel
  obtain ⟨-, -, hpairwise, -⟩ := uses_and_removal_exact hreachable (main 0 0)
  obtain ⟨-, -, -, hgranted, hloses, -⟩ := uses_and_removal_exact hreachable (main 1 0)
  obtain ⟨-, -, -, hrefused, -, hkept⟩ := uses_and_removal_exact hreachable (main 1 1)
  obtain ⟨i, hi⟩ := hgranted.2 ⟨by decide +kernel, hunused⟩
  refine ⟨by decide +kernel, hpairwise, hunused, ⟨i, hi⟩, (hloses i hi).2, by decide +kernel, hown,
    ?_⟩
  cases hresult : ((removeInstruction (main 1 1)).run worn).result with
  | error violation => exact hkept violation hresult
  | ok j =>
      have hnone := (hrefused.1 ⟨j, hresult⟩).2
      simp [hown] at hnone

end Worn

end Module

end BlockIR
