import BlockIR.Proofs.Findings
import BlockIR.Proofs.Persistence
/-!
Terminators and edges stay in place.

A block takes nothing behind its terminator and a terminator nowhere else than at its end, edges lead
to blocks of the same function when they are made and when they are redirected, and what stands in a
slot keeps being a terminator or not.  So no history of edits and emitter calls leaves a terminator
in the middle of a block or an edge that leads out of its function.
-/

namespace BlockIR

namespace Block

variable {b : Block} {i j : Instruction} {address anchor : Nat}

/-- What is inserted before a member of a list stands immediately before it. -/
theorem insertIdx_idxOf {order : List Nat} (h : anchor ∈ order) (new : Nat) :
    ∃ before after, order = before ++ anchor :: after ∧
      order.insertIdx (order.idxOf anchor) new = before ++ new :: anchor :: after := by
  induction order with
  | nil => simp at h
  | cons head tail ih =>
      by_cases heq : head = anchor
      · exact ⟨[], tail, by simp [heq], by simp [heq]⟩
      · have htail : anchor ∈ tail := by
          rcases List.mem_cons.1 h with rfl | htail
          · exact absurd rfl heq
          · exact htail
        obtain ⟨before, after, hsplit, hinserted⟩ := ih htail
        refine ⟨head :: before, after, by simp [hsplit], ?_⟩
        rw [List.idxOf_cons_ne _ heq, List.insertIdx_succ_cons, hinserted]
        rfl

theorem lastAddress?_push (b : Block) (i : Instruction) :
    (b.push i).lastAddress? = some b.nextAddress := by
  simp [lastAddress?, push]

theorem lastAddress?_insertBefore (hanchor : anchor ∈ b.order) (i : Instruction) :
    (b.insertBefore anchor i).lastAddress? = b.lastAddress? := by
  obtain ⟨before, after, hsplit, hinserted⟩ := insertIdx_idxOf hanchor b.nextAddress
  simp only [lastAddress?, insertBefore]
  rw [hinserted, hsplit]
  simp

theorem lastAddress?_erase (hlast : b.lastAddress? = some anchor) (hne : anchor ≠ address) :
    (b.erase address).lastAddress? = some anchor := by
  obtain ⟨before, hsplit⟩ := List.getLast?_eq_some_iff.1 hlast
  simp only [lastAddress?, erase]
  rw [hsplit, List.erase_append]
  split
  · simp
  · rw [List.erase_of_not_mem (by simpa using hne.symm)]
    simp

/-- A terminator stands at no other place than the last. -/
def TerminatorLast (b : Block) : Prop :=
  ∀ address i, b.get? address = some i → i.isTerminator = true → b.lastAddress? = some address

theorem TerminatorLast.empty (params : List ValueType) : (empty params).TerminatorLast := by
  intro address i hi
  simp [Block.empty, get?] at hi

theorem TerminatorLast.push (h : b.TerminatorLast) (hopen : b.isTerminated = false)
    (i : Instruction) : (b.push i).TerminatorLast := by
  intro address j hj hterminator
  rw [get?_push] at hj
  split at hj
  · rename_i heq
    rw [lastAddress?_push, heq]
  · -- An old terminator would be the last instruction, and end the block.
    have hlast := h address j hj hterminator
    have hended : b.isTerminated = true := by
      simp [isTerminated, terminator?, hlast, hj, Option.filter, hterminator]
    simp [hopen] at hended

theorem TerminatorLast.insertBefore (h : b.TerminatorLast) (hanchor : anchor ∈ b.order)
    (hi : i.isTerminator = false) : (b.insertBefore anchor i).TerminatorLast := by
  intro address j hj hterminator
  rw [get?_insertBefore] at hj
  rw [lastAddress?_insertBefore hanchor]
  split at hj
  · obtain rfl := Option.some.inj hj
    simp [hi] at hterminator
  · exact h address j hj hterminator

theorem TerminatorLast.set (h : b.TerminatorLast) (hi : b.get? address = some i)
    (hsame : j.isTerminator = i.isTerminator) : (b.set address j).TerminatorLast := by
  intro other k hk hterminator
  rw [get?_set (by simp [hi])] at hk
  change b.lastAddress? = some other
  split at hk
  · rename_i heq
    obtain rfl := Option.some.inj hk
    rw [heq]
    exact h address i hi (hsame ▸ hterminator)
  · exact h other k hk hterminator

theorem TerminatorLast.erase (h : b.TerminatorLast) (address : Nat) :
    (b.erase address).TerminatorLast := by
  intro other k hk hterminator
  rw [get?_erase] at hk
  split at hk
  · simp at hk
  · rename_i hne
    exact lastAddress?_erase (h other k hk hterminator) hne

/-- At most one instruction of a block is a terminator, since two would share one address. -/
theorem TerminatorLast.countP_le_one (h : b.TerminatorLast) (hb : b.Ordered) :
    b.instructions.countP (fun entry => entry.2.isTerminator) ≤ 1 := by
  rw [List.countP_eq_length_filter]
  generalize hends : b.instructions.filter (fun entry => entry.2.isTerminator) = ends
  have hnodup : (ends.map Prod.fst).Nodup := by
    have hsub : (ends.map Prod.fst).Sublist (b.instructions.map Prod.fst) := by
      rw [← hends]
      exact List.filter_sublist.map _
    rw [hb.map_fst_instructions] at hsub
    exact hb.nodup.sublist hsub
  have hlast : ∀ entry ∈ ends, b.lastAddress? = some entry.1 := by
    rintro ⟨address, i⟩ hentry
    rw [← hends, List.mem_filter] at hentry
    exact h address i (hb.mem_instructions.1 hentry.1) hentry.2
  match ends with
  | [] => simp
  | [_] => simp
  | first :: second :: rest =>
      have hfirst := hlast first (by simp)
      have hsecond := hlast second (by simp)
      have heq : first.1 = second.1 := Option.some.inj (hfirst.symm.trans hsecond)
      simp [heq] at hnodup

end Block

namespace Module

variable {m : Module}

/-- In every block a terminator stands at no other place than the last. -/
def TerminatorsLast (m : Module) : Prop :=
  ∀ id b, m.block? id = some b → b.TerminatorLast

theorem TerminatorsLast.modifyBlock (h : m.TerminatorsLast) {id : BlockId} {change : Block → Block}
    (hchange : ∀ b, m.block? id = some b → b.TerminatorLast → (change b).TerminatorLast) :
    (m.modifyBlock id change).TerminatorsLast := by
  intro other c hc
  rw [block?_modifyBlock] at hc
  split at hc
  · obtain ⟨b, hb, rfl⟩ := Option.map_eq_some_iff.1 hc
    exact hchange b hb (h id b hb)
  · exact h other c hc

theorem TerminatorsLast.withBlock (h : m.TerminatorsLast) {function : FunctionId} {f : Function}
    (hf : m.function? function = some f) (hid : f.id = function) (params : List ValueType) :
    (m.withBlock function params).TerminatorsLast := by
  intro other c hc
  rw [block?_withBlock hf hid] at hc
  split at hc
  · obtain rfl := Option.some.inj hc
    exact .empty params
  · exact h other c hc

theorem TerminatorsLast.exchange (h : m.TerminatorsLast) {id : InstructionId} {i j : Instruction}
    (hi : m.instruction? id = some i) (halike : i.Alike j) :
    (m.exchange id j).TerminatorsLast := by
  refine h.modifyBlock ?_
  intro b hb hlast
  obtain ⟨c, hc, hget⟩ := instruction?_eq_some.1 hi
  obtain rfl := Option.some.inj (hb.symm.trans hc)
  exact hlast.set hget halike.isTerminator

theorem TerminatorsLast.place (h : m.TerminatorsLast) {point : InsertionPoint} {i : Instruction}
    (hplace : m.checkPlace point i.operation = .ok ()) : (m.place point i).TerminatorsLast := by
  obtain ⟨b, hb, hallowed⟩ := checkPlace_eq_ok.1 hplace
  cases point with
  | atEnd block =>
      refine h.modifyBlock ?_
      intro c hc hlast
      obtain rfl := Option.some.inj (hb.symm.trans hc)
      exact hlast.push hallowed i
  | before anchor =>
      refine h.modifyBlock ?_
      intro c hc hlast
      obtain rfl := Option.some.inj (hb.symm.trans hc)
      exact hlast.insertBefore hallowed.2 hallowed.1

theorem TerminatorsLast.after (h : m.TerminatorsLast) (hm : m.Consistent) (command : Command) :
    (m.after command).TerminatorsLast := by
  rcases m.after_eq_or_effect command with hsame | heffect
  · rw [hsame]
    exact h
  · generalize m.after command = n at heffect
    cases heffect with
    | rename name => exact h
    | declareFunction name inputs output =>
        intro id b hb
        rw [block?_withFunction] at hb
        exact h id b hb
    | appendBlock hf _ => exact h.withBlock hf (hm.ids _ _ hf) _
    | appendEntryBlock hf => exact h.withBlock hf (hm.ids _ _ hf) _
    | make hprepare site =>
        exact h.place (checkInsertion_eq_ok.1 (prepare_eq_ok.1 hprepare).2).1
    | replaceOperand hi _ new => exact h.exchange hi (.setOperand _ _ new)
    | replaceSuccessor old hi _ _ _ => exact h.exchange hi (.mapSuccessors _ _)
    | removeInstruction _ _ => exact h.modifyBlock (fun b _ hlast => hlast.erase _)

theorem Reachable.terminatorsLast (hm : m.Reachable) : m.TerminatorsLast := by
  refine (hm.invariant (P := fun m => m.Consistent ∧ m.TerminatorsLast) ?_ ?_).2
  · intro name
    refine ⟨.empty name, ?_⟩
    intro id b hb
    simp [Module.empty, block?, function?] at hb
  · intro m command h
    exact ⟨h.1.after command, h.2.after h.1 command⟩

/-- Where terminators stand last and edges stay inside, an instruction has no other faults than in
its operands. -/
theorem mem_operandFaults_of_mem_instructionFaults (hm : m.Consistent) (hlast : m.TerminatorsLast)
    {options : Options} {f : Function} {b : Block} {id : InstructionId} {i : Instruction}
    {fault : Fault} (hi : m.Stands f b id i)
    (hfault : fault ∈ Verifier.instructionFaults m options f b id i) :
    fault ∈ m.operandFaults options.checkOperandTypes id i := by
  simp only [Verifier.instructionFaults, List.mem_append] at hfault
  rcases hfault with (hplace | hsuccessor) | hoperand
  · split at hplace
    · rename_i hmisplaced
      simp only [Bool.and_eq_true, bne_iff_ne] at hmisplaced
      exact absurd (hlast _ b hi.block? _ i hi.live hmisplaced.1) hmisplaced.2
    · simp at hplace
  · obtain ⟨target, htarget, -⟩ := List.mem_map.1 hsuccessor
    obtain ⟨hedge, hmissing⟩ := List.mem_filter.1 htarget
    obtain ⟨hlocal, hsome⟩ := (hm.fixed id i hi.instruction?).1 target hedge
    rw [block?, hlocal, hi.function, Option.bind_some] at hsome
    simp [Option.isNone_iff_eq_none.1 hmissing] at hsome
  · exact hoperand

theorem instructionFaults_eq_operandFaults (hm : m.Consistent) (hlast : m.TerminatorsLast)
    (options : Options) {f : Function} {b : Block} {id : InstructionId} {i : Instruction}
    (hi : m.Stands f b id i) :
    Verifier.instructionFaults m options f b id i =
      m.operandFaults options.checkOperandTypes id i := by
  have hnone : ∀ fault ∈ Verifier.instructionFaults m options f b id i,
      fault.concernsPlacement = false := by
    intro fault hfault
    exact Fault.concernsPlacement_eq_false_of_concernsOperand (concernsOperand_of_mem_operandFaults
      (mem_operandFaults_of_mem_instructionFaults hm hlast hi hfault))
  simp only [Verifier.instructionFaults, List.mem_append] at hnone ⊢
  have hplace : (if i.isTerminator && b.lastAddress? != some id.address then
      [Fault.terminatorNotLast id] else []) = [] := by
    apply List.eq_nil_iff_forall_not_mem.2
    intro fault hfault
    have hconcerns := hnone fault (.inl (.inl hfault))
    split at hfault
    · obtain rfl := List.mem_singleton.1 hfault
      simp [Fault.concernsPlacement] at hconcerns
    · simp at hfault
  have hsuccessors : (i.successors.filter (fun target => (f.block? target).isNone)).map
      (Fault.invalidSuccessor id) = [] := by
    apply List.eq_nil_iff_forall_not_mem.2
    intro fault hfault
    have hconcerns := hnone fault (.inl (.inr hfault))
    obtain ⟨target, -, rfl⟩ := List.mem_map.1 hfault
    simp [Fault.concernsPlacement] at hconcerns
  rw [hplace, hsuccessors]
  rfl

/-- The findings that are left for a reachable module. -/
theorem cases_of_mem_findings (hm : m.Consistent) (hlast : m.TerminatorsLast) {options : Options}
    {finding : Finding} (h : finding ∈ Verifier.findings options m) :
    (∃ block, finding.fault = .emptyBlock block ∨ finding.fault = .missingTerminator block) ∨
    (∃ id i, m.instruction? id = some i ∧
      finding.fault ∈ m.operandFaults options.checkOperandTypes id i) ∨
    (options.rejectUnreachableBlocks = true ∧ ∃ block, finding.fault = .unreachableBlock block) ∨
    (options.checkStackDiscipline = true ∧ finding.fault.concernsStack = true) := by
  obtain ⟨f, hf, -, hfault⟩ := Verifier.exists_of_mem_findings h
  rcases Verifier.cases_of_mem_functionFaults hm hf hfault with
    hblock | ⟨b, id, i, hi, hin⟩ | hpaths
  · exact .inl hblock
  · exact .inr (.inl ⟨id, i, hi.instruction?,
      mem_operandFaults_of_mem_instructionFaults hm hlast hi hin⟩)
  · exact .inr (.inr hpaths)

/-- No history misplaces a terminator or an edge: a block has at most one terminator, as its last
instruction, every edge leads to a block of its function, and so the verifier, whatever it is asked
to check, never reports one. -/
theorem terminators_last_edges_inside {m : Module} (hm : m.Reachable) :
    (∀ id b, m.block? id = some b →
      b.instructions.countP (fun entry => entry.2.isTerminator) ≤ 1 ∧
      ∀ address i, b.get? address = some i → i.isTerminator = true →
        b.order.getLast? = some address) ∧
    (∀ id i, m.instruction? id = some i → ∀ target ∈ i.successors,
      target.function = id.function ∧ (m.block? target).isSome) ∧
    ∀ options, ∀ finding ∈ Verifier.findings options m,
      finding.fault.concernsPlacement = false := by
  have hconsistent := hm.consistent
  have hlast := hm.terminatorsLast
  refine ⟨?_, ?_, ?_⟩
  · intro id b hb
    exact ⟨(hlast id b hb).countP_le_one (hconsistent.ordered id b hb), hlast id b hb⟩
  · intro id i hi
    exact (hconsistent.fixed id i hi).1
  · intro options finding hfinding
    rcases cases_of_mem_findings hconsistent hlast hfinding with
      ⟨block, hfault | hfault⟩ | ⟨id, i, -, hoperand⟩ | ⟨-, block, hfault⟩ | ⟨-, hstack⟩
    · rw [hfault]
      rfl
    · rw [hfault]
      rfl
    · exact Fault.concernsPlacement_eq_false_of_concernsOperand
        (concernsOperand_of_mem_operandFaults hoperand)
    · rw [hfault]
      rfl
    · exact Fault.concernsPlacement_eq_false_of_concernsStack hstack

section Rewired

/-- A function whose entry lost its terminator, took instructions before and behind what was left,
and was ended by another terminator, which was then redirected; its last block is ended by an
emitter, and requests that come too late fail. -/
def rewired : Module :=
  let block (address : Nat) : BlockId := ⟨⟨0⟩, address⟩
  let make (point : InsertionPoint) (draft : Draft) : Command := .make point draft .synthetic
  let edited := List.foldl Module.after (.empty "test")
    [.declareFunction "main" [.ofBuiltin .i1] .void, .appendEntryBlock ⟨0⟩,
      .appendBlock ⟨0⟩ [], .appendBlock ⟨0⟩ [],
      make (.atEnd (block 0)) (.condBranch (.parameter (block 0) 0) (block 1) (block 2)),
      make (.before ⟨block 0, 0⟩) (.allocStack (.builtin .i64)),
      make (.atEnd (block 0)) .ret,
      .removeInstruction ⟨block 0, 0⟩,
      make (.atEnd (block 0)) (.deallocStack (.result ⟨block 0, 1⟩ 0)),
      make (.atEnd (block 0)) (.branch (block 1)),
      make (.before ⟨block 0, 3⟩) .ret,
      .replaceSuccessor ⟨block 0, 3⟩ (block 1) (block 2),
      make (.atEnd (block 1)) .ret]
  List.foldl Emitter.after (.ofModule edited)
    [.setInsertionBlock (block 2), .ret .synthetic, .setInsertionBlock (block 2), .ret .synthetic]
    |>.module

theorem rewired_in_place :
    rewired.isComplete = true ∧
    (rewired.block? ⟨⟨0⟩, 0⟩).map Block.order = some [1, 2, 3] ∧
    rewired.instruction? ⟨⟨⟨0⟩, 0⟩, 3⟩ = some ⟨.branch ⟨⟨0⟩, 2⟩, .synthetic⟩ ∧
    ∀ options, ∀ finding ∈ Verifier.findings options rewired,
      finding.fault.concernsPlacement = false := by
  have hreachable : rewired.Reachable := ((Reachable.empty "test").edits _).emit _
  refine ⟨by decide +kernel, by decide +kernel, by decide +kernel, ?_⟩
  exact (terminators_last_edges_inside hreachable).2.2

end Rewired

end Module

end BlockIR
