import BlockIR.Proofs.OperandRules
import BlockIR.Proofs.Placement
/-!
Making an instruction.

A request is granted exactly where its place is open to its kind, its operands and its targets are
there, and the row of the instruction table is met.  What is then added is the instruction that was
asked for, at the place that was asked for, and nothing else changes; a request that is refused
changes nothing.
-/

namespace BlockIR

/-- The order of a block before and after an address was put at a place. -/
def InsertionPoint.Puts (address : Nat) (before after : List Nat) : InsertionPoint → Prop
  | .atEnd _ => after = before ++ [address]
  | .before anchor => ∃ first rest,
      before = first ++ anchor.address :: rest ∧ after = first ++ address :: anchor.address :: rest

/-- The block with an instruction more at a place. -/
def Block.put (b : Block) (i : Instruction) : InsertionPoint → Block
  | .atEnd _ => b.push i
  | .before anchor => b.insertBefore anchor.address i

theorem Block.params_put (b : Block) (i : Instruction) (point : InsertionPoint) :
    (b.put i point).params = b.params := by
  cases point <;> rfl

/-- An operation is settled by the request it answers and the types of its results. -/
theorem Operation.eq_of_draft {made operation : Operation} (hdraft : made.draft = operation.draft)
    (hresults : made.resultTypes = operation.resultTypes) : made = operation := by
  cases made <;> cases operation <;> simp only [draft, reduceCtorEq, Draft.load.injEq,
    Draft.binary.injEq, Draft.call.injEq] at hdraft
  case load.load => simp_all [resultTypes]
  case binary.binary => simp_all [resultTypes, ValueType.ofBuiltin]
  case call.call => simp_all [ObjectType.eq_of_outputs hresults]
  all_goals simp_all

namespace Module

variable {m : Module} {point : InsertionPoint} {i : Instruction}

theorem place_eq_modifyBlock (m : Module) (point : InsertionPoint) (i : Instruction) :
    m.place point i = m.modifyBlock point.block (fun b => b.put i point) := by
  cases point <;> rfl

theorem block?_place (m : Module) (point : InsertionPoint) (i : Instruction) (other : BlockId) :
    (m.place point i).block? other =
      if other = point.block then (m.block? other).map (fun b => b.put i point)
      else m.block? other := by
  rw [place_eq_modifyBlock, block?_modifyBlock]
  split
  · rename_i heq
    rw [heq]
  · rfl

/-- A request meets its row with these types of results: some operation that answers it does.  Which
types the operation carries plays no part in the row. -/
def Meets (m : Module) (function : FunctionId) (draft : Draft) (results : List ValueType) : Prop :=
  ∃ operation : Operation, operation.draft = draft ∧ m.Row function operation results

/-- A row gives a request one list of result types. -/
theorem Meets.unique {function : FunctionId} {draft : Draft} {results others : List ValueType}
    (h : m.Meets function draft results) (hother : m.Meets function draft others) :
    results = others := by
  obtain ⟨operation, rfl, hrow⟩ := h
  obtain ⟨other, hdraft, hotherRow⟩ := hother
  obtain ⟨made, hmade, -, rfl⟩ := hrow.complete
  obtain ⟨again, hagain, -, rfl⟩ := hotherRow.complete
  rw [hdraft, hmade] at hagain
  rw [Except.ok.inj hagain]

/-- What a request has to bring along to be granted. -/
structure Grantable (m : Module) (point : InsertionPoint) (draft : Draft) : Prop where
  block : (m.block? point.block).isSome
  /-- The end of a block without terminator; or, for what is no terminator, before a live
  instruction. -/
  place : m.Admits draft.kind point
  operands : ∀ operand ∈ draft.operands, ∃ type, m.HasType point.block.function operand type
  targets : ∀ target ∈ draft.targets, m.IsTarget point.block.function target
  row : ∃ results, m.Meets point.block.function draft results

/-- The second module has one instruction more, with the identity `id` at a place, and is the same
otherwise. -/
structure Gains (m n : Module) (point : InsertionPoint) (id : InstructionId) (i : Instruction) :
    Prop where
  block : id.block = point.block
  fresh : m.instruction? id = none
  instructions : ∀ other,
    n.instruction? other = if other = id then some i else m.instruction? other
  order : ∃ b c, m.block? point.block = some b ∧ n.block? point.block = some c ∧
    c.params = b.params ∧ point.Puts id.address b.order c.order
  blocks : ∀ other, other ≠ point.block → n.block? other = m.block? other
  functions : ∀ other, other ≠ point.block.function → n.function? other = m.function? other
  signature : ∃ f g, m.function? point.block.function = some f ∧
    n.function? point.block.function = some g ∧
    g = { f with blocks := g.blocks } ∧ g.blocks.length = f.blocks.length
  name : n.name = m.name

theorem checkPlace_iff_admits (hm : m.Consistent) {operation : Operation} :
    m.checkPlace point operation = .ok () ↔ m.Admits operation.kind point := by
  refine ⟨?_, fun h => h.checkPlace hm⟩
  rw [checkPlace_eq_ok]
  rintro ⟨b, hb, hallowed⟩
  cases point with
  | atEnd block => exact ⟨b, hb, hallowed⟩
  | before anchor =>
      refine ⟨?_, by rw [Operation.isTerminator_kind, hallowed.1]⟩
      obtain ⟨i, hi⟩ :=
        Option.isSome_iff_exists.1 (((hm.ordered _ b hb).mem_iff anchor.address).1 hallowed.2)
      exact Option.isSome_iff_exists.2 ⟨i, instruction?_eq_some.2 ⟨b, hb, hi⟩⟩

/-- A request is granted exactly where it brings along what it has to. -/
theorem exists_prepare_iff_grantable (hm : m.Consistent) {draft : Draft} :
    (∃ operation, m.prepare point draft = .ok operation) ↔ m.Grantable point draft := by
  constructor
  · rintro ⟨operation, hprepare⟩
    have hdraft := draft_of_prepare hprepare
    have hrow := row_of_prepare hprepare
    refine ⟨block?_isSome_of_prepare hprepare, ?_, ?_, ?_, _, operation, hdraft, hrow⟩
    · rw [← hdraft, Operation.kind_draft]
      exact (checkPlace_iff_admits hm).1 (checkInsertion_eq_ok.1 (prepare_eq_ok.1 hprepare).2).1
    · intro operand hoperand
      rw [← hdraft, Operation.operands_draft] at hoperand
      obtain ⟨hlive, hlocal⟩ := hrow.operands_live operand hoperand
      obtain ⟨type, htype⟩ := Option.isSome_iff_exists.1 hlive
      exact ⟨type, htype, hlocal⟩
    · intro target htarget
      rw [← hdraft, Operation.targets_draft] at htarget
      exact hrow.successors target htarget
  · rintro ⟨-, hplace, -, -, results, operation, rfl, hrow⟩
    rw [Operation.kind_draft] at hplace
    obtain ⟨made, hprepare, -⟩ := hrow.prepare (hplace.checkPlace hm)
    exact ⟨made, hprepare⟩

theorem puts_of_checkPlace {b : Block} (hb : m.block? point.block = some b)
    (hplace : m.checkPlace point i.operation = .ok ()) :
    point.Puts b.nextAddress b.order (b.put i point).order := by
  obtain ⟨c, hc, hallowed⟩ := checkPlace_eq_ok.1 hplace
  obtain rfl := Option.some.inj (hb.symm.trans hc)
  cases point with
  | atEnd block => rfl
  | before anchor => exact Block.insertIdx_idxOf hallowed.2 b.nextAddress

/-- Placing an instruction adds it and nothing else. -/
theorem gains_place (hplace : m.checkPlace point i.operation = .ok ()) :
    m.Gains (m.place point i) point (m.nextInstruction point.block) i := by
  obtain ⟨b, hb, -⟩ := checkPlace_eq_ok.1 hplace
  have hnext : (m.nextInstruction point.block).address = b.nextAddress := by
    simp [nextInstruction, hb]
  have halters : m.AltersOnly (m.place point i) point.block := by
    rw [place_eq_modifyBlock]
    exact .modifyBlock (by simp [hb]) _
  refine ⟨rfl, m.instruction?_nextInstruction point.block,
    fun other => instruction?_place (by simp [hb]) i other, ?_, halters.blocks, halters.functions,
    halters.signature, halters.name⟩
  refine ⟨b, b.put i point, hb, by simp [block?_place, hb], b.params_put i point, ?_⟩
  rw [hnext]
  exact puts_of_checkPlace hb hplace

/-- A request is granted if and only if its place takes an instruction of its kind, each operand
names a live value and each target a block of the function, and its row is met.  A granted one adds
one instruction at its place, which is what was asked for with the result types of the row, and
changes nothing else; a refused one changes nothing. -/
theorem make_exact {m : Module} (hm : m.Reachable) (point : InsertionPoint) (draft : Draft)
    (site : Span) :
    ((∃ id, ((make point draft site).run m).result = .ok id) ↔ m.Grantable point draft) ∧
    (∀ id, ((make point draft site).run m).result = .ok id →
      ∃ i : Instruction, m.Gains ((make point draft site).run m).state point id i ∧
        i.operation.draft = draft ∧ i.operands = draft.operands ∧ i.successors = draft.targets ∧
        i.site = site ∧ m.Meets point.block.function draft i.resultTypes ∧
        ∀ results, m.Meets point.block.function draft results → i.resultTypes = results) ∧
    ∀ violation, ((make point draft site).run m).result = .error violation →
      ((make point draft site).run m).state = m := by
  have hgranted : (∃ operation, m.prepare point draft = .ok operation) ↔ m.Grantable point draft :=
    exists_prepare_iff_grantable hm.consistent
  rw [← hgranted]
  simp only [Action.run, make]
  cases hprepare : m.prepare point draft with
  | error violation => simp
  | ok operation =>
      refine ⟨by simp, ?_, by simp⟩
      intro id hid
      obtain rfl := Except.ok.inj hid
      have hdraft := draft_of_prepare hprepare
      have hmeets : m.Meets point.block.function draft operation.resultTypes :=
        ⟨operation, hdraft, row_of_prepare hprepare⟩
      refine ⟨⟨operation, site⟩, ?_, hdraft, ?_, ?_, rfl, hmeets, fun _ => hmeets.unique⟩
      · exact gains_place (checkInsertion_eq_ok.1 (prepare_eq_ok.1 hprepare).2).1
      · rw [← hdraft, Operation.operands_draft]
        rfl
      · rw [← hdraft, Operation.targets_draft]
        rfl

section Mapped

/-- A function that maps a pointer to an address it may read and write through, and returns. -/
def mapped : Module :=
  let entry : BlockId := ⟨⟨0⟩, 0⟩
  List.foldl Module.after (.empty "test")
    [.declareFunction "main" [.ofBuiltin .ptr] .void, .appendEntryBlock ⟨0⟩,
      .make (.atEnd entry) (.pointerToAddress (.parameter entry 0) ⟨.inout, .builtin .i64⟩)
        .synthetic,
      .make (.atEnd entry) .ret .synthetic]

theorem mapped_load_before_return :
    (let load : Draft := .load (.result ⟨⟨⟨0⟩, 0⟩, 0⟩ 0)
    let granted := (make (.before ⟨⟨⟨0⟩, 0⟩, 1⟩) load .synthetic).run mapped
    let refused := (make (.atEnd ⟨⟨0⟩, 0⟩) load .synthetic).run mapped
    mapped.Grantable (.before ⟨⟨⟨0⟩, 0⟩, 1⟩) load ∧
    (granted.state.block? ⟨⟨0⟩, 0⟩).map Block.order = some [0, 2, 1] ∧
    (∃ i, mapped.Gains granted.state (.before ⟨⟨⟨0⟩, 0⟩, 1⟩) ⟨⟨⟨0⟩, 0⟩, 2⟩ i ∧
      i.resultTypes = [.object (.builtin .i64)]) ∧
    ¬mapped.Grantable (.atEnd ⟨⟨0⟩, 0⟩) load ∧ refused.state = mapped) := by
  have hreachable : mapped.Reachable := (Reachable.empty "test").edits _
  obtain ⟨hgranted, hgains, -⟩ := make_exact hreachable (.before ⟨⟨⟨0⟩, 0⟩, 1⟩)
    (.load (.result ⟨⟨⟨0⟩, 0⟩, 0⟩ 0)) .synthetic
  obtain ⟨hrefused, -, hkept⟩ := make_exact hreachable (.atEnd ⟨⟨0⟩, 0⟩)
    (.load (.result ⟨⟨⟨0⟩, 0⟩, 0⟩ 0)) .synthetic
  have hmeets : mapped.Meets ⟨0⟩ (.load (.result ⟨⟨⟨0⟩, 0⟩, 0⟩ 0)) [.object (.builtin .i64)] := by
    have hsource : mapped.HasType ⟨0⟩ (.result ⟨⟨⟨0⟩, 0⟩, 0⟩ 0) (.remote ⟨.inout, .builtin .i64⟩) :=
      ⟨by decide +kernel, rfl⟩
    exact ⟨.load _ .void, rfl, .load .void hsource rfl (by decide)⟩
  have hlate : ((make (.atEnd ⟨⟨0⟩, 0⟩) (.load (.result ⟨⟨⟨0⟩, 0⟩, 0⟩ 0)) .synthetic).run
      mapped).result = .error (.insertAfterTerminator "bb0") := by decide +kernel
  refine ⟨hgranted.1 ⟨⟨⟨⟨0⟩, 0⟩, 2⟩, by decide +kernel⟩, by decide +kernel, ?_, ?_, hkept _ hlate⟩
  · obtain ⟨i, hi, -, -, -, -, -, hresults⟩ := hgains ⟨⟨⟨0⟩, 0⟩, 2⟩ (by decide +kernel)
    exact ⟨i, hi, hresults _ hmeets⟩
  · rw [← hrefused, hlate]
    simp

end Mapped

end Module

end BlockIR
