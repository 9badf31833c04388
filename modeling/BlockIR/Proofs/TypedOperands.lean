import BlockIR.Proofs.OperandRules
import BlockIR.Proofs.Placement
import BlockIR.Proofs.Sessions
import BlockIR.Proofs.Uses
/-!
Operands stay what they have to be.

An instruction satisfies its row of the table when it is made, and an edit that exchanges no operand
leaves it so: nothing that a row reads changes, edges are led to blocks of the same function, and an
instruction is removed only if no operand names its results.  Uses are looked for in one function
only, which is enough, since the operands of a row are local.  So only an exchange of operands lets
the verifier find fault with them.
-/

namespace BlockIR

namespace Module

variable {m n : Module} {function : FunctionId} {id : InstructionId} {i : Instruction}

theorem IsTarget.mono (hextends : m.Extends n) {target : BlockId} (h : m.IsTarget function target) :
    n.IsTarget function target := by
  obtain ⟨b, hb⟩ := Option.isSome_iff_exists.1 h.2
  obtain ⟨c, hc, -⟩ := hextends.blocks target b hb
  exact ⟨h.1, by simp [hc]⟩

theorem HasType.mono (hextends : m.Extends n) {operand : Operand} {type : ValueType}
    (hkeeps : ∀ producer, operand.instruction? = some producer → m.Keeps n producer)
    (h : m.HasType function operand type) : n.HasType function operand type := by
  refine ⟨?_, h.2⟩
  have hbefore := h.1
  cases operand with
  | result producer index =>
      obtain ⟨i, hi, htype⟩ := Option.bind_eq_some_iff.1 hbefore
      obtain ⟨j, hj, halike⟩ := hkeeps producer rfl i hi
      simpa [operandType?, hj, halike.resultTypes] using htype
  | parameter block index =>
      obtain ⟨b, hb, htype⟩ := Option.bind_eq_some_iff.1 hbefore
      obtain ⟨c, hc, hparams⟩ := hextends.blocks block b hb
      simpa [operandType?, hc, hparams] using htype
  | constant value => exact hbefore

/-- A row holds in every module that declares as much and keeps what the operands name. -/
theorem Row.mono (hextends : m.Extends n) {operation : Operation} {results : List ValueType}
    (hkeeps : ∀ operand ∈ operation.operands, ∀ producer, operand.instruction? = some producer →
      m.Keeps n producer)
    (hrow : m.Row function operation results) : n.Row function operation results := by
  have hmono : ∀ {operand type}, operand ∈ operation.operands → m.HasType function operand type →
      n.HasType function operand type :=
    fun hmem htype => htype.mono hextends (hkeeps _ hmem)
  cases hrow with
  | allocStack type => exact .allocStack type
  | @deallocStack slot type site hslot hlocal =>
      have hkept : m.Keeps n slot := hkeeps (.result slot 0) (by simp [Operation.operands]) slot rfl
      obtain ⟨j, hj, halike⟩ := hkept _ hslot
      obtain rfl := halike.eq_of_allocStack
      exact .deallocStack hj hlocal
  | pointerToAddress haccess hsource =>
      exact .pointerToAddress haccess (hmono (by simp [Operation.operands]) hsource)
  | load recorded hsource hpointee hread =>
      exact .load recorded (hmono (by simp [Operation.operands]) hsource) hpointee hread
  | store htarget hpointee hwrite hobject =>
      exact .store (hmono (by simp [Operation.operands]) htarget) hpointee hwrite
        (hmono (by simp [Operation.operands]) hobject)
  | binary recorded hlhs hrhs hbitwise =>
      exact .binary recorded (hmono (by simp [Operation.operands]) hlhs)
        (hmono (by simp [Operation.operands]) hrhs) hbitwise
  | compare hlhs hrhs =>
      exact .compare (hmono (by simp [Operation.operands]) hlhs)
        (hmono (by simp [Operation.operands]) hrhs)
  | @call callee f arguments recorded hcallee harguments =>
      obtain ⟨g, hg, hinputs, houtput⟩ := hextends.functions callee f hcallee
      obtain ⟨hlength, htypes⟩ := List.forall₂_iff_zip.1 harguments
      rw [← houtput]
      refine .call recorded hg (hinputs ▸ List.forall₂_iff_zip.2 ⟨hlength, ?_⟩)
      exact fun hmem => hmono (List.of_mem_zip hmem).1 (htypes hmem)
  | branch htarget => exact .branch (htarget.mono hextends)
  | condBranch hcondition htrue hfalse =>
      exact .condBranch (hmono (by simp [Operation.operands]) hcondition) (htrue.mono hextends)
        (hfalse.mono hextends)
  | ret => exact .ret

/-- Edges led to another block of the function leave a row as it is. -/
theorem Row.mapSuccessors {operation : Operation} {results : List ValueType} {old new : BlockId}
    (hnew : m.IsTarget function new) (hrow : m.Row function operation results) :
    m.Row function (operation.mapSuccessors (fun b => if b = old then new else b)) results := by
  have htarget : ∀ {target}, m.IsTarget function target →
      m.IsTarget function (if target = old then new else target) := by
    intro target h
    split
    · exact hnew
    · exact h
  cases hrow with
  | branch h => exact .branch (htarget h)
  | condBranch hcondition htrue hfalse =>
      exact .condBranch hcondition (htarget htrue) (htarget hfalse)
  | _ => constructor <;> assumption

/-- Where no use of an instruction is found, no instruction of its function names its results. -/
theorem instruction?_ne_of_uses (hm : m.Consistent) {target : InstructionId}
    (hunused : m.uses target = []) (hi : m.instruction? id = some i)
    (hlocal : id.function = target.function) {operand : Operand} (hmem : operand ∈ i.operands) :
    operand.instruction? ≠ some target := by
  intro hproducer
  obtain ⟨result, rfl⟩ := Operand.instruction?_eq_some.1 hproducer
  obtain ⟨index, hindex⟩ := List.mem_iff_getElem?.1 hmem
  have huse : (id, index) ∈ m.uses target := hm.mem_uses.2 ⟨hlocal, i, result, hi, hindex⟩
  simp [hunused] at huse

/-- Every live instruction satisfies its row of the table. -/
def OperandsTyped (m : Module) : Prop :=
  ∀ id i, m.instruction? id = some i → ∃ results, m.Row id.function i.operation results

/-- What stands in a module after an edit that exchanges no operand satisfied its row before. -/
theorem OperandsTyped.row_before (hm : m.Consistent) (h : m.OperandsTyped) {command : Command}
    (heffect : command.Effect m n) (hkept : ∀ other, ¬command.ReplacesOperandOf other)
    (hi : n.instruction? id = some i) : ∃ results, m.Row id.function i.operation results := by
  cases origin_of_effect hm heffect hi with
  | kept hi => exact h id i hi
  | made hprepare hid =>
      rw [hid]
      exact ⟨_, row_of_prepare hprepare⟩
  | exchanged _ => exact absurd ⟨_, _, rfl⟩ (hkept _)
  | redirected hold hlocal hnew =>
      obtain ⟨results, hrow⟩ := h _ _ hold
      exact ⟨results, hrow.mapSuccessors ⟨hlocal, hnew⟩⟩

/-- An instruction that is removed is no operand of those that stay. -/
theorem Row.ne_of_removeInstruction (hm : m.Consistent) {results : List ValueType}
    (hrow : m.Row id.function i.operation results) {target : InstructionId}
    (heffect : (Command.removeInstruction target).Effect m n) (hi : n.instruction? id = some i)
    {operand : Operand} (hmem : operand ∈ i.operands) : operand.instruction? ≠ some target := by
  intro hproducer
  have hlocal : id.function = target.function := by
    have hoperand := (hrow.operands_live operand hmem).2
    cases operand <;> simp_all [Operand.isLocalTo, Operand.function?, Operand.instruction?]
  cases heffect with
  | removeInstruction _ hunused =>
      rw [instruction?_without] at hi
      split at hi
      · simp at hi
      · exact instruction?_ne_of_uses hm hunused hi hlocal hmem hproducer

theorem OperandsTyped.after (hm : m.Consistent) (h : m.OperandsTyped) {command : Command}
    (hkept : ∀ id, ¬command.ReplacesOperandOf id) : (m.after command).OperandsTyped := by
  rcases m.after_eq_or_effect command with hsame | heffect
  · rw [hsame]
    exact h
  · intro id i hi
    obtain ⟨results, hrow⟩ := h.row_before hm heffect hkept hi
    refine ⟨results, hrow.mono (extends_of_effect hm heffect) ?_⟩
    -- Only a removal takes a producer away, and no operand that stays names it then.
    intro operand hmem producer hproducer
    refine keeps_of_effect hm heffect ?_
    rintro rfl
    exact hrow.ne_of_removeInstruction hm heffect hi hmem hproducer

theorem OperandsTyped.empty (name : String) : (Module.empty name).OperandsTyped := by
  intro id i hi
  simp [instruction?_empty] at hi

theorem OperandsTyped.edits (hm : m.Consistent) (h : m.OperandsTyped) {commands : List Command}
    (hkept : ∀ command ∈ commands, ∀ id, ¬command.ReplacesOperandOf id) :
    (commands.foldl Module.after m).OperandsTyped := by
  induction commands generalizing m with
  | nil => exact h
  | cons command rest ih =>
      refine ih (hm.after command) (h.after hm (hkept command List.mem_cons_self)) ?_
      exact fun other hother => hkept other (List.mem_cons_of_mem _ hother)

theorem OperandsTyped.emitterAfter {e : Emitter} (hm : e.module.Consistent)
    (h : e.module.OperandsTyped) (call : Emitter.Command) :
    (e.after call).module.OperandsTyped := by
  rw [e.module_after]
  refine h.edits hm (fun command hcommand => ?_)
  exact Command.not_replacesOperandOf_of_isConstruction
    (Emitter.isConstruction_of_mem_requests (mem_of_mem_attempted hcommand))

theorem operandsTyped_built {name : String} {calls : List Call}
    (hkept : ∀ id index new, .edit (.replaceOperand id index new) ∉ calls) :
    (built name calls).OperandsTyped := by
  rw [built_eq_foldl]
  refine (OperandsTyped.empty name).edits (Consistent.empty name) (fun command hcommand => ?_)
  rcases Emitter.cases_of_mem_history hcommand with hcall | hrequested
  · rintro id ⟨index, new, rfl⟩
    exact hkept id index new hcall
  · exact Command.not_replacesOperandOf_of_isConstruction hrequested

/-- The verifier finds no fault with an operand. -/
def OperandClean (options : Options) (m : Module) : Prop :=
  ∀ finding ∈ Verifier.findings options m, finding.fault.concernsOperand = false

theorem operandClean_iff (hm : m.Reachable) {options : Options}
    (htypes : options.checkOperandTypes = true) : m.OperandClean options ↔ m.OperandsTyped := by
  constructor
  · intro hclean id i hi
    have hnone : m.operandFaults true id i = [] := by
      rw [List.eq_nil_iff_forall_not_mem, ← htypes]
      intro fault hfault
      obtain ⟨function, hfound⟩ :=
        Verifier.exists_mem_findings_of_operandFaults hm.consistent hi hfault
      simpa [concernsOperand_of_mem_operandFaults hfault] using hclean _ hfound
    obtain ⟨results, hrow, -⟩ := row_of_operandFaults (hm.consistent.fixed id i hi) hnone
    exact ⟨results, hrow⟩
  · intro htyped finding hfinding
    rcases cases_of_mem_findings hm.consistent hm.terminatorsLast hfinding with
      ⟨block, hfault | hfault⟩ | ⟨id, i, hi, hoperand⟩ | ⟨-, block, hfault⟩ | ⟨-, hstack⟩
    · rw [hfault]
      rfl
    · rw [hfault]
      rfl
    · obtain ⟨results, hrow⟩ := htyped id i hi
      simp [htypes, hrow.operandFaults] at hoperand
    · rw [hfault]
      rfl
    · exact Fault.concernsOperand_eq_false_of_concernsStack hstack

/-- Operands without fault are left without fault by every edit that exchanges none, whether it
succeeds or fails, and by every emitter call; so a session that exchanges no operand builds a module
whose blocks may be unfinished, but whose instructions are in order. -/
theorem operandClean_unless_exchanged :
    (∀ (options : Options) (m : Module) (command : Command), options.checkOperandTypes = true →
      m.Reachable → m.OperandClean options → (∀ id, ¬command.ReplacesOperandOf id) →
      (m.after command).OperandClean options) ∧
    (∀ (options : Options) (e : Emitter) (call : Emitter.Command),
      options.checkOperandTypes = true → e.module.Reachable → e.module.OperandClean options →
      (e.after call).module.OperandClean options) ∧
    ∀ (name : String) (calls : List Call),
      (∀ id index new, .edit (.replaceOperand id index new) ∉ calls) →
      ∀ checkTypes, ∀ finding ∈ Verifier.findings ⟨false, false, checkTypes⟩ (built name calls),
        ∃ block, finding.fault = .emptyBlock block ∨ finding.fault = .missingTerminator block := by
  refine ⟨?_, ?_, ?_⟩
  · intro options m command htypes hm hclean hkept
    rw [operandClean_iff (hm.edit command) htypes]
    exact ((operandClean_iff hm htypes).1 hclean).after hm.consistent hkept
  · intro options e call htypes hm hclean
    have hafter : (e.after call).module.Reachable := e.module_after call ▸ hm.edits _
    rw [operandClean_iff hafter htypes]
    exact ((operandClean_iff hm htypes).1 hclean).emitterAfter hm.consistent call
  · intro name calls hkept checkTypes finding hfinding
    have hreachable : (built name calls).Reachable := reachable_iff_built.2 ⟨name, calls, rfl⟩
    rcases cases_of_mem_findings hreachable.consistent hreachable.terminatorsLast hfinding with
      hblock | ⟨id, i, hi, hoperand⟩ | ⟨hoff, -⟩ | ⟨hoff, -⟩
    · exact hblock
    · obtain ⟨results, hrow⟩ := operandsTyped_built hkept id i hi
      simp [operandFaults_eq_nil_of_checked hrow.operandFaults] at hoperand
    · simp at hoff
    · simp at hoff

section Tidied

/-- A session with calls that fail: a slot is in use when it is to be removed, and a store names
what was removed before. -/
def tidied : Module :=
  let entry : BlockId := ⟨⟨1⟩, 0⟩
  let slot : Operand := .result ⟨entry, 0⟩ 0
  built "test"
    [.edit (.declareFunction "main" [.ofBuiltin .i64] .void), .edit (.appendEntryBlock ⟨0⟩),
      .startEmitter, .emit (.beginFunction "body" [] .void),
      .emit (.allocateLocal (.builtin .i64) .synthetic),
      .emit (.store (.constant (.integer 7 .i64)) slot .synthetic),
      .emit (.load slot .synthetic),
      .edit (.removeInstruction ⟨entry, 0⟩), .edit (.removeInstruction ⟨entry, 2⟩),
      .edit (.make (.atEnd entry) (.store (.result ⟨entry, 2⟩ 0) slot) .synthetic)]

theorem tidied_clean :
    Verifier.findings ⟨false, false, true⟩ tidied =
      [⟨"main", .emptyBlock ⟨⟨0⟩, 0⟩⟩, ⟨"body", .missingTerminator ⟨⟨1⟩, 0⟩⟩] ∧
    (∀ checkTypes, ∀ finding ∈ Verifier.findings ⟨false, false, checkTypes⟩ tidied,
      ∃ block, finding.fault = .emptyBlock block ∨ finding.fault = .missingTerminator block) ∧
    (tidied.after (.removeInstruction ⟨⟨⟨1⟩, 0⟩, 1⟩)).OperandClean .standard ∧
    ¬(tidied.after (.replaceOperand ⟨⟨⟨1⟩, 0⟩, 1⟩ 0 (.result ⟨⟨⟨1⟩, 0⟩, 2⟩ 0))).OperandClean
      .standard := by
  have hclean : tidied.OperandClean .standard := by
    unfold OperandClean
    decide +kernel
  refine ⟨by decide +kernel, ?_, ?_, ?_⟩
  · exact operandClean_unless_exchanged.2.2 "test" _ (by simp)
  · refine operandClean_unless_exchanged.1 .standard tidied _ rfl ?_ hclean ?_
    · exact reachable_iff_built.2 ⟨"test", _, rfl⟩
    · rintro id ⟨index, new, heq⟩
      simp at heq
  · unfold OperandClean
    decide +kernel

end Tidied

end Module

end BlockIR
