import BlockIR.Proofs.Identities
import BlockIR.Proofs.VerifiedRows
/-!
Recorded types.

A load and a binary operation carry the type of their result from when they were made.  Operands that
were not exchanged since then still agree with it: what an operand names never changes its type, and
what was removed never comes back.  So the type on record is that of the row as long as it can be read
off the exchanged operands too.  A module in which it cannot passes the verifier all the same, with a
type on record that is none of its row.
-/

namespace BlockIR

namespace Operation

/-- What the type on record, if there is one, says of the type of each operand. -/
def Agrees : Operation → ValueType → Prop
  | .load _ recorded, type => type.pointee? = some recorded
  | .binary _ recorded _ _, type => type = .ofBuiltin recorded
  | _, _ => True

theorem agrees_setOperand (operation : Operation) (index : Nat) (new : Operand) :
    (operation.setOperand index new).Agrees = operation.Agrees := by
  cases operation <;> rfl

theorem agrees_mapSuccessors (operation : Operation) (f : BlockId → BlockId) :
    (operation.mapSuccessors f).Agrees = operation.Agrees := by
  cases operation <;> rfl

end Operation

namespace Module

variable {m n : Module} {id : InstructionId} {kept : Nat → Prop}

/-- Where the results of a row are the types on record, the operands agree with them. -/
theorem Row.agrees {function : FunctionId} {operation : Operation}
    (hrow : m.Row function operation operation.resultTypes) {operand : Operand} {type : ValueType}
    (hoperand : operand ∈ operation.operands) (htype : m.operandType? operand = some type) :
    operation.Agrees type := by
  generalize hresults : operation.resultTypes = results at hrow
  cases hrow with
  | load recorded hsource hpointee _ =>
      obtain rfl := List.mem_singleton.1 hoperand
      obtain rfl := Option.some.inj (hsource.1.symm.trans htype)
      obtain rfl : recorded = _ := by simpa [Operation.resultTypes] using hresults
      exact hpointee
  | binary recorded hlhs hrhs _ =>
      obtain rfl : recorded = _ := by
        simpa [Operation.resultTypes, ValueType.ofBuiltin] using hresults
      simp only [Operation.operands, List.mem_cons, List.not_mem_nil, or_false] at hoperand
      rcases hoperand with rfl | rfl
      · exact (Option.some.inj (hlhs.1.symm.trans htype)).symm
      · exact (Option.some.inj (hrhs.1.symm.trans htype)).symm
  | _ => trivial

/-- Where the operands agree with the types on record, these are the results of the row. -/
theorem Row.eq_resultTypes {function : FunctionId} {operation : Operation}
    {results : List ValueType} (hrow : m.Row function operation results)
    (hrecords : operation.recordsType = true)
    (hagrees : ∀ operand ∈ operation.operands, ∀ type, m.operandType? operand = some type →
      operation.Agrees type) : operation.resultTypes = results := by
  cases hrow with
  | load recorded hsource hpointee _ =>
      have hrecorded := hagrees _ (by simp [Operation.operands]) _ hsource.1
      obtain rfl := Option.some.inj (hpointee.symm.trans hrecorded)
      rfl
  | binary recorded hlhs _ _ =>
      have hrecorded := hagrees _ (by simp [Operation.operands]) _ hlhs.1
      rw [hrecorded]
      rfl
  | _ => simp [Operation.recordsType] at hrecords

/-- What is taken in agrees with its types on record. -/
theorem fits_of_prepare {point : InsertionPoint} {draft : Draft} {operation : Operation}
    (hprepare : m.prepare point draft = .ok operation) :
    ∀ operand ∈ operation.operands, m.Fits operation.Agrees operand := by
  intro operand hoperand
  obtain ⟨-, hoperands, -⟩ := checkInsertion_eq_ok.1 (prepare_eq_ok.1 hprepare).2
  obtain ⟨type, htype⟩ := Option.isSome_iff_exists.1 (hoperands operand hoperand).1
  exact .inl ⟨type, htype, (row_of_prepare hprepare).agrees hoperand htype⟩

/-- The operands of an instruction at the kept indices, if it is live, agree with the type that it
has on record. -/
def RecordHolds (m : Module) (id : InstructionId) (kept : Nat → Prop) : Prop :=
  ∀ i, m.instruction? id = some i → ∀ index, kept index → ∀ operand,
    i.operands[index]? = some operand → m.Fits i.operation.Agrees operand

theorem RecordHolds.effect (hm : m.Consistent) (h : m.RecordHolds id kept) {command : Command}
    (hkept : ∀ index new, command = .replaceOperand id index new → ¬kept index)
    (heffect : command.Effect m n) : n.RecordHolds id kept := by
  have hevolves := Evolves.of_effect hm heffect
  have hsame : ∀ {i}, m.instruction? id = some i → ∀ index, kept index → ∀ operand,
      i.operands[index]? = some operand → n.Fits i.operation.Agrees operand :=
    fun hi index hindex operand hoperand => (h _ hi index hindex operand hoperand).mono hevolves
  intro i hi
  cases origin_of_effect hm heffect hi with
  | kept hi => exact hsame hi
  | made hprepare _ =>
      intro index _ operand hoperand
      exact (fits_of_prepare hprepare operand (List.mem_of_getElem? hoperand)).mono hevolves
  | @exchanged old index new hold =>
      -- The exchanged operand is not one of the kept ones, and the others are as before.
      intro other hother operand hoperand
      have hne : index ≠ other := by
        rintro rfl
        exact hkept index new rfl hother
      rw [Instruction.operands, Operation.operands_setOperand, List.getElem?_set_ne hne] at hoperand
      rw [Operation.agrees_setOperand]
      exact hsame hold other hother operand hoperand
  | redirected hold _ _ =>
      simp only [Instruction.operands, Operation.operands_mapSuccessors,
        Operation.agrees_mapSuccessors]
      exact hsame hold

/-- Edits that exchange no kept operand of an instruction leave its record true of these. -/
theorem RecordHolds.edits (hm : m.Consistent) (h : m.RecordHolds id kept) {commands : List Command}
    (hkept : ∀ index new, .replaceOperand id index new ∈ commands → ¬kept index) :
    (commands.foldl Module.after m).RecordHolds id kept := by
  induction commands generalizing m with
  | nil => exact h
  | cons command rest ih =>
      refine ih (hm.after command) ?_ (fun index new hmem => hkept index new (by simp [hmem]))
      rcases m.after_eq_or_effect command with hsame | heffect
      · rwa [hsame]
      · refine h.effect hm ?_ heffect
        rintro index new rfl
        exact hkept index new List.mem_cons_self

theorem Makes.row {commands since : List Command} {before : Module} {operation : Operation}
    (hmakes : m.Makes commands id before operation since) :
    before.Row id.function operation operation.resultTypes := by
  obtain ⟨past, point, draft, site, -, -, hprepare, rfl⟩ := hmakes
  exact row_of_prepare hprepare

/-- The operands that were not exchanged since an instruction was made agree with its record. -/
theorem Makes.recordHolds (hm : m.Reachable) {commands since : List Command} {before : Module}
    {operation : Operation} (hmakes : m.Makes commands id before operation since) :
    (commands.foldl Module.after m).RecordHolds id
      (fun index => ∀ new, .replaceOperand id index new ∉ since) := by
  obtain ⟨past, point, draft, site, rfl, rfl, -, rfl⟩ := hmakes
  rw [List.foldl_append]
  refine RecordHolds.edits (hm.edits past).consistent ?_ ?_
  · intro i hi
    simp [instruction?_nextInstruction] at hi
  · intro index new hmem hkept
    exact hkept new (by simpa using hmem)

/-- Every live instruction of a module without findings satisfies its row of the instruction table
against the operands it has now.  The types of its results are those of its row when it was made.
They are those of its row now unless they are on record, and an operand that was exchanged since has
a type that does not agree with the record. -/
theorem verified_row {name : String} {calls : List Call} {m : Module} (hm : built name calls = m)
    (hverified : Verifier.findings .standard m = []) {id : InstructionId} {i : Instruction}
    (hi : m.instruction? id = some i) :
    ∃ results, m.Row id.function i.operation results ∧
      (i.operation.recordsType = false → i.resultTypes = results) ∧
      ∃ before made since,
        (Module.empty name).Makes (sessionEdits name calls) id before made since ∧
        before.Row id.function made made.resultTypes ∧ i.resultTypes = made.resultTypes ∧
        (i.resultTypes = results ↔ ∀ index new, .replaceOperand id index new ∈ since →
          ∀ operand type, i.operands[index]? = some operand → m.operandType? operand = some type →
            i.operation.Agrees type) := by
  have hempty := Reachable.empty name
  rw [built_eq_foldl] at hm
  subst hm
  have hconsistent := (hempty.edits (sessionEdits name calls)).consistent
  have hmade : id ∈ (Module.empty name).made (sessionEdits name calls) := by
    have hlive := (isSome_foldl_iff hempty.consistent _ id).1 (Option.isSome_of_eq_some hi)
    simpa [instruction?_empty] using hlive.1
  obtain ⟨before, made, since, hmakes⟩ := exists_makes_of_mem_made hmade
  have hnone := operandFaults_eq_nil_of_findings hconsistent hverified hi
  obtain ⟨results, hrow, hplain⟩ := row_of_operandFaults (hconsistent.fixed id i hi) hnone
  refine ⟨results, hrow, hplain, before, made, since, hmakes, hmakes.row,
    (hmakes.alike hempty hi).resultTypes, ?_, ?_⟩
  · rintro rfl index new - operand type hoperand htype
    exact hrow.agrees (List.mem_of_getElem? hoperand) htype
  · intro hexchanged
    cases hrecords : i.operation.recordsType with
    | false => exact hplain hrecords
    | true =>
        refine hrow.eq_resultTypes hrecords (fun operand hmem type htype => ?_)
        obtain ⟨index, hoperand⟩ := List.mem_iff_getElem?.1 hmem
        by_cases hkept : ∀ new, .replaceOperand id index new ∉ since
        · exact (hmakes.recordHolds hempty i hi index hkept operand hoperand).of_operandType? htype
        · obtain ⟨new, hnew⟩ := not_forall_not.1 hkept
          exact hexchanged index new hnew operand type hoperand htype

section ExchangedSlot

/-- Make an instruction in the only block. -/
def inEntry (draft : Draft) : Command := .make (.atEnd ⟨⟨0⟩, 0⟩) draft .synthetic

/-- The slot of the allocation at an address of the only block. -/
def entrySlot (address : Nat) : Operand := .result ⟨⟨⟨0⟩, 0⟩, address⟩ 0

/-- A session that loads an integer from the first of two slots, leads the load to the second one and
completes the function. -/
def slotExchange (second : ObjectType) : List Call :=
  [.declareFunction "main" [] .void, .appendEntryBlock ⟨0⟩,
    inEntry (.allocStack (.builtin .i64)), inEntry (.allocStack second),
    inEntry (.load (entrySlot 0)), .replaceOperand ⟨⟨⟨0⟩, 0⟩, 2⟩ 0 (entrySlot 1),
    inEntry (.deallocStack (entrySlot 1)), inEntry (.deallocStack (entrySlot 0)),
    inEntry .ret].map .edit

def loadOfSecond (second : ObjectType) : Module := built "test" (slotExchange second)

theorem loadOfSecond_reachable (second : ObjectType) : (loadOfSecond second).Reachable :=
  reachable_iff_built.2 ⟨"test", slotExchange second, rfl⟩

theorem loadOfSecond_row :
    Verifier.findings .standard (loadOfSecond (.builtin .i64)) = [] ∧
    (loadOfSecond (.builtin .i64)).Row ⟨0⟩ (.load (entrySlot 1) (.builtin .i64))
      [.object (.builtin .i64)] := by
  have hverified : Verifier.findings .standard (loadOfSecond (.builtin .i64)) = [] := by
    decide +kernel
  have hload : (loadOfSecond (.builtin .i64)).instruction? ⟨⟨⟨0⟩, 0⟩, 2⟩ =
      some ⟨.load (entrySlot 1) (.builtin .i64), .synthetic⟩ := by decide +kernel
  have hsecond : (loadOfSecond (.builtin .i64)).operandType? (entrySlot 1) =
      some (.address (.builtin .i64)) := by decide +kernel
  obtain ⟨results, hrow, -, before, made, since, -, -, -, hresults⟩ :=
    verified_row rfl hverified hload
  obtain rfl : [.object (.builtin .i64)] = results := by
    refine hresults.2 (fun index new _ operand type hoperand htype => ?_)
    obtain rfl : operand = entrySlot 1 := List.mem_singleton.1 (List.mem_of_getElem? hoperand)
    obtain rfl := Option.some.inj (hsecond.symm.trans htype)
    rfl
  exact ⟨hverified, hrow⟩

/-- Led to a slot of another type, the load keeps its type on record, and the verifier says
nothing. -/
theorem loadOfSecond_stale :
    (loadOfSecond (.builtin .i1)).Reachable ∧
    Verifier.findings .standard (loadOfSecond (.builtin .i1)) = [] ∧
    (loadOfSecond (.builtin .i1)).instruction? ⟨⟨⟨0⟩, 0⟩, 2⟩ =
      some ⟨.load (entrySlot 1) (.builtin .i64), .synthetic⟩ ∧
    ¬(loadOfSecond (.builtin .i1)).Row ⟨0⟩ (.load (entrySlot 1) (.builtin .i64))
      [.object (.builtin .i64)] := by
  have htype : (loadOfSecond (.builtin .i1)).operandType? (entrySlot 1) =
      some (.address (.builtin .i1)) := by decide +kernel
  refine ⟨loadOfSecond_reachable _, by decide +kernel, by decide +kernel, ?_⟩
  intro hrow
  cases hrow with
  | load _ hsource hpointee _ =>
      obtain rfl := Option.some.inj (htype.symm.trans hsource.1)
      simp [ValueType.pointee?] at hpointee

end ExchangedSlot

end Module

end BlockIR
