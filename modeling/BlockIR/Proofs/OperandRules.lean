import BlockIR.Proofs.EmitterSteps
import BlockIR.Proofs.Persistence
import BlockIR.Proofs.VerifiedRows
/-!
One set of rules for operands, checked twice.

Making an instruction and verifying one check its operands by code of their own, in another order and
with other reports.  Both decide the preconditions of the instruction table: what a module takes in
satisfies its row, a row leaves the verifier nothing to report, and an operation that satisfies its
row is taken in.
-/

namespace BlockIR

namespace Draft

def kind : Draft → Kind
  | .allocStack _ => .allocStack
  | .deallocStack _ => .deallocStack
  | .pointerToAddress _ _ => .pointerToAddress
  | .load _ => .load
  | .store _ _ => .store
  | .binary operator _ _ => .binary operator
  | .compare operator _ _ => .compare operator
  | .call callee _ => .call callee
  | .branch _ => .branch
  | .condBranch _ _ _ => .condBranch
  | .ret => .ret

/-- The values to be consumed, in order. -/
def operands : Draft → List Operand
  | .allocStack _ | .branch _ | .ret => []
  | .deallocStack location => [location]
  | .pointerToAddress source _ => [source]
  | .load source => [source]
  | .store object target => [object, target]
  | .binary _ lhs rhs => [lhs, rhs]
  | .compare _ lhs rhs => [lhs, rhs]
  | .call _ arguments => arguments
  | .condBranch condition _ _ => [condition]

/-- The blocks to lead on to, in order. -/
def targets : Draft → List BlockId
  | .branch target => [target]
  | .condBranch _ ifTrue ifFalse => [ifTrue, ifFalse]
  | _ => []

end Draft

namespace Operation

theorem kind_draft (operation : Operation) : operation.draft.kind = operation.kind := by
  cases operation <;> rfl

theorem operands_draft (operation : Operation) : operation.draft.operands = operation.operands := by
  cases operation <;> rfl

theorem targets_draft (operation : Operation) : operation.draft.targets = operation.successors := by
  cases operation <;> rfl

theorem isTerminator_eq_of_draft {made operation : Operation} (h : made.draft = operation.draft) :
    made.isTerminator = operation.isTerminator := by
  rw [← isTerminator_kind, ← isTerminator_kind, ← kind_draft, ← kind_draft, h]

end Operation

namespace Module

variable {m : Module} {function : FunctionId}

theorem exists_hasType_of_mem {operands : List Operand} {types : List ValueType}
    (h : List.Forall₂ (m.HasType function) operands types) {operand : Operand}
    (hmem : operand ∈ operands) : ∃ type, m.HasType function operand type := by
  induction h with
  | nil => simp at hmem
  | cons htype _ ih =>
      rcases List.mem_cons.1 hmem with rfl | hrest
      · exact ⟨_, htype⟩
      · exact ih hrest

/-- The operands of an operation that satisfies its row name live values of its function. -/
theorem Row.operands_live {operation : Operation} {results : List ValueType}
    (hrow : m.Row function operation results) :
    ∀ operand ∈ operation.operands,
      (m.operandType? operand).isSome ∧ operand.isLocalTo function = true := by
  have hlive : ∀ {operand type}, m.HasType function operand type →
      (m.operandType? operand).isSome ∧ operand.isLocalTo function = true :=
    fun htype => ⟨by simp [htype.1], htype.2⟩
  cases hrow with
  | deallocStack hslot hlocal =>
      simp [Operation.operands, operandType?, hslot, Instruction.resultTypes,
        Operation.resultTypes, Operand.isLocalTo, Operand.function?, hlocal]
  | pointerToAddress _ hsource => simpa [Operation.operands] using hlive hsource
  | load _ hsource _ _ => simpa [Operation.operands] using hlive hsource
  | store htarget _ _ hobject =>
      simpa [Operation.operands] using ⟨hlive hobject, hlive htarget⟩
  | binary _ hlhs hrhs _ => simpa [Operation.operands] using ⟨hlive hlhs, hlive hrhs⟩
  | compare hlhs hrhs => simpa [Operation.operands] using ⟨hlive hlhs, hlive hrhs⟩
  | call _ _ harguments =>
      intro argument hargument
      obtain ⟨type, htype⟩ := exists_hasType_of_mem harguments hargument
      exact hlive htype
  | condBranch hcondition _ _ => simpa [Operation.operands] using hlive hcondition
  | _ => simp [Operation.operands]

/-- The rules of the kind hold for an operation that satisfies its row, and completing its draft
gives it the types of the row. -/
theorem Row.complete {operation : Operation} {results : List ValueType}
    (hrow : m.Row function operation results) :
    ∃ made, m.complete function operation.draft = .ok made ∧ made.draft = operation.draft ∧
      made.resultTypes = results := by
  cases hrow with
  | allocStack type => exact ⟨_, rfl, rfl, rfl⟩
  | @deallocStack slot type site hslot hlocal =>
      refine ⟨.deallocStack (.result slot 0), ?_, rfl, rfl⟩
      have hallocation := isStackAllocation_iff.2 ⟨slot, type, site, rfl, hslot⟩
      simp [Module.complete, Operation.draft, hallocation, Operand.isLocalTo, Operand.function?,
        hlocal]
  | @pointerToAddress source target haccess hsource =>
      refine ⟨.pointerToAddress source target, ?_, rfl, rfl⟩
      simp [Module.complete, Operation.draft, addressCapabilities_contains_iff.2 haccess,
        checkType_eq_ok.2 hsource.1]
  | @load source type pointee recorded hsource hpointee hread =>
      refine ⟨.load source pointee, ?_, rfl, rfl⟩
      simp only [Module.complete, Operation.draft, Checks.bind_eq_ok, accessedType_eq_ok,
        Checks.pure_eq_ok]
      exact ⟨pointee, ⟨type, hsource.1, hpointee, hread⟩, rfl⟩
  | @store object target type pointee htarget hpointee hwrite hobject =>
      refine ⟨.store object target, ?_, rfl, rfl⟩
      simp only [Module.complete, Operation.draft, Checks.bind_eq_ok, accessedType_eq_ok,
        Checks.pure_eq_ok]
      exact ⟨pointee, ⟨type, htarget.1, hpointee, hwrite⟩, (), checkType_eq_ok.2 hobject.1, trivial⟩
  | @binary operator lhs rhs type recorded hlhs hrhs hbitwise =>
      refine ⟨.binary operator type lhs rhs, ?_, rfl, rfl⟩
      simp only [Module.complete, Operation.draft, Checks.bind_eq_ok, commonBuiltin_eq_ok]
      exact ⟨type, ⟨hlhs.1, hrhs.1⟩, by simpa [Checks.ite_eq_ok] using hbitwise⟩
  | @compare operator lhs rhs type hlhs hrhs =>
      refine ⟨.compare operator lhs rhs, ?_, rfl, rfl⟩
      simp only [Module.complete, Operation.draft, Checks.bind_eq_ok, commonBuiltin_eq_ok,
        Checks.pure_eq_ok]
      exact ⟨type, ⟨hlhs.1, hrhs.1⟩, trivial⟩
  | @call callee f arguments recorded hcallee harguments =>
      refine ⟨.call callee arguments f.output, ?_, rfl, rfl⟩
      have hlength := harguments.length_eq.symm
      have htypes : m.checkArguments 0 f.inputs arguments = .ok () :=
        (checkArguments_eq_ok hlength).2 (harguments.imp (fun _ _ htype => htype.1))
      simp only [Module.complete, Operation.draft, Checks.bind_eq_ok, getFunction_eq_ok]
      exact ⟨f, hcallee, by simp [hlength, htypes]⟩
  | branch htarget => exact ⟨_, rfl, rfl, rfl⟩
  | @condBranch condition ifTrue ifFalse hcondition htrue hfalse =>
      refine ⟨.condBranch condition ifTrue ifFalse, ?_, rfl, rfl⟩
      simp [Module.complete, Operation.draft, checkType_eq_ok.2 hcondition.1]
  | ret => exact ⟨_, rfl, rfl, rfl⟩

/-- An operation that satisfies its row is taken in wherever its kind may stand. -/
theorem Row.prepare {point : InsertionPoint} {operation : Operation} {results : List ValueType}
    (hrow : m.Row point.block.function operation results)
    (hplace : m.checkPlace point operation = .ok ()) :
    ∃ made, m.prepare point operation.draft = .ok made ∧ made.resultTypes = results := by
  obtain ⟨made, hcomplete, hdraft, hresults⟩ := hrow.complete
  refine ⟨made, prepare_eq_ok.2 ⟨hcomplete, checkInsertion_eq_ok.2 ⟨?_, ?_, ?_⟩⟩, hresults⟩
  · rw [checkPlace_eq_ok] at hplace ⊢
    rwa [Operation.isTerminator_eq_of_draft hdraft]
  · rw [← Operation.operands_draft, hdraft, Operation.operands_draft]
    exact hrow.operands_live
  · rw [← Operation.targets_draft, hdraft, Operation.targets_draft]
    exact hrow.successors

/-- The verifier asks of the operands of an instruction that they name live values of its function,
with types that the rules of the kind allow. -/
theorem operandFaults_eq_nil_iff {id : InstructionId} {i : Instruction} :
    m.operandFaults true id i = [] ↔
      ∃ types, List.Forall₂ (m.HasType id.function) i.operands types ∧
        m.unmetExpectation? i types = none := by
  refine ⟨types_of_operandFaults, ?_⟩
  rintro ⟨types, htypes, hmet⟩
  simp [operandFaults, operandTypes_eq_ok.2 htypes, hmet]

theorem operandFaults_eq_nil_of_checked {id : InstructionId} {i : Instruction}
    (h : m.operandFaults true id i = []) (checkTypes : Bool) :
    m.operandFaults checkTypes id i = [] := by
  obtain ⟨types, htypes, hmet⟩ := operandFaults_eq_nil_iff.1 h
  simp [operandFaults, operandTypes_eq_ok.2 htypes, hmet]

/-- The rules of a kind read nothing else of an instruction than the kind and, for a deallocation,
the operand. -/
theorem unmetExpectation?_congr {i j : Instruction} (hkind : i.operation.kind = j.operation.kind)
    (hfreed : j.operation.kind = .deallocStack → i.operands = j.operands) (types : List ValueType) :
    m.unmetExpectation? i types = m.unmetExpectation? j types := by
  obtain ⟨operation, _⟩ := i
  obtain ⟨other, _⟩ := j
  cases operation <;> cases other <;> simp_all [Operation.kind, Instruction.operands,
    Operation.operands, unmetExpectation?]

theorem operandFaults_eq_nil_congr {id other : InstructionId} {i j : Instruction}
    (hfunction : id.function = other.function) (hkind : i.operation.kind = j.operation.kind)
    (hoperands : i.operands = j.operands) :
    m.operandFaults true id i = [] ↔ m.operandFaults true other j = [] := by
  simp only [operandFaults_eq_nil_iff, hfunction, hoperands,
    unmetExpectation?_congr hkind (fun _ => hoperands)]

theorem admits_of_pointee {type : ValueType} {intent : Intent} {pointee : ObjectType}
    (hpointee : type.pointee? = some pointee)
    (haccess : ∀ access, type.access? = some access → intent.isPermittedBy access = true) :
    type.admits intent = true := by
  cases hcapability : type.access? with
  | none => simp [ValueType.admits, ValueType.isAddress, hpointee, hcapability]
  | some access =>
      have hpermitted := haccess access hcapability
      simp [ValueType.admits, ValueType.isAddress, hpointee, hcapability, hpermitted]

/-- A row leaves the verifier nothing to report about the operands. -/
theorem Row.operandFaults {id : InstructionId} {i : Instruction} {results : List ValueType}
    (hrow : m.Row id.function i.operation results) : m.operandFaults true id i = [] := by
  rw [operandFaults_eq_nil_iff]
  obtain ⟨operation, site⟩ := i
  cases hrow with
  | allocStack type => exact ⟨[], .nil, rfl⟩
  | @deallocStack slot type made hslot hlocal =>
      have hallocation := isStackAllocation_iff.2 ⟨slot, type, made, rfl, hslot⟩
      have htype : m.HasType id.function (.result slot 0) (.address type) := by
        simp [HasType, operandType?, hslot, Instruction.resultTypes, Operation.resultTypes,
          Operand.isLocalTo, Operand.function?, hlocal]
      exact ⟨_, .cons htype .nil, by simp [unmetExpectation?, hallocation]⟩
  | pointerToAddress _ hsource => exact ⟨_, .cons hsource .nil, by simp [unmetExpectation?]⟩
  | @load source type pointee recorded hsource hpointee hread =>
      have hreadable : type.admits .read = true := admits_of_pointee hpointee hread
      exact ⟨_, .cons hsource .nil, by simp [unmetExpectation?, hreadable]⟩
  | @store object target type pointee htarget hpointee hwrite hobject =>
      have hwritable : type.admits .write = true := admits_of_pointee hpointee hwrite
      exact ⟨_, .cons hobject (.cons htarget .nil),
        by simp [unmetExpectation?, hpointee, hwritable, Option.filter]⟩
  | @binary operator lhs rhs type recorded hlhs hrhs hbitwise =>
      have hbuiltin : (ValueType.ofBuiltin type).builtin? = some type :=
        ValueType.builtin?_eq_some.2 rfl
      refine ⟨_, .cons hlhs (.cons hrhs .nil), ?_⟩
      simpa [unmetExpectation?, hbuiltin] using hbitwise
  | @compare operator lhs rhs type hlhs hrhs =>
      have hbuiltin : (ValueType.ofBuiltin type).builtin? = some type :=
        ValueType.builtin?_eq_some.2 rfl
      exact ⟨_, .cons hlhs (.cons hrhs .nil), by simp [unmetExpectation?, hbuiltin]⟩
  | @call callee f arguments recorded hcallee harguments =>
      refine ⟨f.inputs, harguments, ?_⟩
      have hequal : List.Forall₂ (· = ·) f.inputs f.inputs := List.forall₂_refl f.inputs
      have hsame : (f.inputs.zip f.inputs).findIdx? (fun entry => entry.1 != entry.2) = none := by
        rw [List.findIdx?_eq_none_iff]
        intro entry hentry
        simpa using (List.forall₂_iff_zip.1 hequal).2 hentry
      simp [unmetExpectation?, hcallee, hsame]
  | branch _ => exact ⟨[], .nil, rfl⟩
  | condBranch hcondition _ _ => exact ⟨_, .cons hcondition .nil, by simp [unmetExpectation?]⟩
  | ret => exact ⟨[], .nil, rfl⟩

/-- The places where operations of a kind may be inserted. -/
def Admits (m : Module) (kind : Kind) : InsertionPoint → Prop
  | .atEnd block => m.IsOpen block
  | .before anchor => (m.instruction? anchor).isSome ∧ kind.isTerminator = false

/-- What a request has to bring along beside its operands: blocks of the function to lead on to, a
capability for addresses, and as many arguments as the callee has inputs. -/
def Grounded (m : Module) (function : FunctionId) (draft : Draft) : Prop :=
  (∀ target ∈ draft.targets, m.IsTarget function target) ∧
  match draft with
  | .pointerToAddress _ target =>
      target.access = .letBound ∨ target.access = .inout ∨ target.access = .set
  | .call callee arguments =>
      ∃ f, m.function? callee = some f ∧ f.inputs.length = arguments.length
  | _ => True

/-- Some operation answers a grounded request and has nothing settled wrongly, whatever its
operands. -/
theorem Grounded.exists_fixed {draft : Draft} (h : m.Grounded function draft) :
    ∃ operation : Operation, operation.draft = draft ∧ m.Fixed function operation := by
  obtain ⟨htargets, hrest⟩ := h
  cases draft with
  | allocStack type => exact ⟨.allocStack type, rfl, htargets, trivial⟩
  | deallocStack location => exact ⟨.deallocStack location, rfl, htargets, trivial⟩
  | pointerToAddress source target =>
      exact ⟨.pointerToAddress source target, rfl, htargets, hrest⟩
  | load source => exact ⟨.load source .void, rfl, htargets, trivial⟩
  | store object target => exact ⟨.store object target, rfl, htargets, trivial⟩
  | binary operator lhs rhs => exact ⟨.binary operator .i1 lhs rhs, rfl, htargets, trivial⟩
  | compare operator lhs rhs => exact ⟨.compare operator lhs rhs, rfl, htargets, trivial⟩
  | call callee arguments =>
      obtain ⟨f, hf, hlength⟩ := hrest
      exact ⟨.call callee arguments f.output, rfl, htargets, f, hf, hlength, rfl⟩
  | branch target => exact ⟨.branch target, rfl, htargets, trivial⟩
  | condBranch condition ifTrue ifFalse =>
      exact ⟨.condBranch condition ifTrue ifFalse, rfl, htargets, trivial⟩
  | ret => exact ⟨.ret, rfl, htargets, trivial⟩

theorem Admits.checkPlace (hm : m.Consistent) {point : InsertionPoint} {operation : Operation}
    (h : m.Admits operation.kind point) : m.checkPlace point operation = .ok () := by
  rw [checkPlace_eq_ok]
  cases point with
  | atEnd block => exact h
  | before anchor =>
      obtain ⟨hlive, hkind⟩ := h
      obtain ⟨i, hi⟩ := Option.isSome_iff_exists.1 hlive
      obtain ⟨b, hb, hget⟩ := instruction?_eq_some.1 hi
      refine ⟨b, hb, ?_, ?_⟩
      · rw [← Operation.isTerminator_kind, hkind]
      · exact ((hm.ordered _ b hb).mem_iff anchor.address).2 (by simp [hget])

theorem isOk_make_iff {point : InsertionPoint} {draft : Draft} {site : Span} :
    ((make point draft site).run m).result.isOk = true ↔
      ∃ operation, m.prepare point draft = .ok operation := by
  simp only [Action.run, make]
  cases m.prepare point draft <;> simp [Except.isOk, Except.toBool]

/-- Where an instruction of its kind may stand, a request is granted if and only if the verifier has
nothing to say about the operands of any instruction of that kind with those operands in that
function, whichever types it carries and wherever its edges lead. -/
theorem isOk_make_iff_operandFaults {m : Module} (hm : m.Reachable) {point : InsertionPoint}
    {draft : Draft} (site : Span) (hplace : m.Admits draft.kind point)
    (hgrounded : m.Grounded point.block.function draft) {id : InstructionId} {i : Instruction}
    (hfunction : id.function = point.block.function) (hkind : i.operation.kind = draft.kind)
    (hoperands : i.operands = draft.operands) :
    ((make point draft site).run m).result.isOk = true ↔ m.operandFaults true id i = [] := by
  rw [isOk_make_iff]
  constructor
  · rintro ⟨operation, hprepare⟩
    have hdraft := draft_of_prepare hprepare
    have hrow : m.Row id.function operation operation.resultTypes :=
      hfunction ▸ row_of_prepare hprepare
    refine (operandFaults_eq_nil_congr (j := ⟨operation, site⟩) rfl ?_ ?_).2 hrow.operandFaults
    · rw [hkind, ← hdraft, Operation.kind_draft]
    · rw [hoperands, ← hdraft, Operation.operands_draft]
      rfl
  · intro hnone
    -- The rules look at no recorded type, so any operation that answers the request will do.
    obtain ⟨operation, rfl, hfixed⟩ := hgrounded.exists_fixed
    have hclean : m.operandFaults true id ⟨operation, site⟩ = [] := by
      refine (operandFaults_eq_nil_congr rfl ?_ ?_).1 hnone
      · rw [hkind, Operation.kind_draft]
      · rw [hoperands, Operation.operands_draft]
        rfl
    obtain ⟨results, hrow, -⟩ := row_of_operandFaults (hfunction ▸ hfixed) hclean
    rw [Operation.kind_draft] at hplace
    obtain ⟨made, hprepare, -⟩ := Row.prepare (hfunction ▸ hrow) (hplace.checkPlace hm.consistent)
    exact ⟨made, hprepare⟩

section Lent

/-- A function with a pointer that it may only read through. -/
def lent : Module :=
  List.foldl Module.after (.empty "test")
    [.declareFunction "main" [.ofBuiltin .ptr] .void, .appendEntryBlock ⟨0⟩,
      .make (.atEnd ⟨⟨0⟩, 0⟩)
        (.pointerToAddress (.parameter ⟨⟨0⟩, 0⟩ 0) ⟨.letBound, .builtin .i64⟩) .synthetic]

theorem lent_read_not_written :
    (let address : Operand := .result ⟨⟨⟨0⟩, 0⟩, 0⟩ 0
    let value : Operand := .constant (.integer 7 .i64)
    lent.operandFaults true ⟨⟨⟨0⟩, 5⟩, 3⟩ ⟨.load address (.builtin .f64), .synthetic⟩ = [] ∧
    ((make (.atEnd ⟨⟨0⟩, 0⟩) (.load address) .synthetic).run lent).result.isOk = true ∧
    lent.operandFaults true ⟨⟨⟨0⟩, 0⟩, 1⟩ ⟨.store value address, .synthetic⟩ ≠ [] ∧
    ((make (.before ⟨⟨⟨0⟩, 0⟩, 0⟩) (.store value address) .synthetic).run lent).result.isOk
      = false) := by
  have hreachable : lent.Reachable := (Reachable.empty "test").edits _
  have hload : lent.operandFaults true ⟨⟨⟨0⟩, 5⟩, 3⟩
      ⟨.load (.result ⟨⟨⟨0⟩, 0⟩, 0⟩ 0) (.builtin .f64), .synthetic⟩ = [] := by decide +kernel
  have hstore : lent.operandFaults true ⟨⟨⟨0⟩, 0⟩, 1⟩
      ⟨.store (.constant (.integer 7 .i64)) (.result ⟨⟨⟨0⟩, 0⟩, 0⟩ 0), .synthetic⟩ ≠ [] := by
    decide +kernel
  refine ⟨hload, ?_, hstore, Bool.eq_false_iff.2 (fun hok => hstore ?_)⟩
  · refine (isOk_make_iff_operandFaults hreachable .synthetic ?_ ?_ rfl rfl rfl).2 hload
    · exact ⟨_, rfl, rfl⟩
    · exact ⟨by simp [Draft.targets], trivial⟩
  · refine (isOk_make_iff_operandFaults hreachable .synthetic ?_ ?_ rfl rfl rfl).1 hok
    · exact ⟨rfl, rfl⟩
    · exact ⟨by simp [Draft.targets], trivial⟩

end Lent

end Module

end BlockIR
