import BlockIR.Proofs.Checks
/-!
The instruction table: for each kind of operation what its operands have to be and which types its
results get from them.  It is stated beside the checks that build and verify instructions; an
operation that a module takes in satisfies its row.
-/

namespace BlockIR

namespace Module

/-- An operand names a live value of a function, of a given type. -/
def HasType (m : Module) (function : FunctionId) (operand : Operand) (type : ValueType) : Prop :=
  m.operandType? operand = some type ∧ operand.isLocalTo function = true

/-- A block of a function can be branched to from it. -/
def IsTarget (m : Module) (function : FunctionId) (target : BlockId) : Prop :=
  target.function = function ∧ (m.block? target).isSome

/-- The row of an operation in a function: its preconditions, and the types of its results.  The
types that a load, a binary operation and a call carry along play no part in it. -/
inductive Row (m : Module) (function : FunctionId) : Operation → List ValueType → Prop where
  | allocStack (type : ObjectType) : Row m function (.allocStack type) [.address type]
  | deallocStack {slot : InstructionId} {type : ObjectType} {site : Span}
      (hslot : m.instruction? slot = some ⟨.allocStack type, site⟩)
      (hlocal : slot.function = function) :
      Row m function (.deallocStack (.result slot 0)) []
  | pointerToAddress {source : Operand} {target : RemoteType}
      (haccess : target.access = .letBound ∨ target.access = .inout ∨ target.access = .set)
      (hsource : m.HasType function source (.ofBuiltin .ptr)) :
      Row m function (.pointerToAddress source target) [.remote target]
  | load {source : Operand} {type : ValueType} {pointee : ObjectType} (recorded : ObjectType)
      (hsource : m.HasType function source type) (hpointee : type.pointee? = some pointee)
      (hread : ∀ access, type.access? = some access → access.permitsRead = true) :
      Row m function (.load source recorded) [.object pointee]
  | store {object target : Operand} {type : ValueType} {pointee : ObjectType}
      (htarget : m.HasType function target type) (hpointee : type.pointee? = some pointee)
      (hwrite : ∀ access, type.access? = some access → access.permitsWrite = true)
      (hobject : m.HasType function object (.object pointee)) :
      Row m function (.store object target) []
  | binary {operator : BinaryOperator} {lhs rhs : Operand} {type : Builtin} (recorded : Builtin)
      (hlhs : m.HasType function lhs (.ofBuiltin type))
      (hrhs : m.HasType function rhs (.ofBuiltin type))
      (hbitwise : operator.isBitwise = true → type.isInteger = true) :
      Row m function (.binary operator recorded lhs rhs) [.ofBuiltin type]
  | compare {operator : CompareOperator} {lhs rhs : Operand} {type : Builtin}
      (hlhs : m.HasType function lhs (.ofBuiltin type))
      (hrhs : m.HasType function rhs (.ofBuiltin type)) :
      Row m function (.compare operator lhs rhs) [.ofBuiltin .i1]
  | call {callee : FunctionId} {f : Function} {arguments : List Operand} (recorded : ObjectType)
      (hcallee : m.function? callee = some f)
      (harguments : List.Forall₂ (m.HasType function) arguments f.inputs) :
      Row m function (.call callee arguments recorded)
        (if f.output.isVoid then [] else [.object f.output])
  | branch {target : BlockId} (htarget : m.IsTarget function target) :
      Row m function (.branch target) []
  | condBranch {condition : Operand} {ifTrue ifFalse : BlockId}
      (hcondition : m.HasType function condition (.ofBuiltin .i1))
      (htrue : m.IsTarget function ifTrue) (hfalse : m.IsTarget function ifFalse) :
      Row m function (.condBranch condition ifTrue ifFalse) []
  | ret : Row m function .ret []

/-- Whatever permits reading can be loaded from: not a let or an inout address only, a sink parameter
as well. -/
example :
    let type : ValueType := .remote ⟨.sink, .builtin .i64⟩
    let m : Module := ⟨"test", [⟨⟨0⟩, "main", [type], .void, [⟨[type], [], []⟩]⟩]⟩
    let load : Operation := .load (.parameter ⟨⟨0⟩, 0⟩ 0) (.builtin .i64)
    m.prepare (.atEnd ⟨⟨0⟩, 0⟩) (.load (.parameter ⟨⟨0⟩, 0⟩ 0)) = .ok load ∧
      m.Row ⟨0⟩ load [.object (.builtin .i64)] := by
  refine ⟨by decide, .load _ ⟨rfl, rfl⟩ rfl ?_⟩
  intro access haccess
  obtain rfl := Option.some.inj haccess
  rfl

variable {m : Module} {function : FunctionId}

theorem addressCapabilities_contains_iff {access : Access} :
    AccessSet.addressCapabilities.contains access = true ↔
      access = .letBound ∨ access = .inout ∨ access = .set := by
  cases access <;> decide

theorem forall₂_hasType {arguments : List Operand} {inputs : List ValueType}
    (htypes : List.Forall₂ (fun argument input => m.operandType? argument = some input)
      arguments inputs)
    (hlocal : ∀ argument ∈ arguments, argument.isLocalTo function = true) :
    List.Forall₂ (m.HasType function) arguments inputs := by
  induction htypes with
  | nil => exact .nil
  | cons htype _ ih =>
      refine .cons ⟨htype, hlocal _ List.mem_cons_self⟩ (ih ?_)
      exact fun argument hargument => hlocal argument (List.mem_cons_of_mem _ hargument)

/-- What a module takes in satisfies its row, and carries the result types of the row. -/
theorem row_of_prepare {point : InsertionPoint} {draft : Draft} {operation : Operation}
    (hprepare : m.prepare point draft = .ok operation) :
    m.Row point.block.function operation operation.resultTypes := by
  obtain ⟨hcomplete, hcheck⟩ := prepare_eq_ok.1 hprepare
  obtain ⟨-, hoperands, htargets⟩ := checkInsertion_eq_ok.1 hcheck
  have hlocal : ∀ operand ∈ operation.operands,
      operand.isLocalTo point.block.function = true :=
    fun operand hoperand => (hoperands operand hoperand).2
  cases draft with
  | allocStack type =>
      obtain rfl := Checks.pure_eq_ok.1 hcomplete
      exact .allocStack type
  | deallocStack location =>
      simp only [complete, Checks.ite_eq_ok, Checks.pure_eq_ok, Checks.throw_eq_ok, and_false,
        or_false, Bool.and_eq_true, isStackAllocation_iff] at hcomplete
      obtain ⟨⟨⟨slot, type, site, rfl, hslot⟩, hslotLocal⟩, rfl⟩ := hcomplete
      exact .deallocStack hslot (by simpa [Operand.isLocalTo, Operand.function?] using hslotLocal)
  | pointerToAddress source target =>
      simp only [complete, Checks.ite_eq_ok, Checks.seq_eq_ok, checkType_eq_ok, Checks.pure_eq_ok,
        Checks.throw_eq_ok, and_false, or_false] at hcomplete
      obtain ⟨haccess, hsource, rfl⟩ := hcomplete
      exact .pointerToAddress (addressCapabilities_contains_iff.1 haccess)
        ⟨hsource, hlocal _ (by simp [Operation.operands])⟩
  | load source =>
      simp only [complete, Checks.bind_eq_ok, accessedType_eq_ok, Checks.pure_eq_ok] at hcomplete
      obtain ⟨pointee, ⟨type, hsource, hpointee, hread⟩, rfl⟩ := hcomplete
      exact .load pointee ⟨hsource, hlocal _ (by simp [Operation.operands])⟩ hpointee hread
  | store object target =>
      simp only [complete, Checks.bind_eq_ok, accessedType_eq_ok, Checks.pure_eq_ok] at hcomplete
      obtain ⟨pointee, ⟨type, htarget, hpointee, hwrite⟩, _, hobject, rfl⟩ := hcomplete
      exact .store ⟨htarget, hlocal _ (by simp [Operation.operands])⟩ hpointee hwrite
        ⟨checkType_eq_ok.1 hobject, hlocal _ (by simp [Operation.operands])⟩
  | binary operator lhs rhs =>
      simp only [complete, Checks.bind_eq_ok, commonBuiltin_eq_ok, Checks.ite_eq_ok,
        Checks.pure_eq_ok, Checks.throw_eq_ok, and_false, false_or] at hcomplete
      obtain ⟨type, ⟨hlhs, hrhs⟩, hbitwise, rfl⟩ := hcomplete
      exact .binary type ⟨hlhs, hlocal _ (by simp [Operation.operands])⟩
        ⟨hrhs, hlocal _ (by simp [Operation.operands])⟩ (by simpa using hbitwise)
  | compare operator lhs rhs =>
      simp only [complete, Checks.bind_eq_ok, commonBuiltin_eq_ok, Checks.pure_eq_ok] at hcomplete
      obtain ⟨type, ⟨hlhs, hrhs⟩, rfl⟩ := hcomplete
      exact .compare ⟨hlhs, hlocal _ (by simp [Operation.operands])⟩
        ⟨hrhs, hlocal _ (by simp [Operation.operands])⟩
  | call callee arguments =>
      simp only [complete, Checks.bind_eq_ok, getFunction_eq_ok, Checks.ite_eq_ok,
        Checks.pure_eq_ok, Checks.throw_eq_ok, and_false, or_false] at hcomplete
      obtain ⟨f, hf, hlength, _, harguments, rfl⟩ := hcomplete
      exact .call f.output hf
        (forall₂_hasType ((checkArguments_eq_ok hlength).1 harguments) hlocal)
  | branch target =>
      obtain rfl := Checks.pure_eq_ok.1 hcomplete
      exact .branch (htargets _ (by simp [Operation.successors]))
  | condBranch condition ifTrue ifFalse =>
      simp only [complete, Checks.seq_eq_ok, checkType_eq_ok, Checks.pure_eq_ok] at hcomplete
      obtain ⟨hcondition, rfl⟩ := hcomplete
      exact .condBranch ⟨hcondition, hlocal _ (by simp [Operation.operands])⟩
        (htargets _ (by simp [Operation.successors])) (htargets _ (by simp [Operation.successors]))
  | ret =>
      obtain rfl := Checks.pure_eq_ok.1 hcomplete
      exact .ret

/-- The edges of an operation that satisfies its row lead to blocks of its function. -/
theorem Row.successors {operation : Operation} {results : List ValueType}
    (hrow : m.Row function operation results) :
    ∀ target ∈ operation.successors, m.IsTarget function target := by
  cases hrow with
  | branch htarget => simpa [Operation.successors] using htarget
  | condBranch _ htrue hfalse => simpa [Operation.successors] using ⟨htrue, hfalse⟩
  | _ => simp [Operation.successors]

end Module

end BlockIR
