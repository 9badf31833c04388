import BlockIR.Proofs.EmitterFailures
import BlockIR.Proofs.Locality
import BlockIR.Proofs.Placement
import BlockIR.Proofs.TypeTexts
/-!
What a report on an argument of a call tells.

The arguments of a call are compared with the inputs of the callee when the call is made, and again
when it is verified.  Both reports give an input and the type of an argument that differ, each by
its text.  Types with plain names are told apart by their texts, so that such a report never asks
for the very type it says it found.
-/

namespace BlockIR

namespace Checks

variable {α β : Type} {violation : Violation}

/-- A chain of checks fails where the first of them does, or where a later one does. -/
theorem bind_eq_error {first : Except Violation α} {next : α → Except Violation β} :
    first >>= next = .error violation ↔
      first = .error violation ∨ ∃ middle, first = .ok middle ∧ next middle = .error violation := by
  cases first <;> simp [bind, Except.bind]

@[simp] theorem pure_eq_error {value : α} :
    (pure value : Except Violation α) = .error violation ↔ False := by
  simp [pure, Except.pure]

@[simp] theorem throw_eq_error {other : Violation} :
    (throw other : Except Violation α) = .error violation ↔ other = violation := by
  simp [throw, throwThe, MonadExceptOf.throw]

theorem ite_eq_error {c : Prop} [Decidable c] {first second : Except Violation α} :
    (if c then first else second) = .error violation ↔
      (c ∧ first = .error violation) ∨ (¬c ∧ second = .error violation) := by
  by_cases h : c <;> simp [h]

theorem exists_of_forM_eq_error {check : α → Except Violation Unit} {items : List α}
    (h : forM items check = .error violation) : ∃ item ∈ items, check item = .error violation := by
  induction items with
  | nil => simp at h
  | cons item rest ih =>
      rw [List.forM_cons, bind_eq_error] at h
      rcases h with hhere | ⟨_, -, hrest⟩
      · exact ⟨item, List.mem_cons_self, hhere⟩
      · obtain ⟨other, hmem, hother⟩ := ih hrest
        exact ⟨other, List.mem_cons_of_mem _ hmem, hother⟩

end Checks

/-- Whether a violation is about the type of an operand. -/
def Violation.concernsType : Violation → Bool
  | .operandTypeMismatch _ _ _ _ => true
  | _ => false

namespace Module

open Checks

variable {m : Module} {violation : Violation}

theorem getFunction_eq_error {id : FunctionId} :
    m.getFunction id = .error violation ↔
      m.function? id = none ∧ .unknownEntity "function" id.text = violation := by
  unfold getFunction
  cases m.function? id <;> simp

theorem getBlock_eq_error {id : BlockId} :
    m.getBlock id = .error violation ↔
      m.block? id = none ∧ .unknownEntity "block" id.text = violation := by
  unfold getBlock
  cases m.block? id <;> simp

theorem typeOf_eq_error {operand : Operand} :
    m.typeOf operand = .error violation ↔
      m.operandType? operand = none ∧ .danglingOperand operand.text = violation := by
  unfold typeOf
  cases m.operandType? operand <;> simp

theorem checkType_eq_error {instruction : String} {index : Nat} {operand : Operand}
    {expected : ValueType} :
    m.checkType instruction index operand expected = .error violation ↔
      (m.operandType? operand = none ∧ .danglingOperand operand.text = violation) ∨
      ∃ found, m.operandType? operand = some found ∧ found ≠ expected ∧
        mismatch instruction index (.exactly expected) found = violation := by
  simp [checkType, bind_eq_error, typeOf_eq_error, typeOf_eq_ok, ite_eq_error]

/-- The checks on places and references say nothing about types. -/
theorem concernsType_of_checkInsertion {point : InsertionPoint} {operation : Operation}
    (h : m.checkInsertion point operation = .error violation) :
    violation.concernsType = false := by
  simp only [checkInsertion, bind_eq_error] at h
  rcases h with hplace | ⟨_, -, hoperand | ⟨_, -, htarget⟩⟩
  · cases point <;>
      simp only [checkPlace, bind_eq_error, getBlock_eq_error, ite_eq_error, throw_eq_error,
        pure_eq_error] at hplace <;>
      grind [Violation.concernsType]
  · obtain ⟨operand, -, hcheck⟩ := exists_of_forM_eq_error hoperand
    simp only [checkOperand, bind_eq_error, typeOf_eq_error, ite_eq_error, throw_eq_error,
      pure_eq_error] at hcheck
    grind [Violation.concernsType]
  · obtain ⟨target, -, hcheck⟩ := exists_of_forM_eq_error htarget
    simp only [checkTarget, bind_eq_error, getBlock_eq_error, getFunction_eq_error, ite_eq_error,
      throw_eq_error, pure_eq_error] at hcheck
    grind [Violation.concernsType]

section Misfits

variable {callee : FunctionId} {inputs : List ValueType} {arguments : List Operand} {index : Nat}
variable {input type : ValueType} {name expected found : String}

/-- At a place where a call has an argument and its callee an input, the argument is of a type that
is not the input. -/
structure Misfit (m : Module) (inputs : List ValueType) (arguments : List Operand) (index : Nat)
    (input type : ValueType) : Prop where
  takes : inputs[index]? = some input
  given : arguments[index]?.bind m.operandType? = some type
  differ : input ≠ type

theorem Misfit.cons (h : m.Misfit inputs arguments index input type) (first : ValueType)
    (argument : Operand) :
    m.Misfit (first :: inputs) (argument :: arguments) (index + 1) input type :=
  ⟨by simpa using h.takes, by simpa using h.given, h.differ⟩

/-- Two texts report a misfit of a call: that of an input of the callee, and that of the type of the
argument in its place. -/
structure ReportsMisfit (m : Module) (callee : FunctionId) (arguments : List Operand) (index : Nat)
    (input type : ValueType) (expected found : String) : Prop where
  misfit : ∃ f, m.function? callee = some f ∧ m.Misfit f.inputs arguments index input type
  showsInput : expected = input.text
  showsType : found = type.text

theorem ReportsMisfit.texts_ne
    (h : m.ReportsMisfit callee arguments index input type expected found)
    (hinput : input.HasPlainNames) (htype : type.HasPlainNames) : expected ≠ found := by
  obtain ⟨f, -, hmisfit⟩ := h.misfit
  intro hsame
  rw [h.showsInput, h.showsType] at hsame
  exact hmisfit.differ (ValueType.text_inj hinput htype hsame)

/-- The types that a report stands for are those of the call. -/
theorem ReportsMisfit.types_eq
    (h : m.ReportsMisfit callee arguments index input type expected found) {taken given : ValueType}
    (htaken : (m.function? callee).bind (fun f => f.inputs[index]?) = some taken)
    (hgiven : arguments[index]?.bind m.operandType? = some given) :
    input = taken ∧ type = given := by
  obtain ⟨f, hf, hmisfit⟩ := h.misfit
  rw [hf, Option.bind_some, hmisfit.takes] at htaken
  exact ⟨Option.some.inj htaken, Option.some.inj (hmisfit.given.symm.trans hgiven)⟩

/-- The arguments are checked one after the other, up to a misfit. -/
theorem misfit_of_checkArguments {start : Nat}
    (h : m.checkArguments start inputs arguments =
      .error (.operandTypeMismatch name index expected found)) :
    ∃ place input type, index = start + place ∧ m.Misfit inputs arguments place input type ∧
      expected = input.text ∧ found = type.text := by
  induction inputs generalizing start arguments with
  | nil => simp [checkArguments] at h
  | cons input inputs ih =>
      cases arguments with
      | nil => simp [checkArguments] at h
      | cons argument arguments =>
          -- The report is on this argument, or on one of the rest, whose places are one less.
          rw [checkArguments, bind_eq_error, checkType_eq_error] at h
          rcases h with (⟨-, hdangling⟩ | ⟨type, htype, hdiffer, hreport⟩) | ⟨_, -, hrest⟩
          · cases hdangling
          · obtain ⟨-, rfl, rfl, rfl⟩ := Violation.operandTypeMismatch.inj hreport
            exact ⟨0, input, type, rfl, ⟨rfl, by simpa using htype, hdiffer.symm⟩, rfl, rfl⟩
          · obtain ⟨place, input, type, rfl, hmisfit, htexts⟩ := ih hrest
            exact ⟨place + 1, input, type, by omega, hmisfit.cons _ _, htexts⟩

theorem reportsMisfit_of_prepare {point : InsertionPoint}
    (h : m.prepare point (.call callee arguments) =
      .error (.operandTypeMismatch name index expected found)) :
    ∃ input type, m.ReportsMisfit callee arguments index input type expected found := by
  simp only [prepare, complete, bind_eq_error, getFunction_eq_error, getFunction_eq_ok,
    ite_eq_error, throw_eq_error, pure_eq_error, and_false, exists_false, or_false] at h
  rcases h with (⟨-, hunknown⟩ | ⟨f, hf, ⟨-, harguments⟩ | ⟨-, hcount⟩⟩) | ⟨_, -, hinsertion⟩
  · cases hunknown
  · obtain ⟨place, input, type, rfl, hmisfit, hinput, htype⟩ := misfit_of_checkArguments harguments
    rw [Nat.zero_add]
    exact ⟨input, type, ⟨f, hf, hmisfit⟩, hinput, htype⟩
  · cases hcount
  · have hother := concernsType_of_checkInsertion hinsertion
    simp [Violation.concernsType] at hother

/-- The verifier compares the inputs with the types of the arguments place by place. -/
theorem misfit_of_unmetExpectation? {output : ObjectType} {site : Span} {types : List ValueType}
    {function : FunctionId} {expectation : Expectation}
    (htypes : List.Forall₂ (m.HasType function) arguments types)
    (hunmet : m.unmetExpectation? ⟨.call callee arguments output, site⟩ types =
      some (index, expectation))
    (htype : types[index]? = some type) :
    ∃ f input, m.function? callee = some f ∧ m.Misfit f.inputs arguments index input type ∧
      expectation = .exactly input := by
  simp only [unmetExpectation?, Option.bind_eq_bind, Option.bind_eq_some_iff, Option.some.injEq,
    Prod.mk.injEq] at hunmet
  obtain ⟨f, hf, place, hplace, input, hinput, rfl, rfl⟩ := hunmet
  obtain ⟨hlt, rfl⟩ := List.getElem?_eq_some_iff.1 htype
  have hargument : place < arguments.length := htypes.length_eq ▸ hlt
  refine ⟨f, input, hf, ⟨hinput, ?_, ?_⟩, rfl⟩
  · simpa [List.getElem?_eq_getElem hargument] using (htypes.get hargument hlt).1
  · obtain ⟨hinside, rfl⟩ := List.getElem?_eq_some_iff.1 hinput
    obtain ⟨hzip, hdiffer, -⟩ := List.findIdx?_eq_some_iff_getElem.1 hplace
    simpa using hdiffer

theorem reportsMisfit_of_mem_operandFaults {checkTypes : Bool} {id other : InstructionId}
    {output : ObjectType} {site : Span}
    (h : .operandTypeMismatch other index expected found ∈
      m.operandFaults checkTypes id ⟨.call callee arguments output, site⟩) :
    ∃ input type, m.ReportsMisfit callee arguments index input type expected found := by
  rcases cases_of_mem_operandFaults h with
    ⟨_, hdangling⟩ | ⟨types, place, expectation, type, hok, hunmet, htype, hreport⟩
  · cases hdangling
  · obtain ⟨-, rfl, rfl, rfl⟩ := Fault.operandTypeMismatch.inj hreport
    obtain ⟨f, input, hf, hmisfit, rfl⟩ :=
      misfit_of_unmetExpectation? (operandTypes_eq_ok.1 hok) hunmet htype
    exact ⟨input, type, ⟨f, hf, hmisfit⟩, rfl, rfl⟩

theorem reportsMisfit_of_mem_findings (hm : m.Reachable) {options : Options} {function : String}
    {id : InstructionId} {output : ObjectType} {site : Span}
    (hi : m.instruction? id = some ⟨.call callee arguments output, site⟩)
    (h : ⟨function, .operandTypeMismatch id index expected found⟩ ∈
      Verifier.findings options m) :
    ∃ input type, m.ReportsMisfit callee arguments index input type expected found := by
  rcases cases_of_mem_findings hm.consistent hm.terminatorsLast h with
    ⟨_, hempty | hopen⟩ | ⟨other, i, hother, hfault⟩ | ⟨-, _, hunreachable⟩ | ⟨-, hstack⟩
  · cases hempty
  · cases hopen
  · obtain rfl : other = id := by
      simpa [Fault.instruction?] using (Verifier.instruction?_of_mem_operandFaults hfault).symm
    obtain rfl : _ = i := Option.some.inj (hi.symm.trans hother)
    exact reportsMisfit_of_mem_operandFaults hfault
  · cases hunreachable
  · simp [Fault.concernsStack] at hstack

end Misfits

/-- Types with plain names are told apart by their texts.  A report on the type of an argument of a
call, made on its construction or by the verifier, gives the texts of an input and of a type that
differ, and so two different texts if both have plain names. -/
theorem texts_tell_types_apart :
    (∀ type other : ValueType, type.HasPlainNames → other.HasPlainNames →
      type.text = other.text → type = other) ∧
    (∀ (m : Module) (point : InsertionPoint) (callee : FunctionId) (arguments : List Operand)
      (site : Span) (name : String) (index : Nat) (expected found : String),
      ((make point (.call callee arguments) site).run m).result =
          .error (.operandTypeMismatch name index expected found) →
        ∃ input type, m.ReportsMisfit callee arguments index input type expected found ∧
          (input.HasPlainNames → type.HasPlainNames → expected ≠ found)) ∧
    ∀ m : Module, m.Reachable → ∀ (options : Options) (function : String) (id : InstructionId)
      (callee : FunctionId) (arguments : List Operand) (output : ObjectType) (site : Span)
      (index : Nat) (expected found : String),
      m.instruction? id = some ⟨.call callee arguments output, site⟩ →
      ⟨function, .operandTypeMismatch id index expected found⟩ ∈ Verifier.findings options m →
        ∃ input type, m.ReportsMisfit callee arguments index input type expected found ∧
          (input.HasPlainNames → type.HasPlainNames → expected ≠ found) := by
  refine ⟨fun _ _ => ValueType.text_inj, ?_, ?_⟩
  · intro m point callee arguments site name index expected found hfails
    obtain ⟨hprepare, -⟩ := fails_make.1 ⟨hfails, rfl⟩
    obtain ⟨input, type, hreport⟩ := reportsMisfit_of_prepare hprepare
    exact ⟨input, type, hreport, hreport.texts_ne⟩
  · intro m hm options function id callee arguments output site index expected found hi hfinding
    obtain ⟨input, type, hreport⟩ := reportsMisfit_of_mem_findings hm hi hfinding
    exact ⟨input, type, hreport, hreport.texts_ne⟩

section Lookalikes

/-- A pair of a structure without a name and an empty tuple. -/
def pair : ObjectType := .tuple [.struct "", .tuple []]

/-- A function that takes the address of a pair, and one that calls it.  The caller has a pair, the
same pair as a remote address, and a pair in a tuple of its own. -/
def lookalikes : Module :=
  List.foldl Module.after (.empty "test")
    [.declareFunction "callee" [.address pair] .void,
      .declareFunction "caller"
        [.address pair, .remote ⟨.letBound, pair⟩, .address (.tuple [pair])] .void,
      .appendEntryBlock ⟨1⟩,
      .make (.atEnd ⟨⟨1⟩, 0⟩) (.call ⟨0⟩ [.parameter ⟨⟨1⟩, 0⟩ 0]) .synthetic,
      .make (.atEnd ⟨⟨1⟩, 0⟩) .ret .synthetic,
      .replaceOperand ⟨⟨⟨1⟩, 0⟩, 0⟩ 0 (.parameter ⟨⟨1⟩, 0⟩ 1)]

theorem lookalikes_reachable : lookalikes.Reachable := (Reachable.empty "test").edits _

theorem lookalikes_told_apart :
    let argument (index : Nat) : Operand := .parameter ⟨⟨1⟩, 0⟩ index
    let id : InstructionId := ⟨⟨⟨1⟩, 0⟩, 0⟩
    (ValueType.address pair).text ≠ (ValueType.address (.tuple [pair])).text ∧
    ((make (.before id) (.call ⟨0⟩ [argument 2]) .synthetic).run lookalikes).result =
      .error (.operandTypeMismatch "call" 0 "&(%, ())" "&((%, ()))") ∧
    lookalikes.ReportsMisfit ⟨0⟩ [argument 2] 0 (.address pair) (.address (.tuple [pair]))
      "&(%, ())" "&((%, ()))" ∧
    "&(%, ())" ≠ "&((%, ()))" ∧
    ⟨"caller", .operandTypeMismatch id 0 "&(%, ())" "&remote let (%, ())"⟩ ∈
      Verifier.findings .standard lookalikes ∧
    lookalikes.ReportsMisfit ⟨0⟩ [argument 1] 0 (.address pair) (.remote ⟨.letBound, pair⟩)
      "&(%, ())" "&remote let (%, ())" ∧
    "&(%, ())" ≠ "&remote let (%, ())" := by
  intro argument id
  obtain ⟨htexts, hmade, hverified⟩ := texts_tell_types_apart
  have hfails : ((make (.before id) (.call ⟨0⟩ [argument 2]) .synthetic).run lookalikes).result =
      .error (.operandTypeMismatch "call" 0 "&(%, ())" "&((%, ()))") := by
    decide +kernel
  have hi : lookalikes.instruction? id = some ⟨.call ⟨0⟩ [argument 1] .void, .synthetic⟩ := by
    decide +kernel
  have hfinding : ⟨"caller", .operandTypeMismatch id 0 "&(%, ())" "&remote let (%, ())"⟩ ∈
      Verifier.findings .standard lookalikes := by
    decide +kernel
  have htaken : (lookalikes.function? ⟨0⟩).bind (fun f => f.inputs[0]?) = some (.address pair) := by
    decide +kernel
  have hnested : [argument 2][0]?.bind lookalikes.operandType? =
      some (.address (.tuple [pair])) := by
    decide +kernel
  have hremote : [argument 1][0]?.bind lookalikes.operandType? =
      some (.remote ⟨.letBound, pair⟩) := by
    decide +kernel
  have hdiffer : (ValueType.address pair).text ≠ (ValueType.address (.tuple [pair])).text := by
    intro hsame
    exact absurd (htexts _ _ (by decide) (by decide) hsame) (by decide)
  obtain ⟨input, type, hreport, hne⟩ := hmade _ _ _ _ _ _ _ _ _ hfails
  obtain ⟨rfl, rfl⟩ := hreport.types_eq htaken hnested
  obtain ⟨input, type, hfound, hfoundNe⟩ :=
    hverified _ lookalikes_reachable _ _ _ _ _ _ _ _ _ _ hi hfinding
  obtain ⟨rfl, rfl⟩ := hfound.types_eq htaken hremote
  exact ⟨hdiffer, hfails, hreport, hne (by decide) (by decide), hfinding, hfound,
    hfoundNe (by decide) (by decide)⟩

end Lookalikes

end Module

end BlockIR
