import BlockIR.Proofs.EmitterRuns
import Mathlib.Data.List.TakeWhile
/-!
What a failed emitter call leaves behind.

A call that appends one thing checks before it changes anything.  The others act before they fail:
slots are freed one after the other until one lies in another function than the block, a frame is
closed before its slots are freed, and a slot is allocated before a frame is looked for.  The states
that failed calls leave are said here once for each kind of call, as those of successful ones were.
-/

namespace BlockIR

/-- Whether a frame that could not be closed is still open: the rules about frames are checked before
anything is done. -/
def Violation.keepsFrame : Violation → Bool
  | .noOpenFrame | .frameClosedAfterBranch _ => true
  | _ => false

/-- Whether what is asked for has a result, whatever its operands are. -/
def Draft.hasResult : Draft → Bool
  | .allocStack _ | .pointerToAddress _ _ | .load _ | .binary _ _ _ | .compare _ _ _ => true
  | .deallocStack _ | .store _ _ | .call _ _ | .branch _ | .condBranch _ _ _ | .ret => false

theorem Operation.resultTypes_ne_nil {operation : Operation}
    (h : operation.draft.hasResult = true) : operation.resultTypes ≠ [] := by
  cases operation <;> simp_all [Operation.draft, Draft.hasResult, resultTypes]

namespace Action

variable {σ α β : Type} {before after : σ} {violation : Violation}

/-- The action ends with a violated rule and leaves a state. -/
def Fails (action : Action σ α) (before : σ) (violation : Violation) (after : σ) : Prop :=
  (action.run before).result = .error violation ∧ (action.run before).state = after

theorem Fails.not_yields {action : Action σ α} (h : action.Fails before violation after) (value : α)
    (other : σ) : ¬action.Yields before value other := by
  rintro ⟨hvalue, -⟩
  rw [h.1] at hvalue
  cases hvalue

theorem fails_bind {first : Action σ α} {next : α → Action σ β} :
    (first >>= next).Fails before violation after ↔
      first.Fails before violation after ∨
        ∃ middle left, first.Yields before middle left ∧
          (next middle).Fails left violation after := by
  rcases hrun : first.run before with ⟨_ | middle, left, log⟩
  · simp [Fails, Yields, run_bind_of_error hrun, hrun]
  · simp [Fails, Yields, run_bind_of_ok hrun, hrun]

theorem fails_map {g : α → β} {action : Action σ α} :
    (g <$> action).Fails before violation after ↔ action.Fails before violation after := by
  rw [Fails, run_map]
  rcases hrun : action.run before with ⟨_ | middle, left, log⟩ <;> simp [Fails, hrun, Except.map]

theorem not_fails_pure {value : α} : ¬(pure value : Action σ α).Fails before violation after := by
  simp [Fails]

theorem not_fails_get : ¬(get : Action σ σ).Fails before violation after := by
  simp [Fails]

theorem not_fails_modify {change : σ → σ} : ¬(modify change).Fails before violation after := by
  simp [Fails]

theorem not_fails_note {event : Event} : ¬(note event).Fails before violation after := by
  simp [Fails]

theorem fails_require {check : Except Violation α} :
    (require check).Fails before violation after ↔ check = .error violation ∧ before = after := by
  simp [Fails]

end Action

theorem Checks.map_eq_error {α β : Type} {g : α → β} {check : Except Violation α}
    {violation : Violation} : check.map g = .error violation ↔ check = .error violation := by
  cases check <;> simp [Except.map]

namespace Module

open BlockIR.Action

variable {m n : Module} {block : BlockId} {slot : Operand} {violation : Violation}

theorem fails_make {point : InsertionPoint} {draft : Draft} {site : Span} :
    (make point draft site).Fails m violation n ↔
      m.prepare point draft = .error violation ∧ m = n := by
  simp only [Fails, run, make]
  cases m.prepare point draft <;> simp

theorem eq_of_fails_appendBlock {function : FunctionId} {params : List ValueType}
    (h : (appendBlock function params).Fails m violation n) : n = m := by
  obtain ⟨hresult, rfl⟩ := h
  simp only [run, appendBlock] at hresult ⊢
  cases hf : m.getFunction function with
  | error _ => rfl
  | ok f =>
      cases hentry : f.blocks.isEmpty && f.inputs != params with
      | false => simp [hf, hentry] at hresult
      | true => simp [hentry]

instance (m : Module) (block : BlockId) : Decidable (m.IsOpen block) :=
  decidable_of_iff ((m.block? block).any (fun b => !b.isTerminated) = true) (by
    simp [IsOpen, Option.any_eq_true])

/-- An operation that brings along what it needs is stored unless its place does not take it. -/
theorem prepare_eq_checkPlace {point : InsertionPoint} {draft : Draft} {operation : Operation}
    (hcomplete : m.complete point.block.function draft = .ok operation)
    (hoperands : ∀ operand ∈ operation.operands,
      (m.operandType? operand).isSome ∧ operand.isLocalTo point.block.function = true)
    (hsuccessors : operation.successors = []) :
    m.prepare point draft = (m.checkPlace point operation).map (fun _ => operation) := by
  have hchecked : operation.operands.forM (m.checkOperand point.block.function) = .ok () :=
    Checks.forM_eq_ok.2 (fun operand hoperand => checkOperand_eq_ok.2 (hoperands operand hoperand))
  have hinsertion : m.checkInsertion point operation = m.checkPlace point operation := by
    rw [checkInsertion, hchecked, hsuccessors]
    cases m.checkPlace point operation <;> rfl
  rw [prepare, hcomplete]
  change (m.checkInsertion point operation >>= fun _ => pure operation) = _
  rw [hinsertion]
  cases m.checkPlace point operation <;> rfl

theorem prepare_allocStack_eq (point : InsertionPoint) (type : ObjectType) :
    m.prepare point (.allocStack type) =
      (m.checkPlace point (.allocStack type)).map (fun _ => .allocStack type) := by
  apply prepare_eq_checkPlace
  · rfl
  · simp [Operation.operands]
  · rfl

theorem prepare_ret_eq (point : InsertionPoint) :
    m.prepare point .ret = (m.checkPlace point .ret).map (fun _ => .ret) := by
  apply prepare_eq_checkPlace
  · rfl
  · simp [Operation.operands]
  · rfl

/-- A live slot is freed at a place that takes the operation, in the function it belongs to. -/
theorem prepare_deallocStack_eq (hslot : m.isStackAllocation slot = true) (point : InsertionPoint) :
    m.prepare point (.deallocStack slot) =
      if slot.function? = some point.block.function then
        (m.checkPlace point (.deallocStack slot)).map (fun _ => .deallocStack slot)
      else .error (.deallocOfNonAllocation slot.text) := by
  obtain ⟨id, type, site, rfl, hid⟩ := isStackAllocation_iff.1 hslot
  have hlocal : (Operand.result id 0).isLocalTo point.block.function = true ↔
      (Operand.result id 0).function? = some point.block.function := by
    simp [Operand.isLocalTo, Operand.function?]
  split
  · rename_i hhere
    apply prepare_eq_checkPlace
    · simp [complete, hslot, hlocal.2 hhere]
    · intro operand hoperand
      obtain rfl := List.mem_singleton.1 hoperand
      exact ⟨by simp [operandType?, hid, Instruction.resultTypes, Operation.resultTypes],
        hlocal.2 hhere⟩
    · rfl
  · rename_i helsewhere
    have hforeign := mt hlocal.1 helsewhere
    rw [prepare, complete, if_neg (by simp [hforeign])]
    rfl

theorem checkPlace_atEnd_eq (operation : Operation) :
    m.checkPlace (.atEnd block) operation =
      match m.block? block with
      | none => .error (.unknownEntity "block" block.text)
      | some b => if b.isTerminated then .error (.insertAfterTerminator block.text) else .ok () := by
  simp only [checkPlace, getBlock, InsertionPoint.block]
  cases m.block? block <;> rfl

theorem not_isOpen_of_checkPlace {operation : Operation}
    (h : m.checkPlace (.atEnd block) operation = .error violation) :
    ¬m.IsOpen block ∧ violation.keepsFrame = false := by
  constructor
  · intro hopen
    have hplace : m.checkPlace (.atEnd block) operation = .ok () := checkPlace_eq_ok.2 hopen
    rw [h] at hplace
    cases hplace
  · rw [checkPlace_atEnd_eq] at h
    split at h
    · cases h
      rfl
    · split at h <;> cases h
      rfl

/-- Where a slot cannot be freed, no rule about frames is broken. -/
theorem refusal_of_prepare (hslot : m.isStackAllocation slot = true)
    (h : m.prepare (.atEnd block) (.deallocStack slot) = .error violation) :
    (m.IsOpen block → slot.function? ≠ some block.function) ∧ violation.keepsFrame = false := by
  rw [prepare_deallocStack_eq hslot] at h
  split at h
  · have hclosed := not_isOpen_of_checkPlace (Checks.map_eq_error.1 h)
    exact ⟨fun hopen => absurd hopen hclosed.1, hclosed.2⟩
  · rename_i hforeign
    cases h
    exact ⟨fun _ => hforeign, rfl⟩

theorem function?_of_prepare {operation : Operation} (hslot : m.isStackAllocation slot = true)
    (h : m.prepare (.atEnd block) (.deallocStack slot) = .ok operation) :
    slot.function? = some block.function := by
  rw [prepare_deallocStack_eq hslot] at h
  split at h
  · assumption
  · cases h

theorem isOpen_place (hopen : m.IsOpen block) {i : Instruction} (hi : i.isTerminator = false) :
    (m.place (.atEnd block) i).IsOpen block := by
  obtain ⟨b, hb, -⟩ := hopen
  refine ⟨b.push i, ?_, ?_⟩
  · simp [place, block?_modifyBlock, hb]
  · simp [Block.isTerminated, Block.terminator?_push, hi]

theorem isOpen_placeAll (hopen : m.IsOpen block) {is : List Instruction}
    (his : ∀ i ∈ is, i.isTerminator = false) : (m.placeAll block is).IsOpen block := by
  induction is generalizing m with
  | nil => exact hopen
  | cons i rest ih =>
      apply ih
      · exact isOpen_place hopen (his i List.mem_cons_self)
      · intro j hj
        exact his j (List.mem_cons_of_mem i hj)

theorem IsOpen.isSome (hopen : m.IsOpen block) :
    (m.block? (InsertionPoint.atEnd block).block).isSome := by
  obtain ⟨b, hb, -⟩ := hopen
  simp [InsertionPoint.block, hb]

theorem instruction?_placeAll_next (hopen : m.IsOpen block) (i : Instruction) :
    (m.placeAll block [i]).instruction? (m.nextInstruction block) = some i :=
  (instruction?_place hopen.isSome i _).trans (if_pos rfl)

theorem isStackAllocation_place (hopen : m.IsOpen block) (i : Instruction)
    (hslot : m.isStackAllocation slot = true) :
    (m.place (.atEnd block) i).isStackAllocation slot = true := by
  obtain ⟨id, type, site, rfl, hid⟩ := isStackAllocation_iff.1 hslot
  apply isStackAllocation_iff.2
  exact ⟨id, type, site, rfl, instruction?_place_of_live hopen.isSome i hid⟩

/-- The slots that are freed in a block, of those that are to be: all ahead of the first that belongs
to another function, and none in a block that takes no instructions. -/
def freeable (m : Module) (block : BlockId) (slots : List Operand) : List Operand :=
  if m.IsOpen block then slots.takeWhile (fun slot => slot.function? = some block.function) else []

theorem freeable_of_isOpen (hopen : m.IsOpen block) (slots : List Operand) :
    m.freeable block slots =
      slots.takeWhile (fun slot => slot.function? = some block.function) :=
  if_pos hopen

theorem freeable_of_not_isOpen (hclosed : ¬m.IsOpen block) (slots : List Operand) :
    m.freeable block slots = [] :=
  if_neg hclosed

theorem freeable_cons (hopen : m.IsOpen block) (hhere : slot.function? = some block.function)
    (rest : List Operand) :
    m.freeable block (slot :: rest) =
      slot :: rest.takeWhile (fun slot => slot.function? = some block.function) := by
  rw [freeable_of_isOpen hopen, List.takeWhile_cons_of_pos (by simp [hhere])]

theorem freeable_cons_of_foreign (hforeign : m.IsOpen block → slot.function? ≠ some block.function)
    (rest : List Operand) : m.freeable block (slot :: rest) = [] := by
  by_cases hopen : m.IsOpen block
  · rw [freeable_of_isOpen hopen, List.takeWhile_cons_of_neg (by simp [hforeign hopen])]
  · exact freeable_of_not_isOpen hopen _

/-- In an open block all slots are freed unless one belongs to another function. -/
theorem exists_foreign_of_freeable_ne (hopen : m.IsOpen block) {slots : List Operand}
    (hne : m.freeable block slots ≠ slots) :
    ∃ slot ∈ slots, slot.function? ≠ some block.function := by
  by_contra hall
  apply hne
  rw [freeable_of_isOpen hopen]
  apply List.takeWhile_eq_self_iff.2
  intro slot hslot
  by_contra hforeign
  exact hall ⟨slot, hslot, by simpa using hforeign⟩

end Module

namespace Emitter

open BlockIR.Action

variable {α : Type} {e after : Emitter} {violation : Violation}

/-- A call that appends one block or instruction and asks for nothing else. -/
def Command.appendsOne : Command → Bool
  | .appendBlock _ | .store _ _ _ | .load _ _ | .binary _ _ _ _ | .compare _ _ _ _ | .call _ _ _
  | .branch _ _ | .condBranch _ _ _ _ => true
  | .beginFunction _ _ _ | .setInsertionBlock _ | .pushFrame | .popFrame _ | .allocateLocal _ _
  | .ret _ => false

/-- The states that failed calls leave behind. -/
inductive Halt (e : Emitter) : Command → Violation → Emitter → Prop where
  | refused {command : Command} (violation : Violation) (hcommand : command.appendsOne = true) :
      Halt e command violation e
  | unallocated (type : ObjectType) (site : Span) (violation : Violation)
      (hclosed : ∀ block, e.insertionBlock = some block → ¬e.module.IsOpen block) :
      Halt e (.allocateLocal type site) violation e
  | unowned {block : BlockId} (type : ObjectType) (site : Span)
      (hblock : e.insertionBlock = some block) (hopen : e.module.IsOpen block)
      (hframes : e.frames = []) :
      Halt e (.allocateLocal type site) .noOpenFrame
        { e with module := e.module.placeAll block [⟨.allocStack type, site⟩] }
  | unclosed {violation : Violation} (site : Span) (hkept : violation.keepsFrame = true) :
      Halt e (.popFrame site) violation e
  | unfreed {block : BlockId} {frame : List Operand} {frames : List (List Operand)}
      {violation : Violation} (site : Span) (hblock : e.insertionBlock = some block)
      (hframes : e.frames = frame :: frames) (hgone : violation.keepsFrame = false) :
      Halt e (.popFrame site) violation
        { e with
          module := e.module.placeAll block ((e.module.freeable block frame).map (.freeing site))
          frames := frames }
  | homeless (site : Span) (violation : Violation) (hblock : e.insertionBlock = none) :
      Halt e (.ret site) violation e
  | unreturned {block : BlockId} (site : Span) (violation : Violation)
      (hblock : e.insertionBlock = some block)
      (hstuck : e.module.IsOpen block → e.module.freeable block e.slots ≠ e.slots) :
      Halt e (.ret site) violation
        { e with
          module := e.module.placeAll block
            ((e.module.freeable block e.slots).map (.freeing site)) }

/-- Every slot of an open frame is the result of a live allocation. -/
def OwnsAllocations (e : Emitter) : Prop :=
  ∀ slot ∈ e.slots, e.module.isStackAllocation slot = true

theorem fails_edit {action : Action Module α} :
    (edit action).Fails e violation after ↔
      ∃ m, action.Fails e.module violation m ∧ { e with module := m } = after := by
  simp only [Fails, run_edit]
  constructor
  · rintro ⟨hresult, rfl⟩
    exact ⟨_, ⟨hresult, rfl⟩, rfl⟩
  · rintro ⟨_, ⟨hresult, rfl⟩, rfl⟩
    exact ⟨hresult, rfl⟩

theorem fails_currentBlock :
    currentBlock.Fails e violation after ↔
      e.insertionBlock = none ∧ .noInsertionBlock = violation ∧ e = after := by
  rw [Fails, run_currentBlock]
  cases e.insertionBlock <;> simp

theorem eq_of_fails_currentFunction (h : currentFunction.Fails e violation after) : after = e := by
  obtain ⟨-, rfl⟩ := h
  rw [run_currentFunction]
  cases e.function <;> rfl

theorem fails_append {draft : Draft} {site : Span} :
    (append draft site).Fails e violation after ↔
      e = after ∧ ((e.insertionBlock = none ∧ .noInsertionBlock = violation) ∨
        ∃ block, e.insertionBlock = some block ∧
          e.module.prepare (.atEnd block) draft = .error violation) := by
  simp only [append, fails_bind, fails_currentBlock, yields_currentBlock, fails_edit,
    Module.fails_make]
  constructor
  · rintro (⟨hnone, hviolation, rfl⟩ | ⟨block, _, ⟨hblock, rfl⟩, _, ⟨hprepare, rfl⟩, rfl⟩)
    · exact ⟨rfl, .inl ⟨hnone, hviolation⟩⟩
    · exact ⟨rfl, .inr ⟨block, hblock, hprepare⟩⟩
  · rintro ⟨rfl, ⟨hnone, hviolation⟩ | ⟨block, hblock, hprepare⟩⟩
    · exact .inl ⟨hnone, hviolation, rfl⟩
    · exact .inr ⟨block, e, ⟨hblock, rfl⟩, _, ⟨hprepare, rfl⟩, rfl⟩

/-- An instruction that has a result can be named once it is appended. -/
theorem fails_append_of_appendValue {draft : Draft} {site : Span}
    (hresult : draft.hasResult = true)
    (h : (appendValue draft site).Fails e violation after) :
    (append draft site).Fails e violation after := by
  simp only [appendValue, fails_bind, not_fails_get, yields_get, fails_require, false_or] at h
  rcases h with happend | ⟨id, _, happend, _, _, ⟨rfl, rfl⟩, hvalue, rfl⟩
  · exact happend
  · obtain ⟨block, operation, hblock, hprepare, rfl, rfl⟩ := yields_append.1 happend
    have hopen := Module.isOpen_of_prepare hprepare
    rw [← Module.draft_of_prepare hprepare] at hresult
    obtain ⟨type, types, htypes⟩ := List.exists_cons_of_ne_nil
      (Operation.resultTypes_ne_nil hresult)
    have htype : (e.module.placeAll block [⟨operation, site⟩]).typeOf
        (.result (e.module.nextInstruction block) 0) = .ok type := by
      apply Module.typeOf_eq_ok.2
      simp [Module.operandType?, Module.instruction?_placeAll_next hopen, Instruction.resultTypes,
        htypes]
    rw [Module.result, htype] at hvalue
    cases hvalue

theorem fails_own {slot : Operand} :
    (own slot).Fails e violation after ↔
      e.frames = [] ∧ .noOpenFrame = violation ∧ e = after := by
  simp only [Fails, run, own]
  cases e.frames <;> simp

theorem keepsFrame_of_closable (h : e.closable = .error violation) :
    violation.keepsFrame = true := by
  unfold closable at h
  split at h
  · cases h
    rfl
  · split at h <;> cases h
    rfl

/-- Freeing goes on up to the first slot that belongs to another function. -/
theorem placeAll_of_fails_free {block : BlockId} {site : Span} {slots : List Operand}
    (hslots : ∀ slot ∈ slots, e.module.isStackAllocation slot = true)
    (h : (free block site slots).Fails e violation after) :
    after = { e with
      module := e.module.placeAll block ((e.module.freeable block slots).map (.freeing site)) } ∧
    e.module.freeable block slots ≠ slots ∧ violation.keepsFrame = false := by
  induction slots generalizing e with
  | nil => exact absurd h not_fails_pure
  | cons slot rest ih =>
      have hslot := hslots slot List.mem_cons_self
      simp only [free, fails_bind, fails_edit, Module.fails_make, yields_edit,
        Module.yields_make] at h
      rcases h with ⟨_, ⟨hprepare, rfl⟩, rfl⟩ |
        ⟨_, _, ⟨_, ⟨operation, hprepare, -, rfl⟩, rfl⟩, hrest⟩
      · obtain ⟨hforeign, hgone⟩ := Module.refusal_of_prepare hslot hprepare
        rw [Module.freeable_cons_of_foreign hforeign]
        exact ⟨rfl, by simp, hgone⟩
      · -- The first slot is freed: the block stays open and the other slots stay live.
        obtain rfl := Module.prepare_deallocStack hprepare
        have hopen := Module.isOpen_of_prepare hprepare
        have hhere := Module.function?_of_prepare hslot hprepare
        have hnext : (e.module.place (.atEnd block) ⟨.deallocStack slot, site⟩).IsOpen block :=
          Module.isOpen_place hopen rfl
        have hlater : ∀ later ∈ rest, (e.module.place (.atEnd block)
            ⟨.deallocStack slot, site⟩).isStackAllocation later = true := by
          intro later hmem
          exact Module.isStackAllocation_place hopen _ (hslots later (List.mem_cons_of_mem _ hmem))
        obtain ⟨hafter, hne, hgone⟩ := ih hlater hrest
        simp only [Module.freeable_of_isOpen hnext] at hafter hne
        rw [Module.freeable_cons hopen hhere]
        exact ⟨hafter, by simpa using hne, hgone⟩

theorem halt_of_append {command : Command} {draft : Draft} {site : Span}
    (hcommand : command.appendsOne = true) (h : (append draft site).Fails e violation after) :
    Halt e command violation after := by
  obtain ⟨rfl, -⟩ := fails_append.1 h
  exact .refused violation hcommand

theorem halt_of_appendValue {command : Command} {draft : Draft} {site : Span}
    (hcommand : command.appendsOne = true) (hresult : draft.hasResult = true)
    (h : (appendValue draft site).Fails e violation after) : Halt e command violation after :=
  halt_of_append hcommand (fails_append_of_appendValue hresult h)

theorem fails_append_of_appendTerminator {draft : Draft} {returned : Bool} {site : Span}
    (h : (appendTerminator draft returned site).Fails e violation after) :
    (append draft site).Fails e violation after := by
  simpa only [appendTerminator, fails_bind, not_fails_modify, not_fails_pure, false_or, and_false,
    exists_false, or_false] using h

theorem halt_of_appendBlock {params : List ValueType}
    (h : (Emitter.appendBlock params).Fails e violation after) :
    Halt e (.appendBlock params) violation after := by
  simp only [Emitter.appendBlock, fails_bind, yields_currentFunction, fails_edit] at h
  rcases h with hnone | ⟨function, _, ⟨-, rfl⟩, n, hrefused, rfl⟩
  · obtain rfl := eq_of_fails_currentFunction hnone
    exact .refused violation rfl
  · obtain rfl := Module.eq_of_fails_appendBlock hrefused
    exact .refused violation rfl

theorem not_fails_beginFunction {name : String} {inputs : List ValueType} {output : ObjectType} :
    ¬(beginFunction name inputs output).Fails e violation after := by
  intro h
  simp only [beginFunction, fails_bind, fails_edit, yields_edit, Module.yields_declareFunction,
    not_fails_modify, not_fails_pure, and_false, exists_false, or_false] at h
  rcases h with ⟨_, hdeclare, -⟩ | ⟨_, _, ⟨_, ⟨rfl, rfl⟩, rfl⟩, _, hentry, -⟩
  · exact hdeclare.not_yields _ _ (Module.yields_declareFunction.2 ⟨rfl, rfl⟩)
  · have hf := e.module.function?_nextFunction name inputs output
    exact hentry.not_yields _ _ (Module.yields_appendEntryBlock.2 ⟨_, hf, rfl, rfl⟩)

theorem halt_of_popFrame (howned : e.OwnsAllocations) {site : Span}
    (h : (popFrame site).Fails e violation after) : Halt e (.popFrame site) violation after := by
  simp only [popFrame, fails_bind, yields_get, not_fails_get, fails_require, yields_require,
    yields_modify, not_fails_modify, not_fails_note, false_or, and_false, exists_false,
    or_false] at h
  obtain ⟨_, _, ⟨rfl, rfl⟩, ⟨hclosable, rfl⟩ | ⟨frame, _, ⟨hclosable, rfl⟩, _, _, rfl, hrelease⟩⟩ := h
  · exact .unclosed site (keepsFrame_of_closable hclosable)
  · obtain ⟨frames, hframes, -⟩ := closable_eq_ok.1 hclosable
    have hslots : ∀ slot ∈ frame, e.module.isStackAllocation slot = true := by
      intro slot hslot
      apply howned
      simp [slots, hframes, hslot]
    cases hblock : e.insertionBlock with
    | none =>
        rw [hblock] at hrelease
        exact absurd hrelease not_fails_pure
    | some block =>
        simp only [hblock, hframes, List.tail_cons, release] at hrelease
        obtain ⟨rfl, -, hgone⟩ :=
          placeAll_of_fails_free (e := { e with frames := frames }) hslots (hblock ▸ hrelease)
        exact hblock ▸ .unfreed site hblock hframes hgone

theorem halt_of_allocateLocal {type : ObjectType} {site : Span}
    (h : (Emitter.allocateLocal type site).Fails e violation after) :
    Halt e (.allocateLocal type site) violation after := by
  simp only [Emitter.allocateLocal, fails_bind, fails_own, not_fails_pure, and_false, exists_false,
    or_false] at h
  rcases h with hvalue | ⟨slot, _, hvalue, hframes, rfl, rfl⟩
  · obtain ⟨rfl, hrefused⟩ := fails_append.1 (fails_append_of_appendValue rfl hvalue)
    apply Halt.unallocated
    intro block hblock
    rcases hrefused with ⟨hnone, -⟩ | ⟨_, hsome, hprepare⟩
    · simp [hnone] at hblock
    · obtain rfl := Option.some.inj (hblock.symm.trans hsome)
      rw [Module.prepare_allocStack_eq] at hprepare
      exact (Module.not_isOpen_of_checkPlace (Checks.map_eq_error.1 hprepare)).1
  · obtain ⟨_, happend, rfl⟩ := append_of_appendValue hvalue
    obtain ⟨block, operation, hblock, hprepare, rfl, rfl⟩ := yields_append.1 happend
    obtain rfl : .allocStack type = operation := by
      simpa [Module.complete] using (Module.prepare_eq_ok.1 hprepare).1
    exact .unowned type site hblock (Module.isOpen_of_prepare hprepare) hframes

theorem halt_of_emitReturn (howned : e.OwnsAllocations) {site : Span}
    (h : (emitReturn site).Fails e violation after) : Halt e (.ret site) violation after := by
  simp only [emitReturn, fails_bind, fails_currentBlock, yields_currentBlock, yields_get,
    not_fails_get, false_or] at h
  rcases h with ⟨hnone, rfl, rfl⟩ | ⟨block, _, ⟨hblock, rfl⟩, _, _, ⟨rfl, rfl⟩, hfree | hreturn⟩
  · exact .homeless site _ hnone
  · obtain ⟨rfl, hne, -⟩ := placeAll_of_fails_free howned hfree
    exact .unreturned site violation hblock (fun _ => hne)
  · obtain ⟨_, _, hfree, hreturn⟩ := hreturn
    obtain ⟨rfl, hslots⟩ := placeAll_of_free hfree
    obtain ⟨rfl, hrefused⟩ := fails_append.1 (fails_append_of_appendTerminator hreturn)
    -- A block that the slots were freed in takes the return too, so there were none to free.
    have hclosed : ¬e.module.IsOpen block := by
      intro hopen
      rcases hrefused with ⟨hnone, -⟩ | ⟨last, hlast, hprepare⟩
      · simp [hblock] at hnone
      · obtain rfl : block = last := Option.some.inj (hblock.symm.trans hlast)
        rw [Module.prepare_ret_eq] at hprepare
        apply (Module.not_isOpen_of_checkPlace (Checks.map_eq_error.1 hprepare)).1
        apply Module.isOpen_placeAll hopen
        intro i hi
        obtain ⟨slot, -, rfl⟩ := List.mem_map.1 hi
        rfl
    have hnone : e.slots = [] := hslots.resolve_right hclosed
    have hhalt := Halt.unreturned site violation hblock (fun hopen => absurd hopen hclosed)
    rwa [Module.freeable_of_not_isOpen hclosed, ← hnone] at hhalt

/-- A failed call leaves one of these states. -/
theorem halt_of_error (howned : e.OwnsAllocations) {command : Command}
    (herror : (command.perform.run e).result = .error violation) :
    Halt e command violation (e.after command) := by
  have h : command.perform.Fails e violation (e.after command) := ⟨herror, rfl⟩
  cases command with
  | beginFunction name inputs output => exact absurd (fails_map.1 h) not_fails_beginFunction
  | appendBlock params => exact halt_of_appendBlock (fails_map.1 h)
  | setInsertionBlock block => exact absurd (fails_map.1 h) not_fails_modify
  | pushFrame =>
      have hpush := fails_map.1 h
      simp only [Emitter.pushFrame, fails_bind, not_fails_modify, not_fails_get, not_fails_note,
        and_false, exists_false, or_false] at hpush
  | popFrame site => exact halt_of_popFrame howned (fails_map.1 h)
  | allocateLocal type site => exact halt_of_allocateLocal (fails_map.1 h)
  | store object target site => exact halt_of_append rfl (fails_map.1 h)
  | load source site => exact halt_of_appendValue rfl rfl (fails_map.1 h)
  | binary operator lhs rhs site => exact halt_of_appendValue rfl rfl (fails_map.1 h)
  | compare operator lhs rhs site => exact halt_of_appendValue rfl rfl (fails_map.1 h)
  | call callee arguments site => exact halt_of_append rfl (fails_map.1 h)
  | branch target site =>
      exact halt_of_append rfl (fails_append_of_appendTerminator (fails_map.1 h))
  | condBranch condition ifTrue ifFalse site =>
      exact halt_of_append rfl (fails_append_of_appendTerminator (fails_map.1 h))
  | ret site => exact halt_of_emitReturn howned (fails_map.1 h)

end Emitter

end BlockIR
