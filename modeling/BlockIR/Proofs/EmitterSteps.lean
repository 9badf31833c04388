import BlockIR.Proofs.Histories
/-!
What a successful emitter call does.  Each call that gives an answer takes the emitter to one state,
which is said here once for each kind of call; nothing later opens the calls themselves.
-/

namespace BlockIR

namespace Action

variable {σ α β : Type}

/-- The action ends with a result and leaves a state. -/
def Yields (action : Action σ α) (before : σ) (value : α) (after : σ) : Prop :=
  (action.run before).result = .ok value ∧ (action.run before).state = after

theorem yields_bind {first : Action σ α} {next : α → Action σ β} {before after : σ} {value : β} :
    (first >>= next).Yields before value after ↔
      ∃ middle left, first.Yields before middle left ∧ (next middle).Yields left value after := by
  rcases hrun : first.run before with ⟨_ | middle, left, log⟩
  · simp [Yields, run_bind_of_error hrun, hrun]
  · simp [Yields, run_bind_of_ok hrun, hrun]

theorem yields_map {g : α → β} {action : Action σ α} {before after : σ} {value : β} :
    (g <$> action).Yields before value after ↔
      ∃ middle, action.Yields before middle after ∧ g middle = value := by
  rw [Yields, run_map]
  rcases hrun : action.run before with ⟨_ | middle, left, log⟩
  · simp [Yields, hrun, Except.map]
  · simp [Yields, hrun, Except.map, and_comm]

theorem yields_pure {result value : α} {before after : σ} :
    (pure result : Action σ α).Yields before value after ↔ result = value ∧ before = after := by
  simp [Yields]

theorem yields_get {before value after : σ} :
    (get : Action σ σ).Yields before value after ↔ before = value ∧ before = after := by
  simp [Yields]

theorem yields_modify {change : σ → σ} {before after : σ} {value : Unit} :
    (modify change).Yields before value after ↔ change before = after := by
  simp [Yields]

theorem yields_note {event : Event} {before after : σ} {value : Unit} :
    (note event).Yields before value after ↔ before = after := by
  simp [Yields]

theorem yields_require {check : Except Violation α} {before after : σ} {value : α} :
    (require check).Yields before value after ↔ check = .ok value ∧ before = after := by
  simp [Yields]

end Action

namespace Module

open BlockIR.Action

variable {m n : Module}

/-- A block takes instructions at its end. -/
def IsOpen (m : Module) (block : BlockId) : Prop :=
  ∃ b, m.block? block = some b ∧ b.isTerminated = false

/-- The module with instructions appended to a block. -/
def placeAll (m : Module) (block : BlockId) (instructions : List Instruction) : Module :=
  instructions.foldl (fun m i => m.place (.atEnd block) i) m

theorem isOpen_of_prepare {block : BlockId} {draft : Draft} {operation : Operation}
    (hprepare : m.prepare (.atEnd block) draft = .ok operation) : m.IsOpen block :=
  checkPlace_eq_ok.1 (checkInsertion_eq_ok.1 (prepare_eq_ok.1 hprepare).2).1

theorem prepare_deallocStack {point : InsertionPoint} {slot : Operand} {operation : Operation}
    (hprepare : m.prepare point (.deallocStack slot) = .ok operation) :
    operation = .deallocStack slot := by
  have hdraft := draft_of_prepare hprepare
  cases operation <;> cases hdraft
  rfl

theorem yields_make {point : InsertionPoint} {draft : Draft} {site : Span} {id : InstructionId} :
    (make point draft site).Yields m id n ↔
      ∃ operation, m.prepare point draft = .ok operation ∧
        m.nextInstruction point.block = id ∧ m.place point ⟨operation, site⟩ = n := by
  simp only [Yields, run, make]
  cases m.prepare point draft <;> simp

theorem yields_declareFunction {name : String} {inputs : List ValueType} {output : ObjectType}
    {id : FunctionId} :
    (declareFunction name inputs output).Yields m id n ↔
      ⟨m.functions.length⟩ = id ∧ m.withFunction name inputs output = n := by
  simp [Yields, run, declareFunction, withFunction]

theorem yields_appendBlock {function : FunctionId} {params : List ValueType} {id : BlockId} :
    (appendBlock function params).Yields m id n ↔
      ∃ f, m.function? function = some f ∧ (f.blocks = [] → f.inputs = params) ∧
        ⟨f.id, f.blocks.length⟩ = id ∧ m.withBlock function params = n := by
  simp only [Yields, run, appendBlock]
  cases hf : m.getFunction function with
  | error violation =>
      have hnone : ∀ f, m.function? function ≠ some f := by
        intro f hsome
        rw [getFunction_eq_ok.2 hsome] at hf
        simp at hf
      simp [hnone]
  | ok f =>
      rw [getFunction_eq_ok] at hf
      have hcheck : (f.blocks.isEmpty && f.inputs != params) = false ↔
          (f.blocks = [] → f.inputs = params) := by
        by_cases hblocks : f.blocks = [] <;> simp [hblocks]
      simp only [hf, Option.some.injEq, exists_eq_left', ← hcheck]
      cases f.blocks.isEmpty && f.inputs != params <;> simp [withBlock]

theorem yields_appendEntryBlock {function : FunctionId} {id : BlockId} :
    (appendEntryBlock function).Yields m id n ↔
      ∃ f, m.function? function = some f ∧ ⟨f.id, f.blocks.length⟩ = id ∧
        m.withBlock function f.inputs = n := by
  cases hf : m.getFunction function with
  | error violation =>
      have hnone : ∀ f, m.function? function ≠ some f := by
        intro f hsome
        rw [getFunction_eq_ok.2 hsome] at hf
        simp at hf
      simp [Yields, run, appendEntryBlock, hf, hnone]
  | ok f =>
      have hrun : (appendEntryBlock function).Yields m id n ↔
          (appendBlock function f.inputs).Yields m id n := by
        simp [Yields, run, appendEntryBlock, hf]
      rw [getFunction_eq_ok] at hf
      rw [hrun, yields_appendBlock]
      simp [hf]

end Module

/-- The instruction that frees a slot. -/
def Instruction.freeing (site : Span) (slot : Operand) : Instruction := ⟨.deallocStack slot, site⟩

namespace Emitter

open BlockIR.Action

variable {α : Type} {e after : Emitter}

/-- What a call appends that neither ends a block nor touches the frames. -/
def Command.plainDraft? : Command → Option (Draft × Span)
  | .store object target site => some (.store object target, site)
  | .load source site => some (.load source, site)
  | .binary operator lhs rhs site => some (.binary operator lhs rhs, site)
  | .compare operator lhs rhs site => some (.compare operator lhs rhs, site)
  | .call callee arguments site => some (.call callee arguments, site)
  | _ => none

/-- What a call appends to lead on to other blocks. -/
def Command.branchDraft? : Command → Option (Draft × Span)
  | .branch target site => some (.branch target, site)
  | .condBranch condition ifTrue ifFalse site => some (.condBranch condition ifTrue ifFalse, site)
  | _ => none

/-- The states that successful calls lead to. -/
inductive Step (e : Emitter) : Command → Emitter → Prop where
  | beginFunction (name : String) (inputs : List ValueType) (output : ObjectType) :
      Step e (.beginFunction name inputs output)
        ⟨(e.module.withFunction name inputs output).withBlock e.module.nextFunction inputs,
          some e.module.nextFunction, some ⟨e.module.nextFunction, 0⟩, false, [[]]⟩
  | appendBlock {function : FunctionId} {f : Function} (params : List ValueType)
      (hfunction : e.function = some function) (hf : e.module.function? function = some f) :
      Step e (.appendBlock params) { e with module := e.module.withBlock function params }
  | setInsertionBlock (block : BlockId) :
      Step e (.setInsertionBlock block) { e with insertionBlock := some block, returned := false }
  | pushFrame : Step e .pushFrame { e with frames := [] :: e.frames }
  | closeFrame {block : BlockId} {frame : List Operand} {frames : List (List Operand)} (site : Span)
      (hblock : e.insertionBlock = some block) (hframes : e.frames = frame :: frames)
      (hopen : frame = [] ∨ e.module.IsOpen block) :
      Step e (.popFrame site)
        { e with module := e.module.placeAll block (frame.map (.freeing site)), frames := frames }
  | dropFrame {frame : List Operand} {frames : List (List Operand)} (site : Span)
      (hblock : e.insertionBlock = none) (hframes : e.frames = frame :: frames)
      (hdone : e.returned = true ∨ frame = []) :
      Step e (.popFrame site) { e with frames := frames }
  | allocateLocal {block : BlockId} {frame : List Operand} {frames : List (List Operand)}
      (type : ObjectType) (site : Span) (hblock : e.insertionBlock = some block)
      (hframes : e.frames = frame :: frames) (hopen : e.module.IsOpen block) :
      Step e (.allocateLocal type site)
        { e with
          module := e.module.placeAll block [⟨.allocStack type, site⟩]
          frames := (.result (e.module.nextInstruction block) 0 :: frame) :: frames }
  | plain {command : Command} {block : BlockId} {draft : Draft} {site : Span}
      {operation : Operation} (hcommand : command.plainDraft? = some (draft, site))
      (hblock : e.insertionBlock = some block)
      (hprepare : e.module.prepare (.atEnd block) draft = .ok operation) :
      Step e command { e with module := e.module.placeAll block [⟨operation, site⟩] }
  | branch {command : Command} {block : BlockId} {draft : Draft} {site : Span}
      {operation : Operation} (hcommand : command.branchDraft? = some (draft, site))
      (hblock : e.insertionBlock = some block)
      (hprepare : e.module.prepare (.atEnd block) draft = .ok operation) :
      Step e command
        { e with
          module := e.module.placeAll block [⟨operation, site⟩]
          insertionBlock := none
          returned := false }
  | ret {block : BlockId} (site : Span) (hblock : e.insertionBlock = some block)
      (hopen : e.module.IsOpen block) :
      Step e (.ret site)
        { e with
          module := e.module.placeAll block (e.slots.map (.freeing site) ++ [⟨.ret, site⟩])
          insertionBlock := none
          returned := true }

theorem yields_edit {action : Action Module α} {value : α} :
    (edit action).Yields e value after ↔
      ∃ m, action.Yields e.module value m ∧ { e with module := m } = after := by
  simp only [Yields, run, edit, onPart]
  constructor
  · rintro ⟨hresult, rfl⟩
    exact ⟨_, ⟨hresult, rfl⟩, rfl⟩
  · rintro ⟨_, ⟨hresult, rfl⟩, rfl⟩
    exact ⟨hresult, rfl⟩

theorem yields_currentBlock {block : BlockId} :
    currentBlock.Yields e block after ↔ e.insertionBlock = some block ∧ e = after := by
  simp only [Yields, run, currentBlock]
  cases e.insertionBlock <;> simp

theorem yields_currentFunction {function : FunctionId} :
    currentFunction.Yields e function after ↔ e.function = some function ∧ e = after := by
  simp only [Yields, run, currentFunction]
  cases e.function <;> simp

theorem yields_own {slot : Operand} {value : Unit} :
    (own slot).Yields e value after ↔
      ∃ frame frames, e.frames = frame :: frames ∧
        { e with frames := (slot :: frame) :: frames } = after := by
  simp only [Yields, run, own]
  cases e.frames <;> simp

theorem yields_append {draft : Draft} {site : Span} {id : InstructionId} :
    (append draft site).Yields e id after ↔
      ∃ block operation, e.insertionBlock = some block ∧
        e.module.prepare (.atEnd block) draft = .ok operation ∧
        e.module.nextInstruction block = id ∧
        { e with module := e.module.placeAll block [⟨operation, site⟩] } = after := by
  simp only [append, yields_bind, yields_currentBlock, yields_edit, Module.yields_make]
  constructor
  · rintro ⟨block, _, ⟨hblock, rfl⟩, m, ⟨operation, hprepare, hid, rfl⟩, rfl⟩
    exact ⟨block, operation, hblock, hprepare, hid, rfl⟩
  · rintro ⟨block, operation, hblock, hprepare, hid, rfl⟩
    exact ⟨block, e, ⟨hblock, rfl⟩, _, ⟨operation, hprepare, hid, rfl⟩, rfl⟩

theorem append_of_appendValue {draft : Draft} {site : Span} {value : Operand}
    (h : (appendValue draft site).Yields e value after) :
    ∃ id, (append draft site).Yields e id after ∧ value = .result id 0 := by
  simp only [appendValue, yields_bind, yields_get, yields_require] at h
  obtain ⟨id, _, happend, _, _, ⟨rfl, rfl⟩, hresult, rfl⟩ := h
  simp only [Module.result, Checks.bind_eq_ok, Checks.pure_eq_ok] at hresult
  obtain ⟨-, -, rfl⟩ := hresult
  exact ⟨id, happend, rfl⟩

theorem append_of_appendTerminator {draft : Draft} {returned : Bool} {site : Span}
    {id : InstructionId} (h : (appendTerminator draft returned site).Yields e id after) :
    ∃ middle, (append draft site).Yields e id middle ∧
      after = { middle with insertionBlock := none, returned := returned } := by
  simp only [appendTerminator, yields_bind, yields_modify, yields_pure] at h
  obtain ⟨_, middle, happend, _, _, rfl, rfl, rfl⟩ := h
  exact ⟨middle, happend, rfl⟩

/-- Freeing appends one instruction for each slot, and nothing only where there is no slot. -/
theorem placeAll_of_free {block : BlockId} {site : Span} {slots : List Operand} {value : Unit}
    (h : (free block site slots).Yields e value after) :
    after = { e with module := e.module.placeAll block (slots.map (.freeing site)) } ∧
      (slots = [] ∨ e.module.IsOpen block) := by
  induction slots generalizing e with
  | nil =>
      obtain ⟨-, rfl⟩ := yields_pure.1 h
      exact ⟨rfl, .inl rfl⟩
  | cons slot rest ih =>
      simp only [free, yields_bind, yields_edit, Module.yields_make] at h
      obtain ⟨_, _, ⟨_, ⟨operation, hprepare, -, rfl⟩, rfl⟩, hrest⟩ := h
      obtain rfl := Module.prepare_deallocStack hprepare
      obtain ⟨rfl, -⟩ := ih hrest
      exact ⟨rfl, .inr (Module.isOpen_of_prepare hprepare)⟩

theorem step_of_append {command : Command} {draft : Draft} {site : Span} {id : InstructionId}
    (hcommand : command.plainDraft? = some (draft, site))
    (h : (append draft site).Yields e id after) : Step e command after := by
  obtain ⟨block, operation, hblock, hprepare, -, rfl⟩ := yields_append.1 h
  exact .plain hcommand hblock hprepare

theorem step_of_appendValue {command : Command} {draft : Draft} {site : Span} {value : Operand}
    (hcommand : command.plainDraft? = some (draft, site))
    (h : (appendValue draft site).Yields e value after) : Step e command after := by
  obtain ⟨id, happend, -⟩ := append_of_appendValue h
  exact step_of_append hcommand happend

theorem step_of_appendTerminator {command : Command} {draft : Draft} {site : Span}
    {id : InstructionId} (hcommand : command.branchDraft? = some (draft, site))
    (h : (appendTerminator draft false site).Yields e id after) : Step e command after := by
  obtain ⟨middle, happend, rfl⟩ := append_of_appendTerminator h
  obtain ⟨block, operation, hblock, hprepare, -, rfl⟩ := yields_append.1 happend
  exact .branch hcommand hblock hprepare

theorem step_of_beginFunction {name : String} {inputs : List ValueType} {output : ObjectType}
    {id : FunctionId} (h : (beginFunction name inputs output).Yields e id after) :
    Step e (.beginFunction name inputs output) after := by
  simp only [beginFunction, yields_bind, yields_edit, Module.yields_declareFunction,
    Module.yields_appendEntryBlock, yields_modify, yields_pure] at h
  obtain ⟨_, _, ⟨_, ⟨rfl, rfl⟩, rfl⟩, _, _, ⟨_, ⟨f, hf, rfl, rfl⟩, rfl⟩, _, _, rfl, -, rfl⟩ := h
  rw [Module.function?_withFunction, if_pos rfl] at hf
  obtain rfl := Option.some.inj hf
  exact .beginFunction name inputs output

theorem closable_eq_ok {frame : List Operand} :
    e.closable = .ok frame ↔ ∃ frames, e.frames = frame :: frames ∧
      (e.insertionBlock = none → e.returned = true ∨ frame = []) := by
  unfold closable
  cases e.frames with
  | nil => simp
  | cons head rest =>
      cases e.insertionBlock <;> cases e.returned <;> cases head <;> simp +contextual [eq_comm]

theorem step_of_popFrame {site : Span} {value : Unit} (h : (popFrame site).Yields e value after) :
    Step e (.popFrame site) after := by
  simp only [popFrame, yields_bind, yields_get, yields_require, yields_modify, yields_note] at h
  obtain ⟨_, _, ⟨rfl, rfl⟩, frame, _, ⟨hclosable, rfl⟩, _, _, rfl, _, _, hrelease, rfl⟩ := h
  obtain ⟨frames, hframes, hdone⟩ := closable_eq_ok.1 hclosable
  cases hblock : e.insertionBlock with
  | none =>
      simp only [hblock, release, yields_pure, hframes, List.tail_cons] at hrelease
      obtain ⟨-, rfl⟩ := hrelease
      exact hblock ▸ .dropFrame site hblock hframes (hdone hblock)
  | some block =>
      simp only [hblock, release, hframes, List.tail_cons] at hrelease
      obtain ⟨rfl, hopen⟩ := placeAll_of_free hrelease
      exact hblock ▸ .closeFrame site hblock hframes hopen

theorem step_of_allocateLocal {type : ObjectType} {site : Span} {slot : Operand}
    (h : (Emitter.allocateLocal type site).Yields e slot after) :
    Step e (.allocateLocal type site) after := by
  simp only [Emitter.allocateLocal, yields_bind, yields_own, yields_pure] at h
  obtain ⟨_, _, hvalue, _, _, ⟨frame, frames, hframes, rfl⟩, -, rfl⟩ := h
  obtain ⟨_, happend, rfl⟩ := append_of_appendValue hvalue
  obtain ⟨block, operation, hblock, hprepare, rfl, rfl⟩ := yields_append.1 happend
  obtain rfl : .allocStack type = operation := by
    simpa [Module.complete] using (Module.prepare_eq_ok.1 hprepare).1
  exact .allocateLocal type site hblock hframes (Module.isOpen_of_prepare hprepare)

theorem step_of_emitReturn {site : Span} {id : InstructionId}
    (h : (emitReturn site).Yields e id after) : Step e (.ret site) after := by
  simp only [emitReturn, yields_bind, yields_currentBlock, yields_get] at h
  obtain ⟨block, _, ⟨hblock, rfl⟩, _, _, ⟨rfl, rfl⟩, _, _, hfree, hreturn⟩ := h
  obtain ⟨rfl, hopen⟩ := placeAll_of_free hfree
  obtain ⟨_, happend, rfl⟩ := append_of_appendTerminator hreturn
  obtain ⟨last, operation, hlast, hprepare, -, rfl⟩ := yields_append.1 happend
  obtain rfl : block = last := Option.some.inj (hblock.symm.trans hlast)
  obtain rfl : .ret = operation := by
    simpa [Module.complete] using (Module.prepare_eq_ok.1 hprepare).1
  have hstart : e.module.IsOpen block := by
    rcases hopen with hnone | hopen
    · simpa [hnone, Module.placeAll] using Module.isOpen_of_prepare hprepare
    · exact hopen
  have hstep := Step.ret site hblock hstart
  rwa [Module.placeAll, List.foldl_append] at hstep

/-- A call that gives an answer takes one of the steps. -/
theorem step_of_ok {command : Command} {reply : Reply}
    (hok : (command.perform.run e).result = .ok reply) : Step e command (e.after command) := by
  have h : command.perform.Yields e reply (e.after command) := ⟨hok, rfl⟩
  cases command with
  | beginFunction name inputs output =>
      obtain ⟨_, hcall, -⟩ := yields_map.1 h
      exact step_of_beginFunction hcall
  | appendBlock params =>
      obtain ⟨_, hcall, -⟩ := yields_map.1 h
      simp only [Emitter.appendBlock, yields_bind, yields_currentFunction, yields_edit,
        Module.yields_appendBlock] at hcall
      obtain ⟨function, _, ⟨hfunction, rfl⟩, _, ⟨f, hf, -, -, rfl⟩, hafter⟩ := hcall
      exact hafter ▸ .appendBlock params hfunction hf
  | setInsertionBlock block => exact .setInsertionBlock block
  | pushFrame =>
      obtain ⟨_, hcall, -⟩ := yields_map.1 h
      simp only [Emitter.pushFrame, yields_bind, yields_modify, yields_get, yields_note] at hcall
      obtain ⟨_, _, rfl, _, _, ⟨rfl, rfl⟩, hafter⟩ := hcall
      exact hafter ▸ .pushFrame
  | popFrame site =>
      obtain ⟨_, hcall, -⟩ := yields_map.1 h
      exact step_of_popFrame hcall
  | allocateLocal type site =>
      obtain ⟨_, hcall, -⟩ := yields_map.1 h
      exact step_of_allocateLocal hcall
  | store object target site =>
      obtain ⟨_, hcall, -⟩ := yields_map.1 h
      exact step_of_append rfl hcall
  | load source site =>
      obtain ⟨_, hcall, -⟩ := yields_map.1 h
      exact step_of_appendValue rfl hcall
  | binary operator lhs rhs site =>
      obtain ⟨_, hcall, -⟩ := yields_map.1 h
      exact step_of_appendValue rfl hcall
  | compare operator lhs rhs site =>
      obtain ⟨_, hcall, -⟩ := yields_map.1 h
      exact step_of_appendValue rfl hcall
  | call callee arguments site =>
      obtain ⟨_, hcall, -⟩ := yields_map.1 h
      exact step_of_append rfl hcall
  | branch target site =>
      obtain ⟨_, hcall, -⟩ := yields_map.1 h
      exact step_of_appendTerminator rfl hcall
  | condBranch condition ifTrue ifFalse site =>
      obtain ⟨_, hcall, -⟩ := yields_map.1 h
      exact step_of_appendTerminator rfl hcall
  | ret site =>
      obtain ⟨_, hcall, -⟩ := yields_map.1 h
      exact step_of_emitReturn hcall

end Emitter

end BlockIR
