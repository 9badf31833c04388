import BlockIR.Proofs.EmitterSteps
import BlockIR.Proofs.StackPaths
/-!
Runs of an emitter, and the stacks that its blocks work on.

A run is the list of its calls, each with the state it is made in.  Replaying a run at a block says
what the calls made for that block do to a stack of live allocations, in terms of frames and slots
only.  It gives the same answer as executing the instructions that the run left in the block, and the
branches of the run are the edges of the finished block.
-/

namespace BlockIR

open StackDiscipline (Stack execute executeAll executeAll_append)

namespace Block

variable {b : Block}

/-- The block with instructions more, behind the last one. -/
def pushAll (b : Block) (instructions : List Instruction) : Block :=
  instructions.foldl push b

theorem Ordered.instructions_pushAll (h : b.Ordered) (is : List Instruction) :
    (b.pushAll is).instructions =
      b.instructions ++ (is.zipIdx b.nextAddress).map Prod.swap := by
  induction is generalizing b with
  | nil => simp [pushAll]
  | cons i rest ih =>
      have hnext : (b.push i).nextAddress = b.nextAddress + 1 := by
        simp [nextAddress, Block.push]
      have hrest := ih (h.push i)
      rw [h.instructions_push, hnext] at hrest
      simpa [pushAll, List.zipIdx_cons] using hrest

theorem targets_push (b : Block) (i : Instruction) : (b.push i).targets = i.successors := by
  rw [targets, terminator?_push]
  cases hi : i.isTerminator with
  | true => rfl
  | false => exact (Operation.successors_eq_nil_of_not_isTerminator hi).symm

theorem targets_eq_nil_of_not_isTerminated (h : b.isTerminated = false) : b.targets = [] := by
  have hnone : b.terminator? = none := by simpa [isTerminated] using h
  simp [targets, hnone]

theorem targets_pushAll (htargets : b.targets = []) {is : List Instruction}
    (his : ∀ i ∈ is, i.successors = []) : (b.pushAll is).targets = [] := by
  induction is generalizing b with
  | nil => exact htargets
  | cons i rest ih =>
      apply ih
      · rw [targets_push]
        exact his i (by simp)
      · intro j hj
        exact his j (by simp [hj])

end Block

namespace Module

variable {m : Module}

/-- What is seen in a block; nothing in a block that is not there. -/
def viewAt {α : Type} (view : Block → List α) (m : Module) (block : BlockId) : List α :=
  ((m.block? block).map view).getD []

theorem block?_placeAll (m : Module) (block other : BlockId) (is : List Instruction) :
    (m.placeAll block is).block? other =
      if other = block then (m.block? block).map (fun b => b.pushAll is) else m.block? other := by
  induction is generalizing m with
  | nil =>
      by_cases heq : other = block
      · simp [placeAll, Block.pushAll, heq]
      · simp [placeAll, heq]
  | cons i rest ih =>
      have hplace : m.placeAll block (i :: rest) = (m.place (.atEnd block) i).placeAll block rest :=
        rfl
      rw [hplace, ih]
      by_cases heq : other = block
      · simp [place, block?_modifyBlock, heq, Block.pushAll, Function.comp_def]
      · simp [place, block?_modifyBlock, heq]

theorem function?_placeAll (m : Module) (block : BlockId) (is : List Instruction)
    (id : FunctionId) : ((m.placeAll block is).function? id).isSome = (m.function? id).isSome := by
  induction is generalizing m with
  | nil => rfl
  | cons i rest ih =>
      have hplace : m.placeAll block (i :: rest) = (m.place (.atEnd block) i).placeAll block rest :=
        rfl
      rw [hplace, ih, place, modifyBlock, function?_modifyFunction]
      split
      · rename_i heq
        simp [heq]
      · rfl

theorem function?_nextFunction (m : Module) (name : String) (inputs : List ValueType)
    (output : ObjectType) :
    (m.withFunction name inputs output).function? m.nextFunction =
      some ⟨m.nextFunction, name, inputs, output, []⟩ := by
  simp [function?_withFunction, nextFunction]

theorem viewAt_withBlock {α : Type} {view : Block → List α}
    (hempty : ∀ params, view (.empty params) = []) {function : FunctionId} {f : Function}
    (hf : m.function? function = some f) (hid : f.id = function) (params : List ValueType)
    (block : BlockId) :
    (m.withBlock function params).viewAt view block = m.viewAt view block := by
  rw [viewAt, block?_withBlock hf hid]
  split
  · rename_i heq
    simp [viewAt, heq, block?_next hf, hempty]
  · rfl

theorem viewAt_placeAll_of_ne {α : Type} {view : Block → List α} {target block : BlockId}
    (hne : block ≠ target) (is : List Instruction) :
    (m.placeAll target is).viewAt view block = m.viewAt view block := by
  rw [viewAt, block?_placeAll, if_neg hne, viewAt]

theorem viewAt_placeAll {α : Type} {view : Block → List α} {block : BlockId} {b : Block}
    (hb : m.block? block = some b) (is : List Instruction) :
    (m.placeAll block is).viewAt view block = view (b.pushAll is) := by
  simp [viewAt, block?_placeAll, hb]

end Module

namespace Emitter

variable {e after : Emitter}

/-- The allocations behind slots. -/
def allocations (slots : List Operand) : Stack := slots.filterMap Operand.instruction?

/-- The blocks that a call leads its block on to. -/
def Command.targets : Command → List BlockId
  | .branch target _ => [target]
  | .condBranch _ ifTrue ifFalse _ => [ifTrue, ifFalse]
  | _ => []

/-- What a call means for the stack that its block works on: closing a frame takes the slots of the
frame off the top, and a return takes the slots of all frames, which have to be all there is. -/
def effect (e : Emitter) (block : BlockId) (live : Stack) : Command → Option Stack
  | .allocateLocal _ _ => some (e.module.nextInstruction block :: live)
  | .popFrame _ => live.dropPrefix? (allocations (e.frames.headD []))
  | .ret _ => if live = allocations e.slots then some [] else none
  | _ => some live

/-- What a call means for any block: nothing, unless new instructions go there. -/
def replayCall (e : Emitter) (block : BlockId) (command : Command) (live : Stack) : Option Stack :=
  if e.insertionBlock = some block then e.effect block live command else some live

/-- What the calls of a run mean for a block that begins with a stack. -/
def replay (block : BlockId) (live : Stack) : List (Emitter × Command) → Option Stack
  | [] => some live
  | (e, command) :: rest =>
      (e.replayCall block command live).bind (fun after => replay block after rest)

/-- The blocks that a run leads a block on to. -/
def targetsOf (block : BlockId) (steps : List (Emitter × Command)) : List BlockId :=
  steps.flatMap (fun (e, command) =>
    if e.insertionBlock = some block then command.targets else [])

/-- Executing instructions that free slots takes the allocations behind them off the top. -/
theorem executeAll_freeing (block : BlockId) (live : Stack) (site : Span) (slots : List Operand)
    (address : Nat) :
    executeAll block live (((slots.map (.freeing site)).zipIdx address).map Prod.swap) =
      live.dropPrefix? (allocations slots) := by
  induction slots generalizing live address with
  | nil => simp [executeAll, allocations]
  | cons slot rest ih =>
      cases hslot : slot.instruction? with
      | none =>
          simpa [List.zipIdx_cons, executeAll, execute, Instruction.freeing, hslot, allocations]
            using ih live (address + 1)
      | some freed =>
          cases live with
          | nil =>
              simp [List.zipIdx_cons, executeAll, execute, Instruction.freeing, hslot, allocations,
                List.dropPrefix?]
          | cons top below =>
              have hrest := ih below (address + 1)
              by_cases htop : top = freed
              · simpa [List.zipIdx_cons, executeAll, execute, Instruction.freeing, hslot,
                  allocations, List.dropPrefix?, htop] using hrest
              · simp [List.zipIdx_cons, executeAll, execute, Instruction.freeing, hslot,
                  allocations, List.dropPrefix?, htop]

/-- A stack is empty behind a prefix exactly where the prefix is all of it. -/
theorem bind_dropPrefix? (live freed : Stack) :
    (live.dropPrefix? freed).bind (fun rest => if rest = [] then some rest else none) =
      if live = freed then some [] else none := by
  by_cases heq : live = freed
  · have hself : live.dropPrefix? freed = some [] :=
      List.dropPrefix?_eq_some_iff.2 ⟨live, by simp, by simp [heq]⟩
    rw [hself, if_pos heq]
    rfl
  · rw [if_neg heq]
    cases hrest : live.dropPrefix? freed with
    | none => rfl
    | some rest =>
        obtain ⟨taken, rfl, htaken⟩ := List.dropPrefix?_eq_some_iff.1 hrest
        have hne : rest ≠ [] := by
          rintro rfl
          exact heq (by simpa using htaken)
        simp [hne]

theorem plain_operation {command : Command} {draft : Draft} {site : Span} {m : Module}
    {point : InsertionPoint} {operation : Operation}
    (hcommand : command.plainDraft? = some (draft, site))
    (hprepare : m.prepare point draft = .ok operation) :
    operation.successors = [] ∧
      ∀ id live, execute id ⟨operation, site⟩ live = some live := by
  have hdraft := Module.draft_of_prepare hprepare
  cases command <;> simp only [Command.plainDraft?, Option.some.injEq, Prod.mk.injEq,
    reduceCtorEq] at hcommand <;> obtain ⟨rfl, -⟩ := hcommand <;>
    cases operation <;> cases hdraft <;> exact ⟨rfl, fun _ _ => rfl⟩

theorem branch_operation {command : Command} {draft : Draft} {site : Span} {m : Module}
    {point : InsertionPoint} {operation : Operation}
    (hcommand : command.branchDraft? = some (draft, site))
    (hprepare : m.prepare point draft = .ok operation) :
    operation.successors = command.targets ∧
      ∀ id live, execute id ⟨operation, site⟩ live = some live := by
  have hdraft := Module.draft_of_prepare hprepare
  cases command <;> simp only [Command.branchDraft?, Option.some.injEq, Prod.mk.injEq,
    reduceCtorEq] at hcommand <;> obtain ⟨rfl, -⟩ := hcommand <;>
    cases operation <;> cases hdraft <;> exact ⟨rfl, fun _ _ => rfl⟩

theorem replayCall_of_ne {block : BlockId} (hne : e.insertionBlock ≠ some block)
    (command : Command) : e.replayCall block command = some := by
  funext live
  rw [replayCall, if_neg hne]

theorem replayCall_of_effect {block : BlockId} {command : Command}
    (heffect : ∀ live, e.effect block live command = some live) :
    e.replayCall block command = some := by
  funext live
  rw [replayCall, heffect, ite_self]

theorem effect_of_plainDraft? {command : Command} {draft : Draft × Span}
    (hcommand : command.plainDraft? = some draft) (block : BlockId) (live : Stack) :
    e.effect block live command = some live := by
  cases command <;> first | rfl | simp [Command.plainDraft?] at hcommand

theorem Command.targets_of_plainDraft? {command : Command} {draft : Draft × Span}
    (hcommand : command.plainDraft? = some draft) : command.targets = [] := by
  cases command <;> first | rfl | simp [Command.plainDraft?] at hcommand

theorem effect_of_branchDraft? {command : Command} {draft : Draft × Span}
    (hcommand : command.branchDraft? = some draft) (block : BlockId) (live : Stack) :
    e.effect block live command = some live := by
  cases command <;> first | rfl | simp [Command.branchDraft?] at hcommand

/-- Appending to the current block means for every block what the call means, if executing the new
instructions does. -/
theorem executeAll_placeAll (hm : e.module.Consistent) {command : Command} {target : BlockId}
    {is : List Instruction} (htarget : e.insertionBlock = some target)
    (hopen : is = [] ∨ e.module.IsOpen target)
    (hmeans : ∀ live, executeAll target live
      ((is.zipIdx (e.module.nextInstruction target).address).map Prod.swap) =
        e.replayCall target command live) (block : BlockId) (live : Stack) :
    executeAll block live ((e.module.placeAll target is).viewAt Block.instructions block) =
      (executeAll block live (e.module.viewAt Block.instructions block)).bind
        (e.replayCall block command) := by
  by_cases heq : block = target
  · subst heq
    rw [← funext hmeans]
    rcases hopen with rfl | ⟨b, hb, -⟩
    · simp [Module.placeAll, executeAll]
    · have hnext : (e.module.nextInstruction block).address = b.nextAddress := by
        simp [Module.nextInstruction, hb]
      rw [Module.viewAt_placeAll hb, (hm.ordered _ b hb).instructions_pushAll, executeAll_append,
        hnext]
      simp [Module.viewAt, hb]
  · have hne : e.insertionBlock ≠ some block := by
      rw [htarget]
      exact fun h => heq (Option.some.inj h).symm
    rw [Module.viewAt_placeAll_of_ne heq, replayCall_of_ne hne command, Option.bind_fun_some]

/-- Appending to the current block leads it on to what the call says. -/
theorem targets_placeAll {command : Command} {target : BlockId} {is : List Instruction}
    (htarget : e.insertionBlock = some target) (hopen : is = [] ∨ e.module.IsOpen target)
    (hlead : ∀ b : Block, b.targets = [] → (b.pushAll is).targets = command.targets)
    (block : BlockId) :
    (e.module.placeAll target is).viewAt Block.targets block =
      e.module.viewAt Block.targets block ++
        if e.insertionBlock = some block then command.targets else [] := by
  by_cases heq : block = target
  · subst heq
    rw [if_pos htarget]
    rcases hopen with rfl | ⟨b, hb, hunterminated⟩
    · have hnone : command.targets = [] := (hlead (.empty []) rfl).symm
      simp [hnone, Module.placeAll]
    · have htargets := Block.targets_eq_nil_of_not_isTerminated hunterminated
      rw [Module.viewAt_placeAll hb, hlead b htargets]
      simp [Module.viewAt, hb, htargets]
  · have hne : e.insertionBlock ≠ some block := by
      rw [htarget]
      exact fun h => heq (Option.some.inj h).symm
    rw [Module.viewAt_placeAll_of_ne heq, if_neg hne, List.append_nil]

theorem viewAt_beginFunction {α : Type} {view : Block → List α}
    (hempty : ∀ params, view (.empty params) = []) (m : Module) (name : String)
    (inputs : List ValueType) (output : ObjectType) (block : BlockId) :
    ((m.withFunction name inputs output).withBlock m.nextFunction inputs).viewAt view block =
      m.viewAt view block := by
  rw [Module.viewAt_withBlock hempty (m.function?_nextFunction name inputs output) rfl,
    Module.viewAt, Module.block?_withFunction, Module.viewAt]

/-- A successful call does to the stack of a block what it means. -/
theorem Step.executeAll_instructions (hm : e.module.Consistent) {command : Command}
    (hstep : Step e command after) (block : BlockId) (live : Stack) :
    executeAll block live (after.module.viewAt Block.instructions block) =
      (executeAll block live (e.module.viewAt Block.instructions block)).bind
        (e.replayCall block command) := by
  have hempty : ∀ params, (Block.empty params).instructions = [] := fun _ => rfl
  cases hstep with
  | beginFunction name inputs output =>
      rw [viewAt_beginFunction hempty, replayCall_of_effect (fun _ => rfl),
        Option.bind_fun_some]
  | appendBlock params hfunction hf =>
      rw [Module.viewAt_withBlock hempty hf (hm.ids _ _ hf), replayCall_of_effect (fun _ => rfl),
        Option.bind_fun_some]
  | setInsertionBlock target =>
      rw [replayCall_of_effect (fun _ => rfl), Option.bind_fun_some]
  | pushFrame => rw [replayCall_of_effect (fun _ => rfl), Option.bind_fun_some]
  | closeFrame site htarget hframes hopen =>
      apply executeAll_placeAll hm htarget (by simpa using hopen)
      intro live
      simp [executeAll_freeing, replayCall, effect, htarget, hframes]
  | dropFrame site hnone hframes hdone => simp [replayCall_of_ne, hnone]
  | allocateLocal type site htarget hframes hopen =>
      apply executeAll_placeAll hm htarget (.inr hopen)
      intro live
      simp [executeAll, execute, replayCall, effect, htarget, Module.nextInstruction]
  | plain hcommand htarget hprepare =>
      apply executeAll_placeAll hm htarget (.inr (Module.isOpen_of_prepare hprepare))
      intro live
      rw [replayCall_of_effect (effect_of_plainDraft? hcommand _)]
      simp [executeAll, (plain_operation hcommand hprepare).2]
  | branch hcommand htarget hprepare =>
      apply executeAll_placeAll hm htarget (.inr (Module.isOpen_of_prepare hprepare))
      intro live
      rw [replayCall_of_effect (effect_of_branchDraft? hcommand _)]
      simp [executeAll, (branch_operation hcommand hprepare).2]
  | ret site htarget hopen =>
      apply executeAll_placeAll hm htarget (.inr hopen)
      intro live
      rw [List.zipIdx_append, List.map_append, executeAll_append, executeAll_freeing, replayCall,
        if_pos htarget, effect, ← bind_dropPrefix?]
      simp [executeAll, execute]

/-- A successful call leads blocks on to what it says. -/
theorem Step.targets (hm : e.module.Consistent) {command : Command}
    (hstep : Step e command after) (block : BlockId) :
    after.module.viewAt Block.targets block =
      e.module.viewAt Block.targets block ++
        if e.insertionBlock = some block then command.targets else [] := by
  have hempty : ∀ params, (Block.empty params).targets = [] := fun _ => rfl
  cases hstep with
  | beginFunction name inputs output =>
      rw [viewAt_beginFunction hempty]
      simp [Command.targets]
  | appendBlock params hfunction hf =>
      rw [Module.viewAt_withBlock hempty hf (hm.ids _ _ hf)]
      simp [Command.targets]
  | setInsertionBlock target => simp [Command.targets]
  | pushFrame => simp [Command.targets]
  | closeFrame site htarget hframes hopen =>
      apply targets_placeAll htarget (by simpa using hopen)
      intro b hb
      apply Block.targets_pushAll hb
      simp [Instruction.freeing, Instruction.successors, Operation.successors]
  | dropFrame site hnone hframes hdone => simp [hnone]
  | allocateLocal type site htarget hframes hopen =>
      apply targets_placeAll htarget (.inr hopen)
      intro b hb
      exact Block.targets_push b _
  | plain hcommand htarget hprepare =>
      apply targets_placeAll htarget (.inr (Module.isOpen_of_prepare hprepare))
      intro b hb
      rw [Command.targets_of_plainDraft? hcommand]
      exact (Block.targets_push b _).trans (plain_operation hcommand hprepare).1
  | branch hcommand htarget hprepare =>
      apply targets_placeAll htarget (.inr (Module.isOpen_of_prepare hprepare))
      intro b hb
      exact (Block.targets_push b _).trans (branch_operation hcommand hprepare).1
  | ret site htarget hopen =>
      apply targets_placeAll htarget (.inr hopen)
      intro b hb
      apply Block.targets_pushAll hb
      intro i hi
      rcases List.mem_append.1 hi with hi | hi
      · obtain ⟨slot, -, rfl⟩ := List.mem_map.1 hi
        rfl
      · obtain rfl := List.mem_singleton.1 hi
        rfl

/-- The calls of a run, each with the state that it is made in. -/
def trace (e : Emitter) : List Command → List (Emitter × Command)
  | [] => []
  | command :: rest => (e, command) :: trace (e.after command) rest

/-- The call gives an answer and breaks no rule. -/
def Succeeds (step : Emitter × Command) : Prop :=
  (step.2.perform.run step.1).result.isOk = true

instance (step : Emitter × Command) : Decidable (Succeeds step) :=
  inferInstanceAs (Decidable (_ = true))

/-- The functions that the calls of a run begin. -/
def begun (steps : List (Emitter × Command)) : List FunctionId :=
  steps.filterMap (fun (e, command) =>
    match command with
    | .beginFunction _ _ _ => some e.module.nextFunction
    | _ => none)

theorem step_of_succeeds {command : Command} (h : Succeeds (e, command)) :
    Step e command (e.after command) := by
  simp only [Succeeds] at h
  cases hresult : (command.perform.run e).result with
  | error violation => simp [hresult, Except.isOk, Except.toBool] at h
  | ok reply => exact step_of_ok hresult

theorem succeeds_cons {command : Command} {rest : List Command} :
    (∀ step ∈ trace e (command :: rest), Succeeds step) ↔
      Succeeds (e, command) ∧ ∀ step ∈ trace (e.after command) rest, Succeeds step := by
  simp [trace]

theorem consistent_after (hm : e.module.Consistent) (command : Command) :
    (e.after command).module.Consistent :=
  (e.growsTo_after command).preserves (fun _ edit _ h => h.after edit) hm

theorem consistent_run (hm : e.module.Consistent) (calls : List Command) :
    (calls.foldl Emitter.after e).module.Consistent :=
  (growsTo_calls calls e).preserves (fun _ edit _ h => h.after edit) hm

/-- Executing what a run left in a block gives what replaying the run there gives. -/
theorem executeAll_run (hm : e.module.Consistent) {calls : List Command}
    (hcalls : ∀ step ∈ trace e calls, Succeeds step) (block : BlockId) (live : Stack) :
    executeAll block live ((calls.foldl Emitter.after e).module.viewAt Block.instructions block) =
      (executeAll block live (e.module.viewAt Block.instructions block)).bind
        (fun start => replay block start (trace e calls)) := by
  induction calls generalizing e with
  | nil => simp [trace, replay]
  | cons command rest ih =>
      obtain ⟨hfirst, hrest⟩ := succeeds_cons.1 hcalls
      have hstep := step_of_succeeds hfirst
      rw [List.foldl_cons, ih (consistent_after hm command) hrest,
        hstep.executeAll_instructions hm, Option.bind_assoc]
      rfl

/-- The branches that a run emits into a block are the edges of the block. -/
theorem targets_run (hm : e.module.Consistent) {calls : List Command}
    (hcalls : ∀ step ∈ trace e calls, Succeeds step) (block : BlockId) :
    (calls.foldl Emitter.after e).module.viewAt Block.targets block =
      e.module.viewAt Block.targets block ++ targetsOf block (trace e calls) := by
  induction calls generalizing e with
  | nil => simp [trace, targetsOf]
  | cons command rest ih =>
      obtain ⟨hfirst, hrest⟩ := succeeds_cons.1 hcalls
      have hstep := step_of_succeeds hfirst
      rw [List.foldl_cons, ih (consistent_after hm command) hrest, hstep.targets hm]
      simp [trace, targetsOf, List.append_assoc]

/-- A successful call declares the function that it begins, and no other. -/
theorem Step.function?_isSome {command : Command} (hstep : Step e command after)
    (id : FunctionId) :
    (after.module.function? id).isSome ↔
      (e.module.function? id).isSome ∨ id ∈ begun [(e, command)] := by
  cases hstep with
  | beginFunction name inputs output =>
      rw [Module.withBlock, Module.function?_modifyFunction]
      by_cases heq : id = e.module.nextFunction
      · simp [heq, e.module.function?_nextFunction name inputs output, begun]
      · have hindex : id.index ≠ e.module.functions.length := by
          intro hindex
          apply heq
          cases id
          simpa [Module.nextFunction] using hindex
        rw [if_neg heq, Module.function?_withFunction, if_neg hindex]
        simp [begun, heq]
  | appendBlock params hfunction hf =>
      rw [Module.withBlock, Module.function?_modifyFunction]
      split
      · rename_i heq
        simp [heq, hf]
      · simp [begun]
  | plain hcommand _ _ =>
      rw [Module.function?_placeAll]
      cases command <;> simp [Command.plainDraft?, begun] at hcommand ⊢
  | branch hcommand _ _ =>
      rw [Module.function?_placeAll]
      cases command <;> simp [Command.branchDraft?, begun] at hcommand ⊢
  | _ => simp [begun, Module.function?_placeAll]

theorem Step.block?_isSome (hm : e.module.Consistent) {command : Command}
    (hstep : Step e command after) {block : BlockId} (hblock : (e.module.block? block).isSome) :
    (after.module.block? block).isSome := by
  cases hstep with
  | beginFunction name inputs output =>
      rw [Module.block?_withBlock (e.module.function?_nextFunction name inputs output) rfl,
        Module.block?_withFunction]
      split <;> simp [hblock]
  | appendBlock params hfunction hf =>
      rw [Module.block?_withBlock hf (hm.ids _ _ hf)]
      split <;> simp [hblock]
  | setInsertionBlock _ => exact hblock
  | pushFrame => exact hblock
  | dropFrame _ _ _ _ => exact hblock
  | _ =>
      rw [Module.block?_placeAll]
      split
      · rename_i heq
        simpa [← heq] using hblock
      · exact hblock

theorem begun_cons (step : Emitter × Command) (rest : List (Emitter × Command)) :
    begun (step :: rest) = begun [step] ++ begun rest := by
  rw [← List.singleton_append, begun, List.filterMap_append]
  rfl

theorem eq_nextFunction_of_mem_begun {command : Command} {id : FunctionId}
    (hid : id ∈ begun [(e, command)]) :
    id = e.module.nextFunction ∧
      ∃ name inputs output, command = .beginFunction name inputs output := by
  cases command <;> simp_all [begun]

/-- A run ends with the functions it began and those that were there. -/
theorem function?_run {calls : List Command}
    (hcalls : ∀ step ∈ trace e calls, Succeeds step) (id : FunctionId) :
    ((calls.foldl Emitter.after e).module.function? id).isSome ↔
      (e.module.function? id).isSome ∨ id ∈ begun (trace e calls) := by
  induction calls generalizing e with
  | nil => simp [trace, begun]
  | cons command rest ih =>
      obtain ⟨hfirst, hrest⟩ := succeeds_cons.1 hcalls
      rw [List.foldl_cons, ih hrest, (step_of_succeeds hfirst).function?_isSome, trace,
        begun_cons _ (trace _ rest), List.mem_append, or_assoc]

/-- A function that a run begins was not there before. -/
theorem function?_eq_none_of_mem_begun {calls : List Command}
    (hcalls : ∀ step ∈ trace e calls, Succeeds step) {id : FunctionId}
    (hid : id ∈ begun (trace e calls)) : e.module.function? id = none := by
  induction calls generalizing e with
  | nil => simp [trace, begun] at hid
  | cons command rest ih =>
      obtain ⟨hfirst, hrest⟩ := succeeds_cons.1 hcalls
      rw [trace, begun_cons, List.mem_append] at hid
      rcases hid with hnew | hlater
      · obtain ⟨rfl, -⟩ := eq_nextFunction_of_mem_begun hnew
        simp [Module.function?, Module.nextFunction]
      · have hafter := ih hrest hlater
        by_contra hsome
        have hkept := ((step_of_succeeds hfirst).function?_isSome id).2
          (.inl (Option.isSome_iff_ne_none.2 hsome))
        simp [hafter] at hkept

theorem block?_eq_none_of_mem_begun {calls : List Command}
    (hcalls : ∀ step ∈ trace e calls, Succeeds step) {block : BlockId}
    (hid : block.function ∈ begun (trace e calls)) : e.module.block? block = none := by
  rw [Module.block?, function?_eq_none_of_mem_begun hcalls hid, Option.bind_none]

theorem block?_run (hm : e.module.Consistent) {calls : List Command}
    (hcalls : ∀ step ∈ trace e calls, Succeeds step) {block : BlockId}
    (hblock : (e.module.block? block).isSome) :
    ((calls.foldl Emitter.after e).module.block? block).isSome := by
  induction calls generalizing e with
  | nil => exact hblock
  | cons command rest ih =>
      obtain ⟨hfirst, hrest⟩ := succeeds_cons.1 hcalls
      have hkept := (step_of_succeeds hfirst).block?_isSome hm hblock
      exact ih (consistent_after hm command) hrest hkept

/-- A function that a run begins has an entry block. -/
theorem block?_entry_of_mem_begun (hm : e.module.Consistent) {calls : List Command}
    (hcalls : ∀ step ∈ trace e calls, Succeeds step) {id : FunctionId}
    (hid : id ∈ begun (trace e calls)) :
    ((calls.foldl Emitter.after e).module.block? ⟨id, 0⟩).isSome := by
  induction calls generalizing e with
  | nil => simp [trace, begun] at hid
  | cons command rest ih =>
      obtain ⟨hfirst, hrest⟩ := succeeds_cons.1 hcalls
      rw [trace, begun_cons, List.mem_append] at hid
      rcases hid with hnew | hlater
      · obtain ⟨rfl, name, inputs, output, rfl⟩ := eq_nextFunction_of_mem_begun hnew
        apply block?_run (consistent_after hm _) hrest
        have hstep := step_of_succeeds hfirst
        generalize e.after (.beginFunction name inputs output) = after at hstep
        cases hstep with
        | beginFunction =>
            rw [Module.block?_withBlock (e.module.function?_nextFunction name inputs output) rfl]
            simp
        | plain hcommand _ _ => simp [Command.plainDraft?] at hcommand
        | branch hcommand _ _ => simp [Command.branchDraft?] at hcommand
      · exact ih (consistent_after hm command) hrest hlater

end Emitter

end BlockIR
