import BlockIR.Proofs.Checks
import BlockIR.Proofs.Requests
import Mathlib.Data.List.Induction
import Mathlib.Logic.Relation
/-!
Histories of edits.  What a successful edit does to a module is said once for each command; a failed
one leaves the module as it was.  An emitter call is a history of constructions, so that what every
edit preserves holds of every reachable module.
-/

namespace BlockIR

/-- What a successful edit of a module does, with the checks that it passed. -/
inductive Command.Effect (m : Module) : Command → Module → Prop where
  | rename (name : String) : Effect m (.rename name) { m with name := name }
  | declareFunction (name : String) (inputs : List ValueType) (output : ObjectType) :
      Effect m (.declareFunction name inputs output) (m.withFunction name inputs output)
  | appendBlock {function : FunctionId} {f : Function} {params : List ValueType}
      (hf : m.function? function = some f) (hentry : f.blocks = [] → f.inputs = params) :
      Effect m (.appendBlock function params) (m.withBlock function params)
  | appendEntryBlock {function : FunctionId} {f : Function}
      (hf : m.function? function = some f) :
      Effect m (.appendEntryBlock function) (m.withBlock function f.inputs)
  | make {point : InsertionPoint} {draft : Draft} {operation : Operation}
      (hprepare : m.prepare point draft = .ok operation) (site : Span) :
      Effect m (.make point draft site) (m.place point ⟨operation, site⟩)
  | replaceOperand {id : InstructionId} {i : Instruction} {index : Nat}
      (hi : m.instruction? id = some i) (hindex : index < i.operands.length) (new : Operand) :
      Effect m (.replaceOperand id index new)
        (m.exchange id { i with operation := i.operation.setOperand index new })
  | replaceSuccessor {id : InstructionId} {i : Instruction} {new : BlockId} (old : BlockId)
      (hi : m.instruction? id = some i) (hterminator : i.isTerminator = true)
      (hlocal : new.function = id.function) (hnew : (m.block? new).isSome) :
      Effect m (.replaceSuccessor id old new)
        (m.exchange id { i with operation :=
          i.operation.mapSuccessors (fun b => if b = old then new else b) })
  | removeInstruction {id : InstructionId} {i : Instruction}
      (hi : m.instruction? id = some i) (hunused : m.uses id = []) :
      Effect m (.removeInstruction id) (m.without id)

namespace Module

variable {m : Module}

theorem after_rename (name : String) : m.after (.rename name) = { m with name := name } := by
  simp only [after, Command.perform, Action.run_map]
  rfl

theorem after_declareFunction (name : String) (inputs : List ValueType) (output : ObjectType) :
    m.after (.declareFunction name inputs output) = m.withFunction name inputs output := by
  simp only [after, Command.perform, Action.run_map]
  rfl

theorem appendBlock_run (function : FunctionId) (params : List ValueType) :
    ((appendBlock function params).run m).state = m ∨
      ∃ f, m.function? function = some f ∧ (f.blocks = [] → f.inputs = params) ∧
        ((appendBlock function params).run m).state = m.withBlock function params := by
  simp only [Action.run, appendBlock]
  cases hf : m.getFunction function with
  | error violation => exact Or.inl rfl
  | ok f =>
      by_cases hentry : (f.blocks.isEmpty && f.inputs != params) = true
      · exact Or.inl (by simp [hentry])
      · refine Or.inr ⟨f, getFunction_eq_ok.1 hf, ?_, by simp [hentry, withBlock]⟩
        intro hblocks
        simpa [hblocks] using hentry

theorem after_make (point : InsertionPoint) (draft : Draft) (site : Span) :
    m.after (.make point draft site) =
      match m.prepare point draft with
      | .error _ => m
      | .ok operation => m.place point ⟨operation, site⟩ := by
  simp only [after, Command.perform, Action.run_map]
  simp only [Action.run, make]
  cases m.prepare point draft <;> rfl

theorem after_removeInstruction (id : InstructionId) :
    m.after (.removeInstruction id) =
      match m.checkRemoval id with
      | .error _ => m
      | .ok _ => m.without id := by
  simp only [after, Command.perform, Action.run_map]
  simp only [Action.run, removeInstruction]
  cases m.checkRemoval id <;> rfl

/-- An edit either leaves the module as it was or has the effect of a successful one. -/
theorem after_eq_or_effect (m : Module) (command : Command) :
    m.after command = m ∨ command.Effect m (m.after command) := by
  cases command with
  | rename name => exact Or.inr (after_rename name ▸ .rename name)
  | declareFunction name inputs output =>
      exact Or.inr (after_declareFunction name inputs output ▸ .declareFunction name inputs output)
  | appendBlock function params =>
      simp only [after, Command.perform, Action.run_map]
      rcases appendBlock_run (m := m) function params with hsame | ⟨f, hf, hentry, heq⟩
      · exact Or.inl hsame
      · rw [heq]
        exact Or.inr (.appendBlock hf hentry)
  | appendEntryBlock function =>
      simp only [after, Command.perform, Action.run_map]
      cases hf : m.getFunction function with
      | error violation => exact Or.inl (by simp [Action.run, appendEntryBlock, hf])
      | ok f =>
          have hrun : (appendEntryBlock function).run m = (appendBlock function f.inputs).run m := by
            simp [Action.run, appendEntryBlock, hf]
          rw [hrun]
          rcases appendBlock_run (m := m) function f.inputs with hsame | ⟨_, _, _, heq⟩
          · exact Or.inl hsame
          · rw [heq]
            exact Or.inr (.appendEntryBlock (getFunction_eq_ok.1 hf))
  | make point draft site =>
      rw [after_make]
      cases hprepare : m.prepare point draft with
      | error violation => exact Or.inl rfl
      | ok operation => exact Or.inr (.make hprepare site)
  | replaceOperand id index new =>
      simp only [after, Command.perform, Action.run_map]
      simp only [Action.run, replaceOperand]
      cases hwith : m.withOperand id index new with
      | error violation => exact Or.inl rfl
      | ok i =>
          obtain ⟨i, hi, hindex, rfl⟩ := withOperand_eq_ok.1 hwith
          exact Or.inr (.replaceOperand hi hindex new)
  | replaceSuccessor id old new =>
      simp only [after, Command.perform, Action.run_map]
      simp only [Action.run, replaceSuccessor]
      cases hwith : m.withSuccessor id old new with
      | error violation => exact Or.inl rfl
      | ok pair =>
          obtain ⟨replaced, i⟩ := pair
          obtain ⟨⟨hlocal, hnew⟩, i, hi, hterminator, -, rfl⟩ := withSuccessor_eq_ok.1 hwith
          exact Or.inr (.replaceSuccessor old hi hterminator hlocal hnew)
  | removeInstruction id =>
      rw [after_removeInstruction]
      cases hcheck : m.checkRemoval id with
      | error violation => exact Or.inl rfl
      | ok i =>
          obtain ⟨hunused, hi⟩ := checkRemoval_eq_ok.1 hcheck
          exact Or.inr (.removeInstruction hi hunused)

end Module

/-- Commands that only add to a module. -/
def Command.isConstruction : Command → Bool
  | .declareFunction _ _ _ | .appendBlock _ _ | .appendEntryBlock _ | .make _ _ _ => true
  | .rename _ | .replaceOperand _ _ _ | .replaceSuccessor _ _ _ | .removeInstruction _ => false

/-- A history of constructions leads from one module to another. -/
def Module.GrowsTo : Module → Module → Prop :=
  Relation.ReflTransGen
    (fun m n => ∃ command : Command, command.isConstruction = true ∧ n = m.after command)

theorem Module.GrowsTo.single {m : Module} (command : Command)
    (h : command.isConstruction = true) : m.GrowsTo (m.after command) :=
  Relation.ReflTransGen.single ⟨command, h, rfl⟩

/-- What every construction preserves is preserved by a history of them. -/
theorem Module.GrowsTo.preserves {P : Module → Prop} {m n : Module} (hgrows : m.GrowsTo n)
    (hstep : ∀ m (command : Command), command.isConstruction = true → P m → P (m.after command))
    (hm : P m) : P n := by
  induction hgrows with
  | refl => exact hm
  | tail _ hlast ih =>
      obtain ⟨command, hconstruction, rfl⟩ := hlast
      exact hstep _ command hconstruction ih

theorem Module.GrowsTo.edits {m : Module} {commands : List Command}
    (h : ∀ command ∈ commands, command.isConstruction = true) :
    m.GrowsTo (commands.foldl Module.after m) := by
  induction commands generalizing m with
  | nil => exact Relation.ReflTransGen.refl
  | cons command rest ih =>
      have hfirst : m.GrowsTo (m.after command) := .single command (h command List.mem_cons_self)
      exact hfirst.trans (ih (fun other hother => h other (List.mem_cons_of_mem _ hother)))

namespace Emitter

theorem isConstruction_of_mem_requests {e : Emitter} {command : Command} {edit : BlockIR.Command}
    (h : edit ∈ command.requests e) : edit.isConstruction = true := by
  have happending : ∀ {drafts site}, edit ∈ e.appending drafts site →
      edit.isConstruction = true := by
    intro drafts site hedit
    obtain ⟨block, -, hmem⟩ := List.mem_flatMap.1 hedit
    obtain ⟨draft, -, rfl⟩ := List.mem_map.1 hmem
    rfl
  cases command with
  | beginFunction name inputs output =>
      rcases List.mem_pair.1 h with rfl | rfl <;> rfl
  | appendBlock params =>
      obtain ⟨function, -, hmem⟩ := List.mem_flatMap.1 h
      obtain rfl := List.mem_singleton.1 hmem
      rfl
  | setInsertionBlock block => simp [Command.requests] at h
  | pushFrame => simp [Command.requests] at h
  | _ => exact happending h

/-- A call leads from module to module by constructions. -/
theorem growsTo_after (e : Emitter) (command : Command) :
    e.module.GrowsTo (e.after command).module := by
  rw [module_after]
  exact .edits (fun edit hedit =>
    isConstruction_of_mem_requests (Module.mem_of_mem_attempted hedit))

/-- Emitter calls, failed ones among them, lead from module to module by constructions. -/
theorem growsTo_calls (calls : List Emitter.Command) (e : Emitter) :
    e.module.GrowsTo (calls.foldl after e).module := by
  induction calls generalizing e with
  | nil => exact Relation.ReflTransGen.refl
  | cons command rest ih => exact (e.growsTo_after command).trans (ih (e.after command))

end Emitter

/-- What holds of an empty module and is preserved by every edit holds of every reachable module. -/
theorem Module.Reachable.invariant {P : Module → Prop} (hempty : ∀ name, P (.empty name))
    (hstep : ∀ m (command : Command), P m → P (m.after command)) {m : Module}
    (hm : m.Reachable) : P m := by
  induction hm with
  | empty name => exact hempty name
  | edit _ command ih => exact hstep _ command ih
  | emit _ calls ih =>
      exact (Emitter.growsTo_calls calls _).preserves (fun m command _ => hstep m command) ih

theorem Module.Reachable.edits {m : Module} (hm : m.Reachable) (commands : List Command) :
    (commands.foldl Module.after m).Reachable := by
  induction commands generalizing m with
  | nil => exact hm
  | cons command rest ih => exact ih (hm.edit command)

end BlockIR
