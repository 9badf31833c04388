import BlockIR.Command
import BlockIR.Proofs.Lookup
/-!
Emitter calls as edits.  A call asks the module for a list of constructions, which is known before
it is made; the first of them that fails ends the call, and what was done before stays done.
-/

namespace BlockIR

namespace Action

variable {σ α β : Type}

theorem andThen_succeed (action : Action σ α) : action.andThen succeed = action := by
  funext state
  rcases hrun : action state with ⟨_ | value, left, log⟩ <;> simp [andThen, hrun, succeed]

theorem andThen_assoc {γ : Type} (first : Action σ α) (second : α → Action σ β)
    (third : β → Action σ γ) :
    (first.andThen second).andThen third =
      first.andThen (fun value => (second value).andThen third) := by
  funext state
  rcases hfirst : first state with ⟨_ | value, left, log⟩
  · simp [andThen, hfirst]
  · rcases hsecond : second value left with ⟨_ | value, last, more⟩ <;>
      simp [andThen, hfirst, hsecond]

instance : LawfulMonad (Action σ) :=
  .mk' (Action σ) andThen_succeed (fun _ _ => rfl) andThen_assoc

theorem run_map (g : α → β) (action : Action σ α) (state : σ) :
    (g <$> action).run state =
      ⟨(action.run state).result.map g, (action.run state).state, (action.run state).log⟩ := by
  change andThen action (fun value => succeed (g value)) state = _
  simp only [andThen, run]
  rcases action state with ⟨_ | _, _, _⟩ <;> simp [succeed, Except.map]

end Action

namespace Module

open BlockIR.Action

/-- Perform edits one after the other, until one fails. -/
def performAll : List Command → Action Module Unit
  | [] => return ()
  | command :: rest => do
      let _ ← command.perform
      performAll rest

/-- The edits of a list that are performed: a failed one is the last of them. -/
def attempted (m : Module) : List Command → List Command
  | [] => []
  | command :: rest =>
      command ::
        if (command.perform.run m).result.isOk then (m.after command).attempted rest else []

theorem mem_of_mem_attempted {m : Module} {commands : List Command} {command : Command}
    (h : command ∈ m.attempted commands) : command ∈ commands := by
  induction commands generalizing m with
  | nil => simp [attempted] at h
  | cons first rest ih =>
      rw [attempted] at h
      split at h
      · rcases List.mem_cons.1 h with rfl | hrest
        · exact List.mem_cons_self
        · exact List.mem_cons_of_mem _ (ih hrest)
      · exact List.mem_cons.2 (.inl (List.mem_singleton.1 h))

theorem performAll_run (m : Module) (commands : List Command) :
    ((performAll commands).run m).state = (m.attempted commands).foldl Module.after m := by
  induction commands generalizing m with
  | nil => rfl
  | cons command rest ih =>
      rcases hrun : command.perform.run m with ⟨_ | reply, left, log⟩
      · simp [performAll, attempted, run_bind_of_error hrun, hrun, after, Except.isOk,
          Except.toBool]
      · simp [performAll, attempted, run_bind_of_ok hrun, hrun, after, Except.isOk,
          Except.toBool, ih]

theorem performAll_append (first second : List Command) :
    performAll (first ++ second) = performAll first >>= fun _ => performAll second := by
  induction first with
  | nil => simp [performAll]
  | cons command rest ih => simp [performAll, ih]

theorem performAll_single_run (m : Module) (command : Command) :
    ((performAll [command]).run m).state = m.after command := by
  simp [performAll_run, attempted]

end Module

namespace Emitter

open BlockIR.Action

variable {α β : Type} {e : Emitter}

/-- The request to append an instruction to a block. -/
def request (block : BlockId) (site : Span) (draft : Draft) : BlockIR.Command :=
  .make (.atEnd block) draft site

/-- The requests to append instructions to the current block, if there is one. -/
def appending (e : Emitter) (drafts : List Draft) (site : Span) : List BlockIR.Command :=
  e.insertionBlock.toList.flatMap (fun block => drafts.map (request block site))

/-- The edits that a call asks the module for.  The first that fails ends the call. -/
def Command.requests (e : Emitter) : Command → List BlockIR.Command
  | .beginFunction name inputs output =>
      [.declareFunction name inputs output, .appendEntryBlock e.module.nextFunction]
  | .appendBlock params =>
      e.function.toList.flatMap (fun function => [.appendBlock function params])
  | .setInsertionBlock _ | .pushFrame => []
  | .popFrame site => e.appending ((e.closable.toOption.getD []).map .deallocStack) site
  | .allocateLocal type site => e.appending [.allocStack type] site
  | .store object target site => e.appending [.store object target] site
  | .load source site => e.appending [.load source] site
  | .binary operator lhs rhs site => e.appending [.binary operator lhs rhs] site
  | .compare operator lhs rhs site => e.appending [.compare operator lhs rhs] site
  | .call callee arguments site => e.appending [.call callee arguments] site
  | .branch target site => e.appending [.branch target] site
  | .condBranch condition ifTrue ifFalse site =>
      e.appending [.condBranch condition ifTrue ifFalse] site
  | .ret site => e.appending (e.slots.map .deallocStack ++ [.ret]) site

/-- The action changes the module as edits do, of which the first that fails is the last. -/
def Mirrors (action : Action Emitter α) (e : Emitter) (commands : List BlockIR.Command) : Prop :=
  (action.run e).state.module = ((Module.performAll commands).run e.module).state

/-- The action leaves the module alone. -/
def KeepsModule (action : Action Emitter α) : Prop :=
  ∀ e : Emitter, (action.run e).state.module = e.module

theorem KeepsModule.bind {first : Action Emitter α} {next : α → Action Emitter β}
    (hfirst : KeepsModule first) (hnext : ∀ value, KeepsModule (next value)) :
    KeepsModule (first >>= next) := by
  intro e
  have hkept := hfirst e
  rcases hrun : first.run e with ⟨_ | value, left, log⟩
  · rw [run_bind_of_error hrun, ← hkept, hrun]
  · rw [run_bind_of_ok hrun, hnext value left, ← hkept, hrun]

theorem Mirrors.bind {first : Action Emitter α} {next : α → Action Emitter β}
    {commands : List BlockIR.Command} (hfirst : Mirrors first e commands)
    (hnext : ∀ value, KeepsModule (next value)) : Mirrors (first >>= next) e commands := by
  unfold Mirrors at hfirst ⊢
  rcases hrun : first.run e with ⟨_ | value, left, log⟩
  · rw [run_bind_of_error hrun, ← hfirst, hrun]
  · rw [run_bind_of_ok hrun, hnext value left, ← hfirst, hrun]

theorem Mirrors.map (g : α → β) {action : Action Emitter α} {commands : List BlockIR.Command}
    (h : Mirrors action e commands) : Mirrors (g <$> action) e commands := by
  rw [Mirrors, run_map]
  exact h

theorem run_edit (action : Action Module α) (e : Emitter) :
    (edit action).run e = ⟨(action.run e.module).result,
      { e with module := (action.run e.module).state }, (action.run e.module).log⟩ := rfl

theorem edit_bind (first : Action Module α) (next : α → Action Module β) :
    edit (first >>= next) = edit first >>= fun value => edit (next value) := by
  funext e
  change edit (andThen first next) e = andThen (edit first) (fun value => edit (next value)) e
  rcases hrun : first e.module with ⟨_ | value, left, log⟩ <;> simp [edit, onPart, andThen, hrun]

theorem mirrors_edit {action : Action Module α} {g : α → Reply} {command : BlockIR.Command}
    (hperform : command.perform = g <$> action) : Mirrors (edit action) e [command] := by
  rw [Mirrors, Module.performAll_single_run, Module.after, hperform, run_map]
  rfl

/-- What goes on after edits that all succeed asks for the edits that follow. -/
theorem mirrors_edit_bind {first second : List BlockIR.Command} {next : Action Emitter α}
    (hnext : ∀ m, Mirrors next { e with module := m } second) :
    Mirrors (edit (Module.performAll first) >>= fun _ => next) e (first ++ second) := by
  have hedit := run_edit (Module.performAll first) e
  rw [Mirrors, Module.performAll_append]
  rcases hrun : (Module.performAll first).run e.module with ⟨_ | value, left, log⟩
  · rw [hrun] at hedit
    rw [run_bind_of_error hrun, run_bind_of_error hedit]
  · rw [hrun] at hedit
    rw [run_bind_of_ok hrun, run_bind_of_ok hedit]
    exact hnext left

theorem free_eq_edit (block : BlockId) (site : Span) (slots : List Operand) :
    free block site slots =
      edit (Module.performAll ((slots.map .deallocStack).map (request block site))) := by
  induction slots with
  | nil => rfl
  | cons slot rest ih =>
      simp [free, ih, Module.performAll, BlockIR.Command.perform, request, edit_bind]

/-- What needs a current block or function asks for nothing where there is none. -/
theorem mirrors_current {ι : Type} {current : Option ι} {read : Action Emitter ι}
    {next : ι → Action Emitter α} {requests : ι → List BlockIR.Command}
    (hread : read.run e =
      current.elim ⟨.error .noInsertionBlock, e, []⟩ (fun value => ⟨.ok value, e, []⟩))
    (hnext : ∀ value, current = some value → Mirrors (next value) e (requests value)) :
    Mirrors (read >>= next) e (current.toList.flatMap requests) := by
  cases current with
  | none =>
      rw [Mirrors, run_bind_of_error hread]
      rfl
  | some value =>
      rw [Mirrors, run_bind_of_ok hread]
      simpa [Mirrors] using hnext value rfl

theorem run_currentBlock (e : Emitter) :
    currentBlock.run e = e.insertionBlock.elim ⟨.error .noInsertionBlock, e, []⟩
      (fun block => ⟨.ok block, e, []⟩) := by
  simp only [run, currentBlock]
  cases e.insertionBlock <;> rfl

theorem run_currentFunction (e : Emitter) :
    currentFunction.run e = e.function.elim ⟨.error .noInsertionBlock, e, []⟩
      (fun function => ⟨.ok function, e, []⟩) := by
  simp only [run, currentFunction]
  cases e.function <;> rfl

theorem mirrors_append (e : Emitter) (draft : Draft) (site : Span) :
    Mirrors (append draft site) e (e.appending [draft] site) :=
  mirrors_current e.run_currentBlock (fun _ _ => mirrors_edit rfl)

theorem mirrors_appendValue (e : Emitter) (draft : Draft) (site : Span) :
    Mirrors (appendValue draft site) e (e.appending [draft] site) :=
  (mirrors_append e draft site).bind (fun _ _ => rfl)

theorem mirrors_appendTerminator (e : Emitter) (draft : Draft) (returned : Bool) (site : Span) :
    Mirrors (appendTerminator draft returned site) e (e.appending [draft] site) :=
  (mirrors_append e draft site).bind (fun _ _ => rfl)

theorem mirrors_release (e : Emitter) (slots : List Operand) (site : Span) :
    Mirrors (release e.insertionBlock site slots) e
      (e.appending (slots.map .deallocStack) site) := by
  unfold appending
  cases e.insertionBlock with
  | none => rfl
  | some block =>
      simp only [release, free_eq_edit, Option.toList_some, List.flatMap_cons, List.flatMap_nil,
        List.append_nil]
      rfl

theorem keepsModule_own (slot : Operand) : KeepsModule (own slot) := by
  intro e
  simp only [run, own]
  split <;> rfl

theorem mirrors_popFrame (e : Emitter) (site : Span) :
    Mirrors (popFrame site) e
      (e.appending ((e.closable.toOption.getD []).map .deallocStack) site) := by
  change Mirrors (require e.closable >>= _) e _
  cases e.closable with
  | error violation =>
      have hnone : e.appending [] site = [] := by simp [appending]
      change Mirrors _ e (e.appending [] site)
      rw [hnone]
      rfl
  | ok frame =>
      -- The frame is closed before its slots are freed, in the block that is current all along.
      change Mirrors (release e.insertionBlock site frame >>= _)
        { e with frames := e.frames.tail } (e.appending (frame.map .deallocStack) site)
      exact (mirrors_release { e with frames := e.frames.tail } frame site).bind (fun _ _ => rfl)

theorem mirrors_emitReturn (e : Emitter) (site : Span) :
    Mirrors (emitReturn site) e (e.appending (e.slots.map .deallocStack ++ [.ret]) site) := by
  refine mirrors_current e.run_currentBlock (fun block hblock => ?_)
  change Mirrors (free block site e.slots >>= fun _ => appendTerminator .ret true site) e _
  rw [free_eq_edit, List.map_append]
  refine mirrors_edit_bind (fun m => ?_)
  have hreturn := mirrors_appendTerminator { e with module := m } .ret true site
  simpa [appending, hblock] using hreturn

theorem mirrors_perform (e : Emitter) (command : Command) :
    Mirrors command.perform e (command.requests e) := by
  cases command with
  | beginFunction name inputs output =>
      refine .map _ ?_
      change Mirrors (edit (Module.appendEntryBlock e.module.nextFunction) >>= _)
        { e with module := e.module.withFunction name inputs output }
        [.appendEntryBlock e.module.nextFunction]
      exact (mirrors_edit rfl).bind (fun _ _ => rfl)
  | appendBlock params =>
      exact .map _ (mirrors_current e.run_currentFunction (fun _ _ => mirrors_edit rfl))
  | setInsertionBlock block => rfl
  | pushFrame => rfl
  | popFrame site => exact .map _ (mirrors_popFrame e site)
  | allocateLocal type site =>
      exact .map _ ((mirrors_appendValue e _ site).bind (fun slot =>
        (keepsModule_own slot).bind (fun _ _ => rfl)))
  | store object target site => exact .map _ (mirrors_append e _ site)
  | load source site => exact .map _ (mirrors_appendValue e _ site)
  | binary operator lhs rhs site => exact .map _ (mirrors_appendValue e _ site)
  | compare operator lhs rhs site => exact .map _ (mirrors_appendValue e _ site)
  | call callee arguments site => exact .map _ (mirrors_append e _ site)
  | branch target site => exact .map _ (mirrors_appendTerminator e _ _ site)
  | condBranch condition ifTrue ifFalse site => exact .map _ (mirrors_appendTerminator e _ _ site)
  | ret site => exact .map _ (mirrors_emitReturn e site)

/-- Whether it succeeds or fails, a call changes the module by the edits that it asks for. -/
theorem module_after (e : Emitter) (command : Command) :
    (e.after command).module =
      (e.module.attempted (command.requests e)).foldl Module.after e.module :=
  (mirrors_perform e command).trans (Module.performAll_run e.module _)

end Emitter

end BlockIR
