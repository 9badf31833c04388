import BlockIR.Event
import BlockIR.Violation
/-!
Actions on a state.  An action ends with a result or with a violated rule; in both cases it leaves a
state behind, and the events it logged.  What an action did before it failed stays done.
-/

namespace BlockIR

/-- What an action leaves behind. -/
structure Outcome (σ α : Type) where
  result : Except Violation α
  state : σ
  log : List Event

/-- A step from a state to an outcome. -/
def Action (σ α : Type) : Type := σ → Outcome σ α

namespace Action

variable {σ α β : Type}

/-- Run an action on a state. -/
def run (action : Action σ α) (state : σ) : Outcome σ α := action state

/-- End with a result, changing and logging nothing. -/
def succeed (value : α) : Action σ α :=
  fun state => ⟨.ok value, state, []⟩

/-- End with a violated rule, changing and logging nothing. -/
def fail (violation : Violation) : Action σ α :=
  fun state => ⟨.error violation, state, []⟩

/-- Go on with the result of an action; a failed one ends the whole. -/
def andThen (first : Action σ α) (next : α → Action σ β) : Action σ β :=
  fun state =>
    match first state with
    | ⟨.error violation, left, log⟩ => ⟨.error violation, left, log⟩
    | ⟨.ok value, left, log⟩ =>
        let second := next value left
        ⟨second.result, second.state, log ++ second.log⟩

instance : Monad (Action σ) where
  pure := succeed
  bind := andThen

/-- The state as it stands. -/
def get : Action σ σ :=
  fun state => ⟨.ok state, state, []⟩

/-- Change the state. -/
def modify (change : σ → σ) : Action σ Unit :=
  fun state => ⟨.ok (), change state, []⟩

/-- Log an event. -/
def note (event : Event) : Action σ Unit :=
  fun state => ⟨.ok (), state, [event]⟩

/-- End with the outcome of a check. -/
def require (check : Except Violation α) : Action σ α :=
  fun state => ⟨check, state, []⟩

/-- Act on a part of the state. -/
def onPart {ρ : Type} (view : σ → ρ) (update : σ → ρ → σ) (action : Action ρ α) : Action σ α :=
  fun state =>
    let outcome := action (view state)
    ⟨outcome.result, update state outcome.state, outcome.log⟩

@[simp] theorem run_pure (value : α) (state : σ) :
    (pure value : Action σ α).run state = ⟨.ok value, state, []⟩ := rfl

@[simp] theorem run_fail (violation : Violation) (state : σ) :
    (fail violation : Action σ α).run state = ⟨.error violation, state, []⟩ := rfl

@[simp] theorem run_get (state : σ) : (get : Action σ σ).run state = ⟨.ok state, state, []⟩ := rfl

@[simp] theorem run_modify (change : σ → σ) (state : σ) :
    (modify change).run state = ⟨.ok (), change state, []⟩ := rfl

@[simp] theorem run_note (event : Event) (state : σ) :
    (note event).run state = ⟨.ok (), state, [event]⟩ := rfl

@[simp] theorem run_require (check : Except Violation α) (state : σ) :
    (require check : Action σ α).run state = ⟨check, state, []⟩ := rfl

theorem run_bind_of_ok {first : Action σ α} {next : α → Action σ β} {state left : σ} {value : α}
    {log : List Event} (h : first.run state = ⟨.ok value, left, log⟩) :
    (first >>= next).run state =
      ⟨((next value).run left).result, ((next value).run left).state,
        log ++ ((next value).run left).log⟩ := by
  change andThen first next state = _
  simp only [run] at h
  simp only [andThen, run, h]

theorem run_bind_of_error {first : Action σ α} {next : α → Action σ β} {state left : σ}
    {violation : Violation} {log : List Event}
    (h : first.run state = ⟨.error violation, left, log⟩) :
    (first >>= next).run state = ⟨.error violation, left, log⟩ := by
  change andThen first next state = _
  simp only [run] at h
  simp only [andThen, h]

end Action

end BlockIR
