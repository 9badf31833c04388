import BlockIR.Proofs.Histories
/-!
Sessions: runs of edits and emitter calls, in any order and with failed ones among them.

While an emitter is at work the module is changed by its calls only, so an edit of the module puts an
end to it.  The module that a session builds is what its edits make of the empty module, those that
emitter calls ask for among them.
-/

namespace BlockIR

/-- What can be done next in a session. -/
inductive Call where
  | edit (command : Command)
  | startEmitter
  | emit (command : Emitter.Command)
deriving DecidableEq

namespace Emitter

/-- The state of a session after one call more: the emitter at work, or one that has begun no
function where there is none. -/
def follow (e : Emitter) : Call → Emitter
  | .edit command => .ofModule (e.module.after command)
  | .startEmitter => .ofModule e.module
  | .emit command => e.after command

/-- The edits that a call performs, of which the last can fail. -/
def edits (e : Emitter) : Call → List BlockIR.Command
  | .edit command => [command]
  | .startEmitter => []
  | .emit command => e.module.attempted (command.requests e)

/-- The edits that a run of calls performs. -/
def history (e : Emitter) : List Call → List BlockIR.Command
  | [] => []
  | call :: rest => e.edits call ++ (e.follow call).history rest

theorem module_follow (e : Emitter) (call : Call) :
    (e.follow call).module = (e.edits call).foldl Module.after e.module := by
  cases call with
  | edit command => rfl
  | startEmitter => rfl
  | emit command => exact e.module_after command

theorem module_foldl_follow (e : Emitter) (calls : List Call) :
    (calls.foldl follow e).module = (e.history calls).foldl Module.after e.module := by
  induction calls generalizing e with
  | nil => rfl
  | cons call rest ih =>
      rw [List.foldl_cons, ih, module_follow, history, List.foldl_append]

theorem foldl_follow_emit (calls : List Command) (e : Emitter) :
    (calls.map .emit).foldl follow e = calls.foldl after e := by
  rw [List.foldl_map]
  rfl

/-- An edit that a call performs was either called for by itself or is a construction. -/
theorem cases_of_mem_history {e : Emitter} {calls : List Call} {command : BlockIR.Command}
    (h : command ∈ e.history calls) : .edit command ∈ calls ∨ command.isConstruction = true := by
  induction calls generalizing e with
  | nil => simp [history] at h
  | cons call rest ih =>
      rcases List.mem_append.1 h with hfirst | hrest
      · cases call with
        | edit other =>
            obtain rfl := List.mem_singleton.1 hfirst
            exact .inl List.mem_cons_self
        | startEmitter => simp [edits] at hfirst
        | emit other =>
            exact .inr (isConstruction_of_mem_requests (Module.mem_of_mem_attempted hfirst))
      · exact (ih hrest).imp_left (List.mem_cons_of_mem call)

end Emitter

namespace Module

/-- The edits of a session on an empty module. -/
def sessionEdits (name : String) (calls : List Call) : List Command :=
  (Emitter.ofModule (.empty name)).history calls

/-- The module that a session builds from an empty one. -/
def built (name : String) (calls : List Call) : Module :=
  (calls.foldl Emitter.follow (.ofModule (.empty name))).module

theorem built_eq_foldl (name : String) (calls : List Call) :
    built name calls = (sessionEdits name calls).foldl Module.after (.empty name) :=
  Emitter.module_foldl_follow _ calls

/-- The reachable modules are those that sessions build. -/
theorem reachable_iff_built {m : Module} : m.Reachable ↔ ∃ name calls, built name calls = m := by
  constructor
  · intro hm
    induction hm with
    | empty name => exact ⟨name, [], rfl⟩
    | edit _ command ih =>
        obtain ⟨name, calls, rfl⟩ := ih
        exact ⟨name, calls ++ [.edit command], by simp [built, Emitter.follow, Emitter.ofModule]⟩
    | emit _ emitted ih =>
        obtain ⟨name, calls, rfl⟩ := ih
        refine ⟨name, calls ++ .startEmitter :: emitted.map .emit, ?_⟩
        rw [built, List.foldl_append, List.foldl_cons, Emitter.foldl_follow_emit]
        rfl
  · rintro ⟨name, calls, rfl⟩
    rw [built_eq_foldl]
    exact (Reachable.empty name).edits _

end Module

end BlockIR
