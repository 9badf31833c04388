import BlockIR.Proofs.EmitterFailures
import BlockIR.Proofs.Persistence
import Mathlib.Data.List.ModifyLast
/-!
What a caller can note down about frames.

The calls of a run and their answers, failed ones included, say which frames are open and which slots
they own, in the order of allocation, and how the last block was ended.  The emitter agrees with these
notes after every run, and every slot that it holds is the result of a live allocation.
-/

namespace BlockIR

namespace Module

variable {m n : Module}

/-- Constructions leave allocations alone. -/
theorem GrowsTo.isStackAllocation (hgrows : m.GrowsTo n) (hm : m.Consistent) {slot : Operand}
    (hslot : m.isStackAllocation slot = true) : n.isStackAllocation slot = true := by
  -- Consistency goes along, since only then a new instruction takes the place of no live one.
  have hboth : n.Consistent ∧ n.isStackAllocation slot = true := by
    apply hgrows.preserves (P := fun n => n.Consistent ∧ n.isStackAllocation slot = true) _
      ⟨hm, hslot⟩
    intro m command hconstruction ⟨hm, hslot⟩
    refine ⟨hm.after command, ?_⟩
    rcases m.after_eq_or_effect command with hsame | heffect
    · rw [hsame]
      exact hslot
    · obtain ⟨id, type, site, rfl, hid⟩ := isStackAllocation_iff.1 hslot
      have hkept : command ≠ .removeInstruction id := by
        rintro rfl
        cases hconstruction
      obtain ⟨j, hj, halike⟩ := keeps_of_effect hm heffect hkept _ hid
      rw [halike.eq_of_allocStack] at hj
      exact isStackAllocation_iff.2 ⟨id, type, site, rfl, hj⟩
  exact hboth.2

end Module

namespace Emitter

/-- A call and its answer. -/
abbrev Entry := Command × Except Violation Reply

/-- The calls of a run with their answers, which is all that a caller sees of it. -/
def transcript (e : Emitter) : List Command → List Entry
  | [] => []
  | command :: rest =>
      (command, (command.perform.run e).result) :: transcript (e.after command) rest

/-- The open frames after one call more, the outermost first, with their slots in the order of
allocation.  A frame that cannot be freed is closed all the same. -/
def noteFrames (frames : List (List Operand)) : Entry → List (List Operand)
  | (.beginFunction _ _ _, .ok _) => [[]]
  | (.pushFrame, .ok _) => frames ++ [[]]
  | (.allocateLocal _ _, .ok (.operand slot)) => frames.modifyLast (fun frame => frame ++ [slot])
  | (.popFrame _, .ok _) => frames.dropLast
  | (.popFrame _, .error violation) => if violation.keepsFrame then frames else frames.dropLast
  | _ => frames

/-- The frames that are open after a run. -/
def openFrames (entries : List Entry) : List (List Operand) := entries.foldl noteFrames []

/-- Whether the call ends a block. -/
def Command.isEnding : Command → Bool
  | .branch _ _ | .condBranch _ _ _ _ | .ret _ => true
  | _ => false

/-- The call that ended a block last, after one call more. -/
def noteEnding (last : Option Command) : Entry → Option Command
  | (command, .ok _) => if command.isEnding then some command else last
  | (_, .error _) => last

/-- The call of a run that ended a block last. -/
def lastEnding? (entries : List Entry) : Option Command := entries.foldl noteEnding none

/-- Frames from inside out: the innermost first, and the newest slot first in each. -/
def insideOut (frames : List (List Operand)) : List (List Operand) :=
  (frames.map List.reverse).reverse

theorem insideOut_concat (outer : List (List Operand)) (frame : List Operand) :
    insideOut (outer ++ [frame]) = frame.reverse :: insideOut outer := by
  simp [insideOut]

theorem flatten_insideOut (frames : List (List Operand)) :
    (insideOut frames).flatten = frames.flatten.reverse :=
  List.reverse_flatten.symm

/-- The innermost frame is the one opened last. -/
theorem exists_concat_of_insideOut {frames rest : List (List Operand)} {frame : List Operand}
    (h : insideOut frames = frame :: rest) :
    ∃ outer, frames = outer ++ [frame.reverse] ∧ insideOut outer = rest := by
  rcases List.eq_nil_or_concat frames with rfl | ⟨outer, last, rfl⟩
  · cases h
  · rw [List.concat_eq_append, insideOut_concat, List.cons.injEq] at h
    obtain ⟨rfl, hrest⟩ := h
    exact ⟨outer, by simp, hrest⟩

theorem insideOut_dropLast {frames rest : List (List Operand)} {frame : List Operand}
    (h : insideOut frames = frame :: rest) : insideOut frames.dropLast = rest := by
  obtain ⟨outer, rfl, hrest⟩ := exists_concat_of_insideOut h
  rw [List.dropLast_concat, hrest]

variable {e after : Emitter} {command : Command} {entries : List Entry}

theorem openFrames_concat (entries : List Entry) (entry : Entry) :
    openFrames (entries ++ [entry]) = noteFrames (openFrames entries) entry := by
  simp [openFrames]

theorem lastEnding?_concat (entries : List Entry) (entry : Entry) :
    lastEnding? (entries ++ [entry]) = noteEnding (lastEnding? entries) entry := by
  simp [lastEnding?]

/-- The emitter agrees with what the caller has noted. -/
structure Agrees (e : Emitter) (entries : List Entry) : Prop where
  frames : e.frames = insideOut (openFrames entries)
  owned : e.OwnsAllocations
  returned : e.insertionBlock = none →
    (e.returned = true ↔ ∃ site, lastEnding? entries = some (.ret site))

theorem Agrees.slots (h : e.Agrees entries) : e.slots = (openFrames entries).flatten.reverse := by
  rw [Emitter.slots, h.frames, flatten_insideOut]

theorem reply_of_allocateLocal {type : ObjectType} {site : Span} {block : BlockId} {reply : Reply}
    (hblock : e.insertionBlock = some block)
    (hok : ((Command.allocateLocal type site).perform.run e).result = .ok reply) :
    reply = .operand (.result (e.module.nextInstruction block) 0) := by
  have h : (Command.allocateLocal type site).perform.Yields e reply _ := ⟨hok, rfl⟩
  obtain ⟨slot, hcall, rfl⟩ := Action.yields_map.1 h
  simp only [Emitter.allocateLocal, Action.yields_bind, Action.yields_pure] at hcall
  obtain ⟨_, _, hvalue, _, _, -, rfl, -⟩ := hcall
  obtain ⟨id, happend, rfl⟩ := append_of_appendValue hvalue
  obtain ⟨target, _, htarget, -, rfl, -⟩ := yields_append.1 happend
  rw [Option.some.inj (hblock.symm.trans htarget)]

theorem mem_slots_of_outer {frame : List Operand} {frames : List (List Operand)} {slot : Operand}
    (hframes : e.frames = frame :: frames) (hslot : slot ∈ frames.flatten) : slot ∈ e.slots := by
  rw [slots, hframes]
  exact List.mem_append_right frame hslot

/-- A frame gets no slots but new ones. -/
theorem Step.mem_slots (hstep : Step e command after) {slot : Operand} (hslot : slot ∈ after.slots) :
    slot ∈ e.slots ∨ after.module.isStackAllocation slot = true := by
  cases hstep with
  | beginFunction name inputs output => simp [slots] at hslot
  | pushFrame => exact .inl (by simpa [slots] using hslot)
  | closeFrame site hblock hframes hopen => exact .inl (mem_slots_of_outer hframes hslot)
  | dropFrame site hblock hframes hdone => exact .inl (mem_slots_of_outer hframes hslot)
  | allocateLocal type site hblock hframes hopen =>
      rcases List.mem_cons.1 hslot with rfl | hold
      · have hnew := Module.instruction?_placeAll_next hopen ⟨.allocStack type, site⟩
        exact .inr (Module.isStackAllocation_iff.2 ⟨_, type, site, rfl, hnew⟩)
      · apply Or.inl
        rw [slots, hframes]
        exact hold
  | _ => exact .inl hslot

theorem Halt.mem_slots {violation : Violation} (hhalt : Halt e command violation after)
    {slot : Operand} (hslot : slot ∈ after.slots) : slot ∈ e.slots := by
  cases hhalt with
  | unfreed site hblock hframes hgone => exact mem_slots_of_outer hframes hslot
  | _ => exact hslot

/-- What a successful call does to the frames can be told from its answer. -/
theorem Step.frames_eq (hstep : Step e command after) {reply : Reply}
    (hok : (command.perform.run e).result = .ok reply) {frames : List (List Operand)}
    (hframes : e.frames = insideOut frames) :
    after.frames = insideOut (noteFrames frames (command, .ok reply)) := by
  cases hstep with
  | beginFunction name inputs output => rfl
  | pushFrame => rw [noteFrames, insideOut_concat, hframes, List.reverse_nil]
  | closeFrame site hblock hinner hopen =>
      exact (insideOut_dropLast (hframes.symm.trans hinner)).symm
  | dropFrame site hblock hinner hdone =>
      exact (insideOut_dropLast (hframes.symm.trans hinner)).symm
  | allocateLocal type site hblock hinner hopen =>
      obtain ⟨outer, rfl, hrest⟩ := exists_concat_of_insideOut (hframes.symm.trans hinner)
      obtain rfl := reply_of_allocateLocal hblock hok
      rw [noteFrames, List.modifyLast_concat, insideOut_concat, hrest, List.reverse_concat,
        List.reverse_reverse]
  | plain hcommand hblock hprepare =>
      cases command <;> first | exact hframes | cases hcommand
  | branch hcommand hblock hprepare =>
      cases command <;> first | exact hframes | cases hcommand
  | _ => exact hframes

/-- What a failed call does to the frames can be told from the rule it broke. -/
theorem Halt.frames_eq {violation : Violation} (hhalt : Halt e command violation after)
    {frames : List (List Operand)} (hframes : e.frames = insideOut frames) :
    after.frames = insideOut (noteFrames frames (command, .error violation)) := by
  cases hhalt with
  | refused violation hcommand =>
      cases command <;> first | exact hframes | cases hcommand
  | unclosed site hkept =>
      rw [noteFrames, if_pos hkept]
      exact hframes
  | unfreed site hblock hinner hgone =>
      rw [noteFrames, if_neg (by simp [hgone])]
      exact (insideOut_dropLast (hframes.symm.trans hinner)).symm
  | _ => exact hframes

/-- While there is no current block, the flag of the emitter says how the last block was ended. -/
theorem Step.returned_iff (hstep : Step e command after) (reply : Reply) {last : Option Command}
    (hlast : e.insertionBlock = none → (e.returned = true ↔ ∃ site, last = some (.ret site)))
    (hnone : after.insertionBlock = none) :
    after.returned = true ↔ ∃ site, noteEnding last (command, .ok reply) = some (.ret site) := by
  cases hstep with
  | beginFunction name inputs output => cases hnone
  | setInsertionBlock block => cases hnone
  | plain hcommand hblock hprepare => simp [hblock] at hnone
  | branch hcommand hblock hprepare =>
      cases command <;> cases hcommand <;> simp [noteEnding, Command.isEnding]
  | ret site hblock hopen => exact ⟨fun _ => ⟨site, rfl⟩, fun _ => rfl⟩
  | _ => exact hlast hnone

theorem Halt.returned_iff {violation : Violation} (hhalt : Halt e command violation after)
    {last : Option Command}
    (hlast : e.insertionBlock = none → (e.returned = true ↔ ∃ site, last = some (.ret site)))
    (hnone : after.insertionBlock = none) :
    after.returned = true ↔ ∃ site, noteEnding last (command, .error violation) = some (.ret site) := by
  cases hhalt <;> exact hlast hnone

/-- Notes that are kept up with every call stay in agreement with the emitter. -/
theorem Agrees.call (h : e.Agrees entries) (hm : e.module.Consistent) (command : Command) :
    (e.after command).Agrees (entries ++ [(command, (command.perform.run e).result)]) := by
  have hgrows := e.growsTo_after command
  cases hresult : (command.perform.run e).result with
  | ok reply =>
      have hstep := step_of_ok hresult
      refine ⟨?_, ?_, ?_⟩
      · rw [openFrames_concat]
        exact hstep.frames_eq hresult h.frames
      · intro slot hslot
        rcases hstep.mem_slots hslot with hold | hnew
        · exact hgrows.isStackAllocation hm (h.owned slot hold)
        · exact hnew
      · rw [lastEnding?_concat]
        exact hstep.returned_iff reply h.returned
  | error violation =>
      have hhalt := halt_of_error h.owned hresult
      refine ⟨?_, ?_, ?_⟩
      · rw [openFrames_concat]
        exact hhalt.frames_eq h.frames
      · intro slot hslot
        exact hgrows.isStackAllocation hm (h.owned slot (hhalt.mem_slots hslot))
      · rw [lastEnding?_concat]
        exact hhalt.returned_iff h.returned

theorem Agrees.start (m : Module) : (Emitter.ofModule m).Agrees [] where
  frames := rfl
  owned := by simp [OwnsAllocations, Emitter.slots, ofModule]
  returned := by simp [ofModule, lastEnding?]

theorem Agrees.run (h : e.Agrees entries) (hm : e.module.Consistent) (calls : List Command) :
    (calls.foldl Emitter.after e).Agrees (entries ++ e.transcript calls) := by
  induction calls generalizing e entries with
  | nil => simpa [transcript] using h
  | cons command rest ih =>
      have hrest := ih (h.call hm command) (consistent_after hm command)
      rwa [List.append_assoc] at hrest

/-- After every run, failed calls included, the emitter agrees with what its caller has noted. -/
theorem agrees_run {m : Module} (hm : m.Consistent) (calls : List Command) :
    (calls.foldl Emitter.after (.ofModule m)).Agrees ((ofModule m).transcript calls) :=
  (Agrees.start m).run hm calls

end Emitter

end BlockIR
