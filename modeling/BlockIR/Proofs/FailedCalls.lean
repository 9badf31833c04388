import BlockIR.Proofs.ScopeExits
/-!
What is left of a failed call.

Most calls change nothing unless they succeed.  Three do not keep to that.  A slot that no frame can
own stays allocated, a frame whose slots cannot all be freed stays closed, and where slots are freed
those ahead of the first that belongs to another function stay freed.
-/

namespace BlockIR

namespace Module

variable {m : Module} {block : BlockId}

theorem freeable_eq_nil_or_isOpen (m : Module) (block : BlockId) (slots : List Operand) :
    m.freeable block slots = [] ∨ m.IsOpen block := by
  by_cases hopen : m.IsOpen block
  · exact .inr hopen
  · exact .inl (freeable_of_not_isOpen hopen slots)

end Module

namespace Emitter

open BlockIR.Action

variable {e after : Emitter} {frames : List (List Operand)}

/-- The module grants an allocation in the current block. -/
def MayAllocate (e : Emitter) (type : ObjectType) (site : Span) : Prop :=
  ∃ block id, e.insertionBlock = some block ∧
    ((Module.make (.atEnd block) (.allocStack type) site).run e.module).result = .ok id

/-- The second module is that of the emitter with slots freed in the current block, one after the
other and up to the first that cannot be. -/
def FreesUpTo (e : Emitter) (site : Span) (slots : List Operand) (n : Module) : Prop :=
  match e.insertionBlock with
  | none => n = e.module
  | some block => e.module.Appends n block ((e.module.freeable block slots).map (.freeing site))

/-- What a failed call leaves behind, where these frames are open, the outermost first. -/
def Leaves (e : Emitter) (frames : List (List Operand)) (violation : Violation) (after : Emitter) :
    Command → Prop
  | .beginFunction _ _ _ | .setInsertionBlock _ | .pushFrame => False
  | .appendBlock _ | .store _ _ _ | .load _ _ | .binary _ _ _ _ | .compare _ _ _ _ | .call _ _ _
  | .branch _ _ | .condBranch _ _ _ _ => after = e
  | .allocateLocal type site =>
      (frames = [] ∧ e.MayAllocate type site → ∃ block, e.insertionBlock = some block ∧
        e.module.Appends after.module block [⟨.allocStack type, site⟩] ∧
        after = { e with module := after.module }) ∧
      (¬(frames = [] ∧ e.MayAllocate type site) → after = e)
  | .popFrame site =>
      if violation.keepsFrame then after = e
      else ∃ outer frame, frames = outer ++ [frame] ∧
        e.FreesUpTo site frame.reverse after.module ∧
        after = { e with module := after.module, frames := insideOut outer }
  | .ret site =>
      e.FreesUpTo site frames.flatten.reverse after.module ∧
      after = { e with module := after.module } ∧
      (after.module ≠ e.module → ∃ block, e.insertionBlock = some block ∧
        ∃ slot ∈ frames.flatten, slot.function? ≠ some block.function)

theorem mayAllocate_iff {type : ObjectType} {site : Span} :
    e.MayAllocate type site ↔ ∃ block, e.insertionBlock = some block ∧ e.module.IsOpen block := by
  constructor
  · rintro ⟨block, id, hblock, hok⟩
    obtain ⟨operation, hprepare, -, -⟩ := Module.yields_make.1 ⟨hok, rfl⟩
    exact ⟨block, hblock, Module.isOpen_of_prepare hprepare⟩
  · rintro ⟨block, hblock, hopen⟩
    have hplace : e.module.checkPlace (.atEnd block) (.allocStack type) = .ok () :=
      Module.checkPlace_eq_ok.2 hopen
    have hprepare : e.module.prepare (.atEnd block) (.allocStack type) = .ok (.allocStack type) := by
      rw [Module.prepare_allocStack_eq, hplace]
      rfl
    exact ⟨block, _, hblock, (Module.yields_make.2 ⟨_, hprepare, rfl, rfl⟩).1⟩

theorem FreesUpTo.appends {block : BlockId} {site : Span} {slots freed : List Operand} {n : Module}
    (h : e.FreesUpTo site slots n) (hblock : e.insertionBlock = some block)
    (hfreed : e.module.freeable block slots = freed) :
    e.module.Appends n block (freed.map (.freeing site)) := by
  subst hfreed
  simpa only [FreesUpTo, hblock] using h

theorem freesUpTo_placeAll (hm : e.module.Consistent) {block : BlockId}
    (hblock : e.insertionBlock = some block) (site : Span) (slots : List Operand) :
    e.FreesUpTo site slots
      (e.module.placeAll block ((e.module.freeable block slots).map (.freeing site))) := by
  simp only [FreesUpTo, hblock]
  apply hm.appends_placeAll
  rcases e.module.freeable_eq_nil_or_isOpen block slots with hnone | hopen
  · exact .inl (by simp [hnone])
  · exact .inr hopen

theorem Halt.leaves {command : Command} {violation : Violation} (hm : e.module.Consistent)
    (hframes : e.frames = insideOut frames) (hhalt : Halt e command violation after) :
    e.Leaves frames violation after command := by
  cases hhalt with
  | refused violation hcommand => cases command <;> first | rfl | cases hcommand
  | unallocated type site violation hclosed =>
      refine ⟨?_, fun _ => rfl⟩
      rintro ⟨-, hmay⟩
      obtain ⟨block, hblock, hopen⟩ := mayAllocate_iff.1 hmay
      exact absurd hopen (hclosed block hblock)
  | unowned type site hblock hopen hnone =>
      have hempty : frames = [] := by simpa [insideOut, hnone] using hframes
      refine ⟨fun _ => ⟨_, hblock, hm.appends_placeAll (.inr hopen), rfl⟩, ?_⟩
      intro hnot
      exact absurd ⟨hempty, mayAllocate_iff.2 ⟨_, hblock, hopen⟩⟩ hnot
  | unclosed site hkept => rw [Leaves, if_pos hkept]
  | unfreed site hblock hinner hgone =>
      obtain ⟨outer, rfl, rfl⟩ := exists_concat_of_insideOut (hframes.symm.trans hinner)
      have hfreed := freesUpTo_placeAll hm hblock site
      rw [Leaves, if_neg (by simp [hgone])]
      refine ⟨outer, _, rfl, ?_, rfl⟩
      rw [List.reverse_reverse]
      exact hfreed _
  | homeless site violation hnone =>
      refine ⟨?_, rfl, fun hne => absurd rfl hne⟩
      simp only [FreesUpTo, hnone]
  | @unreturned block site violation hblock hstuck =>
      have hslots : e.slots = frames.flatten.reverse := by
        rw [slots, hframes, flatten_insideOut]
      refine ⟨hslots ▸ freesUpTo_placeAll hm hblock site _, rfl, ?_⟩
      intro hne
      have hopen : e.module.IsOpen block := by
        apply (e.module.freeable_eq_nil_or_isOpen block e.slots).resolve_left
        intro hnone
        apply hne
        rw [hnone]
        rfl
      obtain ⟨slot, hslot, hforeign⟩ := Module.exists_foreign_of_freeable_ne hopen (hstuck hopen)
      rw [hslots] at hslot
      exact ⟨block, hblock, slot, List.mem_reverse.1 hslot, hforeign⟩

/-- What a call leaves behind that fails after any run, in which calls may have failed before. -/
theorem failed_call_leaves {m : Module} (hm : m.Reachable) (calls : List Command)
    (command : Command) (violation : Violation) :
    let e := calls.foldl Emitter.after (.ofModule m)
    let frames := openFrames ((ofModule m).transcript calls)
    e.frames = insideOut frames ∧
    ((command.perform.run e).result = .error violation →
      e.Leaves frames violation (e.after command) command) := by
  intro e frames
  have hagrees := agrees_run hm.consistent calls
  refine ⟨hagrees.frames, fun herror => ?_⟩
  apply Halt.leaves
  · exact consistent_run hm.consistent calls
  · exact hagrees.frames
  · exact halt_of_error hagrees.owned herror

section Straddled

/-- A frame with a slot in each of two functions, of which the first holds the current block. -/
def straddled : List Command :=
  [.beginFunction "first" [] .void, .beginFunction "second" [] .void,
    .allocateLocal (.builtin .i64) .synthetic, .setInsertionBlock ⟨⟨0⟩, 0⟩,
    .allocateLocal (.builtin .i64) .synthetic]

/-- A return frees one slot of the two and fails, and so does closing the frame; then no frame is left
to own a slot, which is allocated all the same. -/
theorem straddled_leaves :
    let block : BlockId := ⟨⟨0⟩, 0⟩
    let type : ObjectType := .builtin .i1
    let start := Emitter.ofModule (.empty "test")
    let e := straddled.foldl Emitter.after start
    let frameless := (straddled ++ [Command.popFrame .synthetic]).foldl Emitter.after start
    let returned := e.after (.ret .synthetic)
    let closed := e.after (.popFrame .synthetic)
    let stray := frameless.after (.allocateLocal type .synthetic)
    let freed : List Instruction := [.result ⟨block, 0⟩ 0].map (.freeing .synthetic)
    ((Command.ret .synthetic).perform.run e).result = .error (.deallocOfNonAllocation "%bb0.0") ∧
    e.module.Appends returned.module block freed ∧
    returned = { e with module := returned.module } ∧
    ((Command.popFrame .synthetic).perform.run e).result =
      .error (.deallocOfNonAllocation "%bb0.0") ∧
    e.module.Appends closed.module block freed ∧ closed.frames = [] ∧
    ((Command.allocateLocal type .synthetic).perform.run frameless).result = .error .noOpenFrame ∧
    frameless.module.Appends stray.module block [⟨.allocStack type, .synthetic⟩] := by
  intro block type start e frameless returned closed stray freed
  have hreachable : (Module.empty "test").Reachable := .empty "test"
  have hblock : e.insertionBlock = some block := by decide +kernel
  have hnotes : openFrames (start.transcript straddled) =
      [] ++ [[.result ⟨⟨⟨1⟩, 0⟩, 0⟩ 0, .result ⟨block, 0⟩ 0]] := by decide +kernel
  have hreturn : ((Command.ret .synthetic).perform.run e).result =
      .error (.deallocOfNonAllocation "%bb0.0") := by decide +kernel
  have hpop : ((Command.popFrame .synthetic).perform.run e).result =
      .error (.deallocOfNonAllocation "%bb0.0") := by decide +kernel
  have hstray : ((Command.allocateLocal type .synthetic).perform.run frameless).result =
      .error .noOpenFrame := by decide +kernel
  obtain ⟨-, hleft⟩ := failed_call_leaves hreachable straddled (.ret .synthetic) _
  obtain ⟨hfirst, hkept, -⟩ := hleft hreturn
  obtain ⟨-, hleft⟩ := failed_call_leaves hreachable straddled (.popFrame .synthetic) _
  obtain ⟨outer, frame, hframes, hsecond, hgone⟩ := hleft hpop
  obtain ⟨rfl, rfl⟩ := List.append_singleton_inj.1 (hframes.symm.trans hnotes)
  obtain ⟨-, hleft⟩ := failed_call_leaves hreachable
    (straddled ++ [Command.popFrame .synthetic]) (.allocateLocal type .synthetic) _
  obtain ⟨hallocated, -⟩ := hleft hstray
  have hthere : frameless.insertionBlock = some block := by decide +kernel
  obtain ⟨other, hother, hthird, -⟩ :=
    hallocated ⟨by decide +kernel, block, ⟨block, 2⟩, hthere, by decide +kernel⟩
  obtain rfl := Option.some.inj (hthere.symm.trans hother)
  exact ⟨hreturn, hfirst.appends hblock (by decide +kernel), hkept, hpop,
    hsecond.appends hblock (by decide +kernel), congrArg Emitter.frames hgone, hstray, hthird⟩

end Straddled

end Emitter

end BlockIR
