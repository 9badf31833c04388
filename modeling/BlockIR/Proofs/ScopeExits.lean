import BlockIR.Proofs.FrameRecords
/-!
Leaving scopes.

A return leaves all open scopes at once and a closed frame leaves the innermost one.  Either appends
to the current block what frees the slots, in the reverse order of their allocation, and nothing
anywhere else; the order is that of the notes which a caller keeps.
-/

namespace BlockIR

namespace Block

theorem params_pushAll (b : Block) (is : List Instruction) : (b.pushAll is).params = b.params := by
  induction is generalizing b with
  | nil => rfl
  | cons i rest ih => exact ih (b.push i)

theorem slots_pushAll (b : Block) (is : List Instruction) :
    (b.pushAll is).slots = b.slots ++ is.map some := by
  induction is generalizing b with
  | nil => simp [pushAll]
  | cons i rest ih =>
      have hrest := ih (b.push i)
      simpa [pushAll, push] using hrest

theorem isTerminated_pushAll_concat (b : Block) (is : List Instruction) (i : Instruction) :
    (b.pushAll (is ++ [i])).isTerminated = i.isTerminator := by
  rw [pushAll, List.foldl_concat, isTerminated, terminator?_push]
  cases i.isTerminator <;> rfl

end Block

namespace Module

variable {m : Module} {block : BlockId} {is : List Instruction}

/-- The second module has instructions more at the end of a block, in order and with the next
identities, and is the same otherwise. -/
structure Appends (m n : Module) (block : BlockId) (is : List Instruction) : Prop where
  unchanged : is = [] → n = m
  altersOnly : is ≠ [] → m.AltersOnly n block
  program : is ≠ [] → ∃ b c, m.block? block = some b ∧ n.block? block = some c ∧
    c.params = b.params ∧ c.slots = b.slots ++ is.map some ∧
    c.instructions = b.instructions ++ (is.zipIdx b.nextAddress).map Prod.swap

theorem placeAll_eq_modifyBlock (m : Module) (block : BlockId) (is : List Instruction) :
    m.placeAll block is = m.modifyBlock block (fun b => b.pushAll is) := by
  induction is generalizing m with
  | nil =>
      have hsame : (fun f : Function => f.modifyBlock block.address id) = id := by
        funext f
        rw [Function.modifyBlock, List.modify_id]
        rfl
      change m = m.modifyFunction block.function (fun f => f.modifyBlock block.address id)
      rw [hsame, modifyFunction, List.modify_id]
  | cons i rest ih =>
      have hplace : m.placeAll block (i :: rest) = (m.place (.atEnd block) i).placeAll block rest :=
        rfl
      rw [hplace, ih]
      simp [place, Block.pushAll, modifyBlock, modifyFunction, Function.modifyBlock,
        List.modify_modify_eq, Function.comp_def]

theorem Consistent.appends_placeAll (hm : m.Consistent) (hopen : is = [] ∨ m.IsOpen block) :
    m.Appends (m.placeAll block is) block is := by
  rcases hopen with rfl | ⟨b, hb, -⟩
  · exact ⟨fun _ => rfl, fun hne => absurd rfl hne, fun hne => absurd rfl hne⟩
  · refine ⟨?_, ?_, ?_⟩
    · rintro rfl
      rfl
    · intro _
      rw [placeAll_eq_modifyBlock]
      exact .modifyBlock (by simp [hb]) _
    · intro _
      refine ⟨b, b.pushAll is, hb, ?_, b.params_pushAll is, b.slots_pushAll is, ?_⟩
      · rw [block?_placeAll, if_pos rfl, hb, Option.map_some]
      · exact (hm.ordered _ b hb).instructions_pushAll is

/-- A block takes nothing behind a terminator. -/
theorem not_isOpen_placeAll_concat {i : Instruction} (hi : i.isTerminator = true) :
    ¬(m.placeAll block (is ++ [i])).IsOpen block := by
  rintro ⟨c, hc, hunterminated⟩
  rw [block?_placeAll, if_pos rfl] at hc
  obtain ⟨b, -, rfl⟩ := Option.map_eq_some_iff.1 hc
  rw [Block.isTerminated_pushAll_concat, hi] at hunterminated
  cases hunterminated

end Module

namespace Emitter

variable {e after : Emitter} {site : Span}

/-- The second emitter is the first behind a return: the slots are freed in the current block, the
return ends it, and the frames stay open. -/
structure Returned (e : Emitter) (site : Span) (slots : List Operand) (after : Emitter) : Prop where
  appends : ∃ block, e.insertionBlock = some block ∧ ¬after.module.IsOpen block ∧
    e.module.Appends after.module block (slots.map (.freeing site) ++ [⟨.ret, site⟩])
  others : after = { e with module := after.module, insertionBlock := none, returned := true }

/-- The second emitter is the first with a frame closed: the slots are freed in the current block, or
nowhere if there is none, and the outer frames stay open. -/
structure Closed (e : Emitter) (site : Span) (slots : List Operand) (outer : List (List Operand))
    (after : Emitter) : Prop where
  appends : ∀ block, e.insertionBlock = some block →
    e.module.Appends after.module block (slots.map (.freeing site))
  unchanged : e.insertionBlock = none → after.module = e.module
  others : after = { e with module := after.module, frames := insideOut outer }

theorem returned_of_emitReturn (hm : e.module.Consistent) {id : InstructionId}
    (h : (emitReturn site).Yields e id after) : e.Returned site e.slots after := by
  have hstep := step_of_emitReturn h
  cases hstep with
  | ret site hblock hopen =>
      refine ⟨⟨_, hblock, Module.not_isOpen_placeAll_concat rfl, ?_⟩, rfl⟩
      exact hm.appends_placeAll (.inr hopen)
  | plain hcommand _ _ => cases hcommand
  | branch hcommand _ _ => cases hcommand

theorem closed_of_popFrame (hm : e.module.Consistent) {frames : List (List Operand)}
    (hframes : e.frames = insideOut frames) (h : (popFrame site).Yields e () after) :
    ∃ outer frame, frames = outer ++ [frame] ∧ e.Closed site frame.reverse outer after ∧
      (e.insertionBlock = none → e.returned = true ∨ frame = []) := by
  have hstep := step_of_popFrame h
  cases hstep with
  | @closeFrame block frame rest site hblock hinner hopen =>
      obtain ⟨outer, rfl, rfl⟩ := exists_concat_of_insideOut (hframes.symm.trans hinner)
      refine ⟨outer, frame.reverse, rfl, ⟨?_, ?_, rfl⟩, ?_⟩
      · intro other hother
        obtain rfl := Option.some.inj (hblock.symm.trans hother)
        rw [List.reverse_reverse]
        apply hm.appends_placeAll
        simpa using hopen
      · intro hnone
        simp [hblock] at hnone
      · intro hnone
        simp [hblock] at hnone
  | @dropFrame frame rest site hblock hinner hdone =>
      obtain ⟨outer, rfl, rfl⟩ := exists_concat_of_insideOut (hframes.symm.trans hinner)
      refine ⟨outer, frame.reverse, rfl, ⟨?_, fun _ => rfl, rfl⟩, ?_⟩
      · intro other hother
        simp [hblock] at hother
      · intro _
        rwa [List.reverse_eq_nil_iff]
  | plain hcommand _ _ => cases hcommand
  | branch hcommand _ _ => cases hcommand

/-- Scope exits after any run, failed calls included.  A return that succeeds frees the slots of all
open frames, the one allocated last first.  A frame that is closed frees its own slots in that order
if there is a current block; if there is none, then the last block was ended by a return or the frame
has no slots. -/
theorem scope_exits_exact {m : Module} (hm : m.Reachable) (calls : List Command) (site : Span)
    (after : Emitter) :
    let e := calls.foldl Emitter.after (.ofModule m)
    let entries := (ofModule m).transcript calls
    e.frames = insideOut (openFrames entries) ∧
    (∀ id, (emitReturn site).Yields e id after →
      e.Returned site (openFrames entries).flatten.reverse after) ∧
    ((popFrame site).Yields e () after →
      ∃ outer frame, openFrames entries = outer ++ [frame] ∧
        e.Closed site frame.reverse outer after ∧
        (e.insertionBlock = none →
          (∃ site, lastEnding? entries = some (.ret site)) ∨ frame = [])) := by
  intro e entries
  have hconsistent : e.module.Consistent := consistent_run hm.consistent calls
  have hagrees : e.Agrees entries := agrees_run hm.consistent calls
  refine ⟨hagrees.frames, ?_, ?_⟩
  · intro id hreturn
    rw [← hagrees.slots]
    exact returned_of_emitReturn hconsistent hreturn
  · intro hpop
    obtain ⟨outer, frame, hframes, hclosed, hdone⟩ :=
      closed_of_popFrame hconsistent hagrees.frames hpop
    refine ⟨outer, frame, hframes, hclosed, ?_⟩
    intro hnone
    rw [← hagrees.returned hnone]
    exact hdone hnone

section Nested

/-- A frame with two slots inside one with a single slot; the load between them fails. -/
def nested : List Command :=
  [.beginFunction "main" [] .void, .allocateLocal (.builtin .i64) .synthetic, .pushFrame,
    .allocateLocal (.builtin .i1) .synthetic, .load (.result ⟨⟨⟨0⟩, 0⟩, 9⟩ 0) .synthetic,
    .allocateLocal (.builtin .f64) .synthetic]

/-- The nested frames left by a return, by closing the inner one, and by closing it behind the
return. -/
theorem nested_scope_exits :
    let entry : BlockId := ⟨⟨0⟩, 0⟩
    let slot (address : Nat) : Operand := .result ⟨entry, address⟩ 0
    let e := nested.foldl Emitter.after (.ofModule (.empty "test"))
    let returned := (nested ++ [Command.ret .synthetic]).foldl Emitter.after (.ofModule (.empty "test"))
    let exit := ((emitReturn .synthetic).run e).state
    let closed := ((popFrame .synthetic).run e).state
    let dropped := ((popFrame .synthetic).run returned).state
    e.module.Appends exit.module entry
      ([slot 2, slot 1, slot 0].map (.freeing .synthetic) ++ [⟨.ret, .synthetic⟩]) ∧
    exit.frames = e.frames ∧
    e.module.Appends closed.module entry ([slot 2, slot 1].map (.freeing .synthetic)) ∧
    closed.frames = [[slot 0]] ∧
    dropped.module = returned.module ∧ dropped.frames = [[slot 0]] := by
  intro entry slot e returned exit closed dropped
  have hreachable : (Module.empty "test").Reachable := .empty "test"
  have hnotes : openFrames ((ofModule (.empty "test")).transcript nested) =
      [[slot 0]] ++ [[slot 1, slot 2]] := by decide +kernel
  have hkept : openFrames ((ofModule (.empty "test")).transcript
      (nested ++ [Command.ret .synthetic])) = [[slot 0]] ++ [[slot 1, slot 2]] := by decide +kernel
  have hblock : e.insertionBlock = some entry := by decide +kernel
  obtain ⟨-, hexit, -⟩ := scope_exits_exact hreachable nested .synthetic exit
  obtain ⟨⟨block, hother, -, hreturn⟩, hafter⟩ := hexit ⟨entry, 6⟩ ⟨by decide +kernel, rfl⟩
  obtain rfl := Option.some.inj (hblock.symm.trans hother)
  rw [hnotes] at hreturn
  obtain ⟨-, -, hclose⟩ := scope_exits_exact hreachable nested .synthetic closed
  obtain ⟨outer, frame, hframes, hclosed, -⟩ := hclose ⟨by decide +kernel, rfl⟩
  obtain ⟨rfl, rfl⟩ := List.append_singleton_inj.1 (hframes.symm.trans hnotes)
  obtain ⟨-, -, hdrop⟩ := scope_exits_exact hreachable (nested ++ [Command.ret .synthetic])
    .synthetic dropped
  obtain ⟨outer, frame, hframes, hdropped, -⟩ := hdrop ⟨by decide +kernel, rfl⟩
  obtain ⟨rfl, rfl⟩ := List.append_singleton_inj.1 (hframes.symm.trans hkept)
  exact ⟨hreturn, by rw [hafter], hclosed.appends _ hblock,
    congrArg Emitter.frames hclosed.others, hdropped.unchanged (by decide +kernel),
    congrArg Emitter.frames hdropped.others⟩

end Nested

end Emitter

end BlockIR
