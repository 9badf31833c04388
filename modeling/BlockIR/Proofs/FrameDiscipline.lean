import BlockIR.Proofs.EmitterRuns
import BlockIR.Proofs.Findings
/-!
Frames and stack discipline.

An emitter has one list of frames for all blocks of a function.  Where every block is entered and
branched to with one fixed list of open slots, the frames follow the live stack of each path, and the
verifier has nothing to report.  The emitter itself does not ask for that: the last part says exactly
which runs keep the discipline, and shows one that does not.
-/

namespace BlockIR

open StackDiscipline (Stack executeAll Labelling)

namespace Verifier

/-- Without a fault of the traversal no fault is against stack discipline. -/
theorem functionFaults_concernsStack {m : Module} {options : Options} {f : Function} :
    (∀ fault ∈ functionFaults m options f, fault.concernsStack = false) ↔
      (options.checkStackDiscipline = true → StackDiscipline.faults f (.ofFunction f) = []) := by
  rw [StackDiscipline.faults_eq_nil_iff]
  constructor
  · intro hnone hoption fault hfault
    refine hnone fault (List.mem_append_right _ ?_)
    rwa [if_pos hoption]
  · intro hnone fault hfault
    by_contra hstack
    obtain ⟨hoption, hmem⟩ := mem_faults_of_concernsStack (by simpa using hstack) hfault
    exact hstack (hnone hoption fault hmem)

theorem findings_concernsStack {m : Module} {options : Options} :
    (∀ finding ∈ findings options m, finding.fault.concernsStack = false) ↔
      ∀ f ∈ bodies m, ∀ fault ∈ functionFaults m options f, fault.concernsStack = false := by
  simp only [findings, functionFindings, List.mem_flatMap, List.mem_map]
  constructor
  · intro hnone f hf fault hfault
    exact hnone ⟨f.name, fault⟩ ⟨f, hf, fault, hfault, rfl⟩
  · rintro hnone _ ⟨f, hf, fault, hfault, rfl⟩
    exact hnone f hf fault hfault

end Verifier

namespace Emitter

variable {e after : Emitter}

/-- A stack for each labelled block of a function such that the entry begins with none and a
labelled block, replayed from its stack, hands the final one on to every block it is led on to. -/
structure Balanced (function : FunctionId) (steps : List (Emitter × Command))
    (label : BlockId → Option Stack) : Prop where
  entry : label ⟨function, 0⟩ = some []
  flow : ∀ block live, block.function = function → label block = some live →
    ∃ out, replay block live steps = some out ∧
      ∀ target ∈ targetsOf block steps, label target = some out

theorem exists_function_of_mem_begun (hm : e.module.Consistent) {calls : List Command}
    (hcalls : ∀ step ∈ trace e calls, Succeeds step) {id : FunctionId}
    (hid : id ∈ begun (trace e calls)) :
    ∃ f, f.id = id ∧ (calls.foldl Emitter.after e).module.function? f.id = some f := by
  obtain ⟨f, hf⟩ := Option.isSome_iff_exists.1 ((function?_run hcalls id).2 (.inr hid))
  obtain rfl : f.id = id := (consistent_run hm calls).ids id f hf
  exact ⟨f, rfl, hf⟩

section Begun

variable (hm : e.module.Consistent) {calls : List Command}
  (hcalls : ∀ step ∈ trace e calls, Succeeds step) {f : Function}
  (hid : f.id ∈ begun (trace e calls))
  (hf : (calls.foldl Emitter.after e).module.function? f.id = some f)

include hm hcalls hid hf

theorem entry?_of_mem_begun : f.entry? = some ⟨f.id, 0⟩ := by
  have hblock := block?_entry_of_mem_begun hm hcalls hid
  rw [Module.block?, hf, Option.bind_some] at hblock
  obtain ⟨b, hb⟩ := Option.isSome_iff_exists.1 hblock
  exact Function.entry?_of_block? hb

theorem executeAll_of_mem_begun {block : BlockId} (hblock : block.function = f.id) (live : Stack) :
    executeAll block live (f.instructionsAt block) = replay block live (trace e calls) := by
  have hnew := block?_eq_none_of_mem_begun hcalls (hblock ▸ hid)
  have hrun := executeAll_run hm hcalls block live
  simp only [Module.viewAt, hnew, Option.map_none, Option.getD_none, executeAll,
    Option.bind_some] at hrun
  rw [← hrun, Function.instructionsAt, Module.block?, hblock, hf, Option.bind_some]

theorem edge_of_mem_begun {block : BlockId} (hblock : block.function = f.id) (target : BlockId) :
    f.Edge block target ↔ target ∈ targetsOf block (trace e calls) := by
  have hnew := block?_eq_none_of_mem_begun hcalls (hblock ▸ hid)
  have hrun := targets_run hm hcalls block
  simp only [Module.viewAt, hnew, Option.map_none, Option.getD_none, List.nil_append] at hrun
  rw [← hrun, Function.Edge, Module.block?, hblock, hf, Option.bind_some]
  cases f.block? block <;> simp

theorem function_of_mem_targetsOf {block : BlockId} (hblock : block.function = f.id)
    {target : BlockId} (htarget : target ∈ targetsOf block (trace e calls)) :
    target.function = f.id := by
  have hedge := (edge_of_mem_begun hm hcalls hid hf hblock target).2 htarget
  have hinside := (consistent_run hm calls).edgesInside hf block target hedge
  obtain ⟨b, hb⟩ := Option.isSome_iff_exists.1 hinside
  exact Function.function_of_block? hb

/-- The blocks of a function begun in a run can be labelled exactly where the run is balanced. -/
theorem labelling_iff_balanced :
    (∃ label, Labelling f label) ↔ ∃ label, Balanced f.id (trace e calls) label := by
  have hentry := entry?_of_mem_begun hm hcalls hid hf
  constructor
  · rintro ⟨label, hlabelling⟩
    refine ⟨label, hlabelling.entry _ hentry, ?_⟩
    intro block live hblock hlive
    obtain ⟨out, hout, hnext⟩ := hlabelling.flow block live hlive
    rw [executeAll_of_mem_begun hm hcalls hid hf hblock] at hout
    refine ⟨out, hout, ?_⟩
    intro target htarget
    exact hnext target ((edge_of_mem_begun hm hcalls hid hf hblock target).2 htarget)
  · rintro ⟨label, hbalanced⟩
    -- Labels of other functions say nothing about this one, and its edges stay inside.
    refine ⟨fun block => if block.function = f.id then label block else none, ?_, ?_⟩
    · intro entry heq
      obtain rfl : ⟨f.id, 0⟩ = entry := Option.some.inj (hentry.symm.trans heq)
      simp [hbalanced.entry]
    · intro block live hlive
      by_cases hblock : block.function = f.id
      · rw [if_pos hblock] at hlive
        obtain ⟨out, hout, hnext⟩ := hbalanced.flow block live hblock hlive
        refine ⟨out, ?_, ?_⟩
        · rw [executeAll_of_mem_begun hm hcalls hid hf hblock, hout]
        · intro target hedge
          have htarget := (edge_of_mem_begun hm hcalls hid hf hblock target).1 hedge
          rw [if_pos (function_of_mem_targetsOf hm hcalls hid hf hblock htarget)]
          exact hnext target htarget
      · simp [hblock] at hlive

/-- Whatever else the verifier is asked for, it finds no fault against stack discipline in a
function begun in a run exactly where the run is balanced. -/
theorem functionFaults_iff_balanced {options : Options} (hoption : options.checkStackDiscipline) :
    (∀ fault ∈ Verifier.functionFaults (calls.foldl Emitter.after e).module options f,
      fault.concernsStack = false) ↔ ∃ label, Balanced f.id (trace e calls) label := by
  have hinside := (consistent_run hm calls).edgesInside hf
  rw [Verifier.functionFaults_concernsStack,
    StackDiscipline.faults_eq_nil_iff_labelling hinside (entry?_of_mem_begun hm hcalls hid hf),
    labelling_iff_balanced hm hcalls hid hf]
  simp [hoption]

end Begun

/-- What is asked of a call made after others, where `slotsAt` gives each block a list of slots, the
newest first: a block is selected in the function begun last, once only and with its own slots open,
a branch leads to blocks whose slots are open, and an entry block has none. -/
def Allows (slotsAt : BlockId → List Operand) (earlier : List (Emitter × Command)) (e : Emitter) :
    Command → Prop
  | .beginFunction _ _ _ => slotsAt ⟨e.module.nextFunction, 0⟩ = []
  | .setInsertionBlock block =>
      e.function = some block.function ∧ (e.module.block? block).isSome = true ∧
        (e.insertionBlock ≠ some block ∧ ∀ step ∈ earlier, step.1.insertionBlock ≠ some block) ∧
        e.slots = slotsAt block
  | .branch target _ => e.slots = slotsAt target
  | .condBranch _ ifTrue ifFalse _ => e.slots = slotsAt ifTrue ∧ e.slots = slotsAt ifFalse
  | _ => True

/-- All calls of a run, made after others, are as `Allows` asks. -/
def Steady (slotsAt : BlockId → List Operand) (earlier : List (Emitter × Command)) :
    List (Emitter × Command) → Prop
  | [] => True
  | step :: rest =>
      Allows slotsAt earlier step.1 step.2 ∧ Steady slotsAt (earlier ++ [step]) rest

instance (slotsAt : BlockId → List Operand) (earlier : List (Emitter × Command)) (e : Emitter)
    (command : Command) : Decidable (Allows slotsAt earlier e command) :=
  match command with
  | .beginFunction _ _ _ => inferInstanceAs (Decidable (_ = _))
  | .setInsertionBlock block =>
      inferInstanceAs (Decidable (e.function = some block.function ∧
        (e.module.block? block).isSome = true ∧
        (e.insertionBlock ≠ some block ∧ ∀ step ∈ earlier, step.1.insertionBlock ≠ some block) ∧
        e.slots = slotsAt block))
  | .branch _ _ => inferInstanceAs (Decidable (_ = _))
  | .condBranch _ _ _ _ => inferInstanceAs (Decidable (_ = _ ∧ _ = _))
  | .appendBlock _ | .pushFrame | .popFrame _ | .allocateLocal _ _ | .store _ _ _ | .load _ _
  | .binary _ _ _ _ | .compare _ _ _ _ | .call _ _ _ | .ret _ => .isTrue trivial

instance decidableSteady (slotsAt : BlockId → List Operand) :
    (earlier steps : List (Emitter × Command)) → Decidable (Steady slotsAt earlier steps)
  | _, [] => .isTrue trivial
  | earlier, step :: rest =>
      have := decidableSteady slotsAt (earlier ++ [step]) rest
      inferInstanceAs (Decidable (_ ∧ _))

theorem Allows.slots_eq {slotsAt : BlockId → List Operand} {earlier : List (Emitter × Command)}
    {command : Command} (h : Allows slotsAt earlier e command) {target : BlockId}
    (htarget : target ∈ command.targets) : e.slots = slotsAt target := by
  cases command with
  | branch other site =>
      obtain rfl := List.mem_singleton.1 htarget
      exact h
  | condBranch condition ifTrue ifFalse site =>
      simp only [Command.targets, List.mem_cons, List.not_mem_nil, or_false] at htarget
      rcases htarget with rfl | rfl
      · exact h.1
      · exact h.2
  | _ => simp [Command.targets] at htarget

theorem Steady.slotsAt_entry {slotsAt : BlockId → List Operand}
    {earlier steps : List (Emitter × Command)} (h : Steady slotsAt earlier steps) {id : FunctionId}
    (hid : id ∈ begun steps) : slotsAt ⟨id, 0⟩ = [] := by
  induction steps generalizing earlier with
  | nil => simp [begun] at hid
  | cons step rest ih =>
      rw [begun_cons, List.mem_append] at hid
      rcases hid with hnew | hlater
      · obtain ⟨rfl, name, inputs, output, hcommand⟩ := eq_nextFunction_of_mem_begun hnew
        have hallows := h.1
        rwa [hcommand] at hallows
      · exact ih h.2 hlater

theorem replay_append (block : BlockId) (live : Stack) (first second : List (Emitter × Command)) :
    replay block live (first ++ second) =
      (replay block live first).bind (fun after => replay block after second) := by
  induction first generalizing live with
  | nil => rfl
  | cons step rest ih => simp only [List.cons_append, replay, ih, Option.bind_assoc]

theorem replay_singleton (block : BlockId) (live : Stack) (command : Command) :
    replay block live [(e, command)] = e.replayCall block command live := by
  simp [replay]

theorem targetsOf_concat (block : BlockId) (steps : List (Emitter × Command)) (command : Command) :
    targetsOf block (steps ++ [(e, command)]) =
      targetsOf block steps ++ if e.insertionBlock = some block then command.targets else [] := by
  simp [targetsOf]

/-- A run that never selects a block does nothing to it. -/
theorem replay_of_unselected {block : BlockId} {steps : List (Emitter × Command)}
    (hnever : ∀ step ∈ steps, step.1.insertionBlock ≠ some block) (live : Stack) :
    replay block live steps = some live ∧ targetsOf block steps = [] := by
  induction steps using List.reverseRecOn with
  | nil => exact ⟨rfl, rfl⟩
  | append_singleton rest step ih =>
      obtain ⟨hreplay, htargets⟩ := ih (fun other hother => hnever other (by simp [hother]))
      have hne := hnever step (by simp)
      refine ⟨?_, ?_⟩
      · rw [replay_append, hreplay, Option.bind_some, replay_singleton, replayCall_of_ne hne]
      · rw [targetsOf_concat, htargets, if_neg hne, List.nil_append]

/-- What is known of a block after calls that led to a state: replaying them from the slots of the
block ends with those of every block they lead it on to; and while new instructions go to the block,
it has no edge yet and the replay ends with the open slots. -/
structure Followed (slotsAt : BlockId → List Operand) (steps : List (Emitter × Command))
    (e : Emitter) (block : BlockId) (out : Stack) : Prop where
  replayed : replay block (allocations (slotsAt block)) steps = some out
  handed : ∀ target ∈ targetsOf block steps, allocations (slotsAt target) = out
  current : e.insertionBlock = some block → out = allocations e.slots ∧ targetsOf block steps = []

/-- The frames simulate the live stack: every block selected so far is there, and every block is
followed. -/
structure Simulates (slotsAt : BlockId → List Operand) (steps : List (Emitter × Command))
    (e : Emitter) : Prop where
  earlier : ∀ step ∈ steps, ∀ block, step.1.insertionBlock = some block →
    (e.module.block? block).isSome
  current : ∀ block, e.insertionBlock = some block → (e.module.block? block).isSome
  followed : ∀ block, ∃ out, Followed slotsAt steps e block out

section Followed

variable {slotsAt : BlockId → List Operand} {steps : List (Emitter × Command)} {block : BlockId}
  {command : Command}

theorem allocations_append (first second : List Operand) :
    allocations (first ++ second) = allocations first ++ allocations second :=
  List.filterMap_append

/-- A call made for another block. -/
theorem Followed.skip {out : Stack} (h : Followed slotsAt steps e block out)
    (hbefore : e.insertionBlock ≠ some block) (hafter : after.insertionBlock ≠ some block) :
    Followed slotsAt (steps ++ [(e, command)]) after block out where
  replayed := by
    rw [replay_append, h.replayed, Option.bind_some, replay_singleton, replayCall_of_ne hbefore]
  handed := by
    rw [targetsOf_concat, if_neg hbefore, List.append_nil]
    exact h.handed
  current := fun hselected => absurd hselected hafter

/-- A call that selects the block for the first time. -/
theorem Followed.select (hbefore : e.insertionBlock ≠ some block)
    (hnever : ∀ step ∈ steps, step.1.insertionBlock ≠ some block)
    (hslots : after.slots = slotsAt block) :
    Followed slotsAt (steps ++ [(e, command)]) after block (allocations (slotsAt block)) := by
  have hnever' : ∀ step ∈ steps ++ [(e, command)], step.1.insertionBlock ≠ some block := by
    intro step hstep
    rcases List.mem_append.1 hstep with hearlier | hlast
    · exact hnever step hearlier
    · rwa [List.mem_singleton.1 hlast]
  obtain ⟨hreplay, htargets⟩ := replay_of_unselected hnever' (allocations (slotsAt block))
  exact ⟨hreplay, by simp [htargets], fun _ => ⟨by rw [hslots], htargets⟩⟩

/-- A call made for the block itself, which does to the open slots what it does to the stack. -/
theorem Followed.extend {out out' : Stack} (h : Followed slotsAt steps e block out)
    (hblock : e.insertionBlock = some block)
    (heffect : e.effect block (allocations e.slots) command = some out')
    (hhanded : ∀ target ∈ command.targets, allocations (slotsAt target) = out')
    (hcurrent : after.insertionBlock = some block →
      out' = allocations after.slots ∧ command.targets = []) :
    Followed slotsAt (steps ++ [(e, command)]) after block out' := by
  obtain ⟨rfl, hnone⟩ := h.current hblock
  have htargets : targetsOf block (steps ++ [(e, command)]) = command.targets := by
    rw [targetsOf_concat, hnone, if_pos hblock, List.nil_append]
  refine ⟨?_, ?_, ?_⟩
  · rw [replay_append, h.replayed, Option.bind_some, replay_singleton, replayCall, if_pos hblock,
      heffect]
  · rwa [htargets]
  · rwa [htargets]

theorem Followed.advance {out : Stack} (h : Followed slotsAt steps e block out)
    (hblock : e.insertionBlock = some block) (hthere : (e.module.block? block).isSome)
    (hallows : Allows slotsAt steps e command) (hstep : Step e command after) :
    ∃ out', Followed slotsAt (steps ++ [(e, command)]) after block out' := by
  cases hstep with
  | beginFunction name inputs output =>
      refine ⟨_, h.extend hblock rfl (by simp [Command.targets]) ?_⟩
      intro hselected
      obtain rfl := Option.some.inj hselected
      simp [Module.block?, Module.function?, Module.nextFunction] at hthere
  | appendBlock params hfunction hf =>
      exact ⟨_, h.extend hblock rfl (by simp [Command.targets]) (fun _ => ⟨rfl, rfl⟩)⟩
  | setInsertionBlock target =>
      refine ⟨_, h.extend hblock rfl (by simp [Command.targets]) ?_⟩
      intro hselected
      obtain rfl := Option.some.inj hselected
      exact absurd hblock hallows.2.2.1.1
  | pushFrame =>
      exact ⟨_, h.extend hblock rfl (by simp [Command.targets]) (fun _ => ⟨rfl, rfl⟩)⟩
  | @closeFrame target frame frames site htarget hframes hopen =>
      refine ⟨allocations frames.flatten, h.extend hblock ?_ (by simp [Command.targets])
        (fun _ => ⟨rfl, rfl⟩)⟩
      simp [effect, slots, hframes, allocations_append, List.dropPrefix?_append_of_beq]
  | dropFrame site hnone hframes hdone => simp [hblock] at hnone
  | @allocateLocal target frame frames type site htarget hframes hopen =>
      obtain rfl := Option.some.inj (hblock.symm.trans htarget)
      refine ⟨_, h.extend hblock rfl (by simp [Command.targets]) (fun _ => ⟨?_, rfl⟩)⟩
      simp [slots, hframes, allocations, Operand.instruction?]
  | plain hcommand htarget hprepare =>
      have hnone := Command.targets_of_plainDraft? hcommand
      exact ⟨_, h.extend hblock (effect_of_plainDraft? hcommand block _) (by simp [hnone])
        (fun _ => ⟨rfl, hnone⟩)⟩
  | branch hcommand htarget hprepare =>
      refine ⟨_, h.extend hblock (effect_of_branchDraft? hcommand block _) ?_
        (fun hselected => by simp at hselected)⟩
      intro target hmem
      rw [hallows.slots_eq hmem]
  | ret site htarget hopen =>
      refine ⟨[], h.extend hblock (by simp [effect]) (by simp [Command.targets])
        (fun hselected => by simp at hselected)⟩

end Followed

/-- A call selects no other block than the entry of the function it begins or the block it names. -/
theorem Step.insertionBlock_cases {command : Command} (hstep : Step e command after)
    {block : BlockId} (hselected : after.insertionBlock = some block) :
    e.insertionBlock = some block ∨
      (∃ name inputs output, command = .beginFunction name inputs output ∧
        block = ⟨e.module.nextFunction, 0⟩ ∧ after.slots = [] ∧
        (after.module.block? block).isSome) ∨
      (command = .setInsertionBlock block ∧ after.slots = e.slots ∧
        after.module = e.module) := by
  cases hstep with
  | beginFunction name inputs output =>
      obtain rfl := Option.some.inj hselected
      refine .inr (.inl ⟨name, inputs, output, rfl, rfl, rfl, ?_⟩)
      rw [Module.block?_withBlock (e.module.function?_nextFunction name inputs output) rfl]
      simp
  | setInsertionBlock target =>
      obtain rfl := Option.some.inj hselected
      exact .inr (.inr ⟨rfl, rfl, rfl⟩)
  | branch => simp at hselected
  | ret => simp at hselected
  | _ => exact .inl hselected

theorem Simulates.step (hm : e.module.Consistent) {slotsAt : BlockId → List Operand}
    {steps : List (Emitter × Command)} {command : Command} (h : Simulates slotsAt steps e)
    (hallows : Allows slotsAt steps e command) (hstep : Step e command after) :
    Simulates slotsAt (steps ++ [(e, command)]) after where
  earlier := by
    intro step hmem block hselected
    apply hstep.block?_isSome hm
    rcases List.mem_append.1 hmem with hearlier | hlast
    · exact h.earlier step hearlier block hselected
    · obtain rfl := List.mem_singleton.1 hlast
      exact h.current block hselected
  current := by
    intro block hselected
    rcases hstep.insertionBlock_cases hselected with
      hsame | ⟨_, _, _, -, -, -, hthere⟩ | ⟨rfl, -, hmodule⟩
    · exact hstep.block?_isSome hm (h.current block hsame)
    · exact hthere
    · rw [hmodule]
      exact hallows.2.1
  followed := by
    intro block
    obtain ⟨out, hfollowed⟩ := h.followed block
    by_cases hbefore : e.insertionBlock = some block
    · exact hfollowed.advance hbefore (h.current block hbefore) hallows hstep
    · by_cases hafter : after.insertionBlock = some block
      · rcases hstep.insertionBlock_cases hafter with
          hsame | ⟨_, _, _, rfl, rfl, hslots, -⟩ | ⟨rfl, hslots, -⟩
        · exact absurd hsame hbefore
        · -- The entry of a new function was not there, so no call can have selected it.
          refine ⟨_, Followed.select hbefore ?_ (hslots.trans hallows.symm)⟩
          intro step hmem hselected
          have hthere := h.earlier step hmem _ hselected
          simp [Module.block?, Module.function?, Module.nextFunction] at hthere
        · exact ⟨_, Followed.select hbefore hallows.2.2.1.2 (hslots.trans hallows.2.2.2)⟩
      · exact ⟨out, hfollowed.skip hbefore hafter⟩

theorem Simulates.start (slotsAt : BlockId → List Operand) (m : Module) :
    Simulates slotsAt [] (.ofModule m) where
  earlier := by simp
  current := by simp [ofModule]
  followed := fun block =>
    ⟨allocations (slotsAt block), rfl, by simp [targetsOf], by simp [ofModule]⟩

theorem Simulates.run (hm : e.module.Consistent) {slotsAt : BlockId → List Operand}
    {steps : List (Emitter × Command)} {calls : List Command}
    (hcalls : ∀ step ∈ trace e calls, Succeeds step)
    (hsteady : Steady slotsAt steps (trace e calls)) (h : Simulates slotsAt steps e) :
    Simulates slotsAt (steps ++ trace e calls) (calls.foldl Emitter.after e) := by
  induction calls generalizing e steps with
  | nil => simpa [trace] using h
  | cons command rest ih =>
      obtain ⟨hfirst, hrest⟩ := succeeds_cons.1 hcalls
      have hnext := h.step hm hsteady.1 (step_of_succeeds hfirst)
      have hrun := ih (consistent_after hm command) hrest hsteady.2 hnext
      simpa [trace] using hrun

/-- A steady run is balanced, with the slots of each block for its stack. -/
theorem Simulates.balanced {slotsAt : BlockId → List Operand} {steps : List (Emitter × Command)}
    (h : Simulates slotsAt steps e) {function : FunctionId} (hentry : slotsAt ⟨function, 0⟩ = []) :
    Balanced function steps (fun block => some (allocations (slotsAt block))) where
  entry := by simp [hentry, allocations]
  flow := by
    rintro block live - hlive
    obtain rfl := Option.some.inj hlive
    obtain ⟨out, hfollowed⟩ := h.followed block
    refine ⟨out, hfollowed.replayed, ?_⟩
    intro target htarget
    rw [hfollowed.handed target htarget]

/-- The frames simulate the live stack: after calls of which none fails, made on any reachable
module, the verifier finds no fault against stack discipline in a function that they began, if each
block has a list of slots that are the open ones whenever a branch leads to it and when it is
selected, which happens once. -/
theorem steady_run_keeps_discipline {m : Module} (hm : m.Reachable) {calls : List Command}
    (hcalls : ∀ step ∈ trace (.ofModule m) calls, Succeeds step)
    {slotsAt : BlockId → List Operand} (hsteady : Steady slotsAt [] (trace (.ofModule m) calls))
    {id : FunctionId} (hid : id ∈ begun (trace (.ofModule m) calls)) (options : Options) :
    ∃ f, (calls.foldl Emitter.after (.ofModule m)).module.function? id = some f ∧
      f.entry? = some ⟨id, 0⟩ ∧
      ∀ fault ∈ Verifier.functionFaults (calls.foldl Emitter.after (.ofModule m)).module options f,
        fault.concernsStack = false := by
  have hconsistent : (ofModule m).module.Consistent := hm.consistent
  obtain ⟨f, rfl, hf⟩ := exists_function_of_mem_begun hconsistent hcalls hid
  refine ⟨f, hf, entry?_of_mem_begun hconsistent hcalls hid hf, ?_⟩
  have hsimulates := (Simulates.start slotsAt m).run hconsistent hcalls hsteady
  have hbalanced := hsimulates.balanced (hsteady.slotsAt_entry hid)
  by_cases hoption : options.checkStackDiscipline = true
  · exact (functionFaults_iff_balanced hconsistent hcalls hid hf hoption).2 ⟨_, hbalanced⟩
  · exact Verifier.functionFaults_concernsStack.2 (fun h => absurd h hoption)

/-- A run with a return in one arm, made while a frame is open that the other arm does not have. -/
def earlyReturn : List Command :=
  let block (address : Nat) : BlockId := ⟨⟨0⟩, address⟩
  [.beginFunction "main" [.ofBuiltin .i1] .void, .appendBlock [], .appendBlock [],
    .allocateLocal (.builtin .i64) .synthetic,
    .condBranch (.parameter (block 0) 0) (block 1) (block 2) .synthetic,
    .setInsertionBlock (block 1), .pushFrame, .allocateLocal (.builtin .i1) .synthetic,
    .ret .synthetic, .popFrame .synthetic,
    .setInsertionBlock (block 2), .ret .synthetic]

/-- Both arms begin with the slot that the entry allocates. -/
def earlyReturnSlots (block : BlockId) : List Operand :=
  if block.address = 0 then [] else [.result ⟨⟨⟨0⟩, 0⟩, 0⟩ 0]

theorem earlyReturn_keeps_discipline :
    (∀ step ∈ trace (.ofModule (.empty "test")) earlyReturn, Succeeds step) ∧
    Steady earlyReturnSlots [] (trace (.ofModule (.empty "test")) earlyReturn) ∧
    ∃ f, (earlyReturn.foldl Emitter.after (.ofModule (.empty "test"))).module.function? ⟨0⟩ =
        some f ∧ f.entry? = some ⟨⟨0⟩, 0⟩ ∧
      ∀ fault ∈ Verifier.functionFaults
          (earlyReturn.foldl Emitter.after (.ofModule (.empty "test"))).module .standard f,
        fault.concernsStack = false := by
  have hcalls : ∀ step ∈ trace (.ofModule (.empty "test")) earlyReturn, Succeeds step := by
    decide +kernel
  have hsteady : Steady earlyReturnSlots [] (trace (.ofModule (.empty "test")) earlyReturn) := by
    decide +kernel
  have hid : (⟨0⟩ : FunctionId) ∈ begun (trace (.ofModule (.empty "test")) earlyReturn) := by
    decide +kernel
  exact ⟨hcalls, hsteady,
    steady_run_keeps_discipline (.empty "test") hcalls hsteady hid .standard⟩

/-- Functions begun in one run can share a labelling, since no branch leads from one to another. -/
theorem exists_common_label (hm : e.module.Consistent) {calls : List Command}
    (hcalls : ∀ step ∈ trace e calls, Succeeds step)
    (hbalanced : ∀ id ∈ begun (trace e calls), ∃ label, Balanced id (trace e calls) label) :
    ∃ label, ∀ id ∈ begun (trace e calls), Balanced id (trace e calls) label := by
  choose labels hlabels using hbalanced
  refine ⟨fun block =>
    if hid : block.function ∈ begun (trace e calls) then labels _ hid block else none, ?_⟩
  intro id hid
  obtain ⟨f, rfl, hf⟩ := exists_function_of_mem_begun hm hcalls hid
  refine ⟨by simpa [hid] using (hlabels f.id hid).entry, ?_⟩
  intro block live hblock hlive
  simp only [hblock, hid, dite_true] at hlive
  obtain ⟨out, hout, hnext⟩ := (hlabels f.id hid).flow block live hblock hlive
  refine ⟨out, hout, ?_⟩
  intro target htarget
  have hlocal := function_of_mem_targetsOf hm hcalls hid hf hblock htarget
  simp only [hlocal, hid, dite_true]
  exact hnext target htarget

/-- A run from an empty module leaves the bodies of the functions it began. -/
theorem mem_bodies_iff {name : String} {calls : List Command}
    (hcalls : ∀ step ∈ trace (.ofModule (.empty name)) calls, Succeeds step) {f : Function} :
    f ∈ Verifier.bodies (calls.foldl Emitter.after (.ofModule (.empty name))).module ↔
      f.id ∈ begun (trace (.ofModule (.empty name)) calls) ∧
        (calls.foldl Emitter.after (.ofModule (.empty name))).module.function? f.id = some f := by
  have hm : (ofModule (.empty name)).module.Consistent := .empty name
  constructor
  · intro hbody
    have hf := (consistent_run hm calls).function?_of_mem (List.mem_filter.1 hbody).1
    have hdeclared := (function?_run hcalls f.id).1 (by simp [hf])
    refine ⟨hdeclared.resolve_left ?_, hf⟩
    simp [ofModule, Module.empty, Module.function?]
  · rintro ⟨hid, hf⟩
    refine List.mem_filter.2 ⟨List.mem_of_getElem? hf, ?_⟩
    simp [entry?_of_mem_begun hm hcalls hid hf]

/-- Calls of which none fails keep stack discipline exactly where they are balanced: replaying them
from the stacks of a labelling, every frame closed takes its slots off the top, every return finds
the slots of the open frames and no others, and branches to a block agree with its label. -/
theorem run_keeps_discipline_iff_balanced {name : String} {calls : List Command}
    (hcalls : ∀ step ∈ trace (.ofModule (.empty name)) calls, Succeeds step) :
    (∀ finding ∈ Verifier.findings .standard
        (calls.foldl Emitter.after (.ofModule (.empty name))).module,
      finding.fault.concernsStack = false) ↔
      ∃ label, ∀ id ∈ begun (trace (.ofModule (.empty name)) calls),
        Balanced id (trace (.ofModule (.empty name)) calls) label := by
  have hm : (ofModule (.empty name)).module.Consistent := .empty name
  rw [Verifier.findings_concernsStack]
  constructor
  · intro hnone
    apply exists_common_label hm hcalls
    intro id hid
    obtain ⟨f, rfl, hf⟩ := exists_function_of_mem_begun hm hcalls hid
    exact (functionFaults_iff_balanced hm hcalls hid hf rfl).1
      (hnone f ((mem_bodies_iff hcalls).2 ⟨hid, hf⟩))
  · rintro ⟨label, hlabel⟩ f hbody
    obtain ⟨hid, hf⟩ := (mem_bodies_iff hcalls).1 hbody
    exact (functionFaults_iff_balanced hm hcalls hid hf rfl).2 ⟨label, hlabel f.id hid⟩

/-- A run that closes a frame after a return in one arm, while the other arm still has its slot. -/
def closedInOneArm : List Command :=
  let block (address : Nat) : BlockId := ⟨⟨0⟩, address⟩
  [.beginFunction "main" [.ofBuiltin .i1] .void, .appendBlock [], .appendBlock [], .pushFrame,
    .allocateLocal (.builtin .i64) .synthetic,
    .condBranch (.parameter (block 0) 0) (block 1) (block 2) .synthetic,
    .setInsertionBlock (block 1), .ret .synthetic, .popFrame .synthetic,
    .setInsertionBlock (block 2), .ret .synthetic]

/-- No labelling balances that run. -/
theorem closedInOneArm_not_balanced :
    (∀ step ∈ trace (.ofModule (.empty "test")) closedInOneArm, Succeeds step) ∧
    ¬∃ label, ∀ id ∈ begun (trace (.ofModule (.empty "test")) closedInOneArm),
      Balanced id (trace (.ofModule (.empty "test")) closedInOneArm) label := by
  have hcalls : ∀ step ∈ trace (.ofModule (.empty "test")) closedInOneArm, Succeeds step := by
    decide +kernel
  refine ⟨hcalls, ?_⟩
  rw [← run_keeps_discipline_iff_balanced hcalls]
  decide +kernel

/-- The emitter lets the run pass, and leaves a complete module that leaks a slot. -/
theorem closedInOneArm_leaks :
    (∀ step ∈ trace (.ofModule (.empty "test")) closedInOneArm, Succeeds step) ∧
    (closedInOneArm.foldl Emitter.after (.ofModule (.empty "test"))).module.isComplete = true ∧
    Verifier.findings .standard
        (closedInOneArm.foldl Emitter.after (.ofModule (.empty "test"))).module =
      [⟨"main", .leakedAllocation ⟨⟨⟨0⟩, 2⟩, 0⟩ 1⟩] := by
  refine ⟨?_, ?_, ?_⟩ <;> decide +kernel

end Emitter

end BlockIR
