import BlockIR.Proofs.Evolution
import BlockIR.Proofs.ProgramOrder
import BlockIR.Proofs.Sessions
/-!
Identities of instructions over a whole session.

The address of an instruction is the number of those made before it in its block, and a slot is never
given up.  So an identity is given out once, names one instruction from then on, and nothing after
that instruction was removed; meanwhile edits change operands and edges only where they name it.
-/

namespace BlockIR

namespace Module

variable {m n : Module} {id : InstructionId} {i : Instruction}

/-- The identity of the instruction that an edit makes. -/
def madeBy (m : Module) : Command → Option InstructionId
  | .make point draft site => ((make point draft site).run m).result.toOption
  | _ => none

/-- The identity of the instruction that an edit removes. -/
def removedBy (m : Module) : Command → Option InstructionId
  | .removeInstruction id => ((removeInstruction id).run m).result.toOption.map (fun _ => id)
  | _ => none

/-- The identities that the instructions made by edits got, one after the other. -/
def made (m : Module) : List Command → List InstructionId
  | [] => []
  | command :: rest => (m.madeBy command).toList ++ (m.after command).made rest

/-- One of the edits makes the instruction: in the module `before`, as the operation, and followed by
the edits `since`. -/
def Makes (m : Module) (commands : List Command) (id : InstructionId) (before : Module)
    (operation : Operation) (since : List Command) : Prop :=
  ∃ past point draft site, commands = past ++ .make point draft site :: since ∧
    past.foldl Module.after m = before ∧ before.prepare point draft = .ok operation ∧
    id = before.nextInstruction point.block

/-- The identities of the instructions that edits removed. -/
def removed (m : Module) : List Command → List InstructionId
  | [] => []
  | command :: rest => (m.removedBy command).toList ++ (m.after command).removed rest

theorem removed_append (m : Module) (first second : List Command) :
    m.removed (first ++ second) =
      m.removed first ++ (first.foldl Module.after m).removed second := by
  induction first generalizing m with
  | nil => rfl
  | cons command rest ih => simp [removed, ih]

/-- An instruction was made with the identity, whether or not it is still there. -/
def Used (m : Module) (id : InstructionId) : Prop := id.address < (m.blockAt id.block).nextAddress

theorem used_of_isSome (h : (m.instruction? id).isSome) : m.Used id := by
  obtain ⟨i, hi⟩ := Option.isSome_iff_exists.1 h
  exact Block.lt_nextAddress_of_get? (m.instruction?_eq_blockAt id.block id.address ▸ hi)

theorem Used.after (hm : m.Consistent) (h : m.Used id) (command : Command) :
    (m.after command).Used id := by
  rcases m.after_eq_or_effect command with hsame | heffect
  · rwa [hsame]
  · cases hb : m.block? id.block with
    | none => simp [Used, blockAt, hb, Block.nextAddress, Block.empty] at h
    | some b =>
        obtain ⟨c, hc, hevolves⟩ := Evolves.of_effect hm heffect id.block b hb
        have hused : id.address < b.nextAddress := by simpa [Used, blockAt, hb] using h
        simpa [Used, blockAt, hc] using Nat.lt_of_lt_of_le hused hevolves.nextAddress

theorem madeBy_eq_some {command : Command} :
    m.madeBy command = some id ↔ ∃ point draft site operation,
      command = .make point draft site ∧ m.prepare point draft = .ok operation ∧
        id = m.nextInstruction point.block := by
  cases command with
  | make point draft site =>
      simp only [madeBy, make, Action.run]
      cases hprepare : m.prepare point draft with
      | error violation => simp [Except.toOption, hprepare]
      | ok operation => simp [Except.toOption, hprepare, eq_comm]
  | _ => simp [madeBy]

/-- Every identity that edits gave out goes back to the edit that made the instruction. -/
theorem exists_makes_of_mem_made {commands : List Command} (h : id ∈ m.made commands) :
    ∃ before operation since, m.Makes commands id before operation since := by
  induction commands generalizing m with
  | nil => simp [made] at h
  | cons command rest ih =>
      rcases List.mem_append.1 h with hfirst | hlater
      · obtain ⟨point, draft, site, operation, rfl, hprepare, hid⟩ :=
          madeBy_eq_some.1 (Option.mem_toList.1 hfirst)
        exact ⟨m, operation, rest, [], point, draft, site, rfl, rfl, hprepare, hid⟩
      · obtain ⟨before, operation, since, past, point, draft, site, rfl, hbefore, hmade⟩ := ih hlater
        exact ⟨before, operation, since, command :: past, point, draft, site, rfl, hbefore, hmade⟩

theorem removedBy_removeInstruction (target : InstructionId) :
    m.removedBy (.removeInstruction target) =
      (m.checkRemoval target).toOption.map (fun _ => target) := by
  simp only [removedBy, removeInstruction, Action.run]
  cases m.checkRemoval target <;> rfl

theorem not_used_of_madeBy {command : Command} (h : m.madeBy command = some id) : ¬m.Used id := by
  obtain ⟨point, -, -, -, -, -, rfl⟩ := madeBy_eq_some.1 h
  simp only [Used, nextInstruction, blockAt]
  cases m.block? point.block <;> simp [Block.nextAddress, Block.empty]

theorem isSome_of_removedBy {command : Command} (h : m.removedBy command = some id) :
    (m.instruction? id).isSome := by
  cases command with
  | removeInstruction target =>
      rw [removedBy_removeInstruction] at h
      cases hcheck : m.checkRemoval target with
      | error violation => simp [hcheck, Except.toOption] at h
      | ok i =>
          obtain rfl : target = id := by simpa [hcheck, Except.toOption] using h
          simp [(checkRemoval_eq_ok.1 hcheck).2]
  | _ => simp [removedBy] at h

/-- An edit that neither makes nor removes an instruction leaves those alive that are. -/
theorem isSome_of_effect (hm : m.Consistent) {command : Command} (heffect : command.Effect m n)
    (hmake : ∀ point draft site, command ≠ .make point draft site)
    (hremove : ∀ target, command ≠ .removeInstruction target) (id : InstructionId) :
    (n.instruction? id).isSome = (m.instruction? id).isSome := by
  have hexchange : ∀ {target i j}, m.instruction? target = some i →
      ((m.exchange target j).instruction? id).isSome = (m.instruction? id).isSome := by
    intro target i j hi
    rw [instruction?_exchange (by simp [hi])]
    split
    · rename_i heq
      simp [heq, hi]
    · rfl
  cases heffect with
  | rename name => rfl
  | declareFunction name inputs output => rw [instruction?_withFunction]
  | appendBlock hf _ => rw [instruction?_withBlock hf (hm.ids _ _ hf)]
  | appendEntryBlock hf => rw [instruction?_withBlock hf (hm.ids _ _ hf)]
  | make _ _ => exact absurd rfl (hmake _ _ _)
  | replaceOperand hi _ _ => exact hexchange hi
  | replaceSuccessor _ hi _ _ _ => exact hexchange hi
  | removeInstruction _ _ => exact absurd rfl (hremove _)

/-- An edit brings what it makes to life, and of what was alive only what it removes is gone. -/
theorem isSome_after_iff (hm : m.Consistent) (command : Command) (id : InstructionId) :
    ((m.after command).instruction? id).isSome ↔
      ((m.instruction? id).isSome ∧ m.removedBy command ≠ some id) ∨
        m.madeBy command = some id := by
  have hother (hmake : ∀ point draft site, command ≠ .make point draft site)
      (hremove : ∀ target, command ≠ .removeInstruction target) :
      ((m.after command).instruction? id).isSome = (m.instruction? id).isSome := by
    rcases m.after_eq_or_effect command with hsame | heffect
    · rw [hsame]
    · exact isSome_of_effect hm heffect hmake hremove id
  cases command with
  | make point draft site =>
      rw [after_make]
      cases hprepare : m.prepare point draft with
      | error violation => simp [madeBy_eq_some, removedBy, hprepare]
      | ok operation =>
          rw [instruction?_place (block?_isSome_of_prepare hprepare)]
          by_cases heq : id = m.nextInstruction point.block <;>
            simp [madeBy_eq_some, removedBy, hprepare, heq]
  | removeInstruction target =>
      rw [after_removeInstruction]
      cases hcheck : m.checkRemoval target with
      | error violation => simp [madeBy, removedBy_removeInstruction, hcheck, Except.toOption]
      | ok i =>
          rw [instruction?_without]
          rcases eq_or_ne id target with rfl | hne
          · simp [madeBy, removedBy_removeInstruction, hcheck, Except.toOption]
          · simp [madeBy, removedBy_removeInstruction, hcheck, Except.toOption, hne, hne.symm]
  | _ => simp [hother, madeBy, removedBy]

/-- Edits give out identities that were not used before, and none of them twice. -/
theorem made_fresh (hm : m.Consistent) (commands : List Command) :
    (m.made commands).Nodup ∧ ∀ id ∈ m.made commands, ¬m.Used id := by
  induction commands generalizing m with
  | nil => simp [made]
  | cons command rest ih =>
      obtain ⟨hnodup, hfresh⟩ := ih (hm.after command)
      have hold : ∀ id ∈ (m.after command).made rest, ¬m.Used id :=
        fun id hid hused => hfresh id hid (hused.after hm command)
      cases hmade : m.madeBy command with
      | none => simpa [made, hmade] using ⟨hnodup, hold⟩
      | some id =>
          have hused : (m.after command).Used id :=
            used_of_isSome ((isSome_after_iff hm command id).2 (.inr hmade))
          have hnew : id ∉ (m.after command).made rest := fun hid => hfresh id hid hused
          simp only [made, hmade, Option.toList_some, List.singleton_append, List.nodup_cons,
            List.mem_cons]
          refine ⟨⟨hnew, hnodup⟩, ?_⟩
          rintro other (rfl | hother)
          · exact not_used_of_madeBy hmade
          · exact hold other hother

/-- After edits that is alive which was so before or was made, and was not removed. -/
theorem isSome_foldl_iff (hm : m.Consistent) (commands : List Command) (id : InstructionId) :
    ((commands.foldl Module.after m).instruction? id).isSome ↔
      ((m.instruction? id).isSome ∨ id ∈ m.made commands) ∧ id ∉ m.removed commands := by
  induction commands generalizing m with
  | nil => simp [made, removed]
  | cons command rest ih =>
      -- What is removed here was made before, so its identity is not given out again.
      have hgone : m.removedBy command = some id →
          m.madeBy command ≠ some id ∧ id ∉ (m.after command).made rest := by
        intro hremoved
        have hused := used_of_isSome (isSome_of_removedBy hremoved)
        refine ⟨fun hmade => not_used_of_madeBy hmade hused, fun hlater => ?_⟩
        exact (made_fresh (hm.after command) rest).2 id hlater (hused.after hm command)
      rw [List.foldl_cons, ih (hm.after command), isSome_after_iff hm]
      simp only [made, removed, List.mem_append, Option.mem_toList]
      grind

/-- What an edit leaves of an instruction that it does not remove, whether it succeeds or fails. -/
theorem persists_after (hm : m.Consistent) (command : Command) (hi : m.instruction? id = some i)
    (hkept : m.removedBy command ≠ some id) :
    ∃ j, (m.after command).instruction? id = some j ∧ i.Alike j ∧
      (¬command.ReplacesOperandOf id → j.operands = i.operands) ∧
      (¬command.ReplacesSuccessorOf id → j.successors = i.successors) := by
  rcases m.after_eq_or_effect command with hsame | heffect
  · exact ⟨i, by rw [hsame, hi], .refl i, fun _ => rfl, fun _ => rfl⟩
  · refine persists_of_effect hm heffect hi ?_
    rintro rfl
    have halive := (isSome_after_iff hm (.removeInstruction id) id).2 (.inl ⟨by simp [hi], hkept⟩)
    generalize m.after (.removeInstruction id) = n at heffect halive
    cases heffect with
    | removeInstruction _ _ => simp [instruction?_without] at halive

/-- An instruction that is never removed stays what it is, and keeps its operands and its edges
unless an edit that names it exchanges them. -/
theorem persists_foldl (hm : m.Consistent) {commands : List Command}
    (hi : m.instruction? id = some i) (hkept : id ∉ m.removed commands) :
    ∃ j, (commands.foldl Module.after m).instruction? id = some j ∧ i.Alike j ∧
      ((∀ command ∈ commands, ¬command.ReplacesOperandOf id) → j.operands = i.operands) ∧
      ((∀ command ∈ commands, ¬command.ReplacesSuccessorOf id) → j.successors = i.successors) := by
  induction commands generalizing m i with
  | nil => exact ⟨i, hi, .refl i, fun _ => rfl, fun _ => rfl⟩
  | cons command rest ih =>
      simp only [removed, List.mem_append, Option.mem_toList, not_or] at hkept
      obtain ⟨j, hj, halike, hoperands, hsuccessors⟩ := persists_after hm command hi hkept.1
      obtain ⟨k, hk, hlater, hoperands', hsuccessors'⟩ := ih (hm.after command) hj hkept.2
      simp only [List.forall_mem_cons]
      refine ⟨k, hk, halike.trans hlater, ?_, ?_⟩
      · exact fun h => (hoperands' h.2).trans (hoperands h.1)
      · exact fun h => (hsuccessors' h.2).trans (hsuccessors h.1)

/-- What a live instruction keeps from when it was made: all but operands and edges. -/
theorem Makes.alike (hm : m.Reachable) {commands since : List Command} {before : Module}
    {operation : Operation} (hmakes : m.Makes commands id before operation since)
    (hi : (commands.foldl Module.after m).instruction? id = some i) :
    Instruction.Alike ⟨operation, i.site⟩ i := by
  obtain ⟨past, point, draft, site, rfl, hbefore, hprepare, rfl⟩ := hmakes
  have hreachable : before.Reachable := hbefore ▸ hm.edits past
  have hconsistent := (hreachable.edit (.make point draft site)).consistent
  have hplaced : (before.after (.make point draft site)).instruction?
      (before.nextInstruction point.block) = some ⟨operation, site⟩ := by
    rw [after_make, hprepare]
    simp [instruction?_place (block?_isSome_of_prepare hprepare)]
  rw [List.foldl_append, hbefore, List.foldl_cons] at hi
  have hlive := (isSome_foldl_iff hconsistent since _).1 (Option.isSome_of_eq_some hi)
  obtain ⟨j, hj, halike, -⟩ := persists_foldl hconsistent hplaced hlive.2
  obtain rfl := Option.some.inj (hj.symm.trans hi)
  exact ⟨halike.kind, halike.arity, halike.resultTypes, rfl⟩

theorem precedes_after_iff (hm : m.Consistent) (command : Command) {first second : InstructionId}
    (hfirst : (m.instruction? first).isSome ∧ ((m.after command).instruction? first).isSome)
    (hsecond : (m.instruction? second).isSome ∧ ((m.after command).instruction? second).isSome) :
    m.Precedes first second ↔ (m.after command).Precedes first second := by
  rcases m.after_eq_or_effect command with hsame | heffect
  · rw [hsame]
  · exact (SameOrder.of_effect hm heffect).precedes_iff hm (hm.after command)
      (extends_of_effect hm heffect) hfirst hsecond

/-- Instructions that are never removed keep their order. -/
theorem precedes_foldl_iff (hm : m.Consistent) {commands : List Command}
    {first second : InstructionId} (hfirst : (m.instruction? first).isSome)
    (hsecond : (m.instruction? second).isSome) (hfirstKept : first ∉ m.removed commands)
    (hsecondKept : second ∉ m.removed commands) :
    m.Precedes first second ↔ (commands.foldl Module.after m).Precedes first second := by
  induction commands generalizing m with
  | nil => rfl
  | cons command rest ih =>
      simp only [removed, List.mem_append, Option.mem_toList, not_or] at hfirstKept hsecondKept
      have hfirst' := (isSome_after_iff hm command first).2 (.inl ⟨hfirst, hfirstKept.1⟩)
      have hsecond' := (isSome_after_iff hm command second).2 (.inl ⟨hsecond, hsecondKept.1⟩)
      rw [precedes_after_iff hm command ⟨hfirst, hfirst'⟩ ⟨hsecond, hsecond'⟩, List.foldl_cons]
      exact ih (hm.after command) hfirst' hsecond' hfirstKept.2 hsecondKept.2

/-- At any moment of a session, between any two of its edits, and at any later one: no identity was
given out twice, those that were given out and not removed name what is alive, those that were
removed name nothing any more, and what is alive at both moments is the same but for operands and
edges that an edit exchanged in it, and stands in the same order. -/
theorem identities_stable {name : String} {calls : List Call} {past future : List Command}
    {m n : Module} (hsession : sessionEdits name calls = past ++ future)
    (hm : past.foldl Module.after (.empty name) = m) (hn : future.foldl Module.after m = n) :
    built name calls = n ∧
    ((Module.empty name).made (past ++ future)).Nodup ∧
    (∀ id, (m.instruction? id).isSome ↔
      id ∈ (Module.empty name).made past ∧ id ∉ (Module.empty name).removed past) ∧
    (∀ id ∈ (Module.empty name).removed past, n.instruction? id = none) ∧
    (∀ id i j, m.instruction? id = some i → n.instruction? id = some j →
      i.Alike j ∧
      ((∀ index new, .replaceOperand id index new ∉ future) → j.operands = i.operands) ∧
      ((∀ old new, .replaceSuccessor id old new ∉ future) → j.successors = i.successors)) ∧
    ∀ first second, (m.instruction? first).isSome → (n.instruction? first).isSome →
      (m.instruction? second).isSome → (n.instruction? second).isSome →
      (m.Precedes first second ↔ n.Precedes first second) := by
  have hempty := Consistent.empty name
  have hconsistent : m.Consistent := hm ▸ ((Reachable.empty name).edits past).consistent
  have hkept : ∀ {id}, (n.instruction? id).isSome → id ∉ m.removed future := by
    intro id halive
    rw [← hn, isSome_foldl_iff hconsistent] at halive
    exact halive.2
  refine ⟨?_, (made_fresh hempty _).1, ?_, ?_, ?_, ?_⟩
  · rw [built_eq_foldl, hsession, List.foldl_append, hm, hn]
  · intro id
    rw [← hm, isSome_foldl_iff hempty, instruction?_empty]
    simp
  · intro id hremoved
    rw [← Option.not_isSome_iff_eq_none, ← hn, ← hm, ← List.foldl_append, isSome_foldl_iff hempty,
      removed_append]
    exact fun h => h.2 (List.mem_append_left _ hremoved)
  · intro id i j hi hj
    obtain ⟨k, hk, halike, hoperands, hsuccessors⟩ :=
      persists_foldl hconsistent hi (hkept (by simp [hj]))
    obtain rfl : k = j := Option.some.inj (hk.symm.trans (hn ▸ hj))
    refine ⟨halike, fun h => hoperands ?_, fun h => hsuccessors ?_⟩
    · rintro command hcommand ⟨index, new, rfl⟩
      exact h index new hcommand
    · rintro command hcommand ⟨old, new, rfl⟩
      exact h old new hcommand
  · intro first second hfirst hfirst' hsecond hsecond'
    rw [← hn]
    exact precedes_foldl_iff hconsistent hfirst hsecond (hkept hfirst') (hkept hsecond')

section Shuffled

/-- A session that inserts before and behind what an emitter made, removes a store and stores again,
fails to remove a slot in use, exchanges an operand, and returns through another emitter. -/
def shuffled : List Call :=
  let entry : BlockId := ⟨⟨0⟩, 0⟩
  let slot : Operand := .result ⟨entry, 0⟩ 0
  [.startEmitter, .emit (.beginFunction "main" [] .void),
    .emit (.allocateLocal (.builtin .i64) .synthetic),
    .emit (.store (.constant (.integer 7 .i64)) slot .synthetic),
    .edit (.make (.before ⟨entry, 1⟩) (.load slot) .synthetic),
    .edit (.removeInstruction ⟨entry, 1⟩),
    .edit (.make (.atEnd entry) (.store (.constant (.integer 8 .i64)) slot) .synthetic),
    .edit (.removeInstruction ⟨entry, 0⟩),
    .edit (.make (.before ⟨entry, 2⟩) (.allocStack (.builtin .f64)) .synthetic),
    .edit (.replaceOperand ⟨entry, 3⟩ 0 (.result ⟨entry, 2⟩ 0)),
    .startEmitter, .emit (.setInsertionBlock entry), .emit (.ret .synthetic)]

theorem shuffled_stable :
    (Module.empty "test").made (sessionEdits "test" shuffled) =
      [0, 1, 2, 3, 4, 5].map (fun address => ⟨⟨⟨0⟩, 0⟩, address⟩) ∧
    ((Module.empty "test").made (sessionEdits "test" shuffled)).Nodup ∧
    (Module.empty "test").removed ((sessionEdits "test" shuffled).take 7) = [⟨⟨⟨0⟩, 0⟩, 1⟩] ∧
    (built "test" shuffled).instruction? ⟨⟨⟨0⟩, 0⟩, 1⟩ = none ∧
    (((sessionEdits "test" shuffled).take 7).foldl Module.after (.empty "test")).Precedes
      ⟨⟨⟨0⟩, 0⟩, 2⟩ ⟨⟨⟨0⟩, 0⟩, 3⟩ ∧
    (built "test" shuffled).Precedes ⟨⟨⟨0⟩, 0⟩, 2⟩ ⟨⟨⟨0⟩, 0⟩, 3⟩ := by
  have hremoved : (Module.empty "test").removed ((sessionEdits "test" shuffled).take 7) =
      [⟨⟨⟨0⟩, 0⟩, 1⟩] := by decide +kernel
  have hbefore : (((sessionEdits "test" shuffled).take 7).foldl Module.after
      (.empty "test")).Precedes ⟨⟨⟨0⟩, 0⟩, 2⟩ ⟨⟨⟨0⟩, 0⟩, 3⟩ := ⟨_, rfl, by decide +kernel⟩
  have hsplit := (List.take_append_drop 7 (sessionEdits "test" shuffled)).symm
  obtain ⟨hbuilt, hnodup, -, hdead, -, horder⟩ := identities_stable hsplit rfl rfl
  rw [← hbuilt] at hdead horder
  refine ⟨by decide +kernel, hsplit ▸ hnodup, hremoved, hdead _ (by simp [hremoved]), hbefore, ?_⟩
  refine (horder _ _ ?_ ?_ ?_ ?_).1 hbefore <;> decide +kernel

end Shuffled

end Module

end BlockIR
