import BlockIR.Proofs.Construction
import BlockIR.Proofs.EmitterRuns
import BlockIR.Proofs.Storage
import BlockIR.Proofs.StrictAnalyses
/-!
Edits with strict places.

An instruction is put at a place in the order of its block, and taken out of one.  The place is
looked up when the edit is checked and used when it is made, so that it has to be there still.  Here
the edits insist on that, and they do in every case what the edits do: a module that was edited in
any way gives them no place that is out of range, and a violated rule is all that can end an edit.
With the strict analyses this puts every look-up in range that has no check of its own.
-/

namespace BlockIR

/-- The place in the order of a block that an insertion point stands for, if it is not the end. -/
def InsertionPoint.position? (b : Block) : InsertionPoint → Option Nat
  | .atEnd _ => none
  | .before anchor => b.position? anchor.address

namespace Block

variable {b : Block} {i : Instruction}

/-- The block with an instruction more, at a place that its order has to have, or at the end. -/
def strictInsert (b : Block) (place? : Option Nat) (i : Instruction) : Except OutOfRange Block :=
  match place? with
  | none => return b.push i
  | some place =>
      if place ≤ b.order.length then
        return { b with
          slots := b.slots ++ [some i]
          order := b.order.insertIdx place b.nextAddress }
      else .error (.place place)

/-- The block without the instruction at an address, and the instruction.  Its place in the order
has to be there. -/
def strictRemove (b : Block) (address : Nat) : Except OutOfRange (Block × Option Instruction) :=
  match b.position? address with
  | none => return (b, none)
  | some place =>
      if place < b.order.length then
        return ({ b with slots := b.slots.set address none, order := b.order.eraseIdx place },
          b.get? address)
      else .error (.place place)

/-- An anchor that stands in the order has a place there. -/
theorem strictInsert_eq {point : InsertionPoint}
    (hanchor : ∀ anchor, point = .before anchor → anchor.address ∈ b.order) :
    b.strictInsert (point.position? b) i = .ok (b.put i point) := by
  cases point with
  | atEnd block => rfl
  | before anchor =>
      cases hplace : b.position? anchor.address with
      | none => exact absurd (hanchor anchor rfl) (List.idxOf?_eq_none_iff.1 hplace)
      | some place =>
          obtain ⟨hlt, -⟩ := List.idxOf?_eq_some_iff.1 hplace
          have hindex : b.order.idxOf anchor.address = place := by
            rw [List.idxOf_eq_getD_idxOf?]
            exact congrArg (Option.getD · _) hplace
          rw [InsertionPoint.position?, hplace, strictInsert, if_pos hlt.le, put, insertBefore,
            hindex]
          rfl

example : (Block.empty []).strictInsert (some 1) ⟨.ret, .synthetic⟩ = .error (.place 1) := rfl

/-- What is live is taken out of the order and of its slot, and of anything else nothing is there to
be taken out. -/
theorem Ordered.strictRemove_eq (h : b.Ordered) (address : Nat) :
    b.strictRemove address =
      .ok (if (b.get? address).isSome then b.erase address else b, b.get? address) := by
  cases hplace : b.position? address with
  | none =>
      have hdead : b.get? address = none := by
        rw [← Option.not_isSome_iff_eq_none, ← h.mem_iff]
        exact List.idxOf?_eq_none_iff.1 hplace
      rw [strictRemove, hplace, hdead]
      rfl
  | some place =>
      obtain ⟨hlt, hhere, -⟩ := List.idxOf?_eq_some_iff.1 hplace
      have hlive : (b.get? address).isSome := (h.mem_iff address).1 (hhere ▸ List.getElem_mem hlt)
      have horder : b.order.erase address = b.order.eraseIdx place := by
        have hindex : b.order.idxOf? address = some place := hplace
        rw [List.erase_eq_eraseIdx, hindex]
      rw [strictRemove, hplace, if_pos hlive, Block.erase, horder]
      exact if_pos hlt

end Block

/-- Only what a change makes of the entry matters. -/
theorem modify_congr {α : Type} {list : List α} {place : Nat} {entry : α} {change other : α → α}
    (hentry : list[place]? = some entry) (h : change entry = other entry) :
    list.modify place change = list.modify place other := by
  apply List.ext_getElem?
  intro here
  rw [List.getElem?_modify, List.getElem?_modify]
  by_cases heq : place = here
  · rw [← heq, hentry]
    simp [h]
  · simp [heq]

namespace Module

variable {m : Module} {block : BlockId} {b : Block}

/-- Only what a change makes of the block matters. -/
theorem modifyBlock_congr {change other : Block → Block} (hb : m.block? block = some b)
    (h : change b = other b) : m.modifyBlock block change = m.modifyBlock block other := by
  obtain ⟨f, hf, hblock⟩ := block?_eq_some.1 hb
  have hfound : f.blocks[block.address]? = some b := by
    rw [Function.block?, if_pos (Function.function_of_block? hblock)] at hblock
    exact hblock
  have hfunction : f.modifyBlock block.address change = f.modifyBlock block.address other :=
    congrArg (fun blocks => { f with blocks := blocks }) (modify_congr hfound h)
  exact congrArg (Module.mk m.name) (modify_congr hf hfunction)

theorem modifyBlock_self (hb : m.block? block = some b) :
    m.modifyBlock block (fun _ => b) = m := by
  have hsame : ∀ f : Function, f.modifyBlock block.address id = f :=
    fun f => congrArg (fun blocks => { f with blocks := blocks }) (List.modify_id _ _)
  have hchange : m.modifyBlock block (fun _ => b) = m.modifyBlock block id :=
    modifyBlock_congr hb rfl
  rw [hchange, modifyBlock, funext hsame]
  exact congrArg (Module.mk m.name) (List.modify_id _ _)

/-- Make the instruction of a draft at a place, which the order of the block has to have. -/
def strictMake (m : Module) (point : InsertionPoint) (draft : Draft) (site : Span) :
    Except OutOfRange (Outcome Module InstructionId) :=
  match m.prepare point draft, m.block? point.block with
  | .ok operation, some b => do
      let changed ← b.strictInsert (point.position? b) ⟨operation, site⟩
      return ⟨.ok (m.nextInstruction point.block), m.modifyBlock point.block (fun _ => changed),
        [.insertedInstruction point.block ⟨operation, site⟩]⟩
  | .ok _, none => return ⟨.error (.unknownEntity "block" point.block.text), m, []⟩
  | .error violation, _ => return ⟨.error violation, m, []⟩

theorem strictMake_eq (m : Module) (point : InsertionPoint) (draft : Draft) (site : Span) :
    m.strictMake point draft site = .ok ((make point draft site).run m) := by
  simp only [Action.run, make]
  cases hprepare : m.prepare point draft with
  | error violation =>
      simp only [strictMake, hprepare]
      rfl
  | ok operation =>
      obtain ⟨b, hb, hplace⟩ := checkPlace_eq_ok.1
        (checkInsertion_eq_ok.1 (prepare_eq_ok.1 hprepare).2).1
      have hanchor : ∀ anchor, point = .before anchor → anchor.address ∈ b.order := by
        rintro anchor rfl
        exact hplace.2
      have hsame : m.modifyBlock point.block (fun _ => b.put ⟨operation, site⟩ point) =
          m.place point ⟨operation, site⟩ := by
        rw [place_eq_modifyBlock]
        exact modifyBlock_congr hb rfl
      simp only [strictMake, hprepare, hb, Block.strictInsert_eq hanchor]
      rw [← hsame]
      rfl

/-- Remove an instruction, whose place the order of its block has to have. -/
def strictRemoveInstruction (m : Module) (id : InstructionId) :
    Except OutOfRange (Outcome Module Instruction) :=
  if (m.uses id).isEmpty then
    match m.locateBlock id.block with
    | .error violation => return ⟨.error violation, m, []⟩
    | .ok b => do
        let left ← b.strictRemove id.address
        let changed := m.modifyBlock id.block (fun _ => left.1)
        match left.2 with
        | none => return ⟨.error (.unknownEntity "instruction" id.text), changed, []⟩
        | some i => return ⟨.ok i, changed, [.removedInstruction id]⟩
  else return ⟨.error (.instructionInUse id.text (m.uses id).length), m, []⟩

theorem Consistent.strictRemoveInstruction_eq (hm : m.Consistent) (id : InstructionId) :
    m.strictRemoveInstruction id = .ok ((removeInstruction id).run m) := by
  simp only [Action.run, removeInstruction, checkRemoval, strictRemoveInstruction]
  cases hunused : (m.uses id).isEmpty with
  | false => rfl
  | true =>
      simp only [if_true, locateInstruction]
      cases hlocate : m.locateBlock id.block with
      | error violation => rfl
      | ok b =>
          have hb : m.block? id.block = some b := by
            obtain ⟨_, -, hgot⟩ := Checks.bind_eq_ok.1 hlocate
            exact getBlock_eq_ok.1 hgot
          have hget : m.instruction? id = b.get? id.address := by
            rw [instruction?, hb]
            rfl
          simp only [(hm.ordered id.block b hb).strictRemove_eq]
          cases hi : b.get? id.address with
          | none =>
              -- Nothing is taken out, and the block is put back as it was.
              have hmissing : m.getInstruction id =
                  .error (.unknownEntity "instruction" id.text) := by
                rw [getInstruction, hget, hi]
              simp only [hmissing]
              exact congrArg (fun state => Except.ok (Outcome.mk
                (.error (.unknownEntity "instruction" id.text)) state [])) (modifyBlock_self hb)
          | some i =>
              have hfound : m.getInstruction id = .ok i := by
                rw [getInstruction, hget, hi]
              have hsame : m.modifyBlock id.block (fun _ => b.erase id.address) =
                  m.modifyBlock id.block (fun b => b.erase id.address) := modifyBlock_congr hb rfl
              simp only [hfound]
              exact congrArg (fun state => Except.ok (Outcome.mk
                (.ok i) state [.removedInstruction id])) hsame

end Module

/-- The same outcome with its result told as a reply. -/
def Outcome.told {σ α : Type} (reply : α → Reply) (outcome : Outcome σ α) : Outcome σ Reply :=
  ⟨outcome.result.map reply, outcome.state, outcome.log⟩

/-- Run an edit with strict places.  Only making and removing an instruction use one. -/
def Command.strictRun (m : Module) : Command → Except OutOfRange (Outcome Module Reply)
  | .make point draft site => (m.strictMake point draft site).map (.told .instruction)
  | .removeInstruction id => (m.strictRemoveInstruction id).map (.told .removed)
  | command => return command.perform.run m

namespace Module

variable {m : Module}

theorem Consistent.strictRun_eq (hm : m.Consistent) (command : Command) :
    command.strictRun m = .ok (command.perform.run m) := by
  cases command with
  | make point draft site =>
      rw [Command.strictRun, strictMake_eq, Command.perform, Action.run_map]
      rfl
  | removeInstruction id =>
      rw [Command.strictRun, hm.strictRemoveInstruction_eq, Command.perform, Action.run_map]
      rfl
  | _ => rfl

/-- Perform edits with strict places one after the other, until one fails. -/
def strictPerformAll (m : Module) : List Command → Except OutOfRange Module
  | [] => return m
  | command :: rest => do
      let outcome ← command.strictRun m
      if outcome.result.isOk then outcome.state.strictPerformAll rest else return outcome.state

theorem Consistent.strictPerformAll_eq (hm : m.Consistent) (commands : List Command) :
    m.strictPerformAll commands = .ok ((m.attempted commands).foldl Module.after m) := by
  induction commands generalizing m with
  | nil => rfl
  | cons command rest ih =>
      rw [strictPerformAll, hm.strictRun_eq, attempted]
      change (if (command.perform.run m).result.isOk then _ else _) = _
      cases (command.perform.run m).result.isOk with
      | false => rfl
      | true => exact ih (hm.after command)

/-- No look-up that rests on an earlier step is out of range.  Whatever was done to a module, the
verifier makes its findings with strict look-ups, the graph of every function is built and searched
with them, and every edit and every call of an emitter is done with strict places. -/
theorem lookups_in_range {m : Module} (hm : m.Reachable) :
    (∀ options, Verifier.strictFindings options m = .ok (Verifier.findings options m)) ∧
    (∀ f ∈ m.functions, FlowGraph.strictOfFunction f = .ok (.ofFunction f) ∧
      (FlowGraph.ofFunction f).strictReachable = .ok (FlowGraph.ofFunction f).reachable) ∧
    (∀ command : Command, command.strictRun m = .ok (command.perform.run m)) ∧
    ∀ (calls : List Emitter.Command) (command : Emitter.Command),
      let e := calls.foldl Emitter.after (.ofModule m)
      e.module.strictPerformAll (command.requests e) = .ok (e.after command).module := by
  have hconsistent := hm.consistent
  refine ⟨Verifier.strictFindings_eq hconsistent, ?_, hconsistent.strictRun_eq, ?_⟩
  · intro f hf
    have hinside : f.EdgesInside := hconsistent.edgesInside (hconsistent.function?_of_mem hf)
    exact ⟨FlowGraph.strictOfFunction_eq f, FlowGraph.strictReachable_eq hinside⟩
  · intro calls command e
    have he : e.module.Consistent := Emitter.consistent_run hconsistent calls
    rw [he.strictPerformAll_eq, Emitter.module_after]

section Mangled

/-- A function in which every instruction with operands got one that is against the rules. -/
def mangled : Module :=
  let entry : BlockId := ⟨⟨1⟩, 0⟩
  let exit : BlockId := ⟨⟨1⟩, 1⟩
  let make (draft : Draft) : Command := .make (.atEnd entry) draft .synthetic
  let replace (address index : Nat) (new : Operand) : Command :=
    .replaceOperand ⟨entry, address⟩ index new
  let slot : Operand := .result ⟨entry, 0⟩ 0
  let one : Operand := .constant (.integer 1 .i64)
  let yes : Operand := .constant (.bool true)
  List.foldl Module.after (.empty "test")
    [.declareFunction "check" [.ofBuiltin .i64, .ofBuiltin .i1] .void,
      .declareFunction "main" [] .void, .appendEntryBlock ⟨1⟩, .appendBlock ⟨1⟩ [],
      make (.allocStack (.builtin .i64)), make (.store one slot), make (.load slot),
      make (.binary .add one one), make (.compare .eq one one), make (.call ⟨0⟩ [one, yes]),
      make (.deallocStack slot), make (.condBranch yes exit exit),
      .make (.atEnd exit) .ret .synthetic,
      replace 1 1 one, replace 2 0 one, replace 3 1 yes, replace 4 0 (.constant .void),
      replace 5 1 one, replace 6 0 (.result ⟨entry, 9⟩ 0), replace 7 0 one]

theorem mangled_lookups_in_range :
    let entry : BlockId := ⟨⟨1⟩, 0⟩
    let orderAfter (command : Command) : Except OutOfRange (Option (List Nat)) :=
      (command.strictRun mangled).map (fun outcome => (outcome.state.block? entry).map Block.order)
    Verifier.strictFindings ⟨true, true, true⟩ mangled = .ok
      [⟨"main", .operandTypeMismatch ⟨entry, 1⟩ 1 "a writable address" "i64"⟩,
        ⟨"main", .operandTypeMismatch ⟨entry, 2⟩ 0 "a readable address" "i64"⟩,
        ⟨"main", .operandTypeMismatch ⟨entry, 3⟩ 1 "i64" "i1"⟩,
        ⟨"main", .operandTypeMismatch ⟨entry, 4⟩ 0 "a builtin value" "void"⟩,
        ⟨"main", .operandTypeMismatch ⟨entry, 5⟩ 1 "i1" "i64"⟩,
        ⟨"main", .danglingOperand ⟨entry, 6⟩ 0⟩,
        ⟨"main", .operandTypeMismatch ⟨entry, 7⟩ 0 "i1" "i64"⟩,
        ⟨"main", .deallocationOutOfOrder ⟨entry, 6⟩ "%bb0.9" "%bb0.0"⟩,
        ⟨"main", .leakedAllocation ⟨⟨⟨1⟩, 1⟩, 0⟩ 1⟩] ∧
    orderAfter (.removeInstruction ⟨entry, 2⟩) = .ok (some [0, 1, 3, 4, 5, 6, 7]) ∧
    orderAfter (.make (.before ⟨entry, 7⟩) (.allocStack .void) .synthetic) =
      .ok (some [0, 1, 2, 3, 4, 5, 6, 8, 7]) := by
  intro entry orderAfter
  have hreachable : mangled.Reachable := (Reachable.empty "test").edits _
  obtain ⟨hfindings, -, hruns, -⟩ := lookups_in_range hreachable
  have horder : ∀ command, orderAfter command =
      .ok (((mangled.after command).block? entry).map Block.order) := by
    intro command
    simp only [orderAfter, hruns]
    rfl
  refine ⟨(hfindings _).trans (congrArg Except.ok (by decide +kernel)), ?_, ?_⟩
  · exact (horder _).trans (congrArg Except.ok (by decide +kernel))
  · exact (horder _).trans (congrArg Except.ok (by decide +kernel))

end Mangled

end Module

end BlockIR
