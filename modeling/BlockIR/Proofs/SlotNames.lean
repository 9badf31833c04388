import BlockIR.Proofs.Locality
import BlockIR.Proofs.Uses
import Mathlib.Data.List.Basic
/-!
The slots that an out-of-order deallocation is reported with.

The report names the slot that is freed and the innermost live one, which are never the same.  Their
texts leave out the function.  Only slots of the walked function are live, so that the texts differ
as well, unless a replaced operand makes the deallocation name a slot of another function.  Then the
report can give one text twice, and the operand is reported as dangling too.
-/

namespace BlockIR

theorem InstructionId.toList_text (id : InstructionId) :
    id.text.toList = '%' :: 'b' :: 'b' ::
      (Nat.toDigits 10 id.block.address ++ '.' :: Nat.toDigits 10 id.address) := by
  have htext : id.text = "%" ++ ("bb" ++ id.block.address.repr) ++ "." ++ id.address.repr := rfl
  simp [htext]

theorem dot_notMem_toDigits (n : Nat) : '.' ∉ Nat.toDigits 10 n := by
  intro hmem
  have hdigit := Nat.isDigit_of_mem_toDigits (by decide) (by decide) hmem
  simp at hdigit

theorem toDigits_inj {m n : Nat} : Nat.toDigits 10 m = Nat.toDigits 10 n ↔ m = n := by
  refine ⟨fun h => ?_, congrArg _⟩
  rw [← @Nat.ofDigitChars_ten_toDigits m, h, Nat.ofDigitChars_ten_toDigits]

/-- The text of an instruction tells its block's address and its own, and nothing else. -/
theorem InstructionId.text_eq_iff {id other : InstructionId} :
    id.text = other.text ↔
      id.block.address = other.block.address ∧ id.address = other.address := by
  rw [← String.toList_inj, toList_text, toList_text, List.cons_inj_right, List.cons_inj_right,
    List.cons_inj_right, List.append_cons_inj_of_notMem (dot_notMem_toDigits _)
      (dot_notMem_toDigits _), toDigits_inj, toDigits_inj]
  simp

theorem InstructionId.text_ne_none (id : InstructionId) : id.text ≠ "none" := by
  intro heq
  have hlist := congrArg String.toList heq
  rw [toList_text] at hlist
  simp at hlist

namespace Module

variable {m : Module} {id : InstructionId} {freed expected : String}

/-- A function has the slot: a live allocation in it. -/
def HasSlot (m : Module) (function : FunctionId) (slot : InstructionId) : Prop :=
  slot.function = function ∧ m.isStackAllocation (.result slot 0) = true

/-- An instruction frees a slot where, on a path from the entry to it, another slot of its function is
the innermost live one, or none is live. -/
structure FreesOutOfOrder (m : Module) (id slot : InstructionId)
    (innermost? : Option InstructionId) : Prop where
  frees : ∃ location site, m.instruction? id = some ⟨.deallocStack location, site⟩ ∧
    location.instruction? = some slot
  walked : ∃ f i live, m.function? id.function = some f ∧
    StackDiscipline.LiveAt f (.ofFunction f) id i live ∧ innermost? = live.head?
  live : ∀ innermost, innermost? = some innermost → m.HasSlot id.function innermost
  apart : innermost? ≠ some slot

/-- Two slots have one text only if they stand at the same place in different functions. -/
theorem FreesOutOfOrder.text_eq_iff {slot : InstructionId} {innermost? : Option InstructionId}
    (h : m.FreesOutOfOrder id slot innermost?) :
    slot.text = (innermost?.map InstructionId.text).getD "none" ↔
      slot.function ≠ id.function ∧ ∃ innermost, innermost? = some innermost ∧
        slot.block.address = innermost.block.address ∧ slot.address = innermost.address := by
  cases hinnermost : innermost? with
  | none => simp [slot.text_ne_none]
  | some innermost =>
      have hfunction := (h.live innermost hinnermost).1
      simp only [Option.map_some, Option.getD_some, InstructionId.text_eq_iff, Option.some.injEq,
        exists_eq_left']
      refine ⟨fun hplace => ⟨fun hsame => h.apart ?_, hplace⟩, And.right⟩
      have hblock : innermost.block = slot.block :=
        BlockId.mk.injEq .. |>.mpr ⟨hfunction.trans hsame.symm, hplace.1.symm⟩
      rw [hinnermost, InstructionId.eq_iff.2 ⟨hblock, hplace.2.symm⟩]

/-- A slot of another function is no live value of this one. -/
theorem FreesOutOfOrder.dangling {slot : InstructionId} {innermost? : Option InstructionId}
    (h : m.FreesOutOfOrder id slot innermost?) (hforeign : slot.function ≠ id.function) :
    ∃ i, m.instruction? id = some i ∧ ∀ checkTypes,
      m.operandFaults checkTypes id i = [.danglingOperand id 0] := by
  obtain ⟨location, site, hi, hslot⟩ := h.frees
  obtain ⟨index, rfl⟩ := Operand.instruction?_eq_some.1 hslot
  have hlocal : (Operand.result slot index).isLocalTo id.function = false := by
    simpa [Operand.isLocalTo, Operand.function?] using hforeign
  refine ⟨_, hi, fun checkTypes => ?_⟩
  simp [operandFaults, Instruction.operands, Operation.operands, operandTypes, hlocal]

/-- A report of a deallocation out of order, with the slots that its texts stand for. -/
theorem Consistent.exists_freesOutOfOrder (hm : m.Consistent) {f : Function}
    (hf : m.function? f.id = some f)
    (hfault : .deallocationOutOfOrder id freed expected ∈
      StackDiscipline.faults f (.ofFunction f)) :
    id.function = f.id ∧ ∃ slot innermost?, m.FreesOutOfOrder id slot innermost? ∧
      freed = slot.text ∧ expected = (innermost?.map InstructionId.text).getD "none" := by
  have hmade : ∀ entry ∈ f.instructions, entry.2.isAllocation = true →
      m.HasSlot f.id entry.1 := by
    rintro ⟨slot, i⟩ hentry hallocation
    obtain ⟨hfunction, hi⟩ := (hm.mem_instructions hf).1 hentry
    exact ⟨hfunction, by simp [isStackAllocation, hi, hallocation]⟩
  cases StackDiscipline.arises_of_mem_faults hfault with
  | @step other i live _ hlive hstep =>
      rcases StackDiscipline.cases_of_mem_step hstep with
        ⟨location, slot, hoperation, hslot, hhead, hreport⟩ | ⟨-, -, hreport⟩
      · obtain ⟨rfl, rfl, rfl⟩ := Fault.deallocationOutOfOrder.inj hreport
        obtain ⟨hfunction, hi⟩ := (hm.mem_instructions hf).1 hlive.mem_instructions
        have hfrees : m.FreesOutOfOrder id slot live.head? :=
          { frees := ⟨location, i.site, by rw [hi, ← hoperation], hslot⟩
            walked := ⟨f, i, live, by rw [hfunction, hf], hlive, rfl⟩
            live := fun innermost hinnermost => by
              rw [hfunction]
              exact hlive.forall_mem hmade innermost (List.mem_of_mem_head? hinnermost)
            apart := hhead }
        refine ⟨hfunction, slot, live.head?, hfrees, rfl, ?_⟩
        rw [StackDiscipline.innermostText]
        cases live.head? <;> rfl
      · cases hreport

/-- A deallocation out of order names two different slots, and their texts differ unless it frees a
slot of another function that stands at the same place as the innermost live slot of its own.  Where
the texts do not differ, the operand that names the slot is found dangling. -/
theorem out_of_order_texts_differ {m : Module} (hm : m.Reachable) {options : Options}
    {function : String} {id : InstructionId} {freed expected : String}
    (h : ⟨function, .deallocationOutOfOrder id freed expected⟩ ∈ Verifier.findings options m) :
    ∃ slot innermost?, m.FreesOutOfOrder id slot innermost? ∧ freed = slot.text ∧
      expected = (innermost?.map InstructionId.text).getD "none" ∧
      (freed = expected ↔ slot.function ≠ id.function ∧ ∃ innermost,
        innermost? = some innermost ∧ slot.block.address = innermost.block.address ∧
          slot.address = innermost.address) ∧
      (freed = expected → ⟨function, .danglingOperand id 0⟩ ∈ Verifier.findings options m) := by
  have hconsistent := hm.consistent
  obtain ⟨f, hmem, rfl, hfault⟩ := Verifier.exists_of_mem_findings h
  have hf := hconsistent.function?_of_mem hmem
  obtain ⟨-, htraversal⟩ := Verifier.mem_faults_of_concernsStack rfl hfault
  obtain ⟨hfunction, slot, innermost?, hfrees, rfl, rfl⟩ :=
    hconsistent.exists_freesOutOfOrder hf htraversal
  refine ⟨slot, innermost?, hfrees, rfl, rfl, hfrees.text_eq_iff, fun hsame => ?_⟩
  obtain ⟨i, hi, hdangling⟩ := hfrees.dangling (hfrees.text_eq_iff.1 hsame).1
  obtain ⟨g, b, hstands⟩ := exists_stands_iff.2 hi
  obtain rfl : g = f := by
    have hg := hstands.function
    rw [hfunction, hf] at hg
    exact (Option.some.inj hg).symm
  refine Verifier.mem_findings_of_stands hconsistent hstands (List.mem_append_right _ ?_)
  rw [hdangling]
  exact List.mem_singleton_self _

section Twins

/-- Two functions with a slot at the same place each, the first of which frees the slot of the
second. -/
def twins : Module :=
  let make (function : Nat) (draft : Draft) : Command :=
    .make (.atEnd ⟨⟨function⟩, 0⟩) draft .synthetic
  let slot (function : Nat) : Operand := .result ⟨⟨⟨function⟩, 0⟩, 0⟩ 0
  List.foldl Module.after (.empty "test")
    [.declareFunction "first" [] .void, .declareFunction "second" [] .void,
      .appendEntryBlock ⟨0⟩, .appendEntryBlock ⟨1⟩,
      make 0 (.allocStack (.builtin .i64)), make 1 (.allocStack (.builtin .i64)),
      make 0 (.deallocStack (slot 0)), make 0 .ret, make 1 (.deallocStack (slot 1)), make 1 .ret,
      .replaceOperand ⟨⟨⟨0⟩, 0⟩, 1⟩ 0 (slot 1)]

theorem twins_reachable : twins.Reachable := (Reachable.empty "test").edits _

theorem twins_findings :
    let id : InstructionId := ⟨⟨⟨0⟩, 0⟩, 1⟩
    Verifier.findings .standard twins =
      [⟨"first", .danglingOperand id 0⟩, ⟨"first", .deallocationOutOfOrder id "%bb0.0" "%bb0.0"⟩,
        ⟨"first", .leakedAllocation ⟨⟨⟨0⟩, 0⟩, 2⟩ 1⟩] := by
  decide +kernel

/-- Texts do not always differ: the first function is told that it frees the very slot it should. -/
theorem twins_report_one_text :
    ¬∀ m : Module, m.Reachable → ∀ options function id freed expected,
      ⟨function, .deallocationOutOfOrder id freed expected⟩ ∈ Verifier.findings options m →
        freed ≠ expected := by
  intro hdiffer
  refine hdiffer twins twins_reachable .standard "first" ⟨⟨⟨0⟩, 0⟩, 1⟩ "%bb0.0" "%bb0.0" ?_ rfl
  rw [twins_findings]
  simp

theorem twins_free_foreign :
    let id : InstructionId := ⟨⟨⟨0⟩, 0⟩, 1⟩
    ⟨"first", .deallocationOutOfOrder id "%bb0.0" "%bb0.0"⟩ ∈ Verifier.findings .standard twins ∧
    ∃ slot innermost?, twins.FreesOutOfOrder id slot innermost? ∧ slot.function ≠ id.function ∧
      ⟨"first", .danglingOperand id 0⟩ ∈ Verifier.findings .standard twins := by
  intro id
  have hreported : ⟨"first", .deallocationOutOfOrder id "%bb0.0" "%bb0.0"⟩ ∈
      Verifier.findings .standard twins := by
    rw [twins_findings]
    simp [id]
  obtain ⟨slot, innermost?, hfrees, -, -, hsame, hdangling⟩ :=
    out_of_order_texts_differ twins_reachable hreported
  exact ⟨hreported, slot, innermost?, hfrees, (hsame.1 rfl).1, hdangling rfl⟩

end Twins

end Module

end BlockIR
