import BlockIR.Proofs.Persistence
/-!
What edits make of blocks and of the types of operands.

The parameters of a block never change, and a slot of it once used is never used again.  So what an
operand names keeps its type until it is removed, and what was removed never comes back.
-/

namespace BlockIR

/-- The second block is what edits can make of the first: what stands at an address used before is
gone for good, or has results of the same types. -/
structure Block.Evolves (b c : Block) : Prop where
  params : c.params = b.params
  nextAddress : b.nextAddress ≤ c.nextAddress
  kept : ∀ address < b.nextAddress, c.get? address = none ∨
    ∃ i j, b.get? address = some i ∧ c.get? address = some j ∧ j.resultTypes = i.resultTypes

namespace Block

variable {b : Block}

theorem Evolves.refl (b : Block) : b.Evolves b where
  params := rfl
  nextAddress := Nat.le_refl _
  kept := by
    intro address _
    cases hget : b.get? address with
    | none => exact .inl rfl
    | some i => exact .inr ⟨i, i, rfl, rfl, rfl⟩

/-- A block that gets an instruction more at the next address. -/
theorem Evolves.of_get? {c : Block} {i : Instruction} (hparams : c.params = b.params)
    (hnext : c.nextAddress = b.nextAddress + 1)
    (hget : ∀ other, c.get? other = if other = b.nextAddress then some i else b.get? other) :
    b.Evolves c where
  params := hparams
  nextAddress := by omega
  kept := by
    intro address haddress
    rw [hget, if_neg (Nat.ne_of_lt haddress)]
    exact (Evolves.refl b).kept address haddress

theorem Evolves.set {address : Nat} {i j : Instruction} (hi : b.get? address = some i)
    (htypes : j.resultTypes = i.resultTypes) : b.Evolves (b.set address j) where
  params := rfl
  nextAddress := by simp [Block.nextAddress, Block.set]
  kept := by
    intro other hother
    rw [get?_set (by simp [hi])]
    by_cases heq : other = address
    · rw [if_pos heq, heq]
      exact .inr ⟨i, j, hi, rfl, htypes⟩
    · rw [if_neg heq]
      exact (Evolves.refl b).kept other hother

theorem Evolves.erase (b : Block) (address : Nat) : b.Evolves (b.erase address) where
  params := rfl
  nextAddress := by simp [Block.nextAddress, Block.erase]
  kept := by
    intro other hother
    rw [get?_erase]
    by_cases heq : other = address
    · exact .inl (by rw [if_pos heq])
    · rw [if_neg heq]
      exact (Evolves.refl b).kept other hother

end Block

namespace Module

variable {m n : Module}

/-- The second module is what edits can make of the first. -/
def Evolves (m n : Module) : Prop :=
  ∀ id b, m.block? id = some b → ∃ c, n.block? id = some c ∧ b.Evolves c

theorem Evolves.of_block? (h : ∀ id, m.block? id = none ∨ n.block? id = m.block? id) :
    m.Evolves n := by
  intro id b hb
  rcases h id with hnone | hsame
  · simp [hnone] at hb
  · exact ⟨b, hsame.trans hb, .refl b⟩

theorem Evolves.withBlock {function : FunctionId} {f : Function}
    (hf : m.function? function = some f) (hid : f.id = function) (params : List ValueType) :
    m.Evolves (m.withBlock function params) := by
  apply Evolves.of_block?
  intro id
  rw [block?_withBlock hf hid]
  split
  · rename_i heq
    exact .inl (by rw [heq, block?_next hf])
  · exact .inr rfl

theorem Evolves.modifyBlock {id : BlockId} {change : Block → Block}
    (hchange : ∀ b, m.block? id = some b → b.Evolves (change b)) :
    m.Evolves (m.modifyBlock id change) := by
  intro other b hb
  rw [block?_modifyBlock]
  split
  · rename_i heq
    subst heq
    exact ⟨change b, by simp [hb], hchange b hb⟩
  · exact ⟨b, hb, .refl b⟩

theorem Evolves.place (m : Module) (point : InsertionPoint) (i : Instruction) :
    m.Evolves (m.place point i) := by
  cases point with
  | atEnd block =>
      refine .modifyBlock (fun b _ => .of_get? (i := i) rfl ?_ (b.get?_push i))
      simp [Block.nextAddress, Block.push]
  | before anchor =>
      refine .modifyBlock (fun b _ =>
        .of_get? (i := i) rfl ?_ (b.get?_insertBefore anchor.address i))
      simp [Block.nextAddress, Block.insertBefore]

theorem Evolves.exchange {id : InstructionId} {i j : Instruction} (hi : m.instruction? id = some i)
    (htypes : j.resultTypes = i.resultTypes) : m.Evolves (m.exchange id j) := by
  obtain ⟨b, hb, hget⟩ := instruction?_eq_some.1 hi
  refine .modifyBlock ?_
  intro c hc
  obtain rfl := Option.some.inj (hb.symm.trans hc)
  exact .set hget htypes

theorem Evolves.of_effect (hm : m.Consistent) {command : Command} (heffect : command.Effect m n) :
    m.Evolves n := by
  cases heffect with
  | rename name => exact .of_block? (fun _ => .inr rfl)
  | declareFunction name inputs output =>
      exact .of_block? (fun id => .inr (m.block?_withFunction name inputs output id))
  | appendBlock hf _ => exact .withBlock hf (hm.ids _ _ hf) _
  | appendEntryBlock hf => exact .withBlock hf (hm.ids _ _ hf) _
  | make _ site => exact .place m _ _
  | replaceOperand hi _ new =>
      exact .exchange hi (Operation.resultTypes_setOperand _ _ _)
  | replaceSuccessor old hi _ _ _ =>
      exact .exchange hi (Operation.resultTypes_mapSuccessors _ _)
  | removeInstruction _ _ => exact .modifyBlock (fun b _ => .erase b _)

/-- The operand names a result of an instruction that was removed. -/
def Removed (m : Module) (operand : Operand) : Prop :=
  ∃ id index b, operand = .result id index ∧ m.block? id.block = some b ∧
    id.address < b.nextAddress ∧ b.get? id.address = none

/-- The operand has a type of the given kind, or named a value that was removed. -/
def Fits (m : Module) (kind : ValueType → Prop) (operand : Operand) : Prop :=
  (∃ type, m.operandType? operand = some type ∧ kind type) ∨ m.Removed operand

theorem Removed.operandType?_eq_none {operand : Operand} (h : m.Removed operand) :
    m.operandType? operand = none := by
  obtain ⟨id, index, b, rfl, hb, -, hget⟩ := h
  simp [operandType?, instruction?, hb, hget]

theorem Fits.of_operandType? {kind : ValueType → Prop} {operand : Operand} {type : ValueType}
    (h : m.Fits kind operand) (htype : m.operandType? operand = some type) : kind type := by
  rcases h with ⟨found, hfound, hkind⟩ | hremoved
  · obtain rfl := Option.some.inj (hfound.symm.trans htype)
    exact hkind
  · simp [hremoved.operandType?_eq_none] at htype

theorem Removed.mono (hevolves : m.Evolves n) {operand : Operand} (h : m.Removed operand) :
    n.Removed operand := by
  obtain ⟨id, index, b, rfl, hb, hlt, hget⟩ := h
  obtain ⟨c, hc, hblock⟩ := hevolves id.block b hb
  refine ⟨id, index, c, rfl, hc, Nat.lt_of_lt_of_le hlt hblock.nextAddress, ?_⟩
  rcases hblock.kept id.address hlt with hnone | ⟨i, j, hi, -⟩
  · exact hnone
  · simp [hget] at hi

/-- What an operand names keeps its type until it is removed. -/
theorem Fits.mono (hevolves : m.Evolves n) {kind : ValueType → Prop} {operand : Operand}
    (h : m.Fits kind operand) : n.Fits kind operand := by
  rcases h with ⟨type, htype, hkind⟩ | hremoved
  · cases operand with
    | constant value => exact .inl ⟨type, htype, hkind⟩
    | parameter block index =>
        obtain ⟨b, hb, hparam⟩ := Option.bind_eq_some_iff.1 htype
        obtain ⟨c, hc, hblock⟩ := hevolves block b hb
        refine .inl ⟨type, ?_, hkind⟩
        simp [operandType?, hc, hblock.params, hparam]
    | result id index =>
        obtain ⟨i, hi, hresult⟩ := Option.bind_eq_some_iff.1 htype
        obtain ⟨b, hb, hget⟩ := instruction?_eq_some.1 hi
        obtain ⟨c, hc, hblock⟩ := hevolves id.block b hb
        have hlt := Block.lt_nextAddress_of_get? hget
        rcases hblock.kept id.address hlt with hnone | ⟨old, new, hold, hnew, htypes⟩
        · exact .inr ⟨id, index, c, rfl, hc, Nat.lt_of_lt_of_le hlt hblock.nextAddress, hnone⟩
        · obtain rfl := Option.some.inj (hold.symm.trans hget)
          refine .inl ⟨type, ?_, hkind⟩
          simp [operandType?, instruction?, hc, hnew, htypes, hresult]
  · exact .inr (hremoved.mono hevolves)

end Module

end BlockIR
