import BlockIR.Module.Edit
import Mathlib.Data.List.Perm.Basic
/-!
Looking things up in an edited module.  Each edit changes one function, one block or one slot, and
everything else is found as before.
-/

namespace BlockIR

theorem InstructionId.eq_iff {id other : InstructionId} :
    other = id ↔ other.block = id.block ∧ other.address = id.address := by
  cases id
  cases other
  simp

namespace Block

variable {b : Block} {i : Instruction} {address anchor other : Nat}

/-- The order lists each live instruction once and nothing else. -/
structure Ordered (b : Block) : Prop where
  nodup : b.order.Nodup
  mem_iff : ∀ address, address ∈ b.order ↔ (b.get? address).isSome

theorem lt_nextAddress_of_get? (h : b.get? address = some i) : address < b.nextAddress := by
  by_contra hge
  have hnone : b.slots[address]? = none := List.getElem?_eq_none (Nat.le_of_not_lt hge)
  simp [get?, hnone] at h

theorem get?_nextAddress (b : Block) : b.get? b.nextAddress = none := by
  simp [get?, nextAddress]

theorem get?_append_slot (slots : List (Option Instruction)) (i : Instruction) (other : Nat) :
    (slots ++ [some i])[other]?.join =
      if other = slots.length then some i else slots[other]?.join := by
  by_cases heq : other = slots.length
  · simp [heq]
  · rcases Nat.lt_or_gt_of_ne heq with hlt | hgt
    · simp [heq, List.getElem?_append_left hlt]
    · have hleft : (slots ++ [some i])[other]? = none :=
        List.getElem?_eq_none (by simp; omega)
      have hright : slots[other]? = none := List.getElem?_eq_none (Nat.le_of_lt hgt)
      simp [heq, hleft, hright]

theorem get?_push (b : Block) (i : Instruction) (other : Nat) :
    (b.push i).get? other = if other = b.nextAddress then some i else b.get? other :=
  get?_append_slot b.slots i other

theorem get?_insertBefore (b : Block) (anchor : Nat) (i : Instruction) (other : Nat) :
    (b.insertBefore anchor i).get? other =
      if other = b.nextAddress then some i else b.get? other :=
  get?_append_slot b.slots i other

theorem get?_set (hlive : (b.get? address).isSome) (i : Instruction) (other : Nat) :
    (b.set address i).get? other = if other = address then some i else b.get? other := by
  obtain ⟨old, hold⟩ := Option.isSome_iff_exists.1 hlive
  have hlt : address < b.slots.length := lt_nextAddress_of_get? hold
  by_cases heq : other = address
  · simp [get?, set, heq, hlt]
  · have hne : address ≠ other := fun h => heq h.symm
    simp [get?, set, heq, List.getElem?_set_ne hne]

theorem get?_erase (b : Block) (address other : Nat) :
    (b.erase address).get? other = if other = address then none else b.get? other := by
  by_cases heq : other = address
  · subst heq
    by_cases hlt : other < b.slots.length
    · simp [get?, erase, hlt]
    · simp [get?, erase, hlt]
  · have hne : address ≠ other := fun h => heq h.symm
    simp [get?, erase, heq, List.getElem?_set_ne hne]

theorem nextAddress_notMem_order (h : b.Ordered) : b.nextAddress ∉ b.order := by
  intro hmem
  have := (h.mem_iff _).1 hmem
  simp [get?_nextAddress] at this

theorem Ordered.empty (params : List ValueType) : (empty params).Ordered :=
  ⟨List.nodup_nil, by simp [Block.empty, get?]⟩

theorem Ordered.push (h : b.Ordered) (i : Instruction) : (b.push i).Ordered := by
  refine ⟨?_, ?_⟩
  · have hdisjoint : ∀ a ∈ b.order, ¬a = b.nextAddress := by
      rintro a ha rfl
      exact nextAddress_notMem_order h ha
    simpa [Block.push, List.nodup_append, h.nodup] using hdisjoint
  · intro other
    rw [get?_push]
    by_cases heq : other = b.nextAddress
    · simp [Block.push, heq]
    · simp [Block.push, heq, h.mem_iff]

theorem Ordered.insertBefore (h : b.Ordered) (anchor : Nat) (i : Instruction) :
    (b.insertBefore anchor i).Ordered := by
  have hle : b.order.idxOf anchor ≤ b.order.length := List.idxOf_le_length
  have hperm : (b.insertBefore anchor i).order.Perm (b.nextAddress :: b.order) :=
    List.perm_insertIdx _ _ hle
  refine ⟨hperm.nodup_iff.2 (List.nodup_cons.2 ⟨nextAddress_notMem_order h, h.nodup⟩), ?_⟩
  intro other
  rw [hperm.mem_iff, get?_insertBefore, List.mem_cons, h.mem_iff]
  by_cases heq : other = b.nextAddress <;> simp [heq]

theorem Ordered.set (h : b.Ordered) (hlive : (b.get? address).isSome) (i : Instruction) :
    (b.set address i).Ordered := by
  refine ⟨h.nodup, ?_⟩
  intro other
  rw [get?_set hlive]
  change other ∈ b.order ↔ _
  rw [h.mem_iff]
  by_cases heq : other = address
  · simp [heq, hlive]
  · simp [heq]

theorem Ordered.erase (h : b.Ordered) (address : Nat) : (b.erase address).Ordered := by
  refine ⟨h.nodup.erase _, ?_⟩
  intro other
  rw [get?_erase]
  change other ∈ b.order.erase address ↔ _
  rw [h.nodup.mem_erase_iff, h.mem_iff]
  by_cases heq : other = address <;> simp [heq]

/-- An entry of the program is a live instruction with its address. -/
theorem Ordered.mem_instructions (h : b.Ordered) :
    (address, i) ∈ b.instructions ↔ b.get? address = some i := by
  simp only [instructions, List.mem_filterMap, Option.map_eq_some_iff, Prod.mk.injEq]
  constructor
  · rintro ⟨_, -, _, hget, rfl, rfl⟩
    exact hget
  · intro hget
    exact ⟨address, (h.mem_iff address).2 (by simp [hget]), i, hget, rfl, rfl⟩

/-- The program lists the addresses of the order. -/
theorem Ordered.map_fst_instructions (h : b.Ordered) : b.instructions.map Prod.fst = b.order := by
  have hlive : ∀ a ∈ b.order, ((b.get? a).map (fun i => (a, i))).map Prod.fst = some a := by
    intro a ha
    obtain ⟨i, hi⟩ := Option.isSome_iff_exists.1 ((h.mem_iff a).1 ha)
    simp [hi]
  rw [instructions, List.map_filterMap, List.filterMap_congr hlive, List.filterMap_some]

theorem Ordered.instructions_push (h : b.Ordered) (i : Instruction) :
    (b.push i).instructions = b.instructions ++ [(b.nextAddress, i)] := by
  have hold : b.order.filterMap (fun a => ((b.push i).get? a).map (fun i => (a, i))) =
      b.order.filterMap (fun a => (b.get? a).map (fun i => (a, i))) := by
    apply List.filterMap_congr
    intro a ha
    have hne : a ≠ b.nextAddress := by
      rintro rfl
      exact nextAddress_notMem_order h ha
    rw [get?_push, if_neg hne]
  have hnew : ((b.push i).get? b.nextAddress).map (fun i => (b.nextAddress, i)) =
      some (b.nextAddress, i) := by
    simp [get?_push]
  have horder : (b.push i).order = b.order ++ [b.nextAddress] := rfl
  rw [instructions, horder, List.filterMap_append, hold, instructions]
  simp [hnew]

theorem terminator?_push (b : Block) (i : Instruction) :
    (b.push i).terminator? = if i.isTerminator then some i else none := by
  have hlast : (b.push i).lastAddress? = some b.nextAddress := by
    simp [lastAddress?, push]
  simp [terminator?, hlast, get?_push, Option.filter]

end Block

namespace Function

theorem block?_modifyBlock (f : Function) (id : BlockId) (change : Block → Block)
    (other : BlockId) (hother : other.function = id.function) :
    (f.modifyBlock id.address change).block? other =
      if other = id then (f.block? id).map change else f.block? other := by
  by_cases heq : other = id
  · subst heq
    by_cases hid : other.function = f.id <;> simp [block?, modifyBlock, hid]
  · have hne : id.address ≠ other.address := by
      intro haddress
      apply heq
      cases other
      cases id
      simp_all
    by_cases hid : other.function = f.id <;> simp [block?, modifyBlock, hid, heq, hne]

theorem function_of_block? {f : Function} {id : BlockId} {b : Block} (h : f.block? id = some b) :
    id.function = f.id := by
  by_contra hne
  simp [block?, hne] at h

/-- The blocks listed for a function are those that its identities name. -/
theorem block?_of_mem_blocksWithId {f : Function} {id : BlockId} {b : Block}
    (h : (id, b) ∈ f.blocksWithId) : f.block? id = some b := by
  obtain ⟨⟨_, address⟩, hentry, heq⟩ := List.mem_map.1 h
  obtain ⟨rfl, rfl⟩ := Prod.mk.inj heq
  simpa [block?] using List.mem_zipIdx_iff_getElem?.1 hentry

/-- A function with a block has an entry. -/
theorem entry?_of_block? {f : Function} {id : BlockId} {b : Block} (h : f.block? id = some b) :
    f.entry? = some ⟨f.id, 0⟩ := by
  unfold Function.entry?
  split
  · rename_i hempty
    simp [block?, List.isEmpty_iff.1 hempty] at h
  · rfl

end Function

namespace Module

variable {m : Module}

theorem function?_modifyFunction (m : Module) (id other : FunctionId)
    (change : Function → Function) :
    (m.modifyFunction id change).function? other =
      if other = id then (m.function? id).map change else m.function? other := by
  by_cases heq : other = id
  · simp [function?, modifyFunction, heq]
  · have hne : id.index ≠ other.index := by
      intro hindex
      apply heq
      cases other
      cases id
      simp_all
    simp [function?, modifyFunction, heq, hne]

theorem block?_modifyBlock (m : Module) (id other : BlockId) (change : Block → Block) :
    (m.modifyBlock id change).block? other =
      if other = id then (m.block? id).map change else m.block? other := by
  rw [block?, modifyBlock, function?_modifyFunction]
  by_cases hfunction : other.function = id.function
  · rw [if_pos hfunction]
    cases hf : m.function? id.function with
    | none => by_cases heq : other = id <;> simp [block?, hfunction, hf, heq]
    | some f =>
        simp only [Option.map_some, Option.bind_some, block?, hfunction, hf]
        exact f.block?_modifyBlock id change other hfunction
  · have hne : other ≠ id := fun h => hfunction (by rw [h])
    rw [if_neg hfunction, if_neg hne, block?]

theorem instruction?_modifyBlock (m : Module) (id : BlockId) (other : InstructionId)
    (change : Block → Block) :
    (m.modifyBlock id change).instruction? other =
      if other.block = id then (m.block? id).bind (fun b => (change b).get? other.address)
      else m.instruction? other := by
  rw [instruction?, block?_modifyBlock]
  by_cases heq : other.block = id
  · rw [if_pos heq, if_pos heq, Option.bind_map]
    rfl
  · rw [if_neg heq, if_neg heq, instruction?]

theorem block?_eq_some {id : BlockId} {b : Block} :
    m.block? id = some b ↔ ∃ f, m.function? id.function = some f ∧ f.block? id = some b := by
  simp [block?, Option.bind_eq_some_iff]

theorem instruction?_eq_some {id : InstructionId} {i : Instruction} :
    m.instruction? id = some i ↔
      ∃ b, m.block? id.block = some b ∧ b.get? id.address = some i := by
  simp [instruction?, Option.bind_eq_some_iff]

/-- The second module differs from the first in one block only. -/
structure AltersOnly (m n : Module) (block : BlockId) : Prop where
  blocks : ∀ other, other ≠ block → n.block? other = m.block? other
  functions : ∀ other, other ≠ block.function → n.function? other = m.function? other
  signature : ∃ f g, m.function? block.function = some f ∧ n.function? block.function = some g ∧
    g = { f with blocks := g.blocks } ∧ g.blocks.length = f.blocks.length
  name : n.name = m.name

theorem AltersOnly.modifyBlock {id : BlockId} (hblock : (m.block? id).isSome)
    (change : Block → Block) : m.AltersOnly (m.modifyBlock id change) id where
  blocks other hother := by rw [block?_modifyBlock, if_neg hother]
  functions other hother := by rw [Module.modifyBlock, function?_modifyFunction, if_neg hother]
  signature := by
    obtain ⟨b, hb⟩ := Option.isSome_iff_exists.1 hblock
    obtain ⟨f, hf, -⟩ := block?_eq_some.1 hb
    refine ⟨f, f.modifyBlock id.address change, hf, ?_, rfl, by simp [Function.modifyBlock]⟩
    rw [Module.modifyBlock, function?_modifyFunction, if_pos rfl, hf]
    rfl
  name := rfl

theorem instruction?_empty (name : String) (id : InstructionId) :
    (Module.empty name).instruction? id = none := by
  simp [Module.empty, instruction?, block?, function?]

/-- The slot of the next instruction is free. -/
theorem instruction?_nextInstruction (m : Module) (block : BlockId) :
    m.instruction? (m.nextInstruction block) = none := by
  cases hb : m.block? block with
  | none => simp [instruction?, nextInstruction, hb]
  | some b => simp [instruction?, nextInstruction, hb, Block.get?_nextAddress]

/-- The identity that the next function gets. -/
def nextFunction (m : Module) : FunctionId := ⟨m.functions.length⟩

/-- The module with a function more, which has no body. -/
def withFunction (m : Module) (name : String) (inputs : List ValueType) (output : ObjectType) :
    Module :=
  { m with functions := m.functions ++ [⟨⟨m.functions.length⟩, name, inputs, output, []⟩] }

/-- The module with a block more in one of its functions. -/
def withBlock (m : Module) (function : FunctionId) (params : List ValueType) : Module :=
  m.modifyFunction function (fun f => { f with blocks := f.blocks ++ [.empty params] })

theorem function?_withFunction (m : Module) (name : String) (inputs : List ValueType)
    (output : ObjectType) (other : FunctionId) :
    (m.withFunction name inputs output).function? other =
      if other.index = m.functions.length then
        some ⟨⟨m.functions.length⟩, name, inputs, output, []⟩
      else m.function? other := by
  simp only [function?, withFunction]
  by_cases heq : other.index = m.functions.length
  · simp [heq]
  · rw [if_neg heq]
    rcases Nat.lt_or_gt_of_ne heq with hlt | hgt
    · rw [List.getElem?_append_left hlt]
    · rw [List.getElem?_eq_none (Nat.le_of_lt hgt), List.getElem?_eq_none]
      simp only [List.length_append, List.length_singleton]
      omega

theorem block?_withFunction (m : Module) (name : String) (inputs : List ValueType)
    (output : ObjectType) (other : BlockId) :
    (m.withFunction name inputs output).block? other = m.block? other := by
  rw [block?, block?, function?_withFunction]
  split
  · rename_i heq
    have hnone : m.function? other.function = none := by simp [function?, heq]
    simp [hnone, Function.block?]
  · rfl

theorem instruction?_withFunction (m : Module) (name : String) (inputs : List ValueType)
    (output : ObjectType) (other : InstructionId) :
    (m.withFunction name inputs output).instruction? other = m.instruction? other := by
  rw [instruction?, block?_withFunction, instruction?]

/-- The place of the next block is free. -/
theorem block?_next {function : FunctionId} {f : Function} (hf : m.function? function = some f) :
    m.block? ⟨function, f.blocks.length⟩ = none := by
  rw [block?, hf]
  simp [Function.block?]

theorem block?_withBlock {function : FunctionId} {f : Function}
    (hf : m.function? function = some f) (hid : f.id = function) (params : List ValueType)
    (other : BlockId) :
    (m.withBlock function params).block? other =
      if other = ⟨function, f.blocks.length⟩ then some (.empty params) else m.block? other := by
  rw [block?, withBlock, function?_modifyFunction]
  by_cases hfunction : other.function = function
  · rw [if_pos hfunction, hf]
    have hlocal : other.function = f.id := by rw [hfunction, hid]
    simp only [Option.map_some, Option.bind_some, Function.block?, block?, hfunction, hf, hid,
      if_true]
    by_cases haddress : other.address = f.blocks.length
    · have heq : other = ⟨function, f.blocks.length⟩ := by
        cases other
        simp_all
      simp [heq]
    · have hne : other ≠ ⟨function, f.blocks.length⟩ := fun h => haddress (by rw [h])
      rw [if_neg hne]
      rcases Nat.lt_or_gt_of_ne haddress with hlt | hgt
      · rw [List.getElem?_append_left hlt]
      · rw [List.getElem?_eq_none (Nat.le_of_lt hgt), List.getElem?_eq_none]
        simp only [List.length_append, List.length_singleton]
        omega
  · have hne : other ≠ ⟨function, f.blocks.length⟩ := fun h => hfunction (by rw [h])
    rw [if_neg hfunction, if_neg hne, block?]

theorem instruction?_withBlock {function : FunctionId} {f : Function}
    (hf : m.function? function = some f) (hid : f.id = function) (params : List ValueType)
    (other : InstructionId) :
    (m.withBlock function params).instruction? other = m.instruction? other := by
  rw [instruction?, block?_withBlock hf hid, instruction?]
  split
  · rename_i heq
    simp [heq, block?_next hf, Block.empty, Block.get?]
  · rfl

/-- The module with a live instruction exchanged in its slot. -/
def exchange (m : Module) (id : InstructionId) (i : Instruction) : Module :=
  m.modifyBlock id.block (fun b => b.set id.address i)

/-- The module without an instruction. -/
def without (m : Module) (id : InstructionId) : Module :=
  m.modifyBlock id.block (fun b => b.erase id.address)

theorem instruction?_exchange {id : InstructionId} (hlive : (m.instruction? id).isSome)
    (i : Instruction) (other : InstructionId) :
    (m.exchange id i).instruction? other = if other = id then some i else m.instruction? other := by
  obtain ⟨old, hold⟩ := Option.isSome_iff_exists.1 hlive
  obtain ⟨b, hb, hget⟩ := instruction?_eq_some.1 hold
  simp only [exchange, instruction?_modifyBlock, InstructionId.eq_iff]
  by_cases hblock : other.block = id.block
  · have hsome : (b.get? id.address).isSome := by simp [hget]
    simp [hblock, hb, Block.get?_set hsome, instruction?]
  · simp [hblock]

theorem instruction?_without (m : Module) (id other : InstructionId) :
    (m.without id).instruction? other = if other = id then none else m.instruction? other := by
  simp only [without, instruction?_modifyBlock, InstructionId.eq_iff]
  by_cases hblock : other.block = id.block
  · by_cases haddress : other.address = id.address <;>
      simp [hblock, Block.get?_erase, instruction?, haddress]
  · simp [hblock]

theorem instruction?_place {point : InsertionPoint} (hblock : (m.block? point.block).isSome)
    (i : Instruction) (other : InstructionId) :
    (m.place point i).instruction? other =
      if other = m.nextInstruction point.block then some i else m.instruction? other := by
  obtain ⟨b, hb⟩ := Option.isSome_iff_exists.1 hblock
  have hnext : m.nextInstruction point.block = ⟨point.block, b.nextAddress⟩ := by
    simp [nextInstruction, hb]
  simp only [hnext, InstructionId.eq_iff]
  cases point with
  | atEnd block =>
      simp only [InsertionPoint.block] at hb ⊢
      rw [place, instruction?_modifyBlock]
      by_cases hother : other.block = block
      · simp [hother, hb, Block.get?_push, instruction?]
      · simp [hother]
  | before anchor =>
      simp only [InsertionPoint.block] at hb ⊢
      rw [place, instruction?_modifyBlock]
      by_cases hother : other.block = anchor.block
      · simp [hother, hb, Block.get?_insertBefore, instruction?]
      · simp [hother]

/-- A new instruction takes the place of no live one. -/
theorem instruction?_place_of_live {point : InsertionPoint}
    (hblock : (m.block? point.block).isSome) (i : Instruction) {id : InstructionId} {j : Instruction}
    (hj : m.instruction? id = some j) : (m.place point i).instruction? id = some j := by
  rw [instruction?_place hblock, if_neg, hj]
  rintro rfl
  simp [m.instruction?_nextInstruction point.block] at hj

end Module

end BlockIR
