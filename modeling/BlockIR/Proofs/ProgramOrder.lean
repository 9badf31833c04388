import BlockIR.Proofs.Persistence
/-!
Program order.

A block keeps the order of its instructions apart from their slots, so that an instruction can be
inserted between others and keep its address.  An edit takes an address out of the order or puts a
new one in; what stands in a function before and after it is listed in the same order.
-/

namespace BlockIR

namespace Block

variable {b c : Block} {i : Instruction} {address : Nat}

/-- What stands in both blocks stands in the same order in both. -/
def SameOrder (b c : Block) : Prop :=
  c.order.filter (fun address => (b.get? address).isSome) =
    b.order.filter (fun address => (c.get? address).isSome)

theorem SameOrder.refl (b : Block) : b.SameOrder b := rfl

theorem filter_insertIdx {p : Nat → Bool} {new : Nat} (hnew : p new = false) (order : List Nat)
    (index : Nat) : (order.insertIdx index new).filter p = order.filter p := by
  induction order generalizing index with
  | nil => cases index <;> simp [hnew]
  | cons head tail ih =>
      cases index with
      | zero => simp [hnew]
      | succ index => simp [List.filter_cons, ih]

/-- A block that gets an instruction more, wherever that stands. -/
theorem SameOrder.of_get? (hb : b.Ordered) (index : Nat)
    (horder : c.order = b.order.insertIdx index b.nextAddress)
    (hget : ∀ other, c.get? other = if other = b.nextAddress then some i else b.get? other) :
    b.SameOrder c := by
  rw [SameOrder, horder, filter_insertIdx (by simp [get?_nextAddress])]
  refine List.filter_congr (fun other hother => ?_)
  have hne : other ≠ b.nextAddress := by
    rintro rfl
    exact nextAddress_notMem_order hb hother
  rw [hget, if_neg hne]

theorem SameOrder.push (hb : b.Ordered) (i : Instruction) : b.SameOrder (b.push i) := by
  refine .of_get? hb b.order.length ?_ (b.get?_push i)
  simp [Block.push]

theorem SameOrder.insertBefore (hb : b.Ordered) (anchor : Nat) (i : Instruction) :
    b.SameOrder (b.insertBefore anchor i) :=
  .of_get? hb _ rfl (b.get?_insertBefore anchor i)

theorem SameOrder.set (hlive : (b.get? address).isSome) (i : Instruction) :
    b.SameOrder (b.set address i) := by
  refine List.filter_congr (fun other _ => ?_)
  rw [get?_set hlive]
  split
  · rename_i heq
    simp [heq, hlive]
  · rfl

theorem SameOrder.erase (hb : b.Ordered) (address : Nat) : b.SameOrder (b.erase address) := by
  have horder : (b.erase address).order = b.order.filter (fun other => other != address) :=
    hb.nodup.erase_eq_filter address
  rw [SameOrder, horder, List.filter_filter]
  refine List.filter_congr (fun other _ => ?_)
  rw [get?_erase]
  by_cases heq : other = address <;> simp [heq]

/-- The identities of the live instructions of a block in program order. -/
def listing (b : Block) (id : BlockId) : List InstructionId :=
  b.order.map (fun address => ⟨id, address⟩)

end Block

namespace Function

/-- The identities of the live instructions in program order. -/
def listing (f : Function) : List InstructionId := f.instructions.map Prod.fst

theorem listing_eq_flatMap {f : Function} (hf : ∀ b ∈ f.blocks, b.Ordered) :
    f.listing = f.blocks.zipIdx.flatMap (fun entry => entry.1.listing ⟨f.id, entry.2⟩) := by
  simp only [listing, instructions, blocksWithId, List.map_flatMap, List.flatMap_map, List.map_map]
  refine List.flatMap_congr (fun entry hentry => ?_)
  have hordered := hf entry.1 (List.fst_mem_of_mem_zipIdx hentry)
  rw [Block.listing, ← hordered.map_fst_instructions, List.map_map]
  rfl

/-- Lists of blocks give the same if they do so address by address; a block that is missing gives
nothing. -/
theorem flatMap_zipIdx_congr {α : Type} (left right : Block → Nat → List α) (start : Nat)
    (blocks others : List Block)
    (h : ∀ index, (blocks[index]?).elim [] (left · (start + index)) =
      (others[index]?).elim [] (right · (start + index))) :
    (blocks.zipIdx start).flatMap (fun entry => left entry.1 entry.2) =
      (others.zipIdx start).flatMap (fun entry => right entry.1 entry.2) := by
  induction blocks generalizing others start with
  | nil =>
      induction others generalizing start with
      | nil => rfl
      | cons other others ih =>
          have hfirst : [] = right other start := by simpa using h 0
          have hrest := ih (start + 1) (fun index => by
            simpa [Nat.add_assoc, Nat.add_comm 1] using h (index + 1))
          simpa [← hfirst] using hrest
  | cons block blocks ih =>
      cases others with
      | nil =>
          have hfirst : left block start = [] := by simpa using h 0
          have hrest := ih (start + 1) [] (fun index => by
            simpa [Nat.add_assoc, Nat.add_comm 1] using h (index + 1))
          simpa [hfirst] using hrest
      | cons other others =>
          have hfirst : left block start = right other start := by simpa using h 0
          have hrest := ih (start + 1) others (fun index => by
            simpa [Nat.add_assoc, Nat.add_comm 1] using h (index + 1))
          simpa [hfirst] using hrest

end Function

namespace Module

variable {m n : Module}

/-- The block of an identity; one that does not exist counts as empty. -/
def blockAt (m : Module) (id : BlockId) : Block := (m.block? id).getD (.empty [])

theorem instruction?_eq_blockAt (m : Module) (block : BlockId) (address : Nat) :
    m.instruction? ⟨block, address⟩ = (m.blockAt block).get? address := by
  cases hb : m.block? block with
  | none => simp [instruction?, blockAt, hb, Block.get?, Block.empty]
  | some b => simp [instruction?, blockAt, hb]

/-- What stands in both modules stands in the same order in both. -/
def SameOrder (m n : Module) : Prop := ∀ id, (m.blockAt id).SameOrder (n.blockAt id)

theorem SameOrder.of_block? (h : ∀ id, n.block? id = m.block? id) : m.SameOrder n := by
  intro id
  rw [blockAt, blockAt, h]
  exact .refl _

theorem SameOrder.withBlock {function : FunctionId} {f : Function}
    (hf : m.function? function = some f) (hid : f.id = function) (params : List ValueType) :
    m.SameOrder (m.withBlock function params) := by
  intro id
  rw [blockAt, blockAt, block?_withBlock hf hid]
  split
  · rename_i heq
    rw [heq, block?_next hf]
    rfl
  · exact .refl _

theorem SameOrder.modifyBlock {id : BlockId} {change : Block → Block}
    (hchange : ∀ b, m.block? id = some b → b.SameOrder (change b)) :
    m.SameOrder (m.modifyBlock id change) := by
  intro other
  rw [blockAt, blockAt, block?_modifyBlock]
  split
  · rename_i heq
    rw [heq]
    cases hb : m.block? id with
    | none => exact .refl _
    | some b => exact hchange b hb
  · exact .refl _

theorem SameOrder.of_effect (hm : m.Consistent) {command : Command}
    (heffect : command.Effect m n) : m.SameOrder n := by
  have hexchange : ∀ {id i j}, m.instruction? id = some i → m.SameOrder (m.exchange id j) := by
    intro id i j hi
    refine .modifyBlock (fun b hb => .set ?_ j)
    obtain ⟨c, hc, hget⟩ := instruction?_eq_some.1 hi
    obtain rfl := Option.some.inj (hb.symm.trans hc)
    simp [hget]
  cases heffect with
  | rename name => exact .of_block? (fun _ => rfl)
  | declareFunction name inputs output =>
      exact .of_block? (m.block?_withFunction name inputs output)
  | appendBlock hf _ => exact .withBlock hf (hm.ids _ _ hf) _
  | appendEntryBlock hf => exact .withBlock hf (hm.ids _ _ hf) _
  | @make point _ operation _ site =>
      cases point with
      | atEnd block => exact .modifyBlock (fun b hb => .push (hm.ordered _ b hb) _)
      | before anchor =>
          exact .modifyBlock (fun b hb => .insertBefore (hm.ordered _ b hb) anchor.address _)
  | replaceOperand hi _ _ => exact hexchange hi
  | replaceSuccessor _ hi _ _ _ => exact hexchange hi
  | removeInstruction _ _ => exact .modifyBlock (fun b hb => .erase (hm.ordered _ b hb) _)

/-- An instruction comes before another in the program order of their function. -/
def Precedes (m : Module) (first second : InstructionId) : Prop :=
  ∃ f, m.function? first.function = some f ∧ [first, second].Sublist f.listing

theorem Consistent.blockAt_eq (hm : m.Consistent) {function : FunctionId} {f : Function}
    (hf : m.function? function = some f) (address : Nat) :
    m.blockAt ⟨function, address⟩ = (f.blocks[address]?).getD (.empty []) := by
  simp [blockAt, block?, hf, Function.block?, hm.ids _ f hf]

theorem Consistent.listing_eq_flatMap (hm : m.Consistent) {function : FunctionId} {f : Function}
    (hf : m.function? function = some f) :
    f.listing = f.blocks.zipIdx.flatMap (fun entry => entry.1.listing ⟨function, entry.2⟩) := by
  have hid := hm.ids _ f hf
  rw [Function.listing_eq_flatMap, hid]
  intro b hb
  obtain ⟨address, haddress⟩ := List.mem_iff_getElem?.1 hb
  refine hm.ordered ⟨function, address⟩ b (block?_eq_some.2 ⟨f, hf, ?_⟩)
  simpa [Function.block?, hid] using haddress

theorem SameOrder.filter_blockListing (h : m.SameOrder n) (id : BlockId) :
    ((n.blockAt id).listing id).filter (fun id => (m.instruction? id).isSome) =
      ((m.blockAt id).listing id).filter (fun id => (n.instruction? id).isSome) := by
  simp only [Block.listing, List.filter_map, Function.comp_def, instruction?_eq_blockAt]
  rw [h id]

/-- The listings of a function agree on what stands in both modules. -/
theorem SameOrder.filter_listing (h : m.SameOrder n) (hm : m.Consistent) (hn : n.Consistent)
    {function : FunctionId} {f g : Function} (hf : m.function? function = some f)
    (hg : n.function? function = some g) :
    g.listing.filter (fun id => (m.instruction? id).isSome) =
      f.listing.filter (fun id => (n.instruction? id).isSome) := by
  have hmissing : ∀ (m : Module) (blocks : List Block) (address : Nat),
      (blocks[address]?).elim [] (fun b =>
        (b.listing ⟨function, address⟩).filter (fun id => (m.instruction? id).isSome)) =
      (((blocks[address]?).getD (.empty [])).listing ⟨function, address⟩).filter
        (fun id => (m.instruction? id).isSome) := by
    intro m blocks address
    cases blocks[address]? <;> rfl
  rw [hm.listing_eq_flatMap hf, hn.listing_eq_flatMap hg, List.filter_flatMap, List.filter_flatMap]
  refine Function.flatMap_zipIdx_congr
    (fun b address => (b.listing ⟨function, address⟩).filter (fun id => (m.instruction? id).isSome))
    (fun b address => (b.listing ⟨function, address⟩).filter (fun id => (n.instruction? id).isSome))
    0 g.blocks f.blocks ?_
  intro address
  rw [Nat.zero_add, hmissing, hmissing, ← hm.blockAt_eq hf, ← hn.blockAt_eq hg]
  exact h.filter_blockListing ⟨function, address⟩

/-- Of two instructions that stand in both modules the same one comes first. -/
theorem SameOrder.precedes_iff (h : m.SameOrder n) (hm : m.Consistent) (hn : n.Consistent)
    (hextends : m.Extends n) {first second : InstructionId}
    (hfirst : (m.instruction? first).isSome ∧ (n.instruction? first).isSome)
    (hsecond : (m.instruction? second).isSome ∧ (n.instruction? second).isSome) :
    m.Precedes first second ↔ n.Precedes first second := by
  obtain ⟨f, hf⟩ : ∃ f, m.function? first.function = some f := by
    obtain ⟨i, hi⟩ := Option.isSome_iff_exists.1 hfirst.1
    obtain ⟨b, hb, -⟩ := instruction?_eq_some.1 hi
    obtain ⟨f, hf, -⟩ := block?_eq_some.1 hb
    exact ⟨f, hf⟩
  obtain ⟨g, hg, -⟩ := hextends.functions _ f hf
  have hsame := h.filter_listing hm hn hf hg
  -- Both stand in either module, so neither is lost where the listings are cut to what they share.
  simp only [Precedes, hf, hg, Option.some.injEq, exists_eq_left']
  constructor
  · intro hbefore
    have hkept := hbefore.filter (fun id => (n.instruction? id).isSome)
    rw [← hsame] at hkept
    simpa [hfirst, hsecond] using hkept.trans List.filter_sublist
  · intro hafter
    have hkept := hafter.filter (fun id => (m.instruction? id).isSome)
    rw [hsame] at hkept
    simpa [hfirst, hsecond] using hkept.trans List.filter_sublist

end Module

end BlockIR
