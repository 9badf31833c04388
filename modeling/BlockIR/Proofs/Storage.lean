import BlockIR.Proofs.Consistency
import Mathlib.Data.List.Nodup
/-!
How a module is stored.

A function is found by its place in the module, a block by its place in the function, and an
instruction by its slot, while the program order of a block is kept apart from the slots.  Nothing
that is looked up says so if these get out of step, so it is shown here that they never do: in a
reachable module every function knows its own place, an entry takes the inputs of its function, and
all views of a block tell the same live instructions.
-/

namespace BlockIR

namespace Block

variable {b : Block}

/-- The place of an address in program order. -/
def position? (b : Block) (address : Nat) : Option Nat := b.order.idxOf? address

/-- All views of a block tell the same live instructions: the slots, the order, the place in it, the
program, the number and the last one. -/
structure Coherent (b : Block) : Prop where
  distinct : b.order.Nodup
  listed : ∀ address, address ∈ b.order ↔ ∃ i, b.slots[address]? = some (some i)
  program : ∀ address i, (address, i) ∈ b.instructions ↔ b.get? address = some i
  place : ∀ address place,
    b.position? address = some place ↔ b.instructions[place]?.map Prod.fst = some address
  counted : b.size = b.instructions.length ∧ b.size = b.slots.countP Option.isSome
  last : b.lastAddress? = b.instructions.getLast?.map Prod.fst

theorem get?_eq_some {address : Nat} {i : Instruction} :
    b.get? address = some i ↔ b.slots[address]? = some (some i) :=
  Option.join_eq_some_iff

/-- The slots are what is found at their addresses. -/
theorem slots_eq_map_get? (b : Block) : b.slots = (List.range b.slots.length).map b.get? := by
  apply List.ext_getElem?
  intro address
  rw [List.getElem?_map]
  by_cases hin : address < b.slots.length
  · simp [get?, hin]
  · simp [hin]

/-- The order lists the addresses of the slots that are in use, in some order. -/
theorem Ordered.perm_order (h : b.Ordered) :
    b.order.Perm ((List.range b.slots.length).filter (fun address => (b.get? address).isSome)) := by
  rw [List.perm_ext_iff_of_nodup h.nodup (List.nodup_range.filter _)]
  intro address
  rw [h.mem_iff, List.mem_filter, List.mem_range]
  refine ⟨fun hlive => ⟨?_, hlive⟩, And.right⟩
  obtain ⟨i, hi⟩ := Option.isSome_iff_exists.1 hlive
  exact lt_nextAddress_of_get? hi

theorem Ordered.size_eq_countP (h : b.Ordered) : b.size = b.slots.countP Option.isSome := by
  have hcount : b.slots.countP Option.isSome =
      ((List.range b.slots.length).map b.get?).countP Option.isSome := by
    rw [← slots_eq_map_get?]
  rw [size, h.perm_order.length_eq, hcount, List.countP_map, List.countP_eq_length_filter]
  rfl

/-- Where no address is listed twice, its first place is its only one. -/
theorem Ordered.position?_eq_some (h : b.Ordered) {address place : Nat} :
    b.position? address = some place ↔ b.order[place]? = some address := by
  rw [position?, List.idxOf?_eq_some_iff, List.getElem?_eq_some_iff]
  constructor
  · rintro ⟨hin, hhere, -⟩
    exact ⟨hin, hhere⟩
  · rintro ⟨hin, hhere⟩
    refine ⟨hin, hhere, ?_⟩
    intro earlier hearlier hthere
    have hsame := h.nodup.getElem_inj_iff.1 (hthere.trans hhere.symm)
    omega

theorem Ordered.getElem?_instructions (h : b.Ordered) (place : Nat) :
    b.instructions[place]?.map Prod.fst = b.order[place]? := by
  rw [← List.getElem?_map, h.map_fst_instructions]

theorem Ordered.coherent (h : b.Ordered) : b.Coherent where
  distinct := h.nodup
  listed := by
    intro address
    simp only [h.mem_iff, Option.isSome_iff_exists, get?_eq_some]
  program := fun _ _ => h.mem_instructions
  place := by
    intro address place
    rw [h.position?_eq_some, h.getElem?_instructions]
  counted := by
    refine ⟨?_, h.size_eq_countP⟩
    rw [size, ← h.map_fst_instructions, List.length_map]
  last := by
    rw [lastAddress?, ← h.map_fst_instructions, List.getLast?_map]

end Block

namespace Function

variable {f : Function}

/-- The first block, if there is one, has the inputs of the function as its parameters. -/
def EntryTakesInputs (f : Function) : Prop :=
  ∀ b, f.blocks.head? = some b → b.params = f.inputs

theorem EntryTakesInputs.append (h : f.EntryTakesInputs) {b : Block}
    (hfirst : f.blocks = [] → f.inputs = b.params) :
    EntryTakesInputs { f with blocks := f.blocks ++ [b] } := by
  intro c hc
  rw [List.head?_append] at hc
  cases hblocks : f.blocks with
  | nil =>
      obtain rfl : b = c := by simpa [hblocks] using hc
      exact (hfirst hblocks).symm
  | cons head rest =>
      obtain rfl : head = c := by simpa [hblocks] using hc
      exact h head (by simp [hblocks])

theorem EntryTakesInputs.modifyBlock (h : f.EntryTakesInputs) (address : Nat)
    {change : Block → Block} (hparams : ∀ b, (change b).params = b.params) :
    (f.modifyBlock address change).EntryTakesInputs := by
  intro c hc
  change c.params = f.inputs
  rw [List.head?_eq_getElem?, Function.modifyBlock, List.getElem?_modify] at hc
  obtain ⟨b, hb, rfl⟩ := Option.map_eq_some_iff.1 hc
  rw [← List.head?_eq_getElem?] at hb
  split
  · rw [hparams, h b hb]
  · exact h b hb

end Function

namespace Module

variable {m : Module}

/-- In every function the first block has the inputs of the function as its parameters. -/
def EntriesTakeInputs (m : Module) : Prop :=
  ∀ id f, m.function? id = some f → f.EntryTakesInputs

theorem EntriesTakeInputs.modifyFunction (h : m.EntriesTakeInputs) {id : FunctionId}
    {change : Function → Function}
    (hchange : ∀ f, m.function? id = some f → f.EntryTakesInputs → (change f).EntryTakesInputs) :
    (m.modifyFunction id change).EntriesTakeInputs := by
  intro other g hg
  rw [function?_modifyFunction] at hg
  split at hg
  · obtain ⟨f, hf, rfl⟩ := Option.map_eq_some_iff.1 hg
    exact hchange f hf (h id f hf)
  · exact h other g hg

theorem EntriesTakeInputs.withFunction (h : m.EntriesTakeInputs) (name : String)
    (inputs : List ValueType) (output : ObjectType) :
    (m.withFunction name inputs output).EntriesTakeInputs := by
  intro id f hf
  rw [function?_withFunction] at hf
  split at hf
  · obtain rfl := Option.some.inj hf
    intro b hb
    simp at hb
  · exact h id f hf

theorem EntriesTakeInputs.withBlock (h : m.EntriesTakeInputs) {function : FunctionId}
    {f : Function} (hf : m.function? function = some f) {params : List ValueType}
    (hfirst : f.blocks = [] → f.inputs = params) :
    (m.withBlock function params).EntriesTakeInputs := by
  refine h.modifyFunction ?_
  intro g hg hentry
  obtain rfl := Option.some.inj (hf.symm.trans hg)
  exact hentry.append hfirst

theorem EntriesTakeInputs.modifyBlock (h : m.EntriesTakeInputs) {id : BlockId}
    {change : Block → Block} (hparams : ∀ b, (change b).params = b.params) :
    (m.modifyBlock id change).EntriesTakeInputs :=
  h.modifyFunction (fun _ _ hentry => hentry.modifyBlock id.address hparams)

theorem EntriesTakeInputs.after (h : m.EntriesTakeInputs) (command : Command) :
    (m.after command).EntriesTakeInputs := by
  rcases m.after_eq_or_effect command with hsame | heffect
  · rw [hsame]
    exact h
  · generalize m.after command = n at heffect
    cases heffect with
    | rename name => exact h
    | declareFunction name inputs output => exact h.withFunction name inputs output
    | appendBlock hf hfirst => exact h.withBlock hf hfirst
    | appendEntryBlock hf => exact h.withBlock hf (fun _ => rfl)
    | @make point _ _ _ _ => cases point <;> exact h.modifyBlock (fun _ => rfl)
    | replaceOperand _ _ _ => exact h.modifyBlock (fun _ => rfl)
    | replaceSuccessor _ _ _ _ _ => exact h.modifyBlock (fun _ => rfl)
    | removeInstruction _ _ => exact h.modifyBlock (fun _ => rfl)

theorem Reachable.entriesTakeInputs (hm : m.Reachable) : m.EntriesTakeInputs := by
  refine hm.invariant ?_ (fun _ command h => h.after command)
  intro name id f hf
  simp [Module.empty, function?] at hf

/-- The block that stands at a place of a function is found by its identity. -/
theorem Consistent.block?_of_getElem? (hm : m.Consistent) {f : Function} {b : Block} {index : Nat}
    {address : Nat} (hf : m.functions[index]? = some f) (hb : f.blocks[address]? = some b) :
    m.block? ⟨f.id, address⟩ = some b := by
  have hid : f.id = ⟨index⟩ := hm.ids ⟨index⟩ f hf
  refine block?_eq_some.2 ⟨f, ?_, ?_⟩
  · rw [hid]
    exact hf
  · simpa [Function.block?] using hb

/-- What is stored stays in step after any history, with failed requests in it: a function's
identity is its place, a function with blocks has an entry that takes its inputs, and all views of a
block tell the same live instructions. -/
theorem stored_in_step {m : Module} (hm : m.Reachable) :
    (∀ (index : Nat) (f : Function), m.functions[index]? = some f → f.id = ⟨index⟩) ∧
    (∀ f ∈ m.functions, f.blocks ≠ [] → ∃ entry b,
      f.entry? = some entry ∧ m.block? entry = some b ∧ b.params = f.inputs) ∧
    ∀ f ∈ m.functions, ∀ b ∈ f.blocks, b.Coherent := by
  have hconsistent := hm.consistent
  refine ⟨?_, ?_, ?_⟩
  · intro index f hf
    exact hconsistent.ids ⟨index⟩ f hf
  · intro f hmem hbody
    obtain ⟨index, hf⟩ := List.getElem?_of_mem hmem
    obtain ⟨b, rest, hblocks⟩ := List.exists_cons_of_ne_nil hbody
    have hentry : f.entry? = some ⟨f.id, 0⟩ := by simp [Function.entry?, hblocks]
    refine ⟨_, b, hentry, hconsistent.block?_of_getElem? hf (by simp [hblocks]), ?_⟩
    exact hm.entriesTakeInputs ⟨index⟩ f hf b (by simp [hblocks])
  · intro f hmem b hb
    obtain ⟨index, hf⟩ := List.getElem?_of_mem hmem
    obtain ⟨address, haddress⟩ := List.getElem?_of_mem hb
    exact (hconsistent.ordered _ b (hconsistent.block?_of_getElem? hf haddress)).coherent

section Mended

/-- A function whose first request for a block is refused, whose entry lost its oldest instruction
and took others before the ones it has, and a second function that an emitter began: closing its
frame frees the slot of the second function and fails at the one of the first. -/
def mended : Module :=
  let entry : BlockId := ⟨⟨0⟩, 0⟩
  let make (point : InsertionPoint) (draft : Draft) : Command := .make point draft .synthetic
  let edited := List.foldl Module.after (.empty "test")
    [.declareFunction "first" [.ofBuiltin .i1] .void, .appendBlock ⟨0⟩ [], .appendEntryBlock ⟨0⟩,
      .appendBlock ⟨0⟩ [], make (.atEnd entry) (.allocStack (.builtin .i64)),
      make (.atEnd entry) .ret, make (.before ⟨entry, 1⟩) (.allocStack (.builtin .i1)),
      make (.before ⟨entry, 0⟩) (.allocStack (.builtin .f64)), .removeInstruction ⟨entry, 0⟩,
      .removeInstruction ⟨entry, 0⟩, make (.before ⟨entry, 0⟩) (.allocStack (.builtin .i8))]
  List.foldl Emitter.after (.ofModule edited)
    [.beginFunction "second" [] .void, .setInsertionBlock ⟨⟨0⟩, 1⟩,
      .allocateLocal (.builtin .i64) .synthetic, .setInsertionBlock ⟨⟨1⟩, 0⟩,
      .allocateLocal (.builtin .i64) .synthetic, .popFrame .synthetic]
    |>.module

theorem mended_in_step :
    let stored (id : BlockId) : Option (List Nat × List Bool) :=
      (mended.block? id).map (fun b => (b.order, b.slots.map Option.isSome))
    stored ⟨⟨0⟩, 0⟩ = some ([3, 2, 1], [false, true, true, true]) ∧
    stored ⟨⟨0⟩, 1⟩ = some ([0], [true]) ∧
    stored ⟨⟨1⟩, 0⟩ = some ([0, 1], [true, true]) ∧
    (∀ (index : Nat) (f : Function), mended.functions[index]? = some f → f.id = ⟨index⟩) ∧
    ∀ f ∈ mended.functions, ∀ b ∈ f.blocks, b.Coherent := by
  have hreachable : mended.Reachable := ((Reachable.empty "test").edits _).emit _
  obtain ⟨hids, -, hcoherent⟩ := stored_in_step hreachable
  exact ⟨by decide +kernel, by decide +kernel, by decide +kernel, hids, hcoherent⟩

end Mended

end Module

end BlockIR
