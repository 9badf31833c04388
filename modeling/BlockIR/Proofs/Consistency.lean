import BlockIR.Proofs.Histories
import BlockIR.Proofs.InstructionTable
/-!
What holds of every reachable module: functions stand at their identities, the order of each block
lists its live instructions, and what is fixed when an instruction is made stays true of it.
-/

namespace BlockIR

theorem ObjectType.eq_of_outputs {s t : ObjectType}
    (h : (if s.isVoid then [] else [ValueType.object s]) =
      if t.isVoid then [] else [ValueType.object t]) : s = t := by
  cases s <;> cases t <;> simp_all [ObjectType.isVoid]

namespace Module

/-- Whatever the first module declares, the second declares with the same types. -/
structure Extends (m n : Module) : Prop where
  functions : ∀ id f, m.function? id = some f →
    ∃ g, n.function? id = some g ∧ g.inputs = f.inputs ∧ g.output = f.output
  blocks : ∀ id b, m.block? id = some b → ∃ c, n.block? id = some c ∧ c.params = b.params

/-- What is settled when an operation is made in a function, and what replacing operands or
successors leaves alone: edges stay in the function, a capability is one for addresses, and a call
fits the signature of its callee. -/
def Fixed (m : Module) (function : FunctionId) (operation : Operation) : Prop :=
  (∀ target ∈ operation.successors, m.IsTarget function target) ∧
  match operation with
  | .pointerToAddress _ target =>
      target.access = .letBound ∨ target.access = .inout ∨ target.access = .set
  | .call callee arguments output =>
      ∃ f, m.function? callee = some f ∧ f.inputs.length = arguments.length ∧ f.output = output
  | _ => True

structure Consistent (m : Module) : Prop where
  ids : ∀ id f, m.function? id = some f → f.id = id
  ordered : ∀ id b, m.block? id = some b → b.Ordered
  fixed : ∀ id i, m.instruction? id = some i → m.Fixed id.function i.operation

variable {m n : Module}

theorem Fixed.mono (hextends : m.Extends n) {function : FunctionId} {operation : Operation}
    (h : m.Fixed function operation) : n.Fixed function operation := by
  refine ⟨?_, ?_⟩
  · intro target htarget
    obtain ⟨hlocal, hsome⟩ := h.1 target htarget
    obtain ⟨b, hb⟩ := Option.isSome_iff_exists.1 hsome
    obtain ⟨c, hc, -⟩ := hextends.blocks target b hb
    exact ⟨hlocal, by simp [hc]⟩
  · cases operation with
    | call callee arguments output =>
        obtain ⟨f, hf, hlength, houtput⟩ := h.2
        obtain ⟨g, hg, hinputs, hresult⟩ := hextends.functions callee f hf
        exact ⟨g, hg, by rw [hinputs, hlength], by rw [hresult, houtput]⟩
    | _ => exact h.2

theorem Fixed.setOperand {function : FunctionId} {operation : Operation} (index : Nat)
    (new : Operand) (h : m.Fixed function operation) :
    m.Fixed function (operation.setOperand index new) := by
  cases operation with
  | call callee arguments output =>
      obtain ⟨f, hf, hlength, houtput⟩ := h.2
      exact ⟨h.1, f, hf, by simpa using hlength, houtput⟩
  | _ => exact h

theorem Fixed.mapSuccessors {function : FunctionId} {operation : Operation} {old new : BlockId}
    (hlocal : new.function = function) (hnew : (m.block? new).isSome)
    (h : m.Fixed function operation) :
    m.Fixed function (operation.mapSuccessors (fun b => if b = old then new else b)) := by
  refine ⟨?_, ?_⟩
  · intro target htarget
    rw [Operation.successors_mapSuccessors] at htarget
    obtain ⟨before, hbefore, rfl⟩ := List.mem_map.1 htarget
    split
    · exact ⟨hlocal, hnew⟩
    · exact h.1 before hbefore
  · cases operation <;> exact h.2

/-- An operation that satisfies its row when it is made has a capability for addresses and fits the
signature of its callee. -/
theorem Row.fixed {function : FunctionId} {operation : Operation}
    (hrow : m.Row function operation operation.resultTypes) : m.Fixed function operation := by
  refine ⟨hrow.successors, ?_⟩
  generalize hresults : operation.resultTypes = results at hrow
  cases hrow with
  | pointerToAddress haccess _ => exact haccess
  | call recorded hcallee harguments =>
      exact ⟨_, hcallee, harguments.length_eq.symm, (ObjectType.eq_of_outputs hresults).symm⟩
  | _ => trivial

theorem Extends.refl (m : Module) : m.Extends m where
  functions := fun _ f hf => ⟨f, hf, rfl, rfl⟩
  blocks := fun _ b hb => ⟨b, hb, rfl⟩

theorem Extends.modifyFunction {id : FunctionId} {change : Function → Function}
    (hinputs : ∀ f, (change f).inputs = f.inputs) (houtput : ∀ f, (change f).output = f.output)
    (hblocks : ∀ other b, m.block? other = some b →
      ∃ c, (m.modifyFunction id change).block? other = some c ∧ c.params = b.params) :
    m.Extends (m.modifyFunction id change) where
  functions := by
    intro other f hf
    rw [function?_modifyFunction]
    split
    · rename_i heq
      subst heq
      exact ⟨change f, by simp [hf], hinputs f, houtput f⟩
    · exact ⟨f, hf, rfl, rfl⟩
  blocks := hblocks

theorem Extends.modifyBlock {id : BlockId} {change : Block → Block}
    (hparams : ∀ b, (change b).params = b.params) : m.Extends (m.modifyBlock id change) := by
  refine Extends.modifyFunction (fun _ => rfl) (fun _ => rfl) ?_
  intro other b hb
  change ∃ c, (m.modifyBlock id change).block? other = some c ∧ _
  rw [block?_modifyBlock]
  split
  · rename_i heq
    subst heq
    exact ⟨change b, by simp [hb], hparams b⟩
  · exact ⟨b, hb, rfl⟩

theorem Extends.withFunction (m : Module) (name : String) (inputs : List ValueType)
    (output : ObjectType) : m.Extends (m.withFunction name inputs output) where
  functions := by
    intro id f hf
    have hne : id.index ≠ m.functions.length := by
      intro heq
      simp [function?, heq] at hf
    exact ⟨f, by rw [function?_withFunction, if_neg hne, hf], rfl, rfl⟩
  blocks := fun id b hb => ⟨b, by rw [block?_withFunction, hb], rfl⟩

theorem Extends.withBlock {function : FunctionId} {f : Function}
    (hf : m.function? function = some f) (hid : f.id = function) (params : List ValueType) :
    m.Extends (m.withBlock function params) := by
  refine Extends.modifyFunction (fun _ => rfl) (fun _ => rfl) ?_
  intro other b hb
  change ∃ c, (m.withBlock function params).block? other = some c ∧ _
  rw [block?_withBlock hf hid]
  split
  · rename_i heq
    simp [heq, block?_next hf] at hb
  · exact ⟨b, hb, rfl⟩

/-- A change of one block keeps a module consistent if the block stays ordered and what is settled
about its instructions, new ones among them, is so in the module as it was. -/
theorem Consistent.modifyBlock (hm : m.Consistent) {id : BlockId} {change : Block → Block}
    (hparams : ∀ b, (change b).params = b.params)
    (hordered : ∀ b, m.block? id = some b → (change b).Ordered)
    (hfixed : ∀ other i, (m.modifyBlock id change).instruction? other = some i →
      m.Fixed other.function i.operation) :
    (m.modifyBlock id change).Consistent where
  ids := by
    intro other f hf
    rw [Module.modifyBlock, function?_modifyFunction] at hf
    split at hf
    · rename_i heq
      obtain ⟨g, hg, rfl⟩ := Option.map_eq_some_iff.1 hf
      rw [heq]
      exact hm.ids _ g hg
    · exact hm.ids other f hf
  ordered := by
    intro other b hb
    rw [block?_modifyBlock] at hb
    split at hb
    · obtain ⟨c, hc, rfl⟩ := Option.map_eq_some_iff.1 hb
      exact hordered c hc
    · exact hm.ordered other b hb
  fixed := fun other i hi => (hfixed other i hi).mono (Extends.modifyBlock hparams)

/-- The blocks listed for a function of the module are those that its identities name. -/
theorem Consistent.block?_of_listed (hm : m.Consistent) {function : FunctionId} {f : Function}
    (hf : m.function? function = some f) {block : BlockId} {b : Block}
    (hmem : (block, b) ∈ f.blocksWithId) : block.function = function ∧ m.block? block = some b := by
  have hb := Function.block?_of_mem_blocksWithId hmem
  have hfunction : block.function = function :=
    (Function.function_of_block? hb).trans (hm.ids _ f hf)
  exact ⟨hfunction, block?_eq_some.2 ⟨f, hfunction ▸ hf, hb⟩⟩

theorem Consistent.empty (name : String) : (Module.empty name).Consistent where
  ids := by simp [function?, Module.empty]
  ordered := by simp [block?, function?, Module.empty]
  fixed := by simp [instruction?, block?, function?, Module.empty]

theorem Consistent.withFunction (hm : m.Consistent) (name : String) (inputs : List ValueType)
    (output : ObjectType) : (m.withFunction name inputs output).Consistent where
  ids := by
    intro id f hf
    rw [function?_withFunction] at hf
    split at hf
    · rename_i heq
      obtain rfl := Option.some.inj hf
      simp [← heq]
    · exact hm.ids id f hf
  ordered := by
    intro id b hb
    rw [block?_withFunction] at hb
    exact hm.ordered id b hb
  fixed := by
    intro id i hi
    rw [instruction?_withFunction] at hi
    exact (hm.fixed id i hi).mono (.withFunction m name inputs output)

theorem Consistent.withBlock (hm : m.Consistent) {function : FunctionId} {f : Function}
    (hf : m.function? function = some f) (params : List ValueType) :
    (m.withBlock function params).Consistent where
  ids := by
    intro id g hg
    rw [Module.withBlock, function?_modifyFunction] at hg
    split at hg
    · rename_i heq
      obtain ⟨old, hold, rfl⟩ := Option.map_eq_some_iff.1 hg
      rw [heq]
      exact hm.ids _ old hold
    · exact hm.ids id g hg
  ordered := by
    intro id b hb
    rw [block?_withBlock hf (hm.ids function f hf)] at hb
    split at hb
    · obtain rfl := Option.some.inj hb
      exact .empty params
    · exact hm.ordered id b hb
  fixed := by
    intro id i hi
    have hid := hm.ids function f hf
    rw [instruction?_withBlock hf hid] at hi
    exact (hm.fixed id i hi).mono (.withBlock hf hid params)

theorem Consistent.exchange (hm : m.Consistent) {id : InstructionId} {i : Instruction}
    (hlive : (m.instruction? id).isSome) (hi : m.Fixed id.function i.operation) :
    (m.exchange id i).Consistent := by
  refine hm.modifyBlock (fun _ => rfl) ?_ ?_
  · intro b hb
    have hget : (b.get? id.address).isSome := by simpa [instruction?, hb] using hlive
    exact (hm.ordered _ b hb).set hget i
  · intro other j hj
    change (m.exchange id i).instruction? other = some j at hj
    rw [instruction?_exchange hlive] at hj
    split at hj
    · rename_i heq
      obtain rfl := Option.some.inj hj
      rw [heq]
      exact hi
    · exact hm.fixed other j hj

theorem Consistent.without (hm : m.Consistent) (id : InstructionId) : (m.without id).Consistent := by
  refine hm.modifyBlock (fun _ => rfl) ?_ ?_
  · exact fun b hb => (hm.ordered _ b hb).erase id.address
  · intro other j hj
    change (m.without id).instruction? other = some j at hj
    rw [instruction?_without] at hj
    split at hj
    · simp at hj
    · exact hm.fixed other j hj

theorem Consistent.place (hm : m.Consistent) {point : InsertionPoint} {i : Instruction}
    (hblock : (m.block? point.block).isSome) (hi : m.Fixed point.block.function i.operation) :
    (m.place point i).Consistent := by
  have hfixed : ∀ other j, (m.place point i).instruction? other = some j →
      m.Fixed other.function j.operation := by
    intro other j hj
    rw [instruction?_place hblock] at hj
    split at hj
    · rename_i heq
      obtain rfl := Option.some.inj hj
      rw [heq]
      exact hi
    · exact hm.fixed other j hj
  cases point with
  | atEnd block =>
      exact hm.modifyBlock (fun _ => rfl) (fun b hb => (hm.ordered _ b hb).push i) hfixed
  | before anchor =>
      exact hm.modifyBlock (fun _ => rfl)
        (fun b hb => (hm.ordered _ b hb).insertBefore anchor.address i) hfixed

theorem block?_isSome_of_prepare {point : InsertionPoint} {draft : Draft} {operation : Operation}
    (hprepare : m.prepare point draft = .ok operation) : (m.block? point.block).isSome := by
  obtain ⟨-, hcheck⟩ := prepare_eq_ok.1 hprepare
  obtain ⟨b, hb, -⟩ := checkPlace_eq_ok.1 (checkInsertion_eq_ok.1 hcheck).1
  simp [hb]

theorem Consistent.after (hm : m.Consistent) (command : Command) :
    (m.after command).Consistent := by
  rcases m.after_eq_or_effect command with hsame | heffect
  · rw [hsame]
    exact hm
  · generalize m.after command = n at heffect
    cases heffect with
    | rename name => exact ⟨hm.ids, hm.ordered, hm.fixed⟩
    | declareFunction name inputs output => exact hm.withFunction name inputs output
    | appendBlock hf _ => exact hm.withBlock hf _
    | appendEntryBlock hf => exact hm.withBlock hf _
    | make hprepare site =>
        exact hm.place (block?_isSome_of_prepare hprepare) (row_of_prepare hprepare).fixed
    | replaceOperand hi _ new =>
        exact hm.exchange (by simp [hi]) ((hm.fixed _ _ hi).setOperand _ new)
    | replaceSuccessor old hi _ hlocal hnew =>
        exact hm.exchange (by simp [hi]) ((hm.fixed _ _ hi).mapSuccessors hlocal hnew)
    | removeInstruction _ _ => exact hm.without _

theorem Reachable.consistent (hm : m.Reachable) : m.Consistent :=
  hm.invariant Consistent.empty (fun _ command h => h.after command)

end Module

end BlockIR
