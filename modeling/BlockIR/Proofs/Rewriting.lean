import BlockIR.Proofs.EdgeTables
import BlockIR.Proofs.Locality
import BlockIR.Proofs.OperandRules
import Mathlib.Data.List.Forall2
/-!
Rewritings that the verifier does not see.

Of an operand the verifier reads the type, and of the operand of a deallocation which slot it names.
So two modules have the same findings if they have the same blocks, and in each slot instructions of
one kind, with the same edges and results, whose operands have the same types.  The exchange of an
operand for another of its type is such a rewriting, wherever the new one points: backwards, forwards
or at the instruction itself.
-/

namespace BlockIR

theorem forall₂_modify {α : Type} {R : α → α → Prop} {change : α → α} (hrefl : ∀ x, R x x)
    {list : List α} {index : Nat} (hchange : ∀ x, list[index]? = some x → R x (change x)) :
    List.Forall₂ R list (list.modify index change) := by
  induction list generalizing index with
  | nil => simp
  | cons head tail ih =>
      cases index with
      | zero => exact .cons (hchange head rfl) (List.forall₂_same.2 fun x _ => hrefl x)
      | succ index => exact .cons (hrefl head) (ih fun x hx => hchange x (by simpa using hx))

theorem rel_getElem?_of_forall₂ {α : Type} {R : α → α → Prop} {first second : List α}
    (h : List.Forall₂ R first second) (index : Nat) :
    Option.Rel R first[index]? second[index]? := by
  induction h generalizing index with
  | nil => exact .none
  | cons hhead _ ih =>
      cases index with
      | zero => exact .some hhead
      | succ index => simpa using ih index

theorem forall₂_zipIdx {α : Type} {R : α → α → Prop} {first second : List α}
    (h : List.Forall₂ R first second) (start : Nat) :
    List.Forall₂ (fun x y => R x.1 y.1 ∧ y.2 = x.2) (first.zipIdx start) (second.zipIdx start) := by
  induction h generalizing start with
  | nil => exact .nil
  | cons hhead _ ih => exact .cons ⟨hhead, rfl⟩ (ih (start + 1))

theorem flatMap_eq_of_forall₂ {α β : Type} {R : α → α → Prop} {f g : α → List β}
    {first second : List α} (h : List.Forall₂ R first second) (hfg : ∀ x y, R x y → g y = f x) :
    second.flatMap g = first.flatMap f := by
  induction h with
  | nil => rfl
  | cons hhead _ ih => rw [List.flatMap_cons, List.flatMap_cons, hfg _ _ hhead, ih]

section Related

variable {α β : Type} {R : α → α → Prop} {S : β → β → Prop} {x y : Option α}

theorem rel_bind {f g : α → Option β} (h : Option.Rel R x y)
    (hfg : ∀ a b, R a b → Option.Rel S (f a) (g b)) : Option.Rel S (x.bind f) (y.bind g) := by
  cases h with
  | none => exact .none
  | some hab => exact hfg _ _ hab

theorem rel_map {f g : α → β} (h : Option.Rel R x y) (hfg : ∀ a b, R a b → S (f a) (g b)) :
    Option.Rel S (x.map f) (y.map g) := by
  cases h with
  | none => exact .none
  | some hab => exact .some (hfg _ _ hab)

theorem rel_filter {p q : α → Bool} (h : Option.Rel R x y) (hpq : ∀ a b, R a b → q b = p a) :
    Option.Rel R (x.filter p) (y.filter q) := by
  cases h with
  | none => exact .none
  | @some a b hab =>
      have heq := hpq a b hab
      cases hp : p a <;> simp [Option.filter, hp, heq, hab]

theorem bind_eq_of_rel {f g : α → Option β} (h : Option.Rel R x y)
    (hfg : ∀ a b, R a b → g b = f a) : y.bind g = x.bind f := by
  cases h with
  | none => rfl
  | some hab => exact hfg _ _ hab

theorem any_eq_of_rel {p q : α → Bool} (h : Option.Rel R x y) (hpq : ∀ a b, R a b → q b = p a) :
    y.any q = x.any p := by
  cases h with
  | none => rfl
  | some hab => exact hpq _ _ hab

theorem isNone_eq_of_rel (h : Option.Rel R x y) : y.isNone = x.isNone := by
  cases h <;> rfl

end Related

namespace Block

variable {R : Instruction → Instruction → Prop} {b c : Block}

/-- The second block is the first with other instructions in its slots, each related to the one it
stands for. -/
structure Rewrites (R : Instruction → Instruction → Prop) (b c : Block) : Prop where
  params : c.params = b.params
  order : c.order = b.order
  get? : ∀ address, Option.Rel R (b.get? address) (c.get? address)

theorem Rewrites.refl (hR : ∀ i, R i i) (b : Block) : b.Rewrites R b where
  params := rfl
  order := rfl
  get? address := by
    cases b.get? address with
    | none => exact .none
    | some i => exact .some (hR i)

theorem Rewrites.set (hR : ∀ i, R i i) {address : Nat} {i j : Instruction}
    (hi : b.get? address = some i) (hij : R i j) : b.Rewrites R (b.set address j) where
  params := rfl
  order := rfl
  get? other := by
    rw [get?_set (by simp [hi])]
    by_cases heq : other = address
    · rw [if_pos heq, heq, hi]
      exact .some hij
    · rw [if_neg heq]
      exact (Rewrites.refl hR b).get? other

theorem Rewrites.instructions (h : b.Rewrites R c) :
    List.Forall₂ (fun x y => y.1 = x.1 ∧ R x.2 y.2) b.instructions c.instructions := by
  unfold Block.instructions
  rw [h.order]
  refine List.rel_filterMap (R := Eq) ?_ (List.forall₂_same.2 fun _ _ => rfl)
  rintro address _ rfl
  exact rel_map (h.get? address) fun i j hij => ⟨rfl, hij⟩

theorem Rewrites.terminator? (h : b.Rewrites R c)
    (hterminator : ∀ i j, R i j → j.isTerminator = i.isTerminator) :
    Option.Rel R b.terminator? c.terminator? := by
  have hlast : Option.Rel R (b.lastAddress?.bind b.get?) (c.lastAddress?.bind c.get?) := by
    rw [lastAddress?, lastAddress?, h.order]
    cases b.order.getLast? with
    | none => exact .none
    | some address => exact h.get? address
  exact rel_filter hlast hterminator

theorem Rewrites.isTerminated (h : b.Rewrites R c)
    (hterminator : ∀ i j, R i j → j.isTerminator = i.isTerminator) :
    c.isTerminated = b.isTerminated := by
  rw [Block.isTerminated, Block.isTerminated, ← Option.not_isNone, ← Option.not_isNone,
    isNone_eq_of_rel (h.terminator? hterminator)]

theorem Rewrites.edges (h : b.Rewrites R c)
    (hterminator : ∀ i j, R i j → j.isTerminator = i.isTerminator)
    (hsuccessors : ∀ i j, R i j → j.successors = i.successors) (function : FunctionId) :
    c.edges function = b.edges function := by
  have hrel := h.terminator? hterminator
  unfold Block.edges
  generalize b.terminator? = first, c.terminator? = second at hrel
  cases hrel with
  | none => rfl
  | some hij => simp only [hsuccessors _ _ hij]

end Block

namespace Function

variable {R : Instruction → Instruction → Prop} {f g : Function}

/-- The second function is the first with rewritten blocks. -/
structure Rewrites (R : Instruction → Instruction → Prop) (f g : Function) : Prop where
  id : g.id = f.id
  name : g.name = f.name
  inputs : g.inputs = f.inputs
  blocks : List.Forall₂ (Block.Rewrites R) f.blocks g.blocks

theorem Rewrites.refl (hR : ∀ i, R i i) (f : Function) : f.Rewrites R f where
  id := rfl
  name := rfl
  inputs := rfl
  blocks := List.forall₂_same.2 fun b _ => .refl hR b

theorem Rewrites.modifyBlock (hR : ∀ i, R i i) {address : Nat} {change : Block → Block}
    (hchange : ∀ b, f.blocks[address]? = some b → b.Rewrites R (change b)) :
    f.Rewrites R (f.modifyBlock address change) where
  id := rfl
  name := rfl
  inputs := rfl
  blocks := forall₂_modify (fun b => .refl hR b) hchange

theorem Rewrites.block? (h : f.Rewrites R g) (id : BlockId) :
    Option.Rel (Block.Rewrites R) (f.block? id) (g.block? id) := by
  unfold Function.block?
  rw [h.id]
  split
  · exact rel_getElem?_of_forall₂ h.blocks id.address
  · exact .none

theorem Rewrites.blocksWithId (h : f.Rewrites R g) :
    List.Forall₂ (fun x y => y.1 = x.1 ∧ x.1.function = f.id ∧ x.2.Rewrites R y.2)
      f.blocksWithId g.blocksWithId := by
  unfold Function.blocksWithId
  rw [h.id]
  refine List.rel_map ?_ (forall₂_zipIdx h.blocks 0)
  rintro ⟨b, address⟩ ⟨c, _⟩ ⟨hblock, rfl⟩
  exact ⟨rfl, rfl, hblock⟩

theorem Rewrites.map_fst_blocksWithId (h : f.Rewrites R g) :
    g.blocksWithId.map Prod.fst = f.blocksWithId.map Prod.fst := by
  refine (List.forall₂_eq_eq_eq ▸ List.rel_map (P := Eq) ?_ h.blocksWithId).symm
  exact fun x y hxy => hxy.1.symm

theorem Rewrites.entry? (h : f.Rewrites R g) : g.entry? = f.entry? := by
  have hlength := h.blocks.length_eq
  unfold Function.entry?
  rw [h.id]
  cases hf : f.blocks <;> cases hg : g.blocks <;> simp_all

/-- The graph reads nothing of a block but its edges. -/
theorem Rewrites.ofFunction (h : f.Rewrites R g)
    (hterminator : ∀ i j, R i j → j.isTerminator = i.isTerminator)
    (hsuccessors : ∀ i j, R i j → j.successors = i.successors) :
    FlowGraph.ofFunction g = FlowGraph.ofFunction f := by
  have hcount : g.blockCount = f.blockCount := h.blocks.length_eq.symm
  have htables : EdgeTables.leaveAll f.id (.blank f.blockCount) g.blocksWithId =
      EdgeTables.leaveAll f.id (.blank f.blockCount) f.blocksWithId := by
    refine (List.rel_foldl (P := Eq) ?_ rfl h.blocksWithId).symm
    rintro t _ rfl ⟨block, b⟩ ⟨_, c⟩ ⟨rfl, -, hblock⟩
    simp only [hblock.edges hterminator hsuccessors]
  unfold EdgeTables.leaveAll at htables
  simp only [FlowGraph.ofFunction, h.entry?, h.id, hcount, htables]

end Function

theorem Instruction.isAllocation_eq_kind (i : Instruction) :
    i.isAllocation = (i.operation.kind == .allocStack) := by
  obtain ⟨operation, site⟩ := i
  cases operation <;> rfl

namespace StackDiscipline

variable {R : Instruction → Instruction → Prop} {f g : Function}

theorem step_congr {i j : Instruction} (hkind : j.operation.kind = i.operation.kind)
    (hfreed : i.operation.kind = .deallocStack → j.operands = i.operands) (id : InstructionId)
    (live : Stack) : step id j live = step id i live := by
  obtain ⟨operation, _⟩ := i
  obtain ⟨other, _⟩ := j
  cases operation <;> cases other <;> simp_all [Operation.kind, Instruction.operands,
    Operation.operands, step]

theorem walk_congr (hstep : ∀ i j, R i j → ∀ id live, step id j live = step id i live)
    {first second : List (Nat × Instruction)}
    (h : List.Forall₂ (fun x y => y.1 = x.1 ∧ R x.2 y.2) first second) (block : BlockId)
    (live : Stack) : walk block live second = walk block live first := by
  induction h generalizing live with
  | nil => rfl
  | @cons x y _ _ hxy _ ih =>
      obtain ⟨address, i⟩ := x
      obtain ⟨_, j⟩ := y
      obtain ⟨rfl, hij⟩ := hxy
      simp only [walk, hstep i j hij, ih]

theorem follow_congr (h : f.Rewrites R g) (live : Stack) (s : Sweep) (targets : List BlockId) :
    s.follow g live targets = s.follow f live targets := by
  induction targets generalizing s with
  | nil => rfl
  | cons target rest ih =>
      simp only [Sweep.follow, isNone_eq_of_rel (h.block? target), ih]

theorem advance_congr (h : f.Rewrites R g)
    (hstep : ∀ i j, R i j → ∀ id live, step id j live = step id i live) (graph : FlowGraph)
    (s : Sweep) (block : BlockId) : s.advance g graph block = s.advance f graph block := by
  have hrel := h.block? block
  unfold Sweep.advance
  generalize f.block? block = first, g.block? block = second at hrel
  cases hrel with
  | none => rfl
  | some hblock =>
      cases s.stackAt? block with
      | none => rfl
      | some live => simp only [walk_congr hstep hblock.instructions, follow_congr h]

theorem run_congr (h : f.Rewrites R g)
    (hstep : ∀ i j, R i j → ∀ id live, step id j live = step id i live) (graph : FlowGraph)
    (s : Sweep) : s.run g graph = s.run f graph := by
  induction s using Sweep.run.induct f graph with
  | case1 entered reported => simp [Sweep.run]
  | case2 entered block pending reported next ih =>
      rw [Sweep.run, Sweep.run, advance_congr h hstep]
      exact congrArg _ ih

theorem faults_congr (h : f.Rewrites R g)
    (hstep : ∀ i j, R i j → ∀ id live, step id j live = step id i live) (graph : FlowGraph) :
    faults g graph = faults f graph := by
  simp only [faults, h.entry?, run_congr h hstep]

end StackDiscipline

namespace Module

variable {m n : Module} {function : FunctionId} {i j : Instruction}

/-- To a verification of the function the second instruction is as good as the first. -/
structure Interchangeable (m : Module) (function : FunctionId) (i j : Instruction) : Prop where
  kind : j.operation.kind = i.operation.kind
  resultTypes : j.resultTypes = i.resultTypes
  successors : j.successors = i.successors
  types : j.operands.map (m.localType? function) = i.operands.map (m.localType? function)
  /-- A deallocation is checked for the slot it names, not for a type. -/
  freed : i.operation.kind = .deallocStack → j.operands = i.operands

theorem Interchangeable.refl (m : Module) (function : FunctionId) (i : Instruction) :
    m.Interchangeable function i i := ⟨rfl, rfl, rfl, rfl, fun _ => rfl⟩

theorem Interchangeable.isTerminator (h : m.Interchangeable function i j) :
    j.isTerminator = i.isTerminator :=
  Instruction.isTerminator_congr h.kind

theorem Interchangeable.step (h : m.Interchangeable function i j) (id : InstructionId)
    (live : StackDiscipline.Stack) :
    StackDiscipline.step id j live = StackDiscipline.step id i live :=
  StackDiscipline.step_congr h.kind h.freed id live

/-- An operand may be exchanged for another of the same type, unless it names the slot to free. -/
theorem Interchangeable.setOperand (hkind : i.operation.kind ≠ .deallocStack) {index : Nat}
    {old new : Operand} (hold : i.operands[index]? = some old)
    (htype : m.localType? function new = m.localType? function old) :
    m.Interchangeable function i { i with operation := i.operation.setOperand index new } where
  kind := Operation.kind_setOperand _ _ _
  resultTypes := Operation.resultTypes_setOperand _ _ _
  successors := Operation.successors_setOperand _ _ _
  types := by
    have hset : Instruction.operands { i with operation := i.operation.setOperand index new } =
        i.operands.set index new := Operation.operands_setOperand _ _ _
    obtain ⟨hlt, hget⟩ := List.getElem?_eq_some_iff.1 hold
    rw [hset, List.map_set, htype, ← List.map_set, ← hget, List.set_getElem_self]
  freed := fun hdealloc => absurd hdealloc hkind

/-- The second module is the first with interchangeable instructions in its slots. -/
def Rewrites (m n : Module) : Prop :=
  List.Forall₂ (fun f g => f.Rewrites (m.Interchangeable f.id) g) m.functions n.functions

theorem Rewrites.function? (h : m.Rewrites n) (id : FunctionId) :
    Option.Rel (fun f g => f.Rewrites (m.Interchangeable f.id) g) (m.function? id)
      (n.function? id) :=
  rel_getElem?_of_forall₂ h id.index

theorem Rewrites.inputs (h : m.Rewrites n) (id : FunctionId) :
    (n.function? id).map Function.inputs = (m.function? id).map Function.inputs := by
  have hrel := h.function? id
  generalize m.function? id = first, n.function? id = second at hrel
  cases hrel with
  | none => rfl
  | some hf => simp [hf.inputs]

theorem Rewrites.block? (h : m.Rewrites n) (id : BlockId) :
    Option.Rel (Block.Rewrites (m.Interchangeable id.function)) (m.block? id) (n.block? id) := by
  refine rel_bind (h.function? id.function) fun f g hf => ?_
  by_cases hid : id.function = f.id
  · rw [hid]
    exact hf.block? id
  · -- An identity that names another function finds no block in either.
    simp [Function.block?, hf.id, hid]

theorem Rewrites.instruction? (h : m.Rewrites n) (id : InstructionId) :
    Option.Rel (m.Interchangeable id.function) (m.instruction? id) (n.instruction? id) :=
  rel_bind (h.block? id.block) fun _ _ hb => hb.get? id.address

theorem Rewrites.operandType? (h : m.Rewrites n) (operand : Operand) :
    n.operandType? operand = m.operandType? operand := by
  cases operand with
  | result id index =>
      refine bind_eq_of_rel (h.instruction? id) fun i j hij => ?_
      rw [hij.resultTypes]
  | parameter id index =>
      refine bind_eq_of_rel (h.block? id) fun b c hb => ?_
      rw [hb.params]
  | constant value => rfl

theorem Rewrites.localType? (h : m.Rewrites n) : n.localType? = m.localType? := by
  funext function operand
  rw [Module.localType?, Module.localType?, h.operandType?]

theorem Rewrites.isStackAllocation (h : m.Rewrites n) (operand : Operand) :
    n.isStackAllocation operand = m.isStackAllocation operand := by
  unfold Module.isStackAllocation
  split
  · refine any_eq_of_rel (h.instruction? _) fun i j hij => ?_
    rw [Instruction.isAllocation_eq_kind, Instruction.isAllocation_eq_kind, hij.kind]
  · rfl

theorem Rewrites.operandFaults (h : m.Rewrites n) {id : InstructionId}
    (hij : m.Interchangeable id.function i j) (checkTypes : Bool) :
    n.operandFaults checkTypes id j = m.operandFaults checkTypes id i := by
  have htypes : n.operandTypes id.function 0 j.operands = m.operandTypes id.function 0 i.operands :=
    operandTypes_congr (by rw [h.localType?, hij.types]) 0
  have hrules : ∀ types, n.unmetExpectation? j types = m.unmetExpectation? i types := by
    intro types
    -- First the instruction is exchanged inside one module, then the module around it.
    rw [unmetExpectation?_congr hij.kind hij.freed]
    exact unmetExpectation?_eq_of_slots (fun operand _ => h.isStackAllocation operand)
      (fun callee _ => h.inputs callee) types
  simp only [Module.operandFaults, htypes, hrules]

theorem Rewrites.instructionFaults (h : m.Rewrites n) (options : Options) {f g : Function}
    (hf : f.Rewrites (m.Interchangeable f.id) g) {b c : Block} (horder : c.order = b.order)
    {id : InstructionId} (hij : m.Interchangeable id.function i j) :
    Verifier.instructionFaults n options g c id j =
      Verifier.instructionFaults m options f b id i := by
  have htargets : ∀ target, (g.block? target).isNone = (f.block? target).isNone :=
    fun target => isNone_eq_of_rel (hf.block? target)
  have hlast : c.lastAddress? = b.lastAddress? := congrArg List.getLast? horder
  unfold Verifier.instructionFaults
  rw [hij.isTerminator, hlast, hij.successors, h.operandFaults hij]
  simp only [htargets]

theorem Rewrites.blockFaults (h : m.Rewrites n) (options : Options) {f g : Function}
    (hf : f.Rewrites (m.Interchangeable f.id) g) {id : BlockId} (hid : id.function = f.id)
    {b c : Block} (hb : b.Rewrites (m.Interchangeable f.id) c) :
    Verifier.blockFaults n options g id c = Verifier.blockFaults m options f id b := by
  have hinstructions : c.instructions.flatMap (fun entry =>
        Verifier.instructionFaults n options g c ⟨id, entry.1⟩ entry.2) =
      b.instructions.flatMap (fun entry =>
        Verifier.instructionFaults m options f b ⟨id, entry.1⟩ entry.2) := by
    refine flatMap_eq_of_forall₂ hb.instructions ?_
    rintro ⟨address, i⟩ ⟨_, j⟩ ⟨rfl, hij⟩
    rw [← hid] at hij
    exact h.instructionFaults options hf hb.order hij
  have hend : c.isTerminated = b.isTerminated := hb.isTerminated fun _ _ hij => hij.isTerminator
  have hempty : c.isEmpty = b.isEmpty := congrArg List.isEmpty hb.order
  unfold Verifier.blockFaults
  rw [hempty, hend]
  simp only [hinstructions]

theorem Rewrites.functionFindings (h : m.Rewrites n) (options : Options) {f g : Function}
    (hf : f.Rewrites (m.Interchangeable f.id) g) :
    Verifier.functionFindings n options g = Verifier.functionFindings m options f := by
  have hblocks : g.blocksWithId.flatMap (fun entry =>
        Verifier.blockFaults n options g entry.1 entry.2) =
      f.blocksWithId.flatMap (fun entry => Verifier.blockFaults m options f entry.1 entry.2) := by
    refine flatMap_eq_of_forall₂ hf.blocksWithId ?_
    rintro ⟨id, b⟩ ⟨_, c⟩ ⟨rfl, hid, hb⟩
    exact h.blockFaults options hf hid hb
  have hgraph : FlowGraph.ofFunction g = FlowGraph.ofFunction f :=
    hf.ofFunction (fun _ _ hij => hij.isTerminator) (fun _ _ hij => hij.successors)
  have hunreachable : ∀ graph, Verifier.unreachableBlocks g graph =
      Verifier.unreachableBlocks f graph := by
    intro graph
    unfold Verifier.unreachableBlocks
    rw [hf.map_fst_blocksWithId]
  have hstack : ∀ graph, StackDiscipline.faults g graph = StackDiscipline.faults f graph :=
    StackDiscipline.faults_congr hf fun _ _ hij => hij.step
  simp only [Verifier.functionFindings, Verifier.functionFaults, hf.name, hblocks, hgraph,
    hunreachable, hstack]

/-- The verifier does not see a rewriting by interchangeable instructions. -/
theorem Rewrites.findings (h : m.Rewrites n) (options : Options) :
    Verifier.findings options n = Verifier.findings options m := by
  rw [Verifier.findings_eq_flatMap, Verifier.findings_eq_flatMap]
  exact flatMap_eq_of_forall₂ h fun f g hf => h.functionFindings options hf

/-- Exchanging an instruction for a related one rewrites the functions of the module. -/
theorem Consistent.rewrites_exchange (hm : m.Consistent)
    {R : FunctionId → Instruction → Instruction → Prop} (hR : ∀ function i, R function i i)
    {id : InstructionId} (hi : m.instruction? id = some i) (hij : R id.function i j) :
    List.Forall₂ (fun f g => f.Rewrites (R f.id) g) m.functions (m.exchange id j).functions := by
  refine forall₂_modify (fun f => .refl (hR f.id) f) fun f hf => ?_
  have hid : f.id = id.function := hm.ids _ f hf
  refine .modifyBlock (hR f.id) fun b hb => ?_
  -- The block at the address is the one in which the instruction was found.
  obtain ⟨c, hc, hget⟩ := instruction?_eq_some.1 hi
  have hblock : m.block? id.block = some b :=
    block?_eq_some.2 ⟨f, hf, by simpa [Function.block?, hid, InstructionId.function] using hb⟩
  obtain rfl : c = b := Option.some.inj (hc.symm.trans hblock)
  exact .set (hR f.id) hget (hid ▸ hij)

/-- An instruction is exchanged for an interchangeable one. -/
theorem Rewrites.exchange (hm : m.Consistent) {id : InstructionId} (hi : m.instruction? id = some i)
    (hij : m.Interchangeable id.function i j) : m.Rewrites (m.exchange id j) :=
  hm.rewrites_exchange (R := m.Interchangeable) (.refl m) hi hij

/-- An operand of an instruction that frees nothing can be exchanged for any other live value of the
function that has its type: the request succeeds, and whatever the verifier is asked to check, it
answers with the findings of before. -/
theorem type_preserving_replacement_invisible {m : Module} (hm : m.Reachable) {id : InstructionId}
    {i : Instruction} (hi : m.instruction? id = some i) (hkind : i.operation.kind ≠ .deallocStack)
    {index : Nat} {old new : Operand} (hold : i.operands[index]? = some old) {type : ValueType}
    (htype : m.HasType id.function old type) (hnew : m.HasType id.function new type) :
    ∃ n, (replaceOperand id index new).run m = ⟨.ok (), n, [.replacingOperand id index new]⟩ ∧
      (∃ j, n.instruction? id = some j ∧ j.operands = i.operands.set index new) ∧
      ∀ options, Verifier.findings options n = Verifier.findings options m := by
  obtain ⟨hindex, -⟩ := List.getElem?_eq_some_iff.1 hold
  have hwith : m.withOperand id index new =
      .ok { i with operation := i.operation.setOperand index new } :=
    withOperand_eq_ok.2 ⟨i, hi, hindex, rfl⟩
  have hlocal : m.localType? id.function new = m.localType? id.function old := by
    simp [localType?, htype.1, htype.2, hnew.1, hnew.2]
  have hij := Interchangeable.setOperand hkind hold hlocal
  refine ⟨m.exchange id { i with operation := i.operation.setOperand index new }, ?_, ?_, ?_⟩
  · simp only [Action.run, replaceOperand, hwith]
    rfl
  · refine ⟨_, by rw [instruction?_exchange (by simp [hi]), if_pos rfl], ?_⟩
    exact Operation.operands_setOperand _ _ _
  · exact fun options => (Rewrites.exchange hm.consistent hi hij).findings options

section Tangled

/-- A sum of two values of different types, before it a slot that is never freed and behind it a
load. -/
def tangled : Module :=
  let entry : BlockId := ⟨⟨0⟩, 0⟩
  let make (draft : Draft) : Command := .make (.atEnd entry) draft .synthetic
  let one : Operand := .constant (.integer 1 .i64)
  List.foldl Module.after (.empty "test")
    [.declareFunction "main" [] .void, .appendEntryBlock ⟨0⟩,
      make (.allocStack (.builtin .i64)), make (.binary .add one one),
      make (.load (.result ⟨entry, 0⟩ 0)), make .ret,
      .replaceOperand ⟨entry, 1⟩ 0 (.constant (.bool true))]

/-- The sum may add itself, or what is only loaded behind it, to the wrong value that it adds to. -/
theorem tangled_replacement_invisible :
    let entry : BlockId := ⟨⟨0⟩, 0⟩
    let found : List Finding :=
      [⟨"main", .operandTypeMismatch ⟨entry, 1⟩ 1 "i1" "i64"⟩,
        ⟨"main", .leakedAllocation ⟨entry, 3⟩ 1⟩]
    Verifier.findings ⟨true, true, true⟩ tangled = found ∧
    ∀ address ∈ [1, 2], ∃ n,
      (replaceOperand ⟨entry, 1⟩ 1 (.result ⟨entry, address⟩ 0)).run tangled =
        ⟨.ok (), n, [.replacingOperand ⟨entry, 1⟩ 1 (.result ⟨entry, address⟩ 0)]⟩ ∧
      (∃ j, n.instruction? ⟨entry, 1⟩ = some j ∧
        j.operands = [.constant (.bool true), .result ⟨entry, address⟩ 0]) ∧
      Verifier.findings ⟨true, true, true⟩ n = found := by
  intro entry found
  have hreachable : tangled.Reachable := (Reachable.empty "test").edits _
  have hfound : Verifier.findings ⟨true, true, true⟩ tangled = found := by decide +kernel
  refine ⟨hfound, fun address haddress => ?_⟩
  let one : Operand := .constant (.integer 1 .i64)
  let sum : Instruction := ⟨.binary .add .i64 (.constant (.bool true)) one, .synthetic⟩
  have hi : tangled.instruction? ⟨entry, 1⟩ = some sum := by decide +kernel
  have hold : sum.operands[1]? = some one := rfl
  have hnew : tangled.HasType ⟨0⟩ (.result ⟨entry, address⟩ 0) (.ofBuiltin .i64) := by
    rcases List.mem_pair.1 haddress with rfl | rfl <;> exact ⟨by decide +kernel, by decide⟩
  obtain ⟨n, hrun, hoperand, hsame⟩ := type_preserving_replacement_invisible hreachable hi
    (by decide) hold ⟨rfl, rfl⟩ hnew
  exact ⟨n, hrun, hoperand, (hsame _).trans hfound⟩

end Tangled

end Module

end BlockIR
