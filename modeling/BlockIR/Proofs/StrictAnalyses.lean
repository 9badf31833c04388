import BlockIR.Proofs.SingleVisits
import BlockIR.Proofs.VerifiedRows
/-!
Analyses with strict look-ups.

Some look-ups of the analyses rest on what was done before: a rule reads the types that were
collected for the operands, a call the input at which it found a mismatch, the builder of the edge
tables the row of the block at hand, and the walk over the blocks the stack recorded for the next
pending one.  Here each of them is strict, so that an analysis that finds nothing there ends at
once.  None ever does, and the strict analyses give what the analyses give.
-/

namespace BlockIR

/-- A strict look-up that finds nothing. -/
inductive OutOfRange where
  /-- No type was collected for the operand of this index. -/
  | type (index : Nat)
  /-- The callee has no input of this index. -/
  | input (index : Nat)
  /-- No stack is recorded for a pending block. -/
  | stack (block : BlockId)
  /-- The edge tables have no row for a block. -/
  | row (block : BlockId)
  /-- The order of a block has no such place. -/
  | place (index : Nat)
deriving DecidableEq

/-- What a strict look-up finds. -/
def demand {α : Type} (missing : OutOfRange) (found : Option α) : Except OutOfRange α :=
  match found with
  | some value => .ok value
  | none => .error missing

@[simp] theorem demand_some_bind {α β : Type} (missing : OutOfRange) (value : α)
    (next : α → Except OutOfRange β) : (demand missing (some value) >>= next) = next value := rfl

/-- What is found in each of the items, one after the other. -/
def gather {α β : Type} (find : α → Except OutOfRange (List β)) :
    List α → Except OutOfRange (List β)
  | [] => .ok []
  | item :: rest => do
      let first ← find item
      let more ← gather find rest
      return first ++ more

theorem gather_eq_ok {α β : Type} {find : α → Except OutOfRange (List β)} {found : α → List β}
    {items : List α} (h : ∀ item ∈ items, find item = .ok (found item)) :
    gather find items = .ok (items.flatMap found) := by
  induction items with
  | nil => rfl
  | cons item rest ih =>
      have hrest := ih (fun other hother => h other (List.mem_cons_of_mem _ hother))
      rw [gather, h item List.mem_cons_self, hrest]
      rfl

namespace Module

variable {m : Module}

/-- The first operand whose type is against the rules of the instruction's kind, with the types read
strictly and in the order in which the rules need them. -/
def strictExpectation (m : Module) (i : Instruction) (types : List ValueType) :
    Except OutOfRange (Option (Nat × Expectation)) :=
  let typeAt (index : Nat) := demand (.type index) types[index]?
  match i.operation with
  | .allocStack _ | .branch _ | .ret => return none
  | .deallocStack location =>
      return if m.isStackAllocation location then none else some (0, .stackAllocation)
  | .pointerToAddress _ _ => do
      let source ← typeAt 0
      return if source = .ofBuiltin .ptr then none else some (0, .exactly (.ofBuiltin .ptr))
  | .load _ _ => do
      let source ← typeAt 0
      return if source.admits .read then none else some (0, .readableAddress)
  | .store _ _ => do
      let target ← typeAt 1
      match target.pointee?.filter (fun _ => target.admits .write) with
      | none => return some (1, .writableAddress)
      | some pointee =>
          let object ← typeAt 0
          return if object = .object pointee then none else some (0, .exactly (.object pointee))
  | .binary operator _ _ _ => do
      let left ← typeAt 0
      match left.builtin? with
      | none => return some (0, .builtinValue)
      | some type =>
          if operator.isBitwise && !type.isInteger then return some (0, .integerValue)
          else
            let right ← typeAt 1
            return if right = left then none else some (1, .exactly left)
  | .compare _ _ _ => do
      let left ← typeAt 0
      match left.builtin? with
      | none => return some (0, .builtinValue)
      | some _ =>
          let right ← typeAt 1
          return if right = left then none else some (1, .exactly left)
  | .call callee _ _ =>
      match m.function? callee with
      | none => return none
      | some f =>
          match (f.inputs.zip types).findIdx? (fun entry => entry.1 != entry.2) with
          | none => return none
          | some index => do
              let expected ← demand (.input index) f.inputs[index]?
              return some (index, .exactly expected)
  | .condBranch _ _ _ => do
      let condition ← typeAt 0
      return if condition = .ofBuiltin .i1 then none else some (0, .exactly (.ofBuiltin .i1))

/-- The fault of the operands of an instruction, with the type that is shown looked up strictly. -/
def strictOperandFaults (m : Module) (checkTypes : Bool) (id : InstructionId) (i : Instruction) :
    Except OutOfRange (List Fault) :=
  match m.operandTypes id.function 0 i.operands with
  | .error index => return [.danglingOperand id index]
  | .ok types =>
      if checkTypes then do
        match ← m.strictExpectation i types with
        | none => return []
        | some (index, expected) =>
            let found ← demand (.type index) types[index]?
            return [.operandTypeMismatch id index expected.text found.text]
      else return []

/-- A mismatch of a call is found at an input. -/
theorem strictExpectation_call {callee : FunctionId} {arguments : List Operand}
    {output : ObjectType} {site : Span} (types : List ValueType) :
    m.strictExpectation ⟨.call callee arguments output, site⟩ types =
      .ok (m.unmetExpectation? ⟨.call callee arguments output, site⟩ types) := by
  cases hf : m.function? callee with
  | none =>
      simp only [strictExpectation, unmetExpectation?, hf]
      rfl
  | some f =>
      cases hfound : (f.inputs.zip types).findIdx? (fun entry => entry.1 != entry.2) with
      | none =>
          simp only [strictExpectation, unmetExpectation?, hf, hfound, Option.bind_eq_bind,
            Option.bind_some, Option.bind_none]
          rfl
      | some index =>
          have hzip := (List.findIdx?_eq_some_iff_getElem.1 hfound).1
          have hinput : index < f.inputs.length := by
            rw [List.length_zip] at hzip
            omega
          simp only [strictExpectation, unmetExpectation?, hf, hfound, Option.bind_eq_bind,
            Option.bind_some, List.getElem?_eq_getElem hinput]
          rfl

/-- Every rule reads types that were collected, since their number is the arity of the kind. -/
theorem strictExpectation_eq {i : Instruction} {types : List ValueType}
    (hlength : i.operands.length = types.length) :
    m.strictExpectation i types = .ok (m.unmetExpectation? i types) := by
  obtain ⟨operation, site⟩ := i
  cases operation with
  | call callee arguments output => exact strictExpectation_call types
  | allocStack | branch | ret | deallocStack => rfl
  | pointerToAddress | load | condBranch =>
      obtain ⟨first, rfl⟩ := List.length_eq_one_iff.1 hlength.symm
      rfl
  | store =>
      obtain ⟨object, target, rfl⟩ := List.length_eq_two.1 hlength.symm
      simp only [strictExpectation, unmetExpectation?, List.getElem?_cons_zero,
        List.getElem?_cons_succ, demand_some_bind, Option.bind_eq_bind, Option.bind_some]
      cases target.pointee?.filter (fun _ => target.admits .write) <;> rfl
  | compare =>
      obtain ⟨left, right, rfl⟩ := List.length_eq_two.1 hlength.symm
      simp only [strictExpectation, unmetExpectation?, List.getElem?_cons_zero,
        List.getElem?_cons_succ, demand_some_bind, Option.bind_eq_bind, Option.bind_some]
      cases left.builtin? <;> rfl
  | binary operator =>
      -- The right type is read last, and not where the left one is the wrong one already.
      obtain ⟨left, right, rfl⟩ := List.length_eq_two.1 hlength.symm
      simp only [strictExpectation, unmetExpectation?, List.getElem?_cons_zero,
        List.getElem?_cons_succ, demand_some_bind, Option.bind_eq_bind, Option.bind_some]
      cases left.builtin? with
      | none => rfl
      | some type => exact (apply_ite Except.ok _ _ _).symm

example (source : Operand) (type : ObjectType) :
    m.strictExpectation ⟨.load source type, .synthetic⟩ [] = .error (.type 0) := rfl

theorem strictOperandFaults_eq (m : Module) (checkTypes : Bool) (id : InstructionId)
    (i : Instruction) :
    m.strictOperandFaults checkTypes id i = .ok (m.operandFaults checkTypes id i) := by
  cases htypes : m.operandTypes id.function 0 i.operands with
  | error index =>
      simp only [strictOperandFaults, operandFaults, htypes]
      rfl
  | ok types =>
      have hlength := (operandTypes_eq_ok.1 htypes).length_eq
      cases checkTypes with
      | false =>
          simp only [strictOperandFaults, operandFaults, htypes]
          rfl
      | true =>
          cases hunmet : m.unmetExpectation? i types with
          | none =>
              simp only [strictOperandFaults, operandFaults, htypes,
                strictExpectation_eq hlength, hunmet]
              rfl
          | some unmet =>
              obtain ⟨index, expected⟩ := unmet
              have hindex := lt_length_of_unmetExpectation? hlength hunmet
              simp only [strictOperandFaults, operandFaults, htypes,
                strictExpectation_eq hlength, hunmet, List.getElem?_eq_getElem hindex]
              change (demand (.type index) types[index]? >>= _) = _
              rw [List.getElem?_eq_getElem hindex]
              rfl

end Module

/-- A pass whose steps all succeed from states with a property that they keep. -/
theorem foldlM_eq_ok {σ α : Type} {P : σ → Prop} {strict : σ → α → Except OutOfRange σ}
    {step : σ → α → σ} {items : List α}
    (hstep : ∀ state, P state → ∀ item ∈ items,
      strict state item = .ok (step state item) ∧ P (step state item))
    {state : σ} (hstate : P state) : items.foldlM strict state = .ok (items.foldl step state) := by
  induction items generalizing state with
  | nil => rfl
  | cons item rest ih =>
      obtain ⟨hhere, hnext⟩ := hstep state hstate item List.mem_cons_self
      rw [List.foldlM_cons, hhere]
      exact ih (fun state h other hother => hstep state h other (List.mem_cons_of_mem _ hother))
        hnext

namespace EdgeTables

/-- The tables with an edge more, whose source has to have a row. -/
def strictConnect (t : EdgeTables) (source target : BlockId) : Except OutOfRange EdgeTables := do
  let _ ← demand (.row source) t.outgoing[source.address]?
  return t.connect source target

/-- The tables with the edges more that leave a block. -/
def strictLeave (t : EdgeTables) (source : BlockId) (targets : List BlockId) :
    Except OutOfRange EdgeTables :=
  targets.foldlM (fun t target => t.strictConnect source target) t

theorem strictLeave_eq {t : EdgeTables} {source : BlockId} (targets : List BlockId)
    (hsource : source.address < t.outgoing.length) :
    t.strictLeave source targets = .ok (t.leave source targets) := by
  refine foldlM_eq_ok (P := fun t => source.address < t.outgoing.length) ?_ hsource
  intro t hrow target _
  refine ⟨?_, ?_⟩
  · rw [strictConnect, List.getElem?_eq_getElem hrow]
    rfl
  · simpa [connect] using hrow

end EdgeTables

namespace FlowGraph

/-- The graph of a function, with the row of each source looked up strictly. -/
def strictOfFunction (f : Function) : Except OutOfRange FlowGraph := do
  let tables ← f.blocksWithId.foldlM (fun t entry => t.strictLeave entry.1 (entry.2.edges f.id))
    (.blank f.blockCount)
  return { toEdgeTables := tables, entry? := f.entry? }

/-- The tables keep the rows that they begin with, one for each block of the function. -/
theorem strictOfFunction_eq (f : Function) : strictOfFunction f = .ok (.ofFunction f) := by
  have hpass : f.blocksWithId.foldlM
      (fun (t : EdgeTables) entry => t.strictLeave entry.1 (entry.2.edges f.id))
      (.blank f.blockCount) = .ok (ofFunction f).toEdgeTables := by
    refine foldlM_eq_ok (P := fun t => t.outgoing.length = f.blockCount) ?_ List.length_replicate
    intro t hlength entry hentry
    have hsource : entry.1.address < t.outgoing.length :=
      hlength ▸ Function.address_lt_of_mem_blocksWithId hentry
    exact ⟨EdgeTables.strictLeave_eq _ hsource, (t.length_leave _ _).trans hlength⟩
  rw [strictOfFunction, hpass]
  rfl

/-- The search, with the row of each block that comes off the stack looked up strictly. -/
def strictSearch (g : FlowGraph) (visited : List Nat) :
    List BlockId → Except OutOfRange (List BlockId)
  | [] => return []
  | block :: stack => do
      let _ ← demand (.row block) g.outgoing[block.address]?
      if block.address ∈ visited then g.strictSearch visited stack
      else
        let rest ← g.strictSearch (block.address :: visited) (g.successors block ++ stack)
        return block :: rest
termination_by stack => g.openEdges visited + stack.length
decreasing_by
  · simp
  · rename_i h
    have := g.openEdges_visit h
    simp only [List.length_append, List.length_cons]
    omega

/-- The blocks reachable from the entry, found with strict look-ups. -/
def strictReachable (g : FlowGraph) : Except OutOfRange (List BlockId) :=
  g.strictSearch [] g.entry?.toList

/-- Only blocks of the function come on the stack of the search, and they have rows. -/
theorem strictSearch_eq {f : Function} (hinside : f.EdgesInside) (visited : List Nat)
    {stack : List BlockId} (hstack : ∀ block ∈ stack, (f.block? block).isSome) :
    (ofFunction f).strictSearch visited stack = .ok ((ofFunction f).search visited stack) := by
  induction visited, stack using search.induct (ofFunction f) with
  | case1 visited =>
      rw [strictSearch, search]
      rfl
  | case2 visited block stack hnew ih =>
      obtain ⟨b, hb⟩ := Option.isSome_iff_exists.1 (hstack block List.mem_cons_self)
      have hnext : ∀ other ∈ (ofFunction f).successors block ++ stack, (f.block? other).isSome := by
        intro other hother
        rcases List.mem_append.1 hother with htarget | hlater
        · exact hinside block other ⟨b, hb, (Function.block?_edges hb hinside).1 htarget⟩
        · exact hstack other (List.mem_cons_of_mem _ hlater)
      rw [strictSearch, search, if_pos hnew, List.getElem?_eq_getElem hnew.1,
        demand_some_bind, if_neg hnew.2, ih hnext]
      rfl
  | case3 visited block stack hold ih =>
      obtain ⟨b, hb⟩ := Option.isSome_iff_exists.1 (hstack block List.mem_cons_self)
      have hrow := Function.address_lt_of_block? hb
      -- The block has a row, so it is passed over because it was visited.
      have hvisited : block.address ∈ visited := by
        by_contra hnew
        exact hold ⟨hrow, hnew⟩
      rw [strictSearch, search, if_neg hold, List.getElem?_eq_getElem hrow,
        demand_some_bind, if_pos hvisited]
      exact ih (fun other hother => hstack other (List.mem_cons_of_mem _ hother))

theorem strictReachable_eq {f : Function} (hinside : f.EdgesInside) :
    (ofFunction f).strictReachable = .ok (ofFunction f).reachable := by
  refine strictSearch_eq hinside [] ?_
  intro entry hentry
  exact Function.block?_entry (Option.mem_toList.1 hentry)

end FlowGraph

namespace StackDiscipline

namespace Sweep

variable {f : Function} {g : FlowGraph} {s : Sweep} {block : BlockId}

/-- A turn of the traversal, with the stack that a block of the function is entered with looked up
strictly. -/
def strictAdvance (f : Function) (g : FlowGraph) (s : Sweep) (block : BlockId) :
    Except OutOfRange (Sweep × List Fault) :=
  match f.block? block with
  | none => return (s, [])
  | some b => do
      let live ← demand (.stack block) (s.stackAt? block)
      let left := walk block live b.instructions
      let joined := follow f left.1 s (g.successors block)
      return (joined.1, left.2 ++ joined.2)

theorem strictAdvance_of_stackAt? {live : Stack} (h : s.stackAt? block = some live) :
    strictAdvance f g s block = .ok (advance f g s block) := by
  cases hb : f.block? block with
  | none =>
      simp only [strictAdvance, advance, hb]
      rfl
  | some b =>
      simp only [strictAdvance, advance, hb, h]
      rfl

theorem eq_advance_of_strictAdvance {next : Sweep × List Fault}
    (h : strictAdvance f g s block = .ok next) : next = advance f g s block := by
  cases hlive : s.stackAt? block with
  | some live => exact (Except.ok.inj ((strictAdvance_of_stackAt? hlive).symm.trans h)).symm
  | none =>
      cases hb : f.block? block with
      | some b =>
          simp only [strictAdvance, hb, hlive] at h
          nomatch h
      | none =>
          simp only [strictAdvance, hb] at h
          simp only [advance, hb]
          exact (Except.ok.inj h).symm

/-- Walk the pending blocks until none is left, each with the stack that has to be recorded. -/
def strictRun (f : Function) (g : FlowGraph) : Sweep → Except OutOfRange (List Fault)
  | ⟨_, [], _⟩ => return []
  | ⟨entered, block :: pending, reported⟩ =>
      match _ : strictAdvance f g ⟨entered, pending, reported⟩ block with
      | .error missing => .error missing
      | .ok next => do
          let more ← strictRun f g next.1
          return next.2 ++ more
termination_by s => s.pending.length + s.unentered f
decreasing_by
  rename_i hnext
  rw [eq_advance_of_strictAdvance hnext]
  refine Nat.lt_of_le_of_lt (advance_measure f g ⟨entered, pending, reported⟩ block) ?_
  change pending.length + unentered f ⟨entered, block :: pending, reported⟩ <
    pending.length + 1 + unentered f ⟨entered, block :: pending, reported⟩
  omega

theorem Walks.strictRun_eq {visits : List (BlockId × List Fault)} (h : Walks f g s visits) :
    s.strictRun f g = .ok (visits.flatMap Prod.snd) := by
  induction h with
  | done entered reported =>
      rw [strictRun]
      rfl
  | turn hb hlive _ ih =>
      rw [strictRun]
      split
      · rename_i missing hmissing
        rw [strictAdvance_of_stackAt? hlive] at hmissing
        nomatch hmissing
      · rename_i next hnext
        rw [eq_advance_of_strictAdvance hnext, ih]
        rfl

end Sweep

/-- The faults of a function against stack discipline, found with strict look-ups. -/
def strictFaults (f : Function) (g : FlowGraph) : Except OutOfRange (List Fault) :=
  match f.entry? with
  | none => return []
  | some entry => Sweep.strictRun f g (.start entry)

theorem strictFaults_eq {f : Function} (hinside : f.EdgesInside) :
    strictFaults f (.ofFunction f) = .ok (faults f (.ofFunction f)) := by
  cases hentry : f.entry? with
  | none =>
      simp only [strictFaults, faults, hentry]
      rfl
  | some entry =>
      obtain ⟨visits, hwalks, -⟩ := Sweep.exists_walks_start hinside hentry
      simp only [strictFaults, faults, hentry, hwalks.strictRun_eq, hwalks.run_eq]

end StackDiscipline

namespace Verifier

/-- The faults of an instruction, found with strict look-ups. -/
def strictInstructionFaults (m : Module) (options : Options) (f : Function) (b : Block)
    (id : InstructionId) (i : Instruction) : Except OutOfRange (List Fault) := do
  let consumed ← m.strictOperandFaults options.checkOperandTypes id i
  return (if i.isTerminator && b.lastAddress? != some id.address then [.terminatorNotLast id]
      else []) ++
    (i.successors.filter (fun target => (f.block? target).isNone)).map (.invalidSuccessor id) ++
    consumed

/-- The faults of a block by itself, found with strict look-ups. -/
def strictBlockFaults (m : Module) (options : Options) (f : Function) (id : BlockId) (b : Block) :
    Except OutOfRange (List Fault) :=
  if b.isEmpty then return [.emptyBlock id]
  else do
    let found ← gather (fun entry =>
      strictInstructionFaults m options f b ⟨id, entry.1⟩ entry.2) b.instructions
    return found ++ (if b.isTerminated then [] else [.missingTerminator id])

/-- The findings in a function, made with strict look-ups.  The checks that the options leave out
are made too. -/
def strictFunctionFindings (m : Module) (options : Options) (f : Function) :
    Except OutOfRange (List Finding) := do
  let g ← FlowGraph.strictOfFunction f
  let found ← gather (fun entry => strictBlockFaults m options f entry.1 entry.2) f.blocksWithId
  let reached ← g.strictReachable
  let slots ← StackDiscipline.strictFaults f g
  let faults := found ++
    (if options.rejectUnreachableBlocks then
      ((f.blocksWithId.map Prod.fst).filter (fun id => id ∉ reached)).map .unreachableBlock
      else []) ++
    (if options.checkStackDiscipline then slots else [])
  return faults.map (fun fault => ⟨f.name, fault⟩)

/-- Everything that is wrong with a module, found with strict look-ups. -/
def strictFindings (options : Options) (m : Module) : Except OutOfRange (List Finding) :=
  gather (strictFunctionFindings m options) (bodies m)

variable {m : Module} {f : Function}

theorem strictBlockFaults_eq (m : Module) (options : Options) (f : Function) (id : BlockId)
    (b : Block) :
    strictBlockFaults m options f id b = .ok (blockFaults m options f id b) := by
  have hfound : gather (fun entry =>
      strictInstructionFaults m options f b ⟨id, entry.1⟩ entry.2) b.instructions =
      .ok (b.instructions.flatMap (fun entry =>
        instructionFaults m options f b ⟨id, entry.1⟩ entry.2)) := by
    refine gather_eq_ok (fun entry _ => ?_)
    rw [strictInstructionFaults, Module.strictOperandFaults_eq]
    rfl
  rw [strictBlockFaults, blockFaults, hfound]
  exact (apply_ite Except.ok _ _ _).symm

theorem strictFunctionFindings_eq (hinside : f.EdgesInside) (options : Options) :
    strictFunctionFindings m options f = .ok (functionFindings m options f) := by
  have hfound : gather (fun entry => strictBlockFaults m options f entry.1 entry.2)
      f.blocksWithId =
      .ok (f.blocksWithId.flatMap (fun entry => blockFaults m options f entry.1 entry.2)) :=
    gather_eq_ok (fun entry _ => strictBlockFaults_eq m options f entry.1 entry.2)
  rw [strictFunctionFindings, FlowGraph.strictOfFunction_eq, hfound]
  change ((FlowGraph.ofFunction f).strictReachable >>= _) = _
  rw [FlowGraph.strictReachable_eq hinside]
  change (StackDiscipline.strictFaults f (.ofFunction f) >>= _) = _
  rw [StackDiscipline.strictFaults_eq hinside]
  rfl

theorem strictFindings_eq (hm : m.Consistent) (options : Options) :
    strictFindings options m = .ok (findings options m) := by
  refine gather_eq_ok (fun f hf => ?_)
  have hmem : f ∈ m.functions := List.mem_of_mem_filter hf
  exact strictFunctionFindings_eq (hm.edgesInside (hm.function?_of_mem hmem)) options

end Verifier

end BlockIR
