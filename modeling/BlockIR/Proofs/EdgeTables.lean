import BlockIR.FlowGraph
import Mathlib.Data.List.Induction
import Mathlib.Data.List.Nodup
/-!
The edge tables of a function.

Both tables are filled in one pass over the blocks, and an end of an edge is entered in a row only if
it is not there yet.  Row by row this comes to the same as picking the edges that belong into it: a
block's own edges without repetitions, and the blocks that lead to it in the order in which they
stand in the function.
-/

namespace BlockIR

namespace EdgeTables

variable {t : EdgeTables} {source block : BlockId} {row : List BlockId}

theorem enter_of_mem (h : block ∈ row) : enter block row = row := if_pos h

theorem enter_of_notMem (h : block ∉ row) : enter block row = row ++ [block] := if_neg h

theorem mem_enter {other : BlockId} : other ∈ enter block row ↔ other ∈ row ∨ other = block := by
  by_cases hmem : block ∈ row
  · rw [enter_of_mem hmem]
    constructor
    · exact .inl
    · rintro (hother | rfl)
      · exact hother
      · exact hmem
  · simp [enter_of_notMem hmem]

/-- Blocks entered one after the other stand as they came, the first of each. -/
theorem foldl_enter (blocks : List BlockId) :
    blocks.foldl (fun row block => enter block row) [] = blocks.eraseDups := by
  induction blocks using List.reverseRecOn with
  | nil => rfl
  | append_singleton blocks last ih =>
      rw [List.foldl_append, ih, List.eraseDups_append]
      by_cases hmem : last ∈ blocks
      · simp [enter_of_mem (List.mem_eraseDups.2 hmem), List.removeAll, hmem]
      · have hrow : last ∉ blocks.eraseDups := fun h => hmem (List.mem_eraseDups.1 h)
        simp [enter_of_notMem hrow, List.removeAll, hmem, List.eraseDups_cons]

/-- The edges that leave a block change its own row of the one table. -/
theorem outgoing_leave (t : EdgeTables) (source : BlockId) (targets : List BlockId)
    (address : Nat) :
    (t.leave source targets).outgoing[address]? = t.outgoing[address]?.map (fun row =>
      if address = source.address then targets.foldl (fun row target => enter target row) row
      else row) := by
  induction targets generalizing t with
  | nil => simp [leave]
  | cons target rest ih =>
      have hstep : t.leave source (target :: rest) = (t.connect source target).leave source rest :=
        rfl
      rw [hstep, ih]
      by_cases hown : address = source.address
      · simp [connect, hown, Function.comp_def]
      · have hne : source.address ≠ address := fun h => hown h.symm
        simp [connect, hown, hne]

/-- The edges that leave a block enter it once in the row of each block they lead to. -/
theorem incoming_leave (t : EdgeTables) (source : BlockId) (targets : List BlockId)
    (address : Nat) :
    (t.leave source targets).incoming[address]? = t.incoming[address]?.map (fun row =>
      if address ∈ targets.map BlockId.address then enter source row else row) := by
  induction targets generalizing t with
  | nil => simp [leave]
  | cons target rest ih =>
      have hstep : t.leave source (target :: rest) = (t.connect source target).leave source rest :=
        rfl
      have hagain : ∀ row, enter source (enter source row) = enter source row :=
        fun row => enter_of_mem (mem_enter.2 (.inr rfl))
      rw [hstep, ih]
      by_cases hhere : address = target.address
      · by_cases hlater : target.address ∈ rest.map BlockId.address
        · simp [connect, hhere, hlater, hagain, Function.comp_def]
        · simp [connect, hhere, hlater, Function.comp_def]
      · have hne : target.address ≠ address := fun h => hhere h.symm
        simp [connect, hhere, hne]

variable {function : FunctionId} {entries : List (BlockId × Block)}

/-- The tables after the edges of blocks were entered, one block after the other. -/
def leaveAll (function : FunctionId) (t : EdgeTables) (entries : List (BlockId × Block)) :
    EdgeTables :=
  entries.foldl (fun t entry => t.leave entry.1 (entry.2.edges function)) t

theorem outgoing_leaveAll_of_notMem {address : Nat}
    (hother : address ∉ entries.map (fun entry => entry.1.address)) :
    (leaveAll function t entries).outgoing[address]? = t.outgoing[address]? := by
  induction entries generalizing t with
  | nil => rfl
  | cons entry rest ih =>
      rw [List.map_cons, List.mem_cons, not_or] at hother
      change (leaveAll function (t.leave entry.1 (entry.2.edges function)) rest).outgoing[address]?
        = _
      rw [ih hother.2, outgoing_leave]
      simp [hother.1]

/-- The row of a block is filled when its turn comes, and not again. -/
theorem outgoing_leaveAll (function : FunctionId) {id : BlockId} {b : Block}
    (hdistinct : (entries.map (fun entry => entry.1.address)).Nodup) (hmem : (id, b) ∈ entries) :
    (leaveAll function t entries).outgoing[id.address]? = t.outgoing[id.address]?.map
      (fun row => (b.edges function).foldl (fun row target => enter target row) row) := by
  induction entries generalizing t with
  | nil => simp at hmem
  | cons entry rest ih =>
      rw [List.map_cons, List.nodup_cons] at hdistinct
      change (leaveAll function (t.leave entry.1 (entry.2.edges function)) rest).outgoing[_]? = _
      rcases List.mem_cons.1 hmem with rfl | hlater
      · rw [outgoing_leaveAll_of_notMem hdistinct.1, outgoing_leave]
        simp
      · have hne : id.address ≠ entry.1.address := by
          intro heq
          apply hdistinct.1
          rw [← heq]
          exact List.mem_map.2 ⟨_, hlater, rfl⟩
        rw [ih hdistinct.2 hlater, outgoing_leave]
        simp [hne]

/-- Blocks that a row does not have yet are added to it in the order of their turns, where they lead
to the block of the row. -/
theorem incoming_leaveAll (function : FunctionId) {address : Nat}
    (hrow : t.incoming[address]? = some row) (hdistinct : (entries.map Prod.fst).Nodup)
    (hnew : ∀ entry ∈ entries, entry.1 ∉ row) :
    (leaveAll function t entries).incoming[address]? = some (row ++ (entries.filter (fun entry =>
      address ∈ (entry.2.edges function).map BlockId.address)).map Prod.fst) := by
  induction entries generalizing t row with
  | nil => simpa [leaveAll] using hrow
  | cons entry rest ih =>
      rw [List.map_cons, List.nodup_cons] at hdistinct
      have hfirst : entry.1 ∉ row := hnew entry List.mem_cons_self
      change (leaveAll function (t.leave entry.1 (entry.2.edges function)) rest).incoming[address]?
        = _
      have hnext := t.incoming_leave entry.1 (entry.2.edges function) address
      rw [hrow, Option.map_some] at hnext
      rw [ih hnext hdistinct.2, List.filter_cons]
      · by_cases hleads : address ∈ (entry.2.edges function).map BlockId.address
        · simp [hleads, enter_of_notMem hfirst]
        · simp [hleads]
      · -- What comes later is neither in the row nor the block whose turn it is.
        intro other hother
        have hold := hnew other (List.mem_cons_of_mem _ hother)
        have hne : other.1 ≠ entry.1 := by
          intro heq
          apply hdistinct.1
          rw [← heq]
          exact List.mem_map.2 ⟨other, hother, rfl⟩
        split
        · simp [mem_enter, hold, hne]
        · exact hold

theorem length_leave (t : EdgeTables) (source : BlockId) (targets : List BlockId) :
    (t.leave source targets).outgoing.length = t.outgoing.length := by
  induction targets generalizing t with
  | nil => rfl
  | cons target rest ih =>
      rw [leave, List.foldl_cons]
      exact (ih (t.connect source target)).trans (List.length_modify ..)

theorem length_leaveAll (t : EdgeTables) (entries : List (BlockId × Block)) :
    (leaveAll function t entries).outgoing.length = t.outgoing.length := by
  induction entries generalizing t with
  | nil => rfl
  | cons entry rest ih => exact (ih _).trans (t.length_leave _ _)

end EdgeTables

theorem Block.function_of_mem_edges {function : FunctionId} {b : Block} {target : BlockId}
    (h : target ∈ b.edges function) : target.function = function := by
  unfold edges at h
  split at h
  · simp at h
  · simpa using (List.mem_filter.1 h).2

namespace Function

theorem map_address_blocksWithId (f : Function) :
    f.blocksWithId.map (fun entry => entry.1.address) = List.range f.blocks.length := by
  rw [blocksWithId, List.map_map, List.range_eq_range', ← List.zipIdx_map_snd]
  rfl

theorem nodup_blocksWithId (f : Function) : (f.blocksWithId.map Prod.fst).Nodup := by
  apply List.Nodup.of_map BlockId.address
  rw [List.map_map]
  exact f.map_address_blocksWithId ▸ List.nodup_range

theorem function_of_mem_blocksWithId {f : Function} {entry : BlockId × Block}
    (h : entry ∈ f.blocksWithId) : entry.1.function = f.id := by
  obtain ⟨_, -, rfl⟩ := List.mem_map.1 h
  rfl

theorem address_lt_of_mem_blocksWithId {f : Function} {entry : BlockId × Block}
    (h : entry ∈ f.blocksWithId) : entry.1.address < f.blockCount := by
  rw [blockCount, ← List.mem_range, ← map_address_blocksWithId]
  exact List.mem_map.2 ⟨entry, h, rfl⟩

end Function

namespace FlowGraph

variable {f : Function} {id : BlockId} {b : Block}

theorem length_outgoing_ofFunction (f : Function) :
    (ofFunction f).outgoing.length = f.blocks.length :=
  (EdgeTables.length_leaveAll _ _).trans List.length_replicate

theorem successors_ofFunction (hb : (id, b) ∈ f.blocksWithId) :
    (ofFunction f).successors id = (b.edges f.id).eraseDups := by
  have hdistinct : (f.blocksWithId.map (fun entry => entry.1.address)).Nodup :=
    f.map_address_blocksWithId ▸ List.nodup_range
  have hblank : (EdgeTables.blank f.blockCount).outgoing[id.address]? = some [] := by
    simpa [EdgeTables.blank, List.getElem?_replicate] using
      Function.address_lt_of_mem_blocksWithId hb
  have hrow := EdgeTables.outgoing_leaveAll (t := .blank f.blockCount) f.id hdistinct hb
  rw [hblank, Option.map_some, EdgeTables.foldl_enter] at hrow
  change ((EdgeTables.leaveAll f.id (.blank f.blockCount) f.blocksWithId).outgoing[_]?).getD [] = _
  rw [hrow, Option.getD_some]

theorem predecessors_ofFunction (hb : (id, b) ∈ f.blocksWithId) :
    (ofFunction f).predecessors id =
      (f.blocksWithId.filter (fun entry => id ∈ entry.2.edges f.id)).map Prod.fst := by
  have hblank : (EdgeTables.blank f.blockCount).incoming[id.address]? = some [] := by
    simpa [EdgeTables.blank, List.getElem?_replicate] using
      Function.address_lt_of_mem_blocksWithId hb
  have hrow := EdgeTables.incoming_leaveAll f.id hblank f.nodup_blocksWithId (by simp)
  change ((EdgeTables.leaveAll f.id (.blank f.blockCount) f.blocksWithId).incoming[_]?).getD [] = _
  rw [hrow, Option.getD_some, List.nil_append]
  -- Edges stay in the function, so that an address tells its blocks apart.
  congr 1
  refine List.filter_congr (fun entry _ => ?_)
  rw [decide_eq_decide, List.mem_map]
  constructor
  · rintro ⟨target, htarget, haddress⟩
    have hfunction : target.function = id.function :=
      (Block.function_of_mem_edges htarget).trans (Function.function_of_mem_blocksWithId hb).symm
    have heq : target = id := by
      cases target
      cases id
      simp_all
    exact heq ▸ htarget
  · exact fun hmem => ⟨id, hmem, rfl⟩

end FlowGraph

end BlockIR
