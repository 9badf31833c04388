import BlockIR.Proofs.DepthFirst
/-!
Each reachable block is walked once.

The traversal that checks stack discipline keeps its own list of pending blocks, and a block gets on
it only when the first path to it is found.  So its blocks come in another order than those of the
depth-first search, but they are the same ones, and the traversal ends when it has walked each of
them.
-/

namespace BlockIR

namespace StackDiscipline

namespace Sweep

variable {f : Function} {g : FlowGraph} {s after : Sweep} {block : BlockId} {live : Stack}

/-- The traversal goes on from a state to its end.  Each turn takes the next pending block, which has
to be a block of the function that a path was found to, and walks it; the blocks are listed with the
faults that their turns found. -/
inductive Walks (f : Function) (g : FlowGraph) : Sweep → List (BlockId × List Fault) → Prop where
  | done (entered : List (BlockId × Stack)) (reported : List BlockId) :
      Walks f g ⟨entered, [], reported⟩ []
  | turn {entered : List (BlockId × Stack)} {block : BlockId} {pending reported : List BlockId}
      {b : Block} {live : Stack} {visits : List (BlockId × List Fault)}
      (hb : f.block? block = some b) (hlive : stackAt? ⟨entered, pending, reported⟩ block = some live)
      (hrest : Walks f g (advance f g ⟨entered, pending, reported⟩ block).1 visits) :
      Walks f g ⟨entered, block :: pending, reported⟩
        ((block, (advance f g ⟨entered, pending, reported⟩ block).2) :: visits)

/-- The faults of a traversal are those of its turns, one after the other. -/
theorem Walks.run_eq {visits : List (BlockId × List Fault)} (h : Walks f g s visits) :
    s.run f g = visits.flatMap Prod.snd := by
  induction h with
  | done entered reported => rw [run, List.flatMap_nil]
  | turn _ _ _ ih => rw [run, List.flatMap_cons, ih]

/-- The blocks that a path was found to. -/
def found (s : Sweep) : List BlockId := s.entered.map Prod.fst

theorem stackAt?_isSome_iff : (s.stackAt? block).isSome ↔ block ∈ s.found := by
  rw [stackAt?, found]
  induction s.entered with
  | nil => simp
  | cons entry rest ih =>
      by_cases heq : block = entry.1
      · simp [heq]
      · simp [heq, ← ih]

/-- What following edges to `targets` finds, whether faults are reported or not: `new` are the
blocks that no path was found to before, and they are pending afterwards. -/
structure Discovers (f : Function) (targets new : List BlockId) (s after : Sweep) : Prop where
  found : after.found = new ++ s.found
  pending : after.pending = new ++ s.pending
  distinct : new.Nodup
  fresh : ∀ block ∈ new, block ∈ targets ∧ (f.block? block).isSome ∧ block ∉ s.found
  complete : ∀ target ∈ targets, (f.block? target).isSome → target ∈ after.found

/-- A target that is missing, or that a path was found to already, is no discovery. -/
theorem Discovers.skip {target : BlockId} {targets new : List BlockId}
    (hrest : Discovers f targets new s after)
    (htarget : (f.block? target).isSome → target ∈ s.found) :
    Discovers f (target :: targets) new s after where
  found := hrest.found
  pending := hrest.pending
  distinct := hrest.distinct
  fresh := by
    intro block hblock
    obtain ⟨hmem, hpresent, hnew⟩ := hrest.fresh block hblock
    exact ⟨List.mem_cons_of_mem _ hmem, hpresent, hnew⟩
  complete := by
    intro other hother hpresent
    rcases List.mem_cons.1 hother with rfl | hlater
    · rw [hrest.found]
      exact List.mem_append_right _ (htarget hpresent)
    · exact hrest.complete other hlater hpresent

theorem Discovers.enter {target : BlockId} {targets new : List BlockId}
    (hpresent : (f.block? target).isSome) (hnew : target ∉ s.found)
    (hrest : Discovers f targets new
      { s with entered := (target, live) :: s.entered, pending := target :: s.pending } after) :
    Discovers f (target :: targets) (new ++ [target]) s after := by
  have hfound : after.found = new ++ [target] ++ s.found := by
    rw [hrest.found, List.append_assoc]
    rfl
  refine ⟨hfound, ?_, ?_, ?_, ?_⟩
  · rw [hrest.pending, List.append_assoc]
    rfl
  · rw [List.nodup_append]
    refine ⟨hrest.distinct, List.nodup_singleton target, ?_⟩
    rintro block hblock _ htarget rfl
    obtain rfl := List.mem_singleton.1 htarget
    exact (hrest.fresh block hblock).2.2 List.mem_cons_self
  · intro block hblock
    rcases List.mem_append.1 hblock with hlater | hhere
    · obtain ⟨hmem, hsome, hfresh⟩ := hrest.fresh block hlater
      exact ⟨List.mem_cons_of_mem _ hmem, hsome,
        fun hold => hfresh (List.mem_cons_of_mem _ hold)⟩
    · obtain rfl := List.mem_singleton.1 hhere
      exact ⟨List.mem_cons_self, hpresent, hnew⟩
  · intro other hother hsome
    rcases List.mem_cons.1 hother with rfl | hlater
    · simp [hfound]
    · exact hrest.complete other hlater hsome

/-- Following edges discovers the targets that no path was found to before. -/
theorem exists_discovers (f : Function) (live : Stack) (s : Sweep) (targets : List BlockId) :
    ∃ new, Discovers f targets new s (follow f live s targets).1 := by
  induction targets generalizing s with
  | nil => exact ⟨[], rfl, rfl, List.nodup_nil, by simp, by simp⟩
  | cons target rest ih =>
      rw [follow]
      split
      · rename_i hmissing
        obtain ⟨new, hnew⟩ := ih s
        refine ⟨new, hnew.skip (fun hpresent => ?_)⟩
        simp [Option.isNone_iff_eq_none.1 hmissing] at hpresent
      · rename_i hpresent
        split
        · rename_i hnone
          obtain ⟨new, hnew⟩ := ih
            { s with entered := (target, live) :: s.entered, pending := target :: s.pending }
          refine ⟨new ++ [target], hnew.enter ?_ ?_⟩
          · simpa [Option.isSome_iff_ne_none] using hpresent
          · rw [← stackAt?_isSome_iff, hnone]
            simp
        · rename_i stack hstack
          have hknown : target ∈ s.found := stackAt?_isSome_iff.1 (by simp [hstack])
          split
          · obtain ⟨new, hnew⟩ := ih s
            exact ⟨new, hnew.skip (fun _ => hknown)⟩
          · -- A report changes neither what is found nor what is pending.
            obtain ⟨new, hnew⟩ := ih { s with reported := target :: s.reported }
            exact ⟨new, Discovers.skip ⟨hnew.found, hnew.pending, hnew.distinct, hnew.fresh,
              hnew.complete⟩ (fun _ => hknown)⟩

/-- What holds of a traversal that has walked some blocks: the others that it found are pending, all
of them are blocks that paths lead to, and what a walked block leads to was found. -/
structure Explores (f : Function) (walked : List BlockId) (s : Sweep) : Prop where
  entry : ∀ entry, f.entry? = some entry → entry ∈ s.found
  distinct : s.found.Nodup
  split : s.found.Perm (walked ++ s.pending)
  reached : ∀ block ∈ s.found, (f.block? block).isSome ∧ f.Reaches block
  closed : ∀ block ∈ walked, ∀ target, f.Edge block target → target ∈ s.found

theorem Explores.start {entry : BlockId} (hentry : f.entry? = some entry) :
    Explores f [] (start entry) where
  entry := by
    intro other hother
    rw [hentry] at hother
    obtain rfl := Option.some.inj hother
    exact List.mem_cons_self
  distinct := List.nodup_singleton entry
  split := List.Perm.refl _
  reached := by
    intro block hblock
    obtain rfl := List.mem_singleton.1 hblock
    exact ⟨Function.block?_entry hentry, .entry hentry⟩
  closed := by simp

/-- A turn walks one block more. -/
theorem Explores.advance (hinside : f.EdgesInside) {walked : List BlockId}
    {entered : List (BlockId × Stack)} {pending reported : List BlockId}
    (h : Explores f walked ⟨entered, block :: pending, reported⟩) :
    (∃ b live, f.block? block = some b ∧
      stackAt? ⟨entered, pending, reported⟩ block = some live) ∧
    Explores f (walked ++ [block])
      (advance f (.ofFunction f) ⟨entered, pending, reported⟩ block).1 := by
  have hblock : block ∈ found ⟨entered, pending, reported⟩ :=
    h.split.mem_iff.2 (List.mem_append_right _ List.mem_cons_self)
  obtain ⟨hpresent, hreaches⟩ := h.reached block hblock
  obtain ⟨b, hb⟩ := Option.isSome_iff_exists.1 hpresent
  obtain ⟨live, hlive⟩ := Option.isSome_iff_exists.1 (stackAt?_isSome_iff.2 hblock)
  refine ⟨⟨b, live, hb, hlive⟩, ?_⟩
  simp only [Sweep.advance, hb, hlive]
  obtain ⟨new, hnew⟩ := exists_discovers f (walk block live b.instructions).1
    ⟨entered, pending, reported⟩ ((FlowGraph.ofFunction f).successors block)
  have hgrown : ∀ {other : BlockId}, other ∈ found ⟨entered, pending, reported⟩ → other ∈
      (follow f (walk block live b.instructions).1 ⟨entered, pending, reported⟩
        ((FlowGraph.ofFunction f).successors block)).1.found := by
    intro other hother
    rw [hnew.found]
    exact List.mem_append_right _ hother
  refine ⟨fun entry hentry => hgrown (h.entry entry hentry), ?_, ?_, ?_, ?_⟩
  · rw [hnew.found, List.nodup_append]
    refine ⟨hnew.distinct, h.distinct, ?_⟩
    rintro other hother _ hold rfl
    exact (hnew.fresh other hother).2.2 hold
  · rw [hnew.found, hnew.pending]
    have hbefore : (new ++ found ⟨entered, pending, reported⟩).Perm
        (new ++ (walked ++ block :: pending)) := h.split.append_left new
    have hcut : new ++ (walked ++ block :: pending) = new ++ (walked ++ [block]) ++ pending := by
      simp
    rw [hcut] at hbefore
    rw [← List.append_assoc (walked ++ [block])]
    exact hbefore.trans (List.perm_append_comm.append_right pending)
  · intro other hother
    rw [hnew.found] at hother
    rcases List.mem_append.1 hother with hdiscovered | hold
    · obtain ⟨htarget, hsome, -⟩ := hnew.fresh other hdiscovered
      exact ⟨hsome, hreaches.edge ⟨b, hb, (Function.block?_edges hb hinside).1 htarget⟩⟩
    · exact h.reached other hold
  · intro other hother target hedge
    rcases List.mem_append.1 hother with hearlier | hhere
    · exact hgrown (h.closed other hearlier target hedge)
    · obtain rfl := List.mem_singleton.1 hhere
      obtain ⟨c, hc, htarget⟩ := hedge
      obtain rfl := Option.some.inj (hb.symm.trans hc)
      exact hnew.complete target ((Function.block?_edges hb hinside).2 htarget)
        (hinside other target ⟨b, hb, htarget⟩)

/-- A traversal ends, and what it has walked then is everything that it found. -/
theorem exists_walks (hinside : f.EdgesInside) (s : Sweep) :
    ∀ walked, Explores f walked s → ∃ visits last, Walks f (.ofFunction f) s visits ∧
      last.pending = [] ∧ Explores f (walked ++ visits.map Prod.fst) last := by
  induction s using run.induct f (.ofFunction f) with
  | case1 entered reported =>
      intro walked h
      exact ⟨[], ⟨entered, [], reported⟩, .done entered reported, rfl, by simpa using h⟩
  | case2 entered block pending reported next ih =>
      intro walked h
      obtain ⟨⟨b, live, hb, hlive⟩, hnext⟩ := h.advance hinside
      obtain ⟨visits, last, hwalks, hend, hlast⟩ := ih (walked ++ [block]) hnext
      refine ⟨_, last, .turn hb hlive hwalks, hend, ?_⟩
      simpa using hlast

/-- Once nothing is pending, the walked blocks are those that paths lead to. -/
theorem Explores.mem_walked_iff {walked : List BlockId} (h : Explores f walked s)
    (hend : s.pending = []) : block ∈ walked ↔ f.Reaches block := by
  have hfound : ∀ other, other ∈ s.found ↔ other ∈ walked := by
    intro other
    rw [h.split.mem_iff, hend, List.append_nil]
  rw [← hfound]
  constructor
  · exact fun hmem => (h.reached block hmem).2
  · intro hreaches
    refine hreaches.induction (P := fun block => block ∈ s.found) h.entry ?_
    intro source target hsource hedge
    exact h.closed source ((hfound source).1 hsource) target hedge

/-- The traversal from the entry walks the blocks that the search from the entry lists, each once. -/
theorem exists_walks_start (hinside : f.EdgesInside) {entry : BlockId}
    (hentry : f.entry? = some entry) :
    ∃ visits, Walks f (.ofFunction f) (start entry) visits ∧
      (visits.map Prod.fst).Perm (FlowGraph.ofFunction f).reachable := by
  obtain ⟨visits, last, hwalks, hend, hlast⟩ :=
    exists_walks hinside (start entry) [] (.start hentry)
  rw [List.nil_append] at hlast
  have hdistinct : (visits.map Prod.fst).Nodup := by
    have hsplit := hlast.split
    rw [hend, List.append_nil] at hsplit
    exact hsplit.nodup_iff.1 hlast.distinct
  refine ⟨visits, hwalks, ?_⟩
  rw [List.perm_ext_iff_of_nodup hdistinct (FlowGraph.nodup_reachable _)]
  intro block
  rw [hlast.mem_walked_iff hend, Function.mem_reachable_iff hinside]

end Sweep

end StackDiscipline

end BlockIR
