import BlockIR.Proofs.Construction
import BlockIR.Proofs.TypedOperands
/-!
The order in which blocks are filled.

What a request is granted with depends on its own block, on the values that its operands name and on
what is declared.  A request granted for another block leaves all of these as they are, so two
requests for different blocks that are both granted can change places.  Two orders of requests that
agree on each single block are led into one another by such exchanges.
-/

namespace BlockIR

/-- A request for an instruction. -/
structure Request where
  point : InsertionPoint
  draft : Draft
  site : Span
deriving DecidableEq

namespace Request

/-- The block that the instruction is asked for. -/
def block (request : Request) : BlockId := request.point.block

def make (request : Request) : Action Module InstructionId :=
  Module.make request.point request.draft request.site

end Request

namespace Module

variable {m n last : Module} {point other : InsertionPoint}

/-- Make what is requested, one instruction after the other, until a request is refused. -/
def makeAll (requests : List Request) : Action Module (List InstructionId) :=
  requests.mapM Request.make

theorem modifyBlock_comm (m : Module) {first second : BlockId} (hne : first ≠ second)
    (change other : Block → Block) :
    (m.modifyBlock first change).modifyBlock second other =
      (m.modifyBlock second other).modifyBlock first change := by
  obtain ⟨⟨function⟩, address⟩ := first
  obtain ⟨⟨function'⟩, address'⟩ := second
  simp only [modifyBlock, modifyFunction]
  by_cases hfunction : function = function'
  · subst hfunction
    have haddress : address ≠ address' := by
      rintro rfl
      exact hne rfl
    have hinner : ∀ f : Function, (f.modifyBlock address change).modifyBlock address' other =
        (f.modifyBlock address' other).modifyBlock address change := by
      intro f
      simp only [Function.modifyBlock]
      rw [List.modify_modify_ne _ _ _ haddress]
    simp only [List.modify_modify_eq, Function.comp_def, hinner]
  · rw [List.modify_modify_ne _ _ _ hfunction]

theorem place_comm (m : Module) (hne : point.block ≠ other.block) (i j : Instruction) :
    (m.place point i).place other j = (m.place other j).place point i := by
  simp only [place_eq_modifyBlock]
  exact m.modifyBlock_comm hne _ _

theorem nextInstruction_place (m : Module) {block : BlockId} (hne : block ≠ other.block)
    (i : Instruction) : (m.place other i).nextInstruction block = m.nextInstruction block := by
  rw [nextInstruction, block?_place, if_neg hne, nextInstruction]

theorem Extends.place (m : Module) (point : InsertionPoint) (i : Instruction) :
    m.Extends (m.place point i) := by
  rw [place_eq_modifyBlock]
  exact .modifyBlock (fun b => b.params_put i point)

theorem Keeps.place (hblock : (m.block? point.block).isSome) (i : Instruction)
    (id : InstructionId) : m.Keeps (m.place point i) id := by
  intro j hj
  exact ⟨j, instruction?_place_of_live hblock i hj, .refl j⟩

/-- A request is granted the same operation after an instruction was placed into another block. -/
theorem prepare_place {draft : Draft} {operation : Operation}
    (hprepare : m.prepare point draft = .ok operation) (hne : point.block ≠ other.block)
    (hother : (m.block? other.block).isSome) (i : Instruction) :
    (m.place other i).prepare point draft = .ok operation := by
  have hdraft := draft_of_prepare hprepare
  have hrow : (m.place other i).Row point.block.function operation operation.resultTypes :=
    (row_of_prepare hprepare).mono (.place m other i) (fun _ _ id _ => .place hother i id)
  have hplace : (m.place other i).checkPlace point operation = .ok () := by
    have hbefore := (checkInsertion_eq_ok.1 (prepare_eq_ok.1 hprepare).2).1
    rw [checkPlace_eq_ok] at hbefore ⊢
    rwa [block?_place, if_neg hne]
  obtain ⟨made, hmade, hresults⟩ := hrow.prepare hplace
  have hsame : made = operation := Operation.eq_of_draft (draft_of_prepare hmade) hresults
  rwa [hsame, hdraft] at hmade

/-- Requests that are granted one after the other, each with the identity that answers it, lead from
the first module to the second. -/
inductive Fills : Module → List (Request × InstructionId) → Module → Prop where
  | nil (m : Module) : Fills m [] m
  | cons {m n : Module} {request : Request} {operation : Operation}
      {rest : List (Request × InstructionId)}
      (hprepare : m.prepare request.point request.draft = .ok operation)
      (hrest : Fills (m.place request.point ⟨operation, request.site⟩) rest n) :
      Fills m ((request, m.nextInstruction request.block) :: rest) n

theorem fills_of_makeAll {requests : List Request} {ids : List InstructionId}
    (h : ((makeAll requests).run m).result = .ok ids) :
    ids.length = requests.length ∧ Fills m (requests.zip ids) ((makeAll requests).run m).state := by
  induction requests generalizing m ids with
  | nil =>
      obtain rfl := Except.ok.inj h
      exact ⟨rfl, .nil m⟩
  | cons request rest ih =>
      have hunfold : makeAll (request :: rest) =
          request.make >>= fun id => (fun more => id :: more) <$> makeAll rest := by
        simp [makeAll]
      rw [hunfold] at h ⊢
      cases hprepare : m.prepare request.point request.draft with
      | error violation =>
          have hrun : request.make.run m = ⟨.error violation, m, []⟩ := by
            simp [Request.make, Action.run, make, hprepare]
          simp [Action.run_bind_of_error hrun] at h
      | ok operation =>
          have hrun : request.make.run m = ⟨.ok (m.nextInstruction request.block),
              m.place request.point ⟨operation, request.site⟩,
              [.insertedInstruction request.point.block ⟨operation, request.site⟩]⟩ := by
            simp [Request.make, Action.run, make, hprepare, Request.block]
          rw [Action.run_bind_of_ok hrun, Action.run_map] at h ⊢
          obtain ⟨more, hmore, rfl⟩ := Checks.map_eq_ok.1 h
          obtain ⟨hlength, hrest⟩ := ih hmore
          exact ⟨by simp [hlength], .cons hprepare hrest⟩

/-- A request that is granted at once may come before requests for other blocks. -/
theorem Fills.forward {request : Request} {id : InstructionId} {operation : Operation}
    {before after : List (Request × InstructionId)}
    (hprepare : m.prepare request.point request.draft = .ok operation)
    (hbefore : ∀ entry ∈ before, entry.1.block ≠ request.block)
    (h : Fills m (before ++ (request, id) :: after) n) :
    Fills m ((request, id) :: (before ++ after)) n := by
  induction before generalizing m with
  | nil => exact h
  | cons entry before ih =>
      cases h with
      | @cons _ _ earlier made _ hearlier hrest =>
          have hne : earlier.point.block ≠ request.point.block := hbefore _ List.mem_cons_self
          have hfits := prepare_place hprepare hne.symm (block?_isSome_of_prepare hearlier)
            ⟨made, earlier.site⟩
          have hforward := ih hfits (fun e he => hbefore e (List.mem_cons_of_mem _ he)) hrest
          -- The two of them change places: neither notices that the other one was there before.
          cases hforward with
          | cons hagain htail =>
              obtain rfl := Except.ok.inj (hfits.symm.trans hagain)
              rw [place_comm m hne] at htail
              have hlater := prepare_place hearlier hne (block?_isSome_of_prepare hprepare)
                ⟨operation, request.site⟩
              have hid := m.nextInstruction_place hne.symm ⟨made, earlier.site⟩
              have hlaterId := m.nextInstruction_place hne ⟨operation, request.site⟩
              rw [Request.block, hid]
              refine .cons hprepare ?_
              rw [Request.block, ← hlaterId]
              exact .cons hlater htail

/-- The entries for one block, in order. -/
def entriesIn (block : BlockId) (entries : List (Request × InstructionId)) :
    List (Request × InstructionId) :=
  entries.filter (fun entry => entry.1.block = block)

theorem entriesIn_cons (block : BlockId) (entry : Request × InstructionId)
    (rest : List (Request × InstructionId)) :
    entriesIn block (entry :: rest) =
      if entry.1.block = block then entry :: entriesIn block rest else entriesIn block rest := by
  simp [entriesIn, List.filter_cons]

theorem eq_nil_of_entriesIn {entries : List (Request × InstructionId)}
    (h : ∀ block, entriesIn block entries = []) : entries = [] := by
  cases entries with
  | nil => rfl
  | cons entry rest => simpa [entriesIn_cons] using h entry.1.block

theorem map_fst_entriesIn_zip {requests : List Request} {ids : List InstructionId}
    (hlength : ids.length = requests.length) (block : BlockId) :
    (entriesIn block (requests.zip ids)).map Prod.fst =
      requests.filter (fun request => request.block = block) := by
  have hrequests : (requests.zip ids).map Prod.fst = requests := List.map_fst_zip hlength.ge
  conv_rhs => rw [← hrequests, List.filter_map]
  rfl

/-- An entry may come before entries for other blocks, as far as each single block can tell. -/
theorem entriesIn_forward {entry : Request × InstructionId}
    {before after : List (Request × InstructionId)}
    (hbefore : ∀ other ∈ before, other.1.block ≠ entry.1.block) (block : BlockId) :
    entriesIn block (before ++ entry :: after) = entriesIn block (entry :: (before ++ after)) := by
  by_cases hblock : entry.1.block = block
  · have hnone : before.filter (fun other => other.1.block = block) = [] := by
      rw [List.filter_eq_nil_iff]
      intro other hother
      simpa [← hblock] using hbefore other hother
    simp [entriesIn, hblock, hnone]
  · simp [entriesIn, hblock]

/-- Two runs from one module whose requests agree on each block end in the same module, with the
same answers.  The induction is on the first run: its next request is the next one for its block in
the second run too, and comes first there by exchanges with requests for other blocks. -/
theorem Fills.unique {entries others : List (Request × InstructionId)} (h : Fills m entries n)
    (hothers : Fills m others last)
    (hsame : ∀ block,
      (entriesIn block entries).map Prod.fst = (entriesIn block others).map Prod.fst) :
    n = last ∧ ∀ block, entriesIn block entries = entriesIn block others := by
  induction h generalizing others with
  | nil m =>
      obtain rfl : others = [] := by
        apply eq_nil_of_entriesIn
        intro block
        simpa [entriesIn] using (hsame block).symm
      cases hothers
      exact ⟨rfl, fun _ => rfl⟩
  | @cons m n request operation rest hprepare _ ih =>
      have hnext := hsame request.block
      rw [entriesIn_cons, if_pos rfl, List.map_cons] at hnext
      obtain ⟨⟨found, id⟩, tail, hentries, hfound, -⟩ := List.map_eq_cons_iff.1 hnext.symm
      obtain rfl : found = request := hfound
      obtain ⟨before, after, rfl, hbefore, -, -⟩ := List.filter_eq_cons_iff.1 hentries
      have hfree : ∀ other ∈ before, other.1.block ≠ found.block := by
        intro other hother
        simpa using hbefore other hother
      have hmoved : ∀ block, entriesIn block (before ++ (found, id) :: after) =
          entriesIn block ((found, id) :: (before ++ after)) := entriesIn_forward hfree
      simp only [hmoved] at hsame ⊢
      cases Fills.forward hprepare hfree hothers with
      | cons hagain hrest =>
          obtain rfl := Except.ok.inj (hprepare.symm.trans hagain)
          have hrestSame : ∀ block, (entriesIn block rest).map Prod.fst =
              (entriesIn block (before ++ after)).map Prod.fst := by
            intro block
            have hblock := hsame block
            simp only [entriesIn_cons] at hblock
            split at hblock
            · exact List.tail_eq_of_cons_eq hblock
            · exact hblock
          obtain ⟨hmodule, hanswers⟩ := ih hrest hrestSame
          refine ⟨hmodule, fun block => ?_⟩
          rw [entriesIn_cons, entriesIn_cons, hanswers block]

/-- Two lists of requests that are all granted and that agree on each block build the same module
from the same one, and the requests for a block are answered with the same identities. -/
theorem filling_order_irrelevant (m : Module) {first second : List Request}
    {ids others : List InstructionId} (hfirst : ((makeAll first).run m).result = .ok ids)
    (hsecond : ((makeAll second).run m).result = .ok others)
    (hsame : ∀ block, first.filter (fun request => request.block = block) =
      second.filter (fun request => request.block = block)) :
    ((makeAll first).run m).state = ((makeAll second).run m).state ∧
    ids.length = first.length ∧ others.length = second.length ∧
    ∀ block, entriesIn block (first.zip ids) = entriesIn block (second.zip others) := by
  obtain ⟨hlength, hfills⟩ := fills_of_makeAll hfirst
  obtain ⟨hothersLength, hothersFills⟩ := fills_of_makeAll hsecond
  have hrequests : ∀ block, (entriesIn block (first.zip ids)).map Prod.fst =
      (entriesIn block (second.zip others)).map Prod.fst := by
    intro block
    rw [map_fst_entriesIn_zip hlength, map_fst_entriesIn_zip hothersLength, hsame block]
  obtain ⟨hmodule, hanswers⟩ := hfills.unique hothersFills hrequests
  exact ⟨hmodule, hlength, hothersLength, hanswers⟩

section Relay

/-- A function of two empty blocks. -/
def relay : Module :=
  List.foldl Module.after (.empty "test")
    [.declareFunction "main" [] .void, .appendEntryBlock ⟨0⟩, .appendBlock ⟨0⟩ []]

/-- Requests for the first block of the relay.  The second consumes what the other block loads, and
the third has its place before the second. -/
def relayEntry : List Request :=
  let slot : Operand := .result ⟨⟨⟨0⟩, 0⟩, 0⟩ 0
  [⟨.atEnd ⟨⟨0⟩, 0⟩, .allocStack (.builtin .i64), .synthetic⟩,
    ⟨.atEnd ⟨⟨0⟩, 0⟩, .store (.result ⟨⟨⟨0⟩, 1⟩, 0⟩ 0) slot, .synthetic⟩,
    ⟨.before ⟨⟨⟨0⟩, 0⟩, 1⟩, .store (.constant (.integer 7 .i64)) slot, .synthetic⟩]

/-- Requests for the second block of the relay.  The first consumes what the other block
allocates. -/
def relayExit : List Request :=
  let loaded : Operand := .result ⟨⟨⟨0⟩, 1⟩, 0⟩ 0
  [⟨.atEnd ⟨⟨0⟩, 1⟩, .load (.result ⟨⟨⟨0⟩, 0⟩, 0⟩ 0), .synthetic⟩,
    ⟨.atEnd ⟨⟨0⟩, 1⟩, .binary .add loaded loaded, .synthetic⟩,
    ⟨.atEnd ⟨⟨0⟩, 1⟩, .ret, .synthetic⟩]

theorem relay_filled :
    (let inTurn := relayEntry.take 1 ++ relayExit.take 1 ++ relayEntry.drop 1 ++ relayExit.drop 1
    let exitFirst := relayEntry.take 1 ++ relayExit ++ relayEntry.drop 1
    ((makeAll inTurn).run relay).state = ((makeAll exitFirst).run relay).state ∧
    (((makeAll inTurn).run relay).state.block? ⟨⟨0⟩, 0⟩).map Block.order = some [0, 2, 1] ∧
    ((makeAll (relayEntry ++ relayExit)).run relay).result =
      .error (.danglingOperand (Operand.result ⟨⟨⟨0⟩, 1⟩, 0⟩ 0).text)) := by
  have hturn : ((makeAll (relayEntry.take 1 ++ relayExit.take 1 ++ relayEntry.drop 1 ++
      relayExit.drop 1)).run relay).result =
      .ok [⟨⟨⟨0⟩, 0⟩, 0⟩, ⟨⟨⟨0⟩, 1⟩, 0⟩, ⟨⟨⟨0⟩, 0⟩, 1⟩, ⟨⟨⟨0⟩, 0⟩, 2⟩, ⟨⟨⟨0⟩, 1⟩, 1⟩,
        ⟨⟨⟨0⟩, 1⟩, 2⟩] := by
    decide +kernel
  have hexit : ((makeAll (relayEntry.take 1 ++ relayExit ++ relayEntry.drop 1)).run relay).result =
      .ok [⟨⟨⟨0⟩, 0⟩, 0⟩, ⟨⟨⟨0⟩, 1⟩, 0⟩, ⟨⟨⟨0⟩, 1⟩, 1⟩, ⟨⟨⟨0⟩, 1⟩, 2⟩, ⟨⟨⟨0⟩, 0⟩, 1⟩,
        ⟨⟨⟨0⟩, 0⟩, 2⟩] := by
    decide +kernel
  refine ⟨(filling_order_irrelevant relay hturn hexit ?_).1, by decide +kernel, by decide +kernel⟩
  intro block
  by_cases hentry : block = ⟨⟨0⟩, 0⟩
  · subst hentry
    decide +kernel
  · by_cases hsecond : block = ⟨⟨0⟩, 1⟩
    · subst hsecond
      decide +kernel
    · simp [relayEntry, relayExit, Request.block, InsertionPoint.block, Ne.symm hentry,
        Ne.symm hsecond]

end Relay

end Module

end BlockIR
