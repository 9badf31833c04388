/-!
Access effects: what the holder of an address may do with the value behind it.
-/

namespace BlockIR

/-- The ways a value can be handed over. -/
inductive Access where
  | letBound
  | inout
  | set
  | sink
  | yielded
deriving DecidableEq

namespace Access

/-- Every effect, in increasing order. -/
def all : List Access := [.letBound, .inout, .set, .sink, .yielded]

/-- The place of an effect in `all`, by which effects are ordered. -/
def rank : Access → Nat
  | .letBound => 0
  | .inout => 1
  | .set => 2
  | .sink => 3
  | .yielded => 4

def text : Access → String
  | .letBound => "let"
  | .inout => "inout"
  | .set => "set"
  | .sink => "sink"
  | .yielded => "yielded"

/-- The effect written by a keyword. -/
def ofText? (keyword : String) : Option Access :=
  all.find? (fun access => access.text == keyword)

def permitsRead : Access → Bool
  | .letBound | .inout | .sink => true
  | .set | .yielded => false

def permitsWrite : Access → Bool
  | .inout | .set => true
  | .letBound | .sink | .yielded => false

/-- The list in increasing order of effect. -/
def sort (accesses : List Access) : List Access :=
  accesses.mergeSort (fun a b => a.rank ≤ b.rank)

theorem mem_all (access : Access) : access ∈ all := by
  cases access <;> decide

theorem ofText?_text (access : Access) : ofText? access.text = some access := by
  cases access <;> decide

end Access

/-- What an instruction does with the object behind an address. -/
inductive Intent where
  | read
  | write
deriving DecidableEq

namespace Intent

def text : Intent → String
  | .read => "read"
  | .write => "write"

/-- Whether a capability allows the intent. -/
def isPermittedBy : Intent → Access → Bool
  | .read, access => access.permitsRead
  | .write, access => access.permitsWrite

end Intent

/-- A set of effects, one bit for each. -/
structure AccessSet where
  mask : BitVec 5
deriving DecidableEq

namespace AccessSet

def empty : AccessSet := ⟨0#5⟩

def contains (effects : AccessSet) (access : Access) : Bool :=
  effects.mask.getLsbD access.rank

def insert (effects : AccessSet) (access : Access) : AccessSet :=
  ⟨effects.mask ||| (1#5 <<< access.rank)⟩

def ofList (accesses : List Access) : AccessSet :=
  accesses.foldl insert empty

/-- The members, in increasing order. -/
def toList (effects : AccessSet) : List Access :=
  Access.all.filter effects.contains

def isEmpty (effects : AccessSet) : Bool :=
  effects == empty

/-- The effects that an address can be given. -/
def addressCapabilities : AccessSet :=
  ofList [.letBound, .inout, .set]

theorem contains_insert (effects : AccessSet) (a b : Access) :
    (effects.insert a).contains b = (decide (a = b) || effects.contains b) := by
  obtain ⟨mask⟩ := effects
  cases a <;> cases b <;> simp [insert, contains, Access.rank, Bool.or_comm]

theorem mem_toList (effects : AccessSet) (access : Access) :
    access ∈ effects.toList ↔ effects.contains access = true := by
  simp [toList, Access.mem_all]

end AccessSet

end BlockIR
