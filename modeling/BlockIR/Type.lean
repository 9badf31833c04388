import BlockIR.Access
/-!
Types of values: builtin types, the objects built from them, and the addresses of objects.
-/

namespace BlockIR

/-- Types that the target machine provides. -/
inductive Builtin where
  | i1
  | i8
  | i32
  | i64
  | f64
  | ptr
deriving DecidableEq

namespace Builtin

def all : List Builtin := [.i1, .i8, .i32, .i64, .f64, .ptr]

def text : Builtin → String
  | .i1 => "i1"
  | .i8 => "i8"
  | .i32 => "i32"
  | .i64 => "i64"
  | .f64 => "f64"
  | .ptr => "ptr"

def ofText? (name : String) : Option Builtin :=
  all.find? (fun type => type.text == name)

def isInteger : Builtin → Bool
  | .i1 | .i8 | .i32 | .i64 => true
  | .f64 | .ptr => false

theorem ofText?_text (type : Builtin) : ofText? type.text = some type := by
  cases type <;> decide

end Builtin

/-- Types of objects, which have a size and can be stored. -/
inductive ObjectType where
  | void
  | builtin (type : Builtin)
  | struct (name : String)
  | tuple (elements : List ObjectType)

namespace ObjectType

mutual

/-- Whether two object types are the same, decided on their structure. -/
def decEq : (s t : ObjectType) → Decidable (s = t)
  | .void, .void => isTrue rfl
  | .builtin a, .builtin b =>
      if h : a = b then isTrue (congrArg _ h) else isFalse (fun e => h (by injection e))
  | .struct a, .struct b =>
      if h : a = b then isTrue (congrArg _ h) else isFalse (fun e => h (by injection e))
  | .tuple a, .tuple b =>
      match decEqList a b with
      | isTrue h => isTrue (congrArg _ h)
      | isFalse h => isFalse (fun e => h (by injection e))
  | .void, .builtin _ => isFalse nofun
  | .void, .struct _ => isFalse nofun
  | .void, .tuple _ => isFalse nofun
  | .builtin _, .void => isFalse nofun
  | .builtin _, .struct _ => isFalse nofun
  | .builtin _, .tuple _ => isFalse nofun
  | .struct _, .void => isFalse nofun
  | .struct _, .builtin _ => isFalse nofun
  | .struct _, .tuple _ => isFalse nofun
  | .tuple _, .void => isFalse nofun
  | .tuple _, .builtin _ => isFalse nofun
  | .tuple _, .struct _ => isFalse nofun

def decEqList : (s t : List ObjectType) → Decidable (s = t)
  | [], [] => isTrue rfl
  | [], _ :: _ => isFalse nofun
  | _ :: _, [] => isFalse nofun
  | a :: s, b :: t =>
      match decEq a b, decEqList s t with
      | isTrue h, isTrue k => isTrue (by rw [h, k])
      | isFalse h, _ => isFalse (fun e => h (by injection e))
      | _, isFalse k => isFalse (fun e => k (by injection e))

end

instance : DecidableEq ObjectType := decEq

mutual

/-- A tuple is written by its elements in parentheses, a structure by its name behind `%`. -/
def text : ObjectType → String
  | .void => "void"
  | .builtin type => type.text
  | .struct name => "%" ++ name
  | .tuple elements => "(" ++ ", ".intercalate (texts elements) ++ ")"

def texts : List ObjectType → List String
  | [] => []
  | type :: rest => text type :: texts rest

end

theorem texts_eq_map (types : List ObjectType) : texts types = types.map text := by
  induction types with
  | nil => simp [texts]
  | cons type rest ih => simp [texts, ih]

/-- The builtin type that an object type is, if it is one. -/
def builtin? : ObjectType → Option Builtin
  | .builtin type => some type
  | _ => none

def isVoid : ObjectType → Bool
  | .void => true
  | _ => false

end ObjectType

/-- Types of addresses handed over with a capability: what they point to, and the capability. -/
structure RemoteType where
  access : Access
  bare : ObjectType
deriving DecidableEq

def RemoteType.text (type : RemoteType) : String :=
  s!"remote {type.access.text} {type.bare.text}"

/-- Types of values: an object, the address of a stack slot, or a remote address. -/
inductive ValueType where
  | object (type : ObjectType)
  | address (type : ObjectType)
  | remote (type : RemoteType)
deriving DecidableEq

namespace ValueType

def ofBuiltin (type : Builtin) : ValueType := .object (.builtin type)

def text : ValueType → String
  | .object type => type.text
  | .address type => "&" ++ type.text
  | .remote type => "&" ++ type.text

/-- The type of the object behind an address. -/
def pointee? : ValueType → Option ObjectType
  | .object _ => none
  | .address type => some type
  | .remote type => some type.bare

/-- The capability of a remote address. -/
def access? : ValueType → Option Access
  | .remote type => some type.access
  | _ => none

/-- The type of an object that is no address. -/
def object? : ValueType → Option ObjectType
  | .object type => some type
  | _ => none

/-- The builtin type of an object that is no address. -/
def builtin? : ValueType → Option Builtin
  | .object type => type.builtin?
  | _ => none

def isAddress (type : ValueType) : Bool :=
  type.pointee?.isSome

/-- Whether the object behind an address can be used as intended.  The address of a stack slot
carries no capability and can be used in every way. -/
def admits (type : ValueType) (intent : Intent) : Bool :=
  type.isAddress && type.access?.all intent.isPermittedBy

theorem builtin?_eq_some {type : ValueType} {b : Builtin} :
    type.builtin? = some b ↔ type = ofBuiltin b := by
  cases type with
  | object type => cases type <;> simp [builtin?, ObjectType.builtin?, ofBuiltin]
  | address type => simp [builtin?, ofBuiltin]
  | remote type => simp [builtin?, ofBuiltin]

end ValueType

end BlockIR
