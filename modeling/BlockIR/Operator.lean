/-!
Operators of the arithmetic and comparison instructions.
-/

namespace BlockIR

/-- Operators that combine two values of one type into a third. -/
inductive BinaryOperator where
  | add
  | sub
  | mul
  | div
  | mod
  | and
  | or
  | xor
  | shl
  | shr
deriving DecidableEq

namespace BinaryOperator

def all : List BinaryOperator := [.add, .sub, .mul, .div, .mod, .and, .or, .xor, .shl, .shr]

def text : BinaryOperator → String
  | .add => "add"
  | .sub => "sub"
  | .mul => "mul"
  | .div => "div"
  | .mod => "mod"
  | .and => "and"
  | .or => "or"
  | .xor => "xor"
  | .shl => "shl"
  | .shr => "shr"

def ofText? (mnemonic : String) : Option BinaryOperator :=
  all.find? (fun operator => operator.text == mnemonic)

/-- Whether the operator works on the bits of integers. -/
def isBitwise : BinaryOperator → Bool
  | .and | .or | .xor | .shl | .shr => true
  | .add | .sub | .mul | .div | .mod => false

theorem ofText?_text (operator : BinaryOperator) : ofText? operator.text = some operator := by
  cases operator <;> decide

end BinaryOperator

/-- Operators that compare two values of one type. -/
inductive CompareOperator where
  | eq
  | ne
  | lt
  | le
  | gt
  | ge
deriving DecidableEq

namespace CompareOperator

def all : List CompareOperator := [.eq, .ne, .lt, .le, .gt, .ge]

def text : CompareOperator → String
  | .eq => "eq"
  | .ne => "ne"
  | .lt => "lt"
  | .le => "le"
  | .gt => "gt"
  | .ge => "ge"

def ofText? (mnemonic : String) : Option CompareOperator :=
  all.find? (fun operator => operator.text == mnemonic)

theorem ofText?_text (operator : CompareOperator) : ofText? operator.text = some operator := by
  cases operator <;> decide

end CompareOperator

end BlockIR
