import BlockIR.Type
/-!
Expectations: what the rules of an instruction ask of the type of an operand.
-/

namespace BlockIR

/-- What an operand has to be. -/
inductive Expectation where
  /-- A value of exactly this type. -/
  | exactly (type : ValueType)
  | address
  | readableAddress
  | writableAddress
  | builtinValue
  | integerValue
  | stackAllocation
deriving DecidableEq

def Expectation.text : Expectation → String
  | .exactly type => type.text
  | .address => "an address"
  | .readableAddress => "a readable address"
  | .writableAddress => "a writable address"
  | .builtinValue => "a builtin value"
  | .integerValue => "an integer value"
  | .stackAllocation => "the result of an `alloc_stack`"

end BlockIR
