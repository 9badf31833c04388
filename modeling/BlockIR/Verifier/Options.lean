import BlockIR.Json
/-!
Options of the verifier, and how they are read from JSON.
-/

namespace BlockIR

/-- The checks that the verifier can be asked to make or to leave out. -/
structure Options where
  checkStackDiscipline : Bool
  rejectUnreachableBlocks : Bool
  checkOperandTypes : Bool
deriving DecidableEq

namespace Options

/-- Without other instructions only unreachable blocks are let pass. -/
def standard : Options := ⟨true, false, true⟩

/-- The one member of an object with a key, if there is any.  Fails where the key is repeated. -/
def member? (key : String) (members : List (String × Json)) : Option (Option Json) :=
  match members.filter (fun entry => entry.1 == key) with
  | [] => some none
  | [entry] => some (some entry.2)
  | _ :: _ :: _ => none

/-- The switch that a document gives, or the standard one where it gives none. -/
def switch? (standard : Bool) : Option Json → Option Bool
  | none => some standard
  | some (.bool value) => some value
  | some _ => none

/-- The options that a document gives: an object with a switch for each option it names, or the
list of the first switches in order.  What is not named is as in the standard options, and members
of an object that are no option are let pass. -/
def ofJson? : Json → Option Options
  | .object members => do
      let members ← members.mapM (fun (key, value) => key.map (fun key => (key, value)))
      let stack ← member? "check_stack_discipline" members
      let unreachable ← member? "reject_unreachable_blocks" members
      let types ← member? "check_operand_types" members
      return ⟨← switch? standard.checkStackDiscipline stack,
        ← switch? standard.rejectUnreachableBlocks unreachable,
        ← switch? standard.checkOperandTypes types⟩
  | .array [] => some standard
  | .array [.bool stack] => some { standard with checkStackDiscipline := stack }
  | .array [.bool stack, .bool unreachable] =>
      some { standard with checkStackDiscipline := stack, rejectUnreachableBlocks := unreachable }
  | .array [.bool stack, .bool unreachable, .bool types] => some ⟨stack, unreachable, types⟩
  | _ => none

/-- The options that a JSON text gives. -/
def parse? (text : String) : Option Options :=
  (Json.parse? text).bind ofJson?

example : parse? "\x7b\"check_operand_types\": false, \"other\": 1\x7d" =
    some ⟨true, false, false⟩ := by decide +kernel

example : parse? "[false, true]" = some ⟨false, true, true⟩ := by decide +kernel

example : parse? "\x7b\"check_operand_types\": 1\x7d" = none := by decide +kernel

end Options

end BlockIR
