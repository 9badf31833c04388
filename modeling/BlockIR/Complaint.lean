import BlockIR.Verifier
/-!
Complaints: expectations on a module or on a call that are not met, as a test states them.
-/

namespace BlockIR

/-- An expectation that is not met. -/
inductive Complaint where
  /-- The module has blocks that are not complete. -/
  | incomplete (m : Module)
  /-- The module does not pass the verifier. -/
  | unverified (findings : List Finding) (m : Module)
  /-- A call kept the rules that it was expected to break. -/
  | noViolation
  /-- A call failed otherwise than by breaking a rule. -/
  | otherFailure (message : String)
deriving DecidableEq

def Complaint.message : Complaint → String
  | .incomplete m => s!"Expected a complete module, got:\n{m.text}"
  | .unverified findings m =>
      "Expected module to verify, but got errors:\n" ++
        "\n".intercalate (findings.map Finding.message) ++ s!"\n\nModule:\n{m.text}"
  | .noViolation => "Expected a contract violation, but the call succeeded"
  | .otherFailure message => s!"Expected a contract violation, got panic '{message}'"

/-- How a call or a check ends that does not succeed. -/
inductive Failure where
  | violation (rule : Violation)
  | complaint (expectation : Complaint)
deriving DecidableEq

def Failure.message : Failure → String
  | .violation rule => rule.message
  | .complaint expectation => expectation.message

/-- A module is well formed if all its blocks are complete and it passes the verifier. -/
def Module.checkWellFormed (m : Module) : Except Complaint Unit :=
  if m.isComplete then
    if Verifier.passes .standard m then .ok ()
    else .error (.unverified (Verifier.findings .standard m) m)
  else .error (.incomplete m)

/-- What the check logs: an incomplete module is not verified. -/
def Module.wellFormedLog (m : Module) : List Event :=
  if m.isComplete then Verifier.log .standard m else []

/-- The message of the violation that a call was expected to end with. -/
def expectViolation {α : Type} : Except Failure α → Except Complaint String
  | .ok _ => .error .noViolation
  | .error (.violation rule) => .ok rule.message
  | .error (.complaint expectation) => .error (.otherFailure expectation.message)

end BlockIR
