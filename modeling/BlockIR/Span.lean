/-!
Source spans: where in a source text an instruction comes from.
-/

namespace BlockIR

/-- A place in a source file: its line and column, and its offset from the start. -/
structure Position where
  line : Nat
  column : Nat
  offset : Nat
deriving DecidableEq, Inhabited

/-- A stretch of one source file, from `start` up to `stop`. -/
structure Span where
  start : Position
  stop : Position
  file : Nat
deriving DecidableEq, Inhabited

namespace Span

/-- The file number reserved for what no source text gave rise to. -/
def syntheticFile : Nat := 4294967295

/-- The empty span at one position. -/
def point (position : Position) (file : Nat) : Span :=
  ⟨position, position, file⟩

/-- The span of an instruction that no source text gave rise to. -/
def synthetic : Span :=
  point ⟨0, 0, 0⟩ syntheticFile

/-- The first column of a line of file 0. -/
def ofLine (line : Nat) : Span :=
  point ⟨line, 1, 0⟩ 0

def isSynthetic (span : Span) : Bool :=
  span.file == syntheticFile

/-- A span is written by its file and the place where it starts. -/
def text (span : Span) : String :=
  if span.isSynthetic then "<synthesized>"
  else s!"#{span.file}:{span.start.line}:{span.start.column}"

@[simp] theorem isSynthetic_synthetic : synthetic.isSynthetic = true := rfl

end Span

end BlockIR
