import BlockIR.Command
import BlockIR.Complaint
import BlockIR.Proofs.CallReports
import BlockIR.Proofs.Checks
import BlockIR.Proofs.Completeness
import BlockIR.Proofs.Consistency
import BlockIR.Proofs.Construction
import BlockIR.Proofs.DepthFirst
import BlockIR.Proofs.DistinctFindings
import BlockIR.Proofs.EdgeTables
import BlockIR.Proofs.EmitterFailures
import BlockIR.Proofs.EmitterRuns
import BlockIR.Proofs.EmitterSteps
import BlockIR.Proofs.Evolution
import BlockIR.Proofs.FailedCalls
import BlockIR.Proofs.FillingOrder
import BlockIR.Proofs.Findings
import BlockIR.Proofs.FlowEdges
import BlockIR.Proofs.FrameDiscipline
import BlockIR.Proofs.FrameRecords
import BlockIR.Proofs.Histories
import BlockIR.Proofs.Identities
import BlockIR.Proofs.InstructionTable
import BlockIR.Proofs.Locality
import BlockIR.Proofs.Lookup
import BlockIR.Proofs.OperandRules
import BlockIR.Proofs.Persistence
import BlockIR.Proofs.Placement
import BlockIR.Proofs.ProgramOrder
import BlockIR.Proofs.RecordedTypes
import BlockIR.Proofs.Redirection
import BlockIR.Proofs.Requests
import BlockIR.Proofs.Rewriting
import BlockIR.Proofs.ScopeExits
import BlockIR.Proofs.SelectedFindings
import BlockIR.Proofs.Sessions
import BlockIR.Proofs.SlotNames
import BlockIR.Proofs.StackPaths
import BlockIR.Proofs.Storage
import BlockIR.Proofs.StrictAnalyses
import BlockIR.Proofs.StrictEdits
import BlockIR.Proofs.TypeTexts
import BlockIR.Proofs.TypedOperands
import BlockIR.Proofs.VerifiedRows
