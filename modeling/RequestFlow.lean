import RequestFlow.Buffer.Holdings
import RequestFlow.Main
import RequestFlow.Proofs.Accounts
import RequestFlow.Proofs.Clients
import RequestFlow.Proofs.CopyBlocks
import RequestFlow.Proofs.DateReading
import RequestFlow.Proofs.Delivery
import RequestFlow.Proofs.DepthCount
import RequestFlow.Proofs.Doubling
import RequestFlow.Proofs.Enlarging
import RequestFlow.Proofs.FieldGrammar
import RequestFlow.Proofs.FlagRuns
import RequestFlow.Proofs.Lending
import RequestFlow.Proofs.LostRetry
import RequestFlow.Proofs.Merging
import RequestFlow.Proofs.Raising
import RequestFlow.Proofs.Refinement
import RequestFlow.Proofs.Refusing
import RequestFlow.Proofs.ResponseLog
import RequestFlow.Proofs.RetryCalls
import RequestFlow.Proofs.Settings
import RequestFlow.Proofs.StreamFates
import RequestFlow.Proofs.Termination
import RequestFlow.Proofs.WorkerRuns
import RequestFlow.Reply.Shelf
