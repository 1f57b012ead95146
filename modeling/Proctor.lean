import Proctor.Academics.EnrollmentRuns
import Proctor.Academics.Units
import Proctor.Access.Delegation
import Proctor.Admission.Window
import Proctor.Agreement.Documents
import Proctor.Agreement.IPv4
import Proctor.Cluster.DeliveryRuns
import Proctor.Cluster.Wire
import Proctor.Commands.Runs
import Proctor.Delivery.Closure
import Proctor.Delivery.Counters
import Proctor.Delivery.Evidence
import Proctor.Delivery.StopReasons
import Proctor.Delivery.Submission
import Proctor.ExamPolicy.ClosedCodec
import Proctor.FocusLoss.Runs
import Proctor.Jobs.Runs
import Proctor.Markdown.Safety
import Proctor.SecurityControl.Ledger
import Proctor.Sessions.Runs
import Proctor.Vfs.Open
import Proctor.WebSocket.Replay
import Proctor.Workspace.Journal
