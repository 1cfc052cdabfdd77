import Rafter.App.Execution
import Rafter.App.MembershipStream
import Rafter.Cluster.Progress
import Rafter.Cluster.StepDown
import Rafter.Cluster.Structure
import Rafter.Codec.Message
import Rafter.Conduct.Batches
import Rafter.Conduct.Frames
import Rafter.Conduct.Hydration
import Rafter.Conduct.Lease
import Rafter.Conduct.Reads
import Rafter.Conduct.Recording
import Rafter.Harness.Verdict
import Rafter.Service.History
import Rafter.Service.Resumption
import Rafter.Service.Retirement
import Rafter.Storage.Repair
import Rafter.Transport.SessionFile
