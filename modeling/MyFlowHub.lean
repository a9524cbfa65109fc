import MyFlowHub.Checks
import MyFlowHub.Protocol
import MyFlowHub.Runs
import MyFlowHub.Tiling
import MyFlowHub.Tables
import MyFlowHub.Pointers
import MyFlowHub.Delivery
import MyFlowHub.StreamGap
import MyFlowHub.TreeState
import MyFlowHub.TreeInvariant
import MyFlowHub.Scope
import MyFlowHub.Overlay
import MyFlowHub.ParentCycle
import MyFlowHub.Sessions
import MyFlowHub.Orderly
import MyFlowHub.Tracking
import MyFlowHub.Convergence
import MyFlowHub.Envelope
import MyFlowHub.Routing
import MyFlowHub.Adjudication
import MyFlowHub.Calls
import MyFlowHub.Keystore
import MyFlowHub.Encoding
import MyFlowHub.Enrollment
import MyFlowHub.EnrollmentAuthority
import MyFlowHub.FailedCommit
import MyFlowHub.EnrollmentChanges
import MyFlowHub.EnrollmentLinks
import MyFlowHub.EnrollmentRestart
import MyFlowHub.OneEnrollment
import MyFlowHub.ParentAuthority
import MyFlowHub.PolicyDecision
import MyFlowHub.PolicyReload
import MyFlowHub.PublishOrder
import MyFlowHub.Variable
import MyFlowHub.VariableSubscription
import MyFlowHub.Codec
import MyFlowHub.DispatchOnce
import MyFlowHub.HubSteps
import MyFlowHub.Mediation
import MyFlowHub.Base64
import MyFlowHub.CatalogClient
import MyFlowHub.Durable
import MyFlowHub.EnrollmentClient
import MyFlowHub.Polling
import MyFlowHub.PollingFlow
import MyFlowHub.SessionClose
import MyFlowHub.AdmissionPermits
import MyFlowHub.Filesystem
import MyFlowHub.JoinAdmission
import MyFlowHub.Upload
import MyFlowHub.UploadMoves
import MyFlowHub.UploadQuota
import MyFlowHub.UploadErrors
import MyFlowHub.UploadRestart
import MyFlowHub.Expiry
import MyFlowHub.Lease
import MyFlowHub.PolicyListing
import MyFlowHub.TopologyPublish
import MyFlowHub.PollingFair
import MyFlowHub.LinkQueue
