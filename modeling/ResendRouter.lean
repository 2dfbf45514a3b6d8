import ResendRouter.Foundation.Transition
import ResendRouter.Database.Schedule
import ResendRouter.Database.Ledger
import ResendRouter.Delivery.Fencing
import ResendRouter.Delivery.Overlap
import ResendRouter.Delivery.Requests
import ResendRouter.Delivery.Backoff
import ResendRouter.Signatures.Outbound
import ResendRouter.Signatures.Inbound
import ResendRouter.Delivery.Recording
import ResendRouter.Signatures.Verification
import ResendRouter.Database.Admission
import ResendRouter.Configuration.Validation
import ResendRouter.Ingest.Persistence
import ResendRouter.Ingest.Answers
import ResendRouter.Configuration.Bounds
import ResendRouter.Program.Environment
import ResendRouter.Configuration.Secrets
import ResendRouter.Configuration.Loading
import ResendRouter.Foundation.Trim
import ResendRouter.Routing.Constraints
import ResendRouter.Routing.Domains
import ResendRouter.Routing.DisplayNames
import ResendRouter.Database.HeaderObjects
import ResendRouter.Routing.NormalForms
import ResendRouter.Routing.MailboxLists
import ResendRouter.Routing.LiveEntries
import ResendRouter.Delivery.Destinations
import ResendRouter.Service.Recorders
import ResendRouter.Service.Atomicity
import ResendRouter.Delivery.Origins
import ResendRouter.Service.Deployment
import ResendRouter.Service.Guarantees
import ResendRouter.Foundation.Watch
import ResendRouter.Service.Shutdown
import ResendRouter.Service.Drain
import ResendRouter.Delivery.Closing
import ResendRouter.Service.Authenticity
import ResendRouter.Delivery.Queue
import ResendRouter.Delivery.Numbering
import ResendRouter.Service.Promises
