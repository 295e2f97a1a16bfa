import CordisCore.Arbiter.Models
import CordisCore.Attribution.Exact
import CordisCore.Completion.Driver
import CordisCore.Recheck.Ready
import CordisCore.Discipline.Calls
import CordisCore.Update.Outcome
import CordisCore.Registry.Frozen
import CordisCore.Custody.Contracts
import CordisCore.Context.Independence
import CordisCore.Loader.Abandonment
import CordisCore.Loader.Building
import CordisCore.Loader.Wire
import CordisCore.Events.Waterfall
import CordisCore.Events.Notification
import CordisCore.Journal.Exact
import CordisCore.Locking.Order
import CordisCore.Events.Lazy
import CordisCore.Publication.Report
import CordisCore.Deadline.Service
import CordisCore.Slot.Stranding
import CordisCore.Slot.Verdict
import CordisCore.Timer.Exclusive
import CordisCore.Tasks.Joined
import CordisCore.Lease.Housed
import CordisCore.Logger.Buffers
import CordisCore.Observation.Deliveries
import CordisCore.Dependencies.Projection
