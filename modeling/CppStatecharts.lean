import CppStatecharts.Library.Comp
import CppStatecharts.Library.Forest
import CppStatecharts.Library.Line
import CppStatecharts.Library.Recursion
import CppStatecharts.Library.Simulation
import CppStatecharts.Model.Metadata
import CppStatecharts.Model.Chart
import CppStatecharts.Model.DelayQueue
import CppStatecharts.Model.World
import CppStatecharts.Model.Dispatch
import CppStatecharts.Model.Statechart
import CppStatecharts.Model.System
import CppStatecharts.Model.Asynchron
import CppStatecharts.Model.ThreadPool
import CppStatecharts.Model.Construction
import CppStatecharts.Semantics.Fuel
import CppStatecharts.Semantics.Inversion
import CppStatecharts.Semantics.Rule
import CppStatecharts.Semantics.Calls
import CppStatecharts.Semantics.Trace
import CppStatecharts.Semantics.Effects
import CppStatecharts.Semantics.Relabel
import CppStatecharts.Semantics.Pointers
import CppStatecharts.Semantics.Links
import CppStatecharts.Semantics.Records
import CppStatecharts.Semantics.Locality
import CppStatecharts.Semantics.Simulation
import CppStatecharts.Semantics.Segments
import CppStatecharts.Semantics.Paths
import CppStatecharts.Semantics.Choice
import CppStatecharts.Semantics.Registries
import CppStatecharts.Semantics.Assembly
import CppStatecharts.Completion.Passes
import CppStatecharts.Completion.Threshold
import CppStatecharts.Completion.Quiescence
import CppStatecharts.Configuration.Runs
import CppStatecharts.Configuration.Observers
import CppStatecharts.Configuration.Restore
import CppStatecharts.Events.Priority
import CppStatecharts.Events.Report
import CppStatecharts.Termination.Lookahead
import CppStatecharts.Termination.Convergence
import CppStatecharts.Timers.Frame
import CppStatecharts.Timers.Activation
import CppStatecharts.Timers.Booking
import CppStatecharts.Timers.Cancellation
import CppStatecharts.Timers.Ledger
import CppStatecharts.Timers.Filing
import CppStatecharts.Timers.Handles
import CppStatecharts.Timers.Pending
import CppStatecharts.Timers.Lifetimes
import CppStatecharts.Timers.Isolation
import CppStatecharts.Timers.Projection
import CppStatecharts.Timers.Queue
import CppStatecharts.Threads.ExactlyOnce
import CppStatecharts.Threads.Asynchrony
import CppStatecharts.Threads.Delivery
import CppStatecharts.Threads.Fate
import CppStatecharts.Refinement.Flat
import CppStatecharts.Refinement.Nested
import CppStatecharts.Refinement.Persistence
import CppStatecharts.Refinement.Restart
import CppStatecharts.Configuration.ActiveSet
import CppStatecharts.Configuration.Transitions
import CppStatecharts.Configuration.Joins
import CppStatecharts.Configuration.Regions
import CppStatecharts.Configuration.RoundTrip
import CppStatecharts.Configuration.Descent
import CppStatecharts.Completion.Segmented
import CppStatecharts.Completion.Waiting
import CppStatecharts.Threads.Sequence
import CppStatecharts.Refinement.Threads
import CppStatecharts.Completion.Settling
