import FiberVM.Engine.Host
import FiberVM.Image.Assembly
import FiberVM.Proofs.Agenda.Waiting
import FiberVM.Proofs.World.Cancellation
import FiberVM.Proofs.World.Fibers
import FiberVM.Proofs.World.Isolation
import FiberVM.Proofs.World.Ownership
import FiberVM.Proofs.World.Reaping
import FiberVM.Proofs.Agenda.Ledger
import FiberVM.Proofs.Heap.Calls
import FiberVM.Proofs.Heap.LifeCycle
import FiberVM.Proofs.Heap.History
import FiberVM.Proofs.Heap.Balance
import FiberVM.Proofs.Heap.Collapse
import FiberVM.Proofs.Agenda.Timeline
import FiberVM.Proofs.Agenda.Readiness
import FiberVM.Proofs.Agenda.Firing
import FiberVM.Proofs.Agenda.Recurrence
import FiberVM.Proofs.Agenda.Events
import FiberVM.Proofs.Agenda.Dispatch
import FiberVM.Proofs.Engine.Changes
import FiberVM.Proofs.Engine.Loading
import FiberVM.Proofs.Engine.Execution
import FiberVM.Proofs.Engine.Stack
import FiberVM.Proofs.Agenda.Losses
import FiberVM.Proofs.Engine.Flight
import FiberVM.Proofs.World.Flight
import FiberVM.Proofs.World.Update
import FiberVM.Proofs.Engine.Addresses
import FiberVM.Proofs.Image.Boundary
import FiberVM.Proofs.World.Course
import FiberVM.Proofs.Image.Strings
import FiberVM.Proofs.Image.Layout
import FiberVM.Proofs.Image.WellFormed
import FiberVM.Proofs.Image.Assembly
import FiberVM.Proofs.Engine.Literal
import FiberVM.Proofs.Engine.Limits
import FiberVM.Proofs.World.Limits
import FiberVM.Proofs.Engine.Tables
import FiberVM.Proofs.World.Tables
import FiberVM.Proofs.Agenda.Subtrees
import FiberVM.Proofs.Engine.Brackets
import FiberVM.Proofs.Engine.Framing
import FiberVM.Proofs.World.Brackets
import FiberVM.Proofs.Engine.Loops
import FiberVM.Proofs.World.Runs
import FiberVM.Proofs.World.Loops
import FiberVM.Proofs.World.Transitions
import FiberVM.Proofs.World.FaultLocation
import FiberVM.Proofs.Heap.Footprint
import FiberVM.Proofs.Engine.Refusal
import FiberVM.Proofs.World.Refusal
import FiberVM.Proofs.Engine.Recollection
import FiberVM.Proofs.World.CallSites
import FiberVM.Proofs.Engine.Bindings
import FiberVM.Proofs.World.Bindings
import FiberVM.Proofs.Image.Interning
import FiberVM.Proofs.Heap.Copying
import FiberVM.Proofs.Native.Signature
import FiberVM.Proofs.Heap.Exchange
import FiberVM.Proofs.World.Resolution
