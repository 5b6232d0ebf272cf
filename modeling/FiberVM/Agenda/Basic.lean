import FiberVM.Agenda.Listeners
import FiberVM.Agenda.Timeline
import FiberVM.Data.Arena
import FiberVM.Data.Table

/-!
# The agenda

The agenda keeps all continuations and the named lists where they wait: the list `time` is ordered
by expiry, and the others hand out events. Once per tick the continuations that are due are taken
out of their lists; after it ran, a continuation is armed again or retired. Cancelling a
continuation also cancels what was registered beneath it.

The agenda hands back the references to fiber cells that its continuations held, for its owner to
give up.
-/

namespace FiberVM

/-- A list where continuations wait. -/
inductive WaitList where
  /-- One that is ordered by expiry. -/
  | time (timeline : Timeline)
  /-- One that hands out events. -/
  | events (listeners : Listeners)
  deriving DecidableEq, Repr

namespace WaitList

/-- The number of continuations that wait. -/
def size : WaitList → Nat
  | time t => t.queue.length
  | events l => l.waiting.length

/-- Adds a continuation, if it waits for the kind of thing that the list is for. -/
def insert : WaitList → ContinuationId → Wake → WaitList
  | time t, id, .at expiry => time (t.insert expiry id)
  | events l, id, .on discriminator => events (l.insert discriminator id)
  | list, _, _ => list

/-- Takes a continuation out. -/
def remove : WaitList → ContinuationId → WaitList
  | time t, id => time (t.remove id)
  | events l, id => events (l.remove id)

/-- Posts an event, if the list takes events. -/
def post? : WaitList → String → Option WaitList
  | time _, _ => none
  | events l, event => some (events (l.post event))

/-- Takes out the continuations that are due, in the order in which they fire. -/
def takeReady : WaitList → Binary64 → Nat → List ContinuationId × WaitList
  | time t, now, _ => let (ready, t) := t.takeReady now; (ready, time t)
  | events l, _, tick => let (ready, l) := l.takeReady tick; (ready, events l)

end WaitList

/-- The continuations and the lists where they wait. -/
structure Agenda where
  /-- The continuations that have not yet fired for the last time. -/
  continuations : Arena Continuation := .empty
  /-- The lists, in the order of their names. -/
  lists : List (String × WaitList) := []
  /-- The continuations of each fiber that has any, in the order of registration. -/
  owned : Table FiberId (List ContinuationId) := .empty
  /-- The number of ticks so far. -/
  tick : Nat := 0
  deriving Inhabited

namespace Agenda

/-- The name of the list that is ordered by expiry. -/
def timeName : String := "time"

/-- Sets the list of a name, keeping the order of the names. -/
def putList (name : String) (list : WaitList) :
    List (String × WaitList) → List (String × WaitList)
  | [] => [(name, list)]
  | (other, l) :: rest =>
    if name = other then (name, list) :: rest
    else if name < other then (name, list) :: (other, l) :: rest
    else (other, l) :: putList name list rest

/-- Adds a list in place of the one with its name. -/
def addList (a : Agenda) (name : String) (list : WaitList) : Agenda :=
  { a with lists := putList name list a.lists }

/-- Adds an empty list ordered by expiry. -/
def addTimeline (a : Agenda) : Agenda := a.addList timeName (.time {})

/-- Adds an empty list for events. -/
def addListeners (a : Agenda) (name : String) : Agenda := a.addList name (.events {})

/-- The agenda with the list `time` and lists for events of the given names. -/
def ofLists (names : List String) : Agenda := names.foldl addListeners (addTimeline {})

/-- The list of a name. -/
def list? (a : Agenda) (name : String) : Option WaitList := a.lists.lookup name

/-- Changes the list of a name, if there is one. -/
def modifyList (a : Agenda) (name : String) (f : WaitList → WaitList) : Agenda :=
  { a with lists := a.lists.map fun (n, l) => if n = name then (n, f l) else (n, l) }

/-- The continuation of an identity. -/
def get? (a : Agenda) (id : ContinuationId) : Option Continuation := a.continuations.get? id.id

/-- Replaces a continuation. -/
def set (a : Agenda) (id : ContinuationId) (c : Continuation) : Agenda :=
  { a with continuations := a.continuations.set id.id c }

/-- Changes a continuation, if it exists. -/
def modify (a : Agenda) (id : ContinuationId) (f : Continuation → Continuation) : Agenda :=
  match a.get? id with
  | some c => a.set id (f c)
  | none => a

/-- The number of continuations. -/
def size (a : Agenda) : Nat := a.continuations.size

/-- The continuations of a fiber. -/
def ownedBy (a : Agenda) (fiber : FiberId) : List ContinuationId := (a.owned.find? fiber).getD []

/-- Adds a continuation: to its list, to the children of its parent and to those of its fiber. -/
def insert (a : Agenda) (c : Continuation) : ContinuationId × Agenda :=
  let id : ContinuationId := ⟨a.continuations.next⟩
  let a := { a with continuations := a.continuations.insert c }
  let a := a.modifyList c.list (·.insert id c.wake)
  let a :=
    match c.parent with
    | some parent => a.modify parent fun p => { p with children := p.children ++ [id] }
    | none => a
  (id, { a with owned := a.owned.insert c.fiber (a.ownedBy c.fiber ++ [id]) })

/-- Registers a continuation that waits for a point in time. -/
def registerAt (a : Agenda) (parent : Option ContinuationId) (fiber : FiberId) (cell : Ref)
    (expiry : Binary64) (pc : Nat) (recurrence : Int64) (delta : Binary64) :
    ContinuationId × Agenda :=
  a.insert ⟨fiber, cell, parent, [], pc, .at expiry, recurrence, delta, timeName⟩

/-- Registers a continuation that waits for an event. -/
def registerOn (a : Agenda) (parent : Option ContinuationId) (fiber : FiberId) (cell : Ref)
    (list discriminator : String) (pc : Nat) (recurrence : Int64) :
    Except AgendaError (ContinuationId × Agenda) :=
  match a.list? list with
  | none => .error (.unknownList list)
  | some _ =>
    .ok (a.insert ⟨fiber, cell, parent, [], pc, .on discriminator, recurrence, .zero, list⟩)

/-- Registers a continuation that waits for a condition. -/
def register (a : Agenda) (parent : Option ContinuationId) (fiber : FiberId) (cell : Ref)
    (condition : Condition) (pc : Nat) (now : Binary64) :
    Except AgendaError (ContinuationId × Agenda) :=
  match condition with
  | .time delay recurrence interval =>
    .ok (a.registerAt parent fiber cell (now.add delay) pc recurrence interval)
  | .event list discriminator recurrence =>
    a.registerOn parent fiber cell list discriminator pc recurrence

/-- Posts an event to a list. -/
def post (a : Agenda) (list event : String) : Except AgendaError Agenda :=
  match a.list? list with
  | none => .error (.unknownList list)
  | some l =>
    match l.post? event with
    | none => .error (.eventsUnsupported list)
    | some l => .ok (a.modifyList list fun _ => l)

/-- Takes what is due out of lists, one list after the other. -/
def takeReadyFrom (now : Binary64) (tick : Nat) :
    List (String × WaitList) → List ContinuationId × List (String × WaitList)
  | [] => ([], [])
  | (name, l) :: rest =>
    let (ready, l) := l.takeReady now tick
    let (later, rest) := takeReadyFrom now tick rest
    (ready ++ later, (name, l) :: rest)

/-- Begins a tick and takes out what is due, in the order in which it fires. -/
def takeReady (a : Agenda) (now : Binary64) : List ContinuationId × Agenda :=
  let tick := a.tick + 1
  let (ready, lists) := takeReadyFrom now tick a.lists
  (ready, { a with lists, tick })

/-- Takes a continuation out: from its list, from the children of its parent and from those of its
fiber. -/
def detach (a : Agenda) (id : ContinuationId) : Option (Continuation × Agenda) :=
  match a.get? id with
  | none => none
  | some c =>
    let a := { a with continuations := a.continuations.erase id.id }
    let a := a.modifyList c.list (·.remove id)
    let a :=
      match c.parent with
      | some parent => a.modify parent fun p => { p with children := p.children.filter (· ≠ id) }
      | none => a
    let left := (a.ownedBy c.fiber).filter (· ≠ id)
    let owned := if left = [] then a.owned.erase c.fiber else a.owned.insert c.fiber left
    some (c, { a with owned })

/-- Takes out a continuation that has fired for the last time. Its children stay, without a
parent. -/
def retire (a : Agenda) (id : ContinuationId) : Option Ref × Agenda :=
  match a.detach id with
  | none => (none, a)
  | some (c, a) =>
    (some c.cell, c.children.foldl (fun a child => a.modify child ({ · with parent := none })) a)

/-- A continuation armed once more. -/
def rearmed (c : Continuation) : Continuation :=
  let c := if 0 < c.recurrence then { c with recurrence := c.recurrence - 1 } else c
  match c.wake with
  | .at expiry => { c with wake := .at (expiry.add c.delta) }
  | .on _ => c

/-- Arms a continuation that has fired again, or retires it; then its reference is returned. -/
def rearmOrRetire (a : Agenda) (id : ContinuationId) : Except AgendaError (Option Ref × Agenda) :=
  match a.get? id with
  | none => .error .unknownContinuation
  | some c =>
    if c.recurrence = 0 then .ok (a.retire id)
    else
      let c := rearmed c
      .ok (none, (a.set id c).modifyList c.list (·.insert id c.wake))

/-- Cancels continuations and what is registered beneath them, for so many continuations at most.
The last child is cancelled first. -/
def cancelAll : Nat → List ContinuationId → Agenda → List Ref × Agenda
  | fuel, pending, a =>
    match fuel, pending.dropWhile fun id => (a.get? id).isNone with
    | fuel + 1, id :: rest =>
      match a.detach id with
      | none => ([], a)
      | some (c, a) =>
        let (refs, a) := cancelAll fuel (c.children.reverse ++ rest) a
        (c.cell :: refs, a)
    | _, _ => ([], a)

/-- Cancels a continuation and what is registered beneath it; the references that they held are
returned in the order of cancellation. -/
def cancel (a : Agenda) (id : ContinuationId) : List Ref × Agenda := cancelAll a.size [id] a

/-- Cancels continuations one after the other. -/
def cancelEach : List ContinuationId → Agenda → List Ref × Agenda
  | [], a => ([], a)
  | id :: rest, a =>
    let (refs, a) := a.cancel id
    let (later, a) := cancelEach rest a
    (refs ++ later, a)

/-- Cancels all continuations of a fiber and what is registered beneath them. -/
def cancelFiber (a : Agenda) (fiber : FiberId) : List Ref × Agenda :=
  cancelEach (a.ownedBy fiber) { a with owned := a.owned.erase fiber }

end Agenda

end FiberVM
