import StreetLinking.Fleet.Polling
/-!
# A publisher and those who use it at once

The publisher works beside its callers. Anybody may queue a report or a task that breaks down, or
queue a report and wait for its changes; a feed is asked first, and what it gave is queued after
that; readers take the snapshot that is published; one caller shuts the publisher down and waits
until it is gone. The publisher takes one task after the other and needs several steps for a report.
Between any two steps of anybody others may move, in an order that nobody knows: a schedule says who
moves next, and every list of moves is one. Whoever cannot move yet is blocked and changes nothing.
-/
namespace StreetLinking.Fleet

open Street

/-- How far the publisher is with the task that it has taken from the queue. -/
inductive Stage where
  | idle
  | taken (entities : List Descriptor) (ticket : Option Nat)
  | replaced (changes : Changes) (ticket : Option Nat)
  | counted (changes : Changes) (ticket : Option Nat)
  | shown (changes : Changes) (ticket : Option Nat)
  /-- The shutdown has been taken, and the queue is still open. -/
  | leaving
  | left

/-- A feed, and what it has given but is not queued yet. -/
structure Updater where
  feed : Feed
  fetched : Option (List Descriptor) := none

structure Service where
  publisher : Publisher
  stage : Stage := .idle
  updaters : List Updater := []
  /-- The ticket of the next caller who waits. -/
  nextTicket : Nat := 0
  shutdownCalled : Bool := false

inductive Move where
  | report (entities : List Descriptor)
  | reportAndWait (entities : List Descriptor)
  | breakdown
  | fetch (updater : Nat)
  | submit (updater : Nat)
  | load (reader : Nat)
  /-- The caller with the ticket looks for the changes. -/
  | receive (ticket : Nat)
  | shutdown
  /-- The caller of the shutdown looks whether the publisher is gone. -/
  | join
  /-- The publisher takes its next step. -/
  | work

inductive Event where
  | sent (task : Task)
  | refused (task : Task) (fault : Fault)
  | fetched (updater : Nat)
  | fetchFailed (updater : Nat) (fault : Fault)
  | loaded (reader : Nat) (snapshot : Snapshot)
  | answered (ticket : Nat) (answer : Except Fault Changes)
  /-- The shutdown has returned. -/
  | returned
  | worked
  /-- A task has broken down. -/
  | brokeDown
  | blocked

namespace Service

def start (settings : Settings) (g : Streets Float) (owner : Nat) (feeds : List Feed) :
    Except Fault Service :=
  (Publisher.start settings g owner).map fun publisher =>
    { publisher, updaters := feeds.map fun feed => { feed } }

def send (s : Service) (task : Task) : Event × Service :=
  match s.publisher.send task with
  | ⟨.ok _, publisher⟩ => (.sent task, { s with publisher })
  | ⟨.error fault, publisher⟩ => (.refused task fault, { s with publisher })

def fetch (s : Service) (updater : Nat) : Event × Service :=
  match s.updaters[updater]? with
  | some ⟨feed, none⟩ =>
    match feed.ask with
    | ⟨.ok entities, feed⟩ =>
      (.fetched updater, { s with updaters := s.updaters.set updater ⟨feed, some entities⟩ })
    | ⟨.error fault, feed⟩ =>
      (.fetchFailed updater fault, { s with updaters := s.updaters.set updater ⟨feed, none⟩ })
  | _ => (.blocked, s)

def submit (s : Service) (updater : Nat) : Event × Service :=
  match s.updaters[updater]? with
  | some ⟨feed, some entities⟩ =>
    send { s with updaters := s.updaters.set updater ⟨feed, none⟩ } (.report entities none)
  | _ => (.blocked, s)

/-- A caller who waits gets the changes once they are told, and a fault once they never will be. -/
def receive (s : Service) (ticket : Nat) : Event × Service :=
  match s.publisher.reply? ticket with
  | some changes => (.answered ticket (.ok changes), s)
  | none =>
    if ticket < s.nextTicket && !s.publisher.running then (.answered ticket (.error .closed), s)
    else (.blocked, s)

def take (s : Service) : Event × Service :=
  match s.publisher.queue with
  | [] => (.blocked, s)
  | task :: rest =>
    let s := { s with publisher := { s.publisher with queue := rest } }
    match task with
    | .report entities ticket => (.worked, { s with stage := .taken entities ticket })
    | .breakdown => (.brokeDown, s)
    | .shutdown => (.worked, { s with stage := .leaving })

def work (s : Service) : Event × Service :=
  let p := s.publisher
  match s.stage with
  | .idle => s.take
  | .taken entities ticket =>
    let (changes, publisher) := p.replaceTable entities
    (.worked, { s with publisher, stage := .replaced changes ticket })
  | .replaced changes ticket =>
    (.worked, { s with publisher := p.countReport, stage := .counted changes ticket })
  | .counted changes ticket =>
    (.worked, { s with publisher := p.publish, stage := .shown changes ticket })
  | .shown changes ticket =>
    (.worked, { s with publisher := p.tell changes ticket, stage := .idle })
  | .leaving => (.worked, { s with publisher := p.close, stage := .left })
  | .left => (.blocked, s)

/-- The publisher is shut down once only. -/
def callShutdown (s : Service) : Event × Service :=
  if s.shutdownCalled then (.blocked, s) else send { s with shutdownCalled := true } .shutdown

def join (s : Service) : Event × Service :=
  match s.stage with
  | .left => (.returned, s)
  | _ => (.blocked, s)

def move (s : Service) : Move → Event × Service
  | .report entities => s.send (.report entities none)
  | .reportAndWait entities =>
    send { s with nextTicket := s.nextTicket + 1 } (.report entities (some s.nextTicket))
  | .breakdown => s.send .breakdown
  | .fetch updater => s.fetch updater
  | .submit updater => s.submit updater
  | .load reader => (.loaded reader s.publisher.published, s)
  | .receive ticket => s.receive ticket
  | .shutdown => s.callShutdown
  | .join => s.join
  | .work => s.work

def run : Service → List Move → List Event × Service
  | s, [] => ([], s)
  | s, m :: rest =>
    let (event, s) := s.move m
    let (events, s) := run s rest
    (event :: events, s)

end Service

end StreetLinking.Fleet
