import StreetLinking.Fleet.Roster
/-!
# Publishing the roster

One publisher owns the roster. Reports are queued and applied one after another in the order in
which they came, each to its end, and after each of them the publisher puts out a new snapshot.
Readers take the latest one and never wait. A task that breaks down leaves everything as it was. A
shutdown is queued like a report: what came before it is still applied, what comes after it is not,
and once it is reached the queue is closed.
-/
namespace StreetLinking.Fleet

open Street

inductive Task where
  /-- Apply a report; a caller who waits for the changes is known by a ticket. -/
  | report (entities : List Descriptor) (ticket : Option Nat)
  /-- A task that breaks down before it changes anything. -/
  | breakdown
  | shutdown

structure Publisher where
  streets : Streets Float
  settings : Settings
  roster : Roster
  published : Snapshot := {}
  queue : List Task := []
  running : Bool := true
  /-- Changes for callers who wait, by ticket. -/
  replies : List (Nat × Changes) := []

namespace Publisher

/-- Starts a publisher with an empty roster, unless the settings are refused. -/
def start (settings : Settings) (g : Streets Float) (owner : Nat) : Except Fault Publisher :=
  match settings.validate with
  | .error fault => .error (.setting fault)
  | .ok _ => .ok { streets := g, settings, roster := { owner } }

def send (p : Publisher) (task : Task) : Outcome Publisher Unit :=
  if p.running then .ok () { p with queue := p.queue ++ [task] }
  else .fail .closed p

/-! ### Applying a report

The roster is brought in line and then counted up, and the snapshot of it takes the place of the one
that readers found so far. Whoever waits for the changes is told last. -/

/-- Brings the roster in line with a report, without counting it. -/
def replaceTable (p : Publisher) (entities : List Descriptor) : Changes × Publisher :=
  let (changes, roster) := p.roster.update p.settings p.streets entities
  (changes, { p with roster := { roster with version := p.roster.version } })

def countReport (p : Publisher) : Publisher :=
  { p with roster := { p.roster with version := p.roster.version + 1 } }

def publish (p : Publisher) : Publisher :=
  { p with published := p.roster.snapshot }

/-- Tells the changes to the caller who waits for them, if there is one. -/
def tell (p : Publisher) (changes : Changes) (ticket : Option Nat) : Publisher :=
  match ticket with
  | some n => { p with replies := (n, changes) :: p.replies }
  | none => p

def apply (p : Publisher) (entities : List Descriptor) (ticket : Option Nat) : Publisher :=
  let (changes, p) := p.replaceTable entities
  p.countReport.publish.tell changes ticket

def close (p : Publisher) : Publisher :=
  { p with running := false }

def perform (p : Publisher) : Task → Publisher
  | .report entities ticket => p.apply entities ticket
  | .breakdown => p
  | .shutdown => p.close

def step (p : Publisher) : Publisher :=
  match p.running, p.queue with
  | true, task :: rest => perform { p with queue := rest } task
  | _, _ => p

def steps : Nat → Publisher → Publisher
  | 0, p => p
  | n + 1, p => steps n p.step

def drain (p : Publisher) : Publisher :=
  steps p.queue.length p

/-- The changes made by the report with a ticket, once it has been applied. -/
def reply? (p : Publisher) (ticket : Nat) : Option Changes :=
  p.replies.lookup ticket

def reportAndWait (p : Publisher) (entities : List Descriptor) (ticket : Nat) :
    Outcome Publisher Changes :=
  (p.send (.report entities (some ticket))).andThen fun _ p =>
    let p := p.drain
    match p.reply? ticket with
    | some changes => .ok changes p
    | none => .fail .closed p

/-- Performs all that is queued and closes the queue. -/
def shutdown (p : Publisher) : Publisher :=
  (p.send .shutdown).state.drain

end Publisher

end StreetLinking.Fleet
