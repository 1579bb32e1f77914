import StreetLinking.Fleet.Publisher
/-!
# Polling a feed

A feed is asked again and again for what it reports, and every report is queued with the publisher.
A feed that cannot be read leaves out one cycle; polling ends when the publisher is shut down, and
it breaks off when the feed breaks down or the next cycle lies too far ahead for the clock.
-/
namespace StreetLinking.Fleet

inductive Reply where
  | report (entities : List Descriptor)
  | failure (text : String)
  | breakdown

/-- A feed by the replies that it still has to give; after those it reports nothing. -/
abbrev Feed := List Reply

def Feed.ask (feed : Feed) : Outcome Feed (List Descriptor) :=
  match feed.headD (.report []) with
  | .report entities => .ok entities feed.tail
  | .failure text => .fail (.feed text) feed.tail
  | .breakdown => .fail .pollingBroken feed.tail

structure Poller where
  feed : Feed
  publisher : Publisher

/-- Asks the feed once and queues its report, answering how many entities it holds. -/
def pollOnce (l : Poller) : Outcome Poller Nat :=
  match l.feed.ask with
  | ⟨.error fault, feed⟩ => .fail fault { l with feed }
  | ⟨.ok entities, feed⟩ =>
    let sent := l.publisher.send (.report entities none)
    ⟨sent.answer.map fun _ => entities.length, ⟨feed, sent.state⟩⟩

def pollTimes : Nat → Poller → List (Except Fault Nat) × Poller
  | 0, l => ([], l)
  | times + 1, l =>
    let first := pollOnce l
    let (rest, l) := pollTimes times first.state
    (first.answer :: rest, l)

/-- How often a feed is asked, in seconds. -/
structure PollingSettings where
  interval : Nat := 60
deriving DecidableEq

namespace PollingSettings

def lastMoment : Nat := 0x7FFFFFFFFFFFFFFF

def validate (s : PollingSettings) : Except SettingFault Unit :=
  if s.interval = 0 then .error .pollingInterval else .ok ()

/-- How long the clock is taken to have been running when a wait begins, in seconds: an hour. -/
def clockRunning : Nat := 3600

def canWait (s : PollingSettings) : Bool :=
  decide (clockRunning + s.interval ≤ lastMoment)

end PollingSettings

/-- Polls for a number of cycles, or until the publisher is shut down, the feed breaks down or the
wait for the next cycle cannot be timed. -/
def poll (settings : PollingSettings) : Nat → Poller → Outcome Poller Unit
  | 0, l => .ok () l
  | cycles + 1, l =>
    match pollOnce l with
    | ⟨.error .closed, l⟩ => .ok () l
    | ⟨.error .pollingBroken, l⟩ => .fail .pollingBroken l
    | ⟨_, l⟩ =>
      if settings.canWait then poll settings cycles l else .fail .pollingBroken l

def runPolling (settings : PollingSettings) (cycles : Nat) (l : Poller) : Outcome Poller Unit :=
  match settings.validate with
  | .error fault => .fail (.setting fault) l
  | .ok _ => poll settings cycles l

end StreetLinking.Fleet
