import StreetLinking.Fleet.Service
import StreetLinking.Proofs.Fleet.Reconciliation
/-!
# The steps of the publisher

Of the tasks that were queued the publisher has done some, has at most one in hand, and finds the
rest in the queue, always in this order. The roster and the snapshot follow from what is done, from
what is in hand and from how far the publisher is with it. Main statements: every step keeps this
account, and undisturbed steps from one task to the next do what the publisher does in one turn.
-/

namespace StreetLinking.Fleet

open Street

/-! ## Tasks that are reports -/

namespace Task

def report? : Task → Option (List Descriptor)
  | report entities _ => some entities
  | _ => none

def ticket? : Task → Option Nat
  | report _ ticket => ticket
  | _ => none

end Task

def reportsIn (tasks : List Task) : List (List Descriptor) :=
  tasks.filterMap Task.report?

namespace Publisher

/-- The roster that a publisher comes to, from what it is at the start, by the reports among some
tasks. -/
def rosterAfter (start : Publisher) (tasks : List Task) : Roster :=
  start.roster.after start.settings start.streets (reportsIn tasks)

def changesAfter (start : Publisher) (tasks : List Task) (entities : List Descriptor) : Changes :=
  ((start.rosterAfter tasks).update start.settings start.streets entities).1

variable (start : Publisher)

theorem rosterAfter_append_report (tasks : List Task) (entities : List Descriptor)
    (ticket : Option Nat) :
    start.rosterAfter (tasks ++ [.report entities ticket]) =
      ((start.rosterAfter tasks).update start.settings start.streets entities).2 := by
  have hreports : reportsIn (tasks ++ [.report entities ticket]) = reportsIn tasks ++ [entities] :=
    List.filterMap_append
  rw [rosterAfter, hreports, Roster.after_append]
  rfl

theorem rosterAfter_append_of_not_report (tasks : List Task) {task : Task}
    (h : task.report? = none) : start.rosterAfter (tasks ++ [task]) = start.rosterAfter tasks := by
  have hreports : reportsIn (tasks ++ [task]) = reportsIn tasks := by
    simp [reportsIn, List.filterMap_append, h]
  rw [rosterAfter, hreports, rosterAfter]

theorem version_rosterAfter (tasks : List Task) :
    (start.rosterAfter tasks).version = start.roster.version + (reportsIn tasks).length :=
  (Roster.counts_after start.settings start.streets start.roster (reportsIn tasks)).2

/-! ## The account of a publisher -/

/-- How roster and snapshot stand at a stage, after the tasks that are done and with those in
hand. -/
def Stands (start : Publisher) (done hand : List Task) (p : Publisher) : Stage → Prop
  | .idle =>
    hand = [] ∧ p.roster = start.rosterAfter done ∧ p.published = (start.rosterAfter done).snapshot
  | .taken entities ticket =>
    hand = [.report entities ticket] ∧ p.roster = start.rosterAfter done ∧
      p.published = (start.rosterAfter done).snapshot
  | .replaced changes ticket =>
    ∃ entities, hand = [.report entities ticket] ∧ changes = start.changesAfter done entities ∧
      p.roster = { start.rosterAfter (done ++ hand) with
        version := (start.rosterAfter done).version } ∧
      p.published = (start.rosterAfter done).snapshot
  | .counted changes ticket =>
    ∃ entities, hand = [.report entities ticket] ∧ changes = start.changesAfter done entities ∧
      p.roster = start.rosterAfter (done ++ hand) ∧
      p.published = (start.rosterAfter done).snapshot
  | .shown changes ticket =>
    ∃ entities, hand = [.report entities ticket] ∧ changes = start.changesAfter done entities ∧
      p.roster = start.rosterAfter (done ++ hand) ∧
      p.published = (start.rosterAfter (done ++ hand)).snapshot
  | .leaving | .left =>
    hand = [.shutdown] ∧ p.roster = start.rosterAfter done ∧
      p.published = (start.rosterAfter done).snapshot

/-- The answer for a ticket is what the report with the ticket changes after all tasks before it. -/
def Answers (start : Publisher) (tasks : List Task) (ticket : Nat) (changes : Changes) : Prop :=
  ∃ before entities after, tasks = before ++ .report entities (some ticket) :: after ∧
    changes = start.changesAfter before entities

theorem Answers.append {start : Publisher} {tasks : List Task} {ticket : Nat} {changes : Changes}
    (h : Answers start tasks ticket changes) (more : List Task) :
    Answers start (tasks ++ more) ticket changes := by
  obtain ⟨before, entities, after, rfl, hchanges⟩ := h
  exact ⟨before, entities, after ++ more, by simp, hchanges⟩

/-- A publisher and its stage after tasks that are done and with those in hand. -/
structure Account (start : Publisher) (done hand : List Task) (p : Publisher) (stage : Stage) :
    Prop where
  settings : p.settings = start.settings
  streets : p.streets = start.streets
  stands : Stands start done hand p stage
  running : p.running = true ↔ stage ≠ .left
  /-- No task is done after a shutdown. -/
  open_until : .shutdown ∉ done
  told : ∀ entities ticket, .report entities (some ticket) ∈ done →
    ∃ changes, (ticket, changes) ∈ p.replies
  replies : ∀ ticket changes, (ticket, changes) ∈ p.replies → Answers start done ticket changes

namespace Account

variable {start : Publisher} {done hand : List Task} {p : Publisher} {stage : Stage}

theorem advance (h : Account start done hand p stage) {hand' : List Task} {p' : Publisher}
    {stage' : Stage} (hstands : Stands start done hand' p' stage')
    (hsame : p'.settings = p.settings ∧ p'.streets = p.streets ∧ p'.running = p.running ∧
      p'.replies = p.replies) (hleft : stage' = .left ↔ stage = .left) :
    Account start done hand' p' stage' := by
  obtain ⟨hsettings, hstreets, hrunning, hreplies⟩ := hsame
  exact {
    settings := hsettings.trans h.settings
    streets := hstreets.trans h.streets
    stands := hstands
    running := by rw [hrunning, h.running, ne_eq, ne_eq, hleft]
    open_until := h.open_until
    told := by rw [hreplies]; exact h.told
    replies := by rw [hreplies]; exact h.replies }

theorem queue (h : Account start done hand p stage) (queue : List Task) :
    Account start done hand { p with queue } stage := by
  have hstands : Stands start done hand { p with queue } stage := by
    cases stage <;> exact h.stands
  exact h.advance hstands ⟨rfl, rfl, rfl, rfl⟩ Iff.rfl

theorem start_report (h : Account start done hand p .idle) (entities : List Descriptor)
    (ticket : Option Nat) :
    Account start done [.report entities ticket] p (.taken entities ticket) :=
  h.advance ⟨rfl, h.stands.2⟩ ⟨rfl, rfl, rfl, rfl⟩ (by simp)

theorem start_shutdown (h : Account start done hand p .idle) :
    Account start done [.shutdown] p .leaving :=
  h.advance ⟨rfl, h.stands.2⟩ ⟨rfl, rfl, rfl, rfl⟩ (by simp)

theorem replaceTable {entities : List Descriptor} {ticket : Option Nat}
    (h : Account start done hand p (.taken entities ticket)) :
    Account start done hand (p.replaceTable entities).2
      (.replaced (p.replaceTable entities).1 ticket) := by
  obtain ⟨rfl, hroster, hpublished⟩ := h.stands
  refine h.advance ⟨entities, rfl, ?_, ?_, hpublished⟩ ⟨rfl, rfl, rfl, rfl⟩ (by simp)
  · simp only [Publisher.replaceTable, changesAfter, hroster, h.settings, h.streets]
  · simp only [Publisher.replaceTable, rosterAfter_append_report, hroster, h.settings, h.streets]

theorem countReport {changes : Changes} {ticket : Option Nat}
    (h : Account start done hand p (.replaced changes ticket)) :
    Account start done hand p.countReport (.counted changes ticket) := by
  obtain ⟨entities, rfl, hchanges, hroster, hpublished⟩ := h.stands
  refine h.advance ⟨entities, rfl, hchanges, ?_, hpublished⟩ ⟨rfl, rfl, rfl, rfl⟩ (by simp)
  rw [rosterAfter_append_report] at hroster ⊢
  simp only [Publisher.countReport, hroster]
  rfl

theorem publish {changes : Changes} {ticket : Option Nat}
    (h : Account start done hand p (.counted changes ticket)) :
    Account start done hand p.publish (.shown changes ticket) := by
  obtain ⟨entities, hhand, hchanges, hroster, -⟩ := h.stands
  exact h.advance ⟨entities, hhand, hchanges, hroster, congrArg Roster.snapshot hroster⟩
    ⟨rfl, rfl, rfl, rfl⟩ (by simp)

theorem breakdown (h : Account start done hand p .idle) :
    Account start (done ++ [.breakdown]) hand p .idle where
  settings := h.settings
  streets := h.streets
  stands := by
    obtain ⟨hhand, hroster, hpublished⟩ := h.stands
    have hsame : start.rosterAfter (done ++ [.breakdown]) = start.rosterAfter done :=
      start.rosterAfter_append_of_not_report done rfl
    refine ⟨hhand, ?_, ?_⟩
    · rw [hsame, hroster]
    · rw [hsame, hpublished]
  running := h.running
  open_until := by simpa using h.open_until
  told := fun entities ticket hmem => h.told entities ticket (by simpa using hmem)
  replies := fun ticket changes hmem => (h.replies ticket changes hmem).append _

theorem tell {changes : Changes} {ticket : Option Nat}
    (h : Account start done hand p (.shown changes ticket)) :
    Account start (done ++ hand) [] (p.tell changes ticket) .idle := by
  obtain ⟨entities, rfl, hchanges, hroster, hpublished⟩ := h.stands
  have hkept : ∀ reply ∈ p.replies, reply ∈ (p.tell changes ticket).replies := by
    intro reply hreply
    cases ticket with
    | none => exact hreply
    | some n => exact List.mem_cons_of_mem _ hreply
  have hsame : (p.tell changes ticket).settings = p.settings ∧
      (p.tell changes ticket).streets = p.streets ∧ (p.tell changes ticket).roster = p.roster ∧
      (p.tell changes ticket).published = p.published ∧
      (p.tell changes ticket).running = p.running := by
    cases ticket <;> exact ⟨rfl, rfl, rfl, rfl, rfl⟩
  obtain ⟨hsettings, hstreets, hsameRoster, hsamePublished, hrunning⟩ := hsame
  exact {
    settings := hsettings.trans h.settings
    streets := hstreets.trans h.streets
    stands := ⟨rfl, hsameRoster.trans hroster, hsamePublished.trans hpublished⟩
    running := by
      rw [hrunning]
      exact ⟨fun _ => by simp, fun _ => h.running.2 (by simp)⟩
    open_until := by simpa using h.open_until
    told := by
      intro entities' n hmem
      rcases List.mem_append.1 hmem with hmem | hmem
      · obtain ⟨c, hc⟩ := h.told entities' n hmem
        exact ⟨c, hkept _ hc⟩
      · cases List.mem_singleton.1 hmem
        exact ⟨changes, List.mem_cons_self⟩
    replies := by
      intro n c hmem
      cases ticket with
      | none => exact (h.replies n c hmem).append _
      | some m =>
        rcases List.mem_cons.1 hmem with heq | hmem
        · cases heq
          exact ⟨done, entities, [], rfl, hchanges⟩
        · exact (h.replies n c hmem).append _ }

theorem close (h : Account start done hand p .leaving) : Account start done hand p.close .left where
  settings := h.settings
  streets := h.streets
  stands := h.stands
  running := ⟨fun hrunning => absurd hrunning (by simp [Publisher.close]), fun h => absurd rfl h⟩
  open_until := h.open_until
  told := h.told
  replies := h.replies

end Account

end Publisher

/-! ## Steps -/

namespace Service

open Publisher

variable {start : Publisher} {done hand : List Task}

theorem account_take {s : Service} (h : Account start done hand s.publisher s.stage)
    (hstage : s.stage = .idle) :
    ∃ done' hand', done' ++ hand' ++ s.take.2.publisher.queue = done ++ hand ++ s.publisher.queue ∧
      Account start done' hand' s.take.2.publisher s.take.2.stage := by
  rw [hstage] at h
  have hhand : hand = [] := h.stands.1
  subst hhand
  unfold take
  rcases hqueue : s.publisher.queue with _ | ⟨task, rest⟩
  · refine ⟨done, [], by simp [hqueue], ?_⟩
    rw [hstage]
    exact h
  · have hrest := h.queue rest
    cases task with
    | report entities ticket =>
      exact ⟨done, _, by simp, hrest.start_report entities ticket⟩
    | breakdown =>
      refine ⟨done ++ [.breakdown], [], by simp, ?_⟩
      simp only [hstage]
      exact hrest.breakdown
    | shutdown =>
      exact ⟨done, _, by simp, hrest.start_shutdown⟩

/-- A step of the publisher keeps the account, and nothing is lost between what is done, what is in
hand and the queue. -/
theorem account_work {s : Service} (h : Account start done hand s.publisher s.stage) :
    ∃ done' hand', done' ++ hand' ++ s.work.2.publisher.queue = done ++ hand ++ s.publisher.queue ∧
      Account start done' hand' s.work.2.publisher s.work.2.stage := by
  unfold work
  split
  · next hstage => exact account_take h hstage
  · next entities ticket hstage =>
    rw [hstage] at h
    exact ⟨done, hand, rfl, h.replaceTable⟩
  · next changes ticket hstage =>
    rw [hstage] at h
    exact ⟨done, hand, rfl, h.countReport⟩
  · next changes ticket hstage =>
    rw [hstage] at h
    exact ⟨done, hand, rfl, h.publish⟩
  · next changes ticket hstage =>
    rw [hstage] at h
    have hqueue : (s.publisher.tell changes ticket).queue = s.publisher.queue := by
      cases ticket <;> rfl
    exact ⟨done ++ hand, [], by simp [hqueue], h.tell⟩
  · next hstage =>
    rw [hstage] at h
    exact ⟨done, hand, rfl, h.close⟩
  · exact ⟨done, hand, rfl, h⟩

def workAlone : Nat → Service → Service
  | 0, s => s
  | n + 1, s => workAlone n s.work.2

theorem workAlone_turn {s : Service} (hstage : s.stage = .idle)
    (hrunning : s.publisher.running = true) :
    ∃ n, (workAlone n s).publisher = s.publisher.step ∧
      ((workAlone n s).stage = .idle ∨ (workAlone n s).stage = .left) := by
  rcases s with ⟨p, stage, updaters, nextTicket, called⟩
  obtain rfl : stage = .idle := hstage
  have hrun : p.running = true := hrunning
  rcases hqueue : p.queue with _ | ⟨task, rest⟩
  · refine ⟨0, ?_, Or.inl rfl⟩
    show p = p.step
    rw [Publisher.step, hqueue, hrun]
  · have hstep : p.step = Publisher.perform { p with queue := rest } task := by
      rw [Publisher.step, hqueue, hrun]
    rw [hstep]
    cases task with
    | report entities ticket =>
      refine ⟨5, ?_, Or.inl ?_⟩
      · simp only [workAlone, work, take, hqueue]
        rfl
      · simp only [workAlone, work, take, hqueue]
    | breakdown =>
      refine ⟨1, ?_, Or.inl ?_⟩
      · simp only [workAlone, work, take, hqueue]
        rfl
      · simp only [workAlone, work, take, hqueue]
    | shutdown =>
      refine ⟨2, ?_, Or.inr ?_⟩
      · simp only [workAlone, work, take, hqueue]
        rfl
      · simp only [workAlone, work, take, hqueue]

theorem submit_fetch {s : Service} {updater : Nat} {feed : Feed}
    (h : s.updaters[updater]? = some ⟨feed, none⟩) :
    let polled := pollOnce ⟨feed, s.publisher⟩
    let now := ((s.fetch updater).2.submit updater).2
    now.publisher = polled.state.publisher ∧
      now.updaters[updater]? = some ⟨polled.state.feed, none⟩ := by
  have hlt : updater < s.updaters.length := (List.getElem?_eq_some_iff.1 h).1
  rcases hask : feed.ask with ⟨fault | entities, rest⟩
  · have hfetch : s.fetch updater =
        (.fetchFailed updater fault, { s with updaters := s.updaters.set updater ⟨rest, none⟩ }) := by
      simp only [fetch, h, hask]
    have hpoll : pollOnce ⟨feed, s.publisher⟩ = .fail fault ⟨rest, s.publisher⟩ := by
      simp only [pollOnce, hask]
    rw [hfetch, hpoll]
    simp [submit, hlt, Outcome.fail]
  · have hfetch : s.fetch updater =
        (.fetched updater, { s with updaters := s.updaters.set updater ⟨rest, some entities⟩ }) := by
      simp only [fetch, h, hask]
    have hpoll : (pollOnce ⟨feed, s.publisher⟩).state =
        ⟨rest, (s.publisher.send (.report entities none)).state⟩ := by
      simp only [pollOnce, hask]
    have hsend (s' : Service) (task : Task) :
        (s'.send task).2 = { s' with publisher := (s'.publisher.send task).state } := by
      unfold send
      rcases s'.publisher.send task with ⟨_ | _, p⟩ <;> rfl
    simp only [hfetch, hpoll]
    simp [submit, hlt, hsend]

end Service

end StreetLinking.Fleet
