import StreetLinking.Proofs.Fleet.Turns
/-!
# Whole reports in order, under every schedule

Main statement: whoever moves when, every snapshot that is loaded is that of the roster after some
first reports of the queue, and none is older than one that was loaded before; a caller who waits
learns what its own report changed after all reports ahead of it; and once the shutdown has
returned, the roster and the snapshot are those of the reports that were queued before it, and
nothing can be queued any more.
-/

namespace StreetLinking.Fleet

open Street

/-! ## Events -/

def Event.sent? : Event → Option Task
  | .sent task => some task
  | _ => none

def tasksIn (events : List Event) : List Task :=
  events.filterMap Event.sent?

theorem tasksIn_append (events more : List Event) :
    tasksIn (events ++ more) = tasksIn events ++ tasksIn more :=
  List.filterMap_append

theorem mem_tasksIn {events : List Event} {task : Task} :
    task ∈ tasksIn events ↔ .sent task ∈ events := by
  rw [tasksIn, List.mem_filterMap]
  constructor
  · rintro ⟨event, hevent, hsent⟩
    cases event with
    | sent other =>
      cases hsent
      exact hevent
    | _ => cases hsent
  · intro hmem
    exact ⟨_, hmem, rfl⟩

theorem exists_sent_of_tasksIn {events : List Event} {done more : List Task} {task : Task}
    (h : tasksIn events = done ++ task :: more) :
    ∃ before after, events = before ++ .sent task :: after ∧ tasksIn before = done := by
  obtain ⟨first, rest, rfl, hdone, hrest⟩ := List.filterMap_eq_append_iff.1 h
  obtain ⟨skipped, event, after, rfl, hskipped, hevent, -⟩ := List.filterMap_eq_cons_iff.1 hrest
  have htask : event = .sent task := by
    cases event with
    | sent other =>
      cases hevent
      rfl
    | _ => cases hevent
  subst htask
  refine ⟨first ++ skipped, after, by simp, ?_⟩
  have hnone : tasksIn skipped = [] := List.filterMap_eq_nil_iff.2 hskipped
  rw [tasksIn_append, hnone, List.append_nil]
  exact hdone

/-- What an event says of the service before the move. -/
def Event.Tells (s : Service) : Event → Prop
  | .sent _ => s.publisher.running = true
  | .refused _ fault => fault = .closed ∧ s.publisher.running = false
  | .loaded _ snapshot => snapshot = s.publisher.published
  | .answered ticket (.ok changes) => s.publisher.reply? ticket = some changes
  | .answered ticket (.error fault) =>
    fault = .closed ∧ s.publisher.reply? ticket = none ∧ s.publisher.running = false
  | .returned => s.stage = .left
  | _ => True

namespace Service

open Publisher

/-! ## Moves -/

/-- The move queues a task at the end. If a caller waits for it, it has the next ticket. -/
structure Queues (s : Service) (result : Event × Service) (task : Task) : Prop where
  event : result.1 = .sent task
  running : s.publisher.running = true
  publisher : result.2.publisher = { s.publisher with queue := s.publisher.queue ++ [task] }
  stage : result.2.stage = s.stage
  nextTicket : s.nextTicket ≤ result.2.nextTicket
  ticket : ∀ t, task.ticket? = some t → t = s.nextTicket ∧ t < result.2.nextTicket

/-- The move leaves the publisher alone. -/
structure Quiet (s : Service) (result : Event × Service) : Prop where
  event : result.1.sent? = none
  tells : result.1.Tells s
  publisher : result.2.publisher = s.publisher
  stage : result.2.stage = s.stage
  nextTicket : s.nextTicket ≤ result.2.nextTicket

theorem quiet_blocked (s : Service) : Quiet s (.blocked, s) :=
  ⟨rfl, trivial, rfl, rfl, Nat.le_refl _⟩

theorem queues_or_quiet_send (s s' : Service) (task : Task)
    (hsame : s'.publisher = s.publisher ∧ s'.stage = s.stage)
    (hnext : s.nextTicket ≤ s'.nextTicket)
    (hticket : ∀ t, task.ticket? = some t → t = s.nextTicket ∧ t < s'.nextTicket) :
    (∃ queued, Queues s (s'.send task) queued) ∨ Quiet s (s'.send task) := by
  obtain ⟨hpublisher, hstage⟩ := hsame
  unfold send Publisher.send
  rw [hpublisher]
  by_cases hrunning : s.publisher.running = true
  · refine Or.inl ⟨task, ?_⟩
    rw [if_pos hrunning]
    exact ⟨rfl, hrunning, rfl, hstage, hnext, hticket⟩
  · rw [if_neg hrunning]
    exact Or.inr ⟨rfl, ⟨rfl, Bool.not_eq_true _ ▸ hrunning⟩, rfl, hstage, hnext⟩

theorem queues_or_quiet_send_unticketed (s s' : Service) (task : Task)
    (hticket : task.ticket? = none)
    (hsame : s'.publisher = s.publisher ∧ s'.stage = s.stage ∧ s'.nextTicket = s.nextTicket) :
    (∃ queued, Queues s (s'.send task) queued) ∨ Quiet s (s'.send task) :=
  s.queues_or_quiet_send s' task ⟨hsame.1, hsame.2.1⟩ (Nat.le_of_eq hsame.2.2.symm)
    (by simp [hticket])

theorem quiet_fetch (s : Service) (updater : Nat) : Quiet s (s.fetch updater) := by
  unfold fetch
  split
  · split <;> exact ⟨rfl, trivial, rfl, rfl, Nat.le_refl _⟩
  · exact s.quiet_blocked

theorem queues_or_quiet_submit (s : Service) (updater : Nat) :
    (∃ task, Queues s (s.submit updater) task) ∨ Quiet s (s.submit updater) := by
  unfold submit
  split
  · exact s.queues_or_quiet_send_unticketed _ _ rfl ⟨rfl, rfl, rfl⟩
  · exact Or.inr s.quiet_blocked

theorem quiet_receive (s : Service) (ticket : Nat) : Quiet s (s.receive ticket) := by
  unfold receive
  split
  · next hreply => exact ⟨rfl, hreply, rfl, rfl, Nat.le_refl _⟩
  · next hnone =>
    split
    · next hclosed =>
      have hrunning : s.publisher.running = false := by
        simpa using (Bool.and_eq_true_iff.1 hclosed).2
      exact ⟨rfl, ⟨rfl, hnone, hrunning⟩, rfl, rfl, Nat.le_refl _⟩
    · exact s.quiet_blocked

theorem queues_or_quiet_callShutdown (s : Service) :
    (∃ task, Queues s s.callShutdown task) ∨ Quiet s s.callShutdown := by
  unfold callShutdown
  split
  · exact Or.inr s.quiet_blocked
  · exact s.queues_or_quiet_send_unticketed _ _ rfl ⟨rfl, rfl, rfl⟩

theorem quiet_join (s : Service) : Quiet s s.join := by
  unfold join
  split
  · next hstage => exact ⟨rfl, hstage, rfl, rfl, Nat.le_refl _⟩
  · exact s.quiet_blocked

theorem work_beside (s : Service) :
    s.work.1.sent? = none ∧ s.work.1.Tells s ∧ s.work.2.nextTicket = s.nextTicket := by
  unfold work
  split
  · unfold take
    split
    · exact ⟨rfl, trivial, rfl⟩
    · split <;> exact ⟨rfl, trivial, rfl⟩
  all_goals exact ⟨rfl, trivial, rfl⟩

/-- A move queues a task, or leaves the publisher alone, or is a step of the publisher. -/
theorem move_cases (s : Service) (m : Move) :
    m = .work ∨ (∃ task, Queues s (s.move m) task) ∨ Quiet s (s.move m) := by
  cases m with
  | report entities =>
    exact Or.inr (s.queues_or_quiet_send_unticketed s (.report entities none) rfl ⟨rfl, rfl, rfl⟩)
  | reportAndWait entities =>
    refine Or.inr (s.queues_or_quiet_send { s with nextTicket := s.nextTicket + 1 }
      (.report entities (some s.nextTicket)) ⟨rfl, rfl⟩ (Nat.le_succ _) fun t ht => ?_)
    cases ht
    exact ⟨rfl, Nat.lt_succ_self _⟩
  | breakdown =>
    exact Or.inr (s.queues_or_quiet_send_unticketed s .breakdown rfl ⟨rfl, rfl, rfl⟩)
  | fetch updater => exact Or.inr (Or.inr (s.quiet_fetch updater))
  | submit updater => exact Or.inr (s.queues_or_quiet_submit updater)
  | load reader => exact Or.inr (Or.inr ⟨rfl, rfl, rfl, rfl, Nat.le_refl _⟩)
  | receive ticket => exact Or.inr (Or.inr (s.quiet_receive ticket))
  | shutdown => exact Or.inr s.queues_or_quiet_callShutdown
  | join => exact Or.inr (Or.inr s.quiet_join)
  | work => exact Or.inl rfl

theorem tells_move (s : Service) (m : Move) : (s.move m).1.Tells s := by
  rcases s.move_cases m with rfl | ⟨task, hqueues⟩ | hquiet
  · exact s.work_beside.2.1
  · rw [hqueues.event]
    exact hqueues.running
  · exact hquiet.tells

/-! ## Records -/

/-- What was queued is done, in hand or in the queue, the publisher stands as it should, and no two
callers wait with one ticket. -/
structure Recorded (start : Publisher) (events : List Event) (s : Service) : Prop where
  account : ∃ done hand, tasksIn events = done ++ hand ++ s.publisher.queue ∧
    Account start done hand s.publisher s.stage
  distinct : ((tasksIn events).filterMap Task.ticket?).Nodup
  fresh : ∀ t ∈ (tasksIn events).filterMap Task.ticket?, t < s.nextTicket

theorem tasksIn_append_quiet (events : List Event) {event : Event} (h : event.sent? = none) :
    tasksIn (events ++ [event]) = tasksIn events := by
  simp [tasksIn, List.filterMap_append, h]

theorem tasksIn_append_sent (events : List Event) (task : Task) :
    tasksIn (events ++ [.sent task]) = tasksIn events ++ [task] := by
  simp [tasksIn, List.filterMap_append, Event.sent?]

variable {start : Publisher} {events : List Event} {s : Service}

theorem Recorded.work (h : Recorded start events s) :
    Recorded start (events ++ [s.work.1]) s.work.2 := by
  obtain ⟨hsent, -, hnext⟩ := s.work_beside
  obtain ⟨done, hand, htasks, haccount⟩ := h.account
  obtain ⟨done', hand', hsame, haccount'⟩ := account_work haccount
  have hquiet : tasksIn (events ++ [s.work.1]) = tasksIn events := tasksIn_append_quiet events hsent
  constructor
  · refine ⟨done', hand', ?_, haccount'⟩
    rw [hquiet, htasks, hsame]
  · rw [hquiet]
    exact h.distinct
  · rw [hquiet, hnext]
    exact h.fresh

theorem Recorded.queues (h : Recorded start events s) {result : Event × Service} {task : Task}
    (hqueues : Queues s result task) : Recorded start (events ++ [result.1]) result.2 := by
  obtain ⟨done, hand, htasks, haccount⟩ := h.account
  have hsent : tasksIn (events ++ [result.1]) = tasksIn events ++ [task] := by
    rw [hqueues.event, tasksIn_append_sent]
  constructor
  · refine ⟨done, hand, ?_, ?_⟩
    · rw [hsent, htasks, hqueues.publisher, List.append_assoc]
    · rw [hqueues.publisher, hqueues.stage]
      exact haccount.queue _
  · rw [hsent, List.filterMap_append]
    cases hticket : task.ticket? with
    | none => simpa [hticket] using h.distinct
    | some t =>
      -- the next ticket has not been given to anybody yet
      obtain ⟨rfl, -⟩ := hqueues.ticket t hticket
      have hnew : s.nextTicket ∉ (tasksIn events).filterMap Task.ticket? :=
        fun hmem => Nat.lt_irrefl _ (h.fresh _ hmem)
      have hlast : [task].filterMap Task.ticket? = [s.nextTicket] := by simp [hticket]
      rw [hlast, ← List.concat_eq_append]
      exact h.distinct.concat hnew
  · rw [hsent, List.filterMap_append]
    intro t ht
    rcases List.mem_append.1 ht with hold | hlast
    · exact Nat.lt_of_lt_of_le (h.fresh t hold) hqueues.nextTicket
    · have hticket : task.ticket? = some t := by simpa using hlast
      exact (hqueues.ticket t hticket).2

theorem Recorded.quiet (h : Recorded start events s) {result : Event × Service}
    (hquiet : Quiet s result) : Recorded start (events ++ [result.1]) result.2 := by
  obtain ⟨done, hand, htasks, haccount⟩ := h.account
  have hsame : tasksIn (events ++ [result.1]) = tasksIn events :=
    tasksIn_append_quiet events hquiet.event
  constructor
  · refine ⟨done, hand, ?_, ?_⟩
    · rw [hsame, htasks, hquiet.publisher]
    · rw [hquiet.publisher, hquiet.stage]
      exact haccount
  · rw [hsame]
    exact h.distinct
  · rw [hsame]
    exact fun t ht => Nat.lt_of_lt_of_le (h.fresh t ht) hquiet.nextTicket

theorem Recorded.move (h : Recorded start events s) (m : Move) :
    Recorded start (events ++ [(s.move m).1]) (s.move m).2 := by
  rcases s.move_cases m with rfl | ⟨task, hqueues⟩ | hquiet
  · exact h.work
  · exact h.queues hqueues
  · exact h.quiet hquiet

theorem Recorded.run (h : Recorded start events s) (schedule : List Move) :
    Recorded start (events ++ (s.run schedule).1) (s.run schedule).2 := by
  induction schedule generalizing events s with
  | nil => simpa [Service.run] using h
  | cons m rest ih =>
    have hrest := ih (h.move m)
    rw [List.append_assoc] at hrest
    exact hrest

theorem recorded_start {settings : Settings} {g : Streets Float} {owner : Nat} {feeds : List Feed}
    (h : Service.start settings g owner feeds = .ok s) :
    s.publisher.settings = settings ∧ s.publisher.streets = g ∧
      s.publisher.roster = { owner } ∧ Recorded s.publisher [] s := by
  unfold Service.start Publisher.start at h
  cases hvalid : settings.validate with
  | error fault =>
    rw [hvalid] at h
    cases h
  | ok _ =>
    rw [hvalid] at h
    cases h
    have hsnapshot : ({} : Snapshot) = ({ owner } : Roster).snapshot := by
      simp [Roster.snapshot, Key.sort, VertexIndex.ofTracked]
    refine ⟨rfl, rfl, rfl, ?_⟩
    constructor
    · exact ⟨[], [], rfl, {
        settings := rfl
        streets := rfl
        stands := ⟨rfl, rfl, hsnapshot⟩
        running := by simp
        open_until := List.not_mem_nil
        told := by simp
        replies := by simp }⟩
    · exact List.nodup_nil
    · simp [tasksIn]

/-! ## Moments of a run -/

theorem run_cons (s : Service) (m : Move) (rest : List Move) :
    s.run (m :: rest) =
      ((s.move m).1 :: ((s.move m).2.run rest).1, ((s.move m).2.run rest).2) := rfl

/-- When an event of a run came about: what had come before, what the event tells of that moment, and
what was still to come. -/
theorem Recorded.moment (h : Recorded start events s) {schedule : List Move}
    {earlier later : List Event} {event : Event}
    (hrun : (s.run schedule).1 = earlier ++ event :: later) :
    ∃ before after, Recorded start (events ++ earlier) (s.run before).2 ∧
      event.Tells (s.run before).2 ∧
      (s.run before).2.run after = (event :: later, (s.run schedule).2) := by
  induction earlier generalizing events s schedule with
  | nil =>
    cases schedule with
    | nil => cases hrun
    | cons m rest =>
      refine ⟨[], m :: rest, ?_, ?_, Prod.ext hrun rfl⟩
      · rw [List.append_nil]
        exact h
      · rw [run_cons] at hrun
        rw [← (List.cons.inj hrun).1]
        exact s.tells_move m
  | cons first earlier ih =>
    cases schedule with
    | nil => cases hrun
    | cons m rest =>
      rw [run_cons] at hrun ⊢
      obtain ⟨hfirst, hrest⟩ := List.cons.inj hrun
      obtain ⟨before, after, hrecorded, htells, hlater⟩ := ih (h.move m) hrest
      refine ⟨m :: before, after, ?_, htells, hlater⟩
      rw [List.append_assoc, hfirst] at hrecorded
      exact hrecorded

/-! ## Snapshots -/

theorem published_of_account {done hand : List Task} {p : Publisher} {stage : Stage}
    (h : Account start done hand p stage) :
    p.published = (start.rosterAfter done).snapshot ∨
      p.published = (start.rosterAfter (done ++ hand)).snapshot := by
  have hstands := h.stands
  cases stage with
  | idle => exact Or.inl hstands.2.2
  | taken entities ticket => exact Or.inl hstands.2.2
  | replaced changes ticket =>
    obtain ⟨_, _, _, _, hpublished⟩ := hstands
    exact Or.inl hpublished
  | counted changes ticket =>
    obtain ⟨_, _, _, _, hpublished⟩ := hstands
    exact Or.inl hpublished
  | shown changes ticket =>
    obtain ⟨_, _, _, _, hpublished⟩ := hstands
    exact Or.inr hpublished
  | leaving => exact Or.inl hstands.2.2
  | left => exact Or.inl hstands.2.2

theorem Recorded.published (h : Recorded start events s) :
    ∃ n ≤ (reportsIn (tasksIn events)).length,
      s.publisher.published = (start.roster.after start.settings start.streets
        ((reportsIn (tasksIn events)).take n)).snapshot ∧
      s.publisher.published.version = start.roster.version + n := by
  obtain ⟨done, hand, htasks, haccount⟩ := h.account
  have hfirst : ∃ first rest, tasksIn events = first ++ rest ∧
      s.publisher.published = (start.rosterAfter first).snapshot := by
    rcases published_of_account haccount with hdone | hhand
    · exact ⟨done, hand ++ s.publisher.queue, by rw [htasks, List.append_assoc], hdone⟩
    · exact ⟨done ++ hand, s.publisher.queue, htasks, hhand⟩
  obtain ⟨first, rest, hsplit, hpublished⟩ := hfirst
  have hreports : reportsIn (tasksIn events) = reportsIn first ++ reportsIn rest := by
    rw [hsplit, reportsIn, List.filterMap_append]
    rfl
  refine ⟨(reportsIn first).length, ?_, ?_, ?_⟩
  · rw [hreports, List.length_append]
    omega
  · rw [hreports, List.take_left]
    exact hpublished
  · rw [hpublished]
    exact start.version_rosterAfter first

theorem published_le_work {done hand : List Task}
    (h : Account start done hand s.publisher s.stage) :
    s.publisher.published.version ≤ s.work.2.publisher.published.version := by
  unfold work
  split
  · unfold take
    split
    · exact Nat.le_refl _
    · split <;> exact Nat.le_refl _
  · exact Nat.le_refl _
  · exact Nat.le_refl _
  · next changes ticket hstage =>
    rw [hstage] at h
    obtain ⟨entities, rfl, -, hroster, hpublished⟩ := h.stands
    show _ ≤ s.publisher.roster.version
    rw [hpublished, hroster]
    show (start.rosterAfter done).version ≤ _
    rw [version_rosterAfter, version_rosterAfter, reportsIn, reportsIn, List.filterMap_append,
      List.length_append]
    omega
  · next changes ticket hstage => cases ticket <;> exact Nat.le_refl _
  · exact Nat.le_refl _
  · exact Nat.le_refl _

theorem Recorded.published_le_run (h : Recorded start events s) (schedule : List Move) :
    s.publisher.published.version ≤ (s.run schedule).2.publisher.published.version := by
  induction schedule generalizing events s with
  | nil => exact Nat.le_refl _
  | cons m rest ih =>
    have hmove : s.publisher.published.version ≤ (s.move m).2.publisher.published.version := by
      rcases s.move_cases m with rfl | ⟨task, hqueues⟩ | hquiet
      · obtain ⟨done, hand, -, haccount⟩ := h.account
        exact published_le_work haccount
      · rw [hqueues.publisher]
      · rw [hquiet.publisher]
    exact Nat.le_trans hmove (ih (h.move m))

/-! ## Answers -/

/-- A told answer is that of the one report with the ticket, after all tasks queued before it. -/
theorem Recorded.answer (h : Recorded start events s) {ticket : Nat} {changes : Changes}
    (hreply : s.publisher.reply? ticket = some changes) :
    ∃ before entities after, events = before ++ .sent (.report entities (some ticket)) :: after ∧
      (∀ task, .sent task ∈ before ++ after → task.ticket? ≠ some ticket) ∧
      changes = start.changesAfter (tasksIn before) entities := by
  obtain ⟨done, hand, htasks, haccount⟩ := h.account
  obtain ⟨replies, replies', hreplies, -⟩ := List.lookup_eq_some_iff.1 hreply
  have hmem : (ticket, changes) ∈ s.publisher.replies := by
    rw [hreplies]
    exact List.mem_append_right _ List.mem_cons_self
  obtain ⟨first, entities, more, rfl, hchanges⟩ := haccount.replies ticket changes hmem
  have hqueue : tasksIn events =
      first ++ .report entities (some ticket) :: (more ++ hand ++ s.publisher.queue) := by
    rw [htasks]
    simp
  obtain ⟨before, after, rfl, hbefore⟩ := exists_sent_of_tasksIn hqueue
  refine ⟨before, entities, after, rfl, fun task htask hticket => ?_, ?_⟩
  · have hdistinct := h.distinct
    have hsplit : (tasksIn (before ++ .sent (.report entities (some ticket)) :: after)).filterMap
        Task.ticket? = (tasksIn before).filterMap Task.ticket? ++
          ticket :: (tasksIn after).filterMap Task.ticket? := by
      simp [tasksIn, List.filterMap_append, Event.sent?, Task.ticket?]
    rw [hsplit, List.nodup_middle, ← List.filterMap_append, ← tasksIn_append] at hdistinct
    exact (List.nodup_cons.1 hdistinct).1 (List.mem_filterMap.2 ⟨task, mem_tasksIn.2 htask, hticket⟩)
  · rw [hbefore]
    exact hchanges

/-! ## The shutdown -/

theorem Recorded.left (h : Recorded start events s) (hstage : s.stage = .left) :
    ∃ before after, events = before ++ .sent .shutdown :: after ∧ .sent .shutdown ∉ before ∧
      s.publisher.running = false ∧
      s.publisher.roster = start.rosterAfter (tasksIn before) ∧
      s.publisher.published = (start.rosterAfter (tasksIn before)).snapshot ∧
      ∀ entities ticket, .sent (.report entities (some ticket)) ∈ before →
        ∃ changes, s.publisher.reply? ticket = some changes := by
  obtain ⟨done, hand, htasks, haccount⟩ := h.account
  rw [hstage] at haccount
  obtain ⟨rfl, hroster, hpublished⟩ := haccount.stands
  have hqueue : tasksIn events = done ++ .shutdown :: s.publisher.queue := by
    rw [htasks]
    simp
  obtain ⟨before, after, rfl, rfl⟩ := exists_sent_of_tasksIn hqueue
  refine ⟨before, after, rfl, fun hmem => haccount.open_until (mem_tasksIn.2 hmem), ?_, hroster,
    hpublished, fun entities ticket hmem => ?_⟩
  · by_contra hrunning
    exact haccount.running.1 (by simpa using hrunning) rfl
  · obtain ⟨changes, hchanges⟩ := haccount.told entities ticket (mem_tasksIn.2 hmem)
    refine Option.isSome_iff_exists.1 ?_
    rw [Publisher.reply?, List.lookup_isSome_iff]
    exact ⟨(ticket, changes), hchanges, by simp⟩

theorem Recorded.left_of_closed (h : Recorded start events s)
    (hclosed : s.publisher.running = false) : s.stage = .left := by
  obtain ⟨done, hand, -, haccount⟩ := h.account
  by_contra hstage
  exact Bool.false_ne_true (hclosed.symm.trans (haccount.running.2 hstage))

/-- If the queue is closed and the changes of a report were not told, it came after a shutdown. -/
theorem Recorded.unanswered (h : Recorded start events s) {ticket : Nat}
    (hclosed : s.publisher.running = false) (hnone : s.publisher.reply? ticket = none)
    (before : List Event) (entities : List Descriptor) (after : List Event)
    (hevents : events = before ++ .sent (.report entities (some ticket)) :: after) :
    .sent .shutdown ∈ before := by
  obtain ⟨first, more, hsplit, hfirst, -, -, -, htold⟩ := h.left (h.left_of_closed hclosed)
  rw [hevents] at hsplit
  rcases List.append_eq_append_iff.1 hsplit with ⟨rest, hfirst', hrest⟩ | ⟨rest, hbefore, hrest⟩
  · -- the report came first, so it was applied and its changes told
    have hmem : .sent (.report entities (some ticket)) ∈ first := by
      cases rest with
      | nil => cases hrest
      | cons event rest =>
        obtain ⟨rfl, -⟩ := List.cons.inj hrest
        rw [hfirst']
        exact List.mem_append_right _ List.mem_cons_self
    obtain ⟨changes, hchanges⟩ := htold entities ticket hmem
    rw [hnone] at hchanges
    cases hchanges
  · cases rest with
    | nil => cases hrest
    | cons event rest =>
      obtain ⟨rfl, -⟩ := List.cons.inj hrest
      rw [hbefore]
      exact List.mem_append_right _ List.mem_cons_self

theorem work_of_brokeDown (h : s.work.1 = .brokeDown) :
    s.work.2 = { s with publisher := { s.publisher with queue := s.publisher.queue.tail } } := by
  unfold work at h ⊢
  split at h
  · unfold take at h ⊢
    split at h
    · cases h
    · next task rest hqueue =>
      cases task with
      | breakdown => simp only [hqueue, List.tail_cons]
      | report entities ticket => cases h
      | shutdown => cases h
  all_goals cases h

theorem run_of_left (hstage : s.stage = .left) (hrunning : s.publisher.running = false)
    (schedule : List Move) :
    (s.run schedule).2.publisher = s.publisher ∧ ∀ task, .sent task ∉ (s.run schedule).1 := by
  induction schedule generalizing s with
  | nil => exact ⟨rfl, fun task => List.not_mem_nil⟩
  | cons m rest ih =>
    have hmove : (s.move m).2.publisher = s.publisher ∧ (s.move m).2.stage = s.stage ∧
        (s.move m).1.sent? = none := by
      rcases s.move_cases m with rfl | ⟨task, hqueues⟩ | hquiet
      · have hwork : s.move .work = (.blocked, s) := by
          show s.work = _
          rw [work, hstage]
        rw [hwork]
        exact ⟨rfl, rfl, rfl⟩
      · exact absurd (hrunning.symm.trans hqueues.running) Bool.false_ne_true
      · exact ⟨hquiet.publisher, hquiet.stage, hquiet.event⟩
    obtain ⟨hpublisher, hsame, hsent⟩ := hmove
    obtain ⟨hrest, hnone⟩ := ih (hsame.trans hstage) (by rw [hpublisher]; exact hrunning)
    rw [run_cons]
    refine ⟨hrest.trans hpublisher, fun task hmem => ?_⟩
    rcases List.mem_cons.1 hmem with hnow | hlater
    · rw [← hnow] at hsent
      cases hsent
    · exact hnone task hlater

/-! ### The publisher gets there -/

/-- The publisher has left or will leave when it gets to the end of its queue. -/
def Leaves (s : Service) : Prop :=
  s.stage = .left ∨ s.stage = .leaving ∨ .shutdown ∈ s.publisher.queue

def stepsAhead (s : Service) : Nat :=
  5 * s.publisher.queue.length + match s.stage with
    | .taken _ _ => 4
    | .replaced _ _ => 3
    | .counted _ _ => 2
    | .shown _ _ => 1
    | .leaving => 1
    | _ => 0

theorem work_of_leaves (h : s.Leaves) (hstage : s.stage ≠ .left) :
    s.work.2.Leaves ∧ s.work.2.stepsAhead < s.stepsAhead := by
  -- until the publisher is about to leave, the shutdown is in its queue
  have hqueue (hidle : s.stage ≠ .leaving) : .shutdown ∈ s.publisher.queue :=
    (h.resolve_left hstage).resolve_left hidle
  unfold work
  split
  · next hidle =>
    have hmem := hqueue (by simp [hidle])
    unfold take
    cases hnext : s.publisher.queue with
    | nil => simp [hnext] at hmem
    | cons task rest =>
      rw [hnext] at hmem
      have hrest (hother : task ≠ .shutdown) : Task.shutdown ∈ rest :=
        (List.mem_cons.1 hmem).resolve_left hother.symm
      have hahead : s.stepsAhead = 5 * (rest.length + 1) := by simp [stepsAhead, hnext, hidle]
      rw [hahead]
      cases task with
      | report entities ticket =>
        refine ⟨Or.inr (Or.inr (hrest (by simp))), ?_⟩
        show 5 * rest.length + 4 < _
        omega
      | breakdown =>
        refine ⟨Or.inr (Or.inr (hrest (by simp))), ?_⟩
        simp only [stepsAhead, hidle]
        omega
      | shutdown =>
        refine ⟨Or.inr (Or.inl rfl), ?_⟩
        show 5 * rest.length + 1 < _
        omega
  · next entities ticket htaken =>
    refine ⟨Or.inr (Or.inr (hqueue (by simp [htaken]))), ?_⟩
    simp only [stepsAhead, htaken, replaceTable]
    omega
  · next changes ticket hreplaced =>
    refine ⟨Or.inr (Or.inr (hqueue (by simp [hreplaced]))), ?_⟩
    simp only [stepsAhead, hreplaced, countReport]
    omega
  · next changes ticket hcounted =>
    refine ⟨Or.inr (Or.inr (hqueue (by simp [hcounted]))), ?_⟩
    simp only [stepsAhead, hcounted, publish]
    omega
  · next changes ticket hshown =>
    have hsame : (s.publisher.tell changes ticket).queue = s.publisher.queue := by
      cases ticket <;> rfl
    refine ⟨Or.inr (Or.inr ?_), ?_⟩
    · rw [hsame]
      exact hqueue (by simp [hshown])
    · simp only [stepsAhead, hshown, hsame]
      omega
  · next hleaving =>
    refine ⟨Or.inl rfl, ?_⟩
    simp only [stepsAhead, hleaving, close]
    omega
  · next hleft => exact absurd hleft hstage

theorem exists_workAlone_left (h : s.Leaves) : ∃ n, (workAlone n s).stage = .left := by
  induction hahead : s.stepsAhead using Nat.strong_induction_on generalizing s with
  | _ ahead ih =>
    by_cases hstage : s.stage = .left
    · exact ⟨0, hstage⟩
    · obtain ⟨hleaves, hless⟩ := work_of_leaves h hstage
      obtain ⟨n, hn⟩ := ih _ (hahead ▸ hless) hleaves rfl
      exact ⟨n + 1, hn⟩

theorem Recorded.leaves (h : Recorded start events s) (hsent : .sent .shutdown ∈ events) :
    s.Leaves := by
  obtain ⟨done, hand, htasks, haccount⟩ := h.account
  have hmem : Task.shutdown ∈ done ++ hand ++ s.publisher.queue := by
    rw [← htasks]
    exact mem_tasksIn.2 hsent
  rcases List.mem_append.1 hmem with hmem | hqueue
  · rcases List.mem_append.1 hmem with hdone | hhand
    · exact absurd hdone haccount.open_until
    · -- only when the publisher leaves has it the shutdown in hand
      have hstands := haccount.stands
      cases hstage : s.stage with
      | idle | taken entities ticket =>
        rw [hstage] at hstands
        simp [hstands.1] at hhand
      | replaced changes ticket | counted changes ticket | shown changes ticket =>
        rw [hstage] at hstands
        obtain ⟨entities, rfl, -⟩ := hstands
        simp at hhand
      | leaving => exact Or.inr (Or.inl hstage)
      | left => exact Or.inl hstage
  · exact Or.inr (Or.inr hqueue)

end Service

/-! ## All schedules -/

open Service in
/-- Under every schedule: a loaded snapshot is that of the roster after some first reports of the
queue and counts them, and none that is loaded later counts fewer; a caller who waits learns what
the report with its ticket changed after all reports ahead of it, or that the queue is closed, and
this only if its report came after the shutdown; a feed that fails and a task that breaks down
change nothing else; once the shutdown has returned, roster and snapshot are those after the reports
before it, whatever comes later, and all sending is refused; nothing is refused before a shutdown;
and if nothing but the publisher moves, a shutdown that was called returns. -/
theorem whole_reports_in_order {settings : Settings} {g : Streets Float} {owner : Nat}
    {feeds : List Feed} {s : Service} (hstart : Service.start settings g owner feeds = .ok s)
    (schedule : List Move) :
    let table (reports : List (List Descriptor)) : Roster :=
      Roster.after settings g { owner } reports
    let reports (events : List Event) : List (List Descriptor) := reportsIn (tasksIn events)
    let events := (s.run schedule).1
    let now := (s.run schedule).2
    (∀ earlier reader snapshot later, events = earlier ++ .loaded reader snapshot :: later →
      ∃ n ≤ (reports earlier).length,
        snapshot = (table ((reports earlier).take n)).snapshot ∧ snapshot.version = n) ∧
    (∀ earlier reader snapshot between reader' snapshot' later,
      events = earlier ++ .loaded reader snapshot ::
        (between ++ .loaded reader' snapshot' :: later) →
      snapshot.version ≤ snapshot'.version) ∧
    (∀ earlier ticket changes later,
      events = earlier ++ .answered ticket (.ok changes) :: later →
      ∃ before entities after, earlier = before ++ .sent (.report entities (some ticket)) :: after ∧
        (∀ task, .sent task ∈ before ++ after → task.ticket? ≠ some ticket) ∧
        changes = ((table (reports before)).update settings g entities).1) ∧
    (∀ earlier ticket fault later,
      events = earlier ++ .answered ticket (.error fault) :: later →
      fault = .closed ∧
        ∀ before entities after, earlier = before ++ .sent (.report entities (some ticket)) :: after →
          .sent .shutdown ∈ before) ∧
    (∀ updater fault, (now.fetch updater).1 = .fetchFailed updater fault →
      (now.fetch updater).2.publisher = now.publisher ∧ (now.fetch updater).2.stage = now.stage) ∧
    (now.work.1 = .brokeDown → now.work.2 =
      { now with publisher := { now.publisher with queue := now.publisher.queue.tail } }) ∧
    (∀ earlier later, events = earlier ++ .returned :: later →
      ∃ before after, earlier = before ++ .sent .shutdown :: after ∧ .sent .shutdown ∉ before ∧
        now.publisher.roster = table (reports before) ∧
        now.publisher.published = (table (reports before)).snapshot ∧
        (∀ task, .sent task ∉ later) ∧
        ∀ task, now.publisher.send task = .fail .closed now.publisher) ∧
    (∀ earlier task fault later, events = earlier ++ .refused task fault :: later →
      fault = .closed ∧ .sent .shutdown ∈ earlier) ∧
    (.sent .shutdown ∈ events → ∃ n, (workAlone n now).join.1 = .returned) := by
  intro table reports events now
  obtain ⟨hsettings, hstreets, hroster, hrecorded⟩ := recorded_start hstart
  have hafter (tasks : List Task) : s.publisher.rosterAfter tasks = table (reportsIn tasks) := by
    rw [Publisher.rosterAfter, hsettings, hstreets, hroster]
  have hmoment {earlier later : List Event} {event : Event}
      (hevents : events = earlier ++ event :: later) :
      ∃ before after, Recorded s.publisher earlier (s.run before).2 ∧
        event.Tells (s.run before).2 ∧ (s.run before).2.run after = (event :: later, now) :=
    hrecorded.moment hevents
  have hnow : Recorded s.publisher events now := hrecorded.run schedule
  refine ⟨?_, ?_, ?_, ?_, ?_, ?_, ?_, ?_, ?_⟩
  · intro earlier reader snapshot later hevents
    obtain ⟨before, after, hbefore, rfl, -⟩ := hmoment hevents
    obtain ⟨n, hn, hpublished, hversion⟩ := hbefore.published
    rw [hsettings, hstreets, hroster] at hpublished
    rw [hroster] at hversion
    exact ⟨n, hn, hpublished, hversion.trans (Nat.zero_add n)⟩
  · -- the second snapshot is loaded later in the run from the moment of the first one
    intro earlier reader snapshot between reader' snapshot' later hevents
    obtain ⟨before, after, hbefore, rfl, hrest⟩ := hmoment hevents
    have hevents' : ((s.run before).2.run after).1 =
        (.loaded reader (s.run before).2.publisher.published :: between) ++
          .loaded reader' snapshot' :: later := congrArg Prod.fst hrest
    obtain ⟨before', -, -, rfl, -⟩ := hbefore.moment hevents'
    exact hbefore.published_le_run before'
  · intro earlier ticket changes later hevents
    obtain ⟨before, -, hbefore, hreply, -⟩ := hmoment hevents
    obtain ⟨before', entities, after', hsplit, hown, hchanges⟩ := hbefore.answer hreply
    refine ⟨before', entities, after', hsplit, hown, ?_⟩
    rw [hchanges, Publisher.changesAfter, hafter, hsettings, hstreets]
  · intro earlier ticket fault later hevents
    obtain ⟨before, -, hbefore, ⟨rfl, hnone, hclosed⟩, -⟩ := hmoment hevents
    exact ⟨rfl, hbefore.unanswered hclosed hnone⟩
  · intro updater fault _
    have hquiet := now.quiet_fetch updater
    exact ⟨hquiet.publisher, hquiet.stage⟩
  · exact work_of_brokeDown
  · -- nothing has changed since the moment at which the shutdown returned
    intro earlier later hevents
    obtain ⟨before, after, hbefore, hstage, hrest⟩ := hmoment hevents
    obtain ⟨first, more, hsplit, hfirst, hclosed, hroster', hpublished, -⟩ := hbefore.left hstage
    obtain ⟨hsame, hnone⟩ := run_of_left hstage hclosed after
    rw [hrest] at hsame hnone
    have hpublisher : now.publisher = (s.run before).2.publisher := hsame
    refine ⟨first, more, hsplit, hfirst, ?_, ?_, fun task hmem => ?_, fun task => ?_⟩
    · rw [hpublisher, hroster', hafter]
    · rw [hpublisher, hpublished, hafter]
    · exact hnone task (List.mem_cons_of_mem _ hmem)
    · rw [hpublisher, Publisher.send, if_neg (by simp [hclosed])]
  · intro earlier task fault later hevents
    obtain ⟨before, -, hbefore, ⟨rfl, hclosed⟩, -⟩ := hmoment hevents
    obtain ⟨first, more, rfl, -⟩ := hbefore.left (hbefore.left_of_closed hclosed)
    exact ⟨rfl, List.mem_append_right _ List.mem_cons_self⟩
  · intro hsent
    obtain ⟨n, hn⟩ := exists_workAlone_left (hnow.leaves hsent)
    refine ⟨n, ?_⟩
    rw [join, hn]

/-! ## A shutdown behind a report -/

def newService : Service :=
  { publisher := { streets := .empty, settings := {}, roster := { owner := 0 } }
    updaters := [{ feed := [.failure "out of reach"] }] }

/-- The shutdown is queued while the report waits, and the feed fails meanwhile. -/
def shutdownBehind : List Move :=
  [.reportAndWait [scooterAt 0.0], .shutdown, .fetch 0, .load 0] ++ List.replicate 7 .work ++
    [.load 0, .receive 0, .join, .report []]

theorem whole_reports_in_order_behind_a_report :
    let now := (newService.run shutdownBehind).2
    Service.start {} .empty 0 [[.failure "out of reach"]] = .ok newService ∧
      now.publisher.roster = Roster.after {} .empty { owner := 0 } [[scooterAt 0.0]] ∧
      now.publisher.published.version = 1 ∧
      ∀ task, now.publisher.send task = .fail .closed now.publisher := by
  intro now
  have hstart : Service.start {} .empty 0 [[.failure "out of reach"]] = .ok newService := rfl
  obtain ⟨-, -, -, -, -, -, hreturned, -⟩ := whole_reports_in_order hstart shutdownBehind
  obtain ⟨before, after, hsplit, hfirst, hroster, hpublished, -, hclosed⟩ :=
    hreturned ((newService.run shutdownBehind).1.take 13) [.refused (.report [] none) .closed] rfl
  have hbefore : before = [.sent (.report [scooterAt 0.0] (some 0))] := by
    cases before with
    | nil => cases hsplit
    | cons first rest =>
      obtain ⟨rfl, hrest⟩ := List.cons.inj hsplit
      cases rest with
      | nil => rfl
      | cons second rest =>
        obtain ⟨rfl, -⟩ := List.cons.inj hrest
        exact absurd (List.mem_cons_of_mem _ List.mem_cons_self) hfirst
  subst hbefore
  exact ⟨hstart, hroster, congrArg Snapshot.version hpublished, hclosed⟩

end StreetLinking.Fleet
