import StreetLinking.Proofs.Linking.GraphSteps
import StreetLinking.Proofs.Linking.TrivialPaths
/-!
# Operations that fail change nothing

Adding, splitting and linking either do all that they are to do or leave the whole graph as it was:
vertices, edges with their numbers and serials, areas, indices and annotations. For linking this
rests on what it does with one edge being no obstacle to the next: only the edge itself goes, so all
later ones are still there and can be split. Main statement: this for every graph that a history
leads to, and once linking has changed anything it succeeds.
-/

namespace StreetLinking.Linking

open Number Plane Street Streets Nearest

variable {α : Type} [Scalar α]

/-- If the operation fails, it leaves the state as it was before. -/
def SparedBy {σ β : Type} (before : σ) (outcome : Outcome σ β) : Prop :=
  ∀ fault, outcome.answer = .error fault → outcome.state = before

theorem sparedBy_ok {σ β : Type} (before state : σ) (value : β) :
    SparedBy before (Outcome.ok value state) :=
  fun _ hfault => nomatch hfault

theorem sparedBy_fail {σ β : Type} (before : σ) (fault : Fault) :
    SparedBy before (Outcome.fail fault before : Outcome σ β) :=
  fun _ _ => rfl

/-! ## Adding and splitting -/

theorem sparedBy_addStreet (g : Streets α) (source target : Nat) (line : Option (Line α))
    (permission : ModeSet) (name : String) :
    SparedBy g (g.addStreet source target line permission name) := by
  unfold addStreet
  cases g.streetLine source target line with
  | error fault => exact sparedBy_fail g fault
  | ok line => exact sparedBy_ok g _ _

theorem sparedBy_addTwoWayStreet (g : Streets α) (source target : Nat) (line : Option (Line α))
    (permission : ModeSet) (name : String) :
    SparedBy g (g.addTwoWayStreet source target line permission name) := by
  unfold addTwoWayStreet
  cases g.streetLine source target line with
  | error fault => exact sparedBy_fail g fault
  | ok line => exact sparedBy_ok g _ _

theorem sparedBy_addArea (g : Streets α) (name : String) (ring : List Nat)
    (permission : ModeSet) : SparedBy g (g.addArea name ring permission) := by
  unfold addArea
  split
  · exact sparedBy_fail g _
  · cases g.corners? ring with
    | none => exact sparedBy_fail g _
    | some corners => exact sparedBy_ok g _ _

theorem sparedBy_split (g : Streets α) (number : Nat) (location : Location α) :
    SparedBy g (split g number location) := by
  intro fault hfault
  cases hh : halve g number location with
  | error fault => exact split_state_of_error hh
  | ok h =>
    rw [split_of_halve hh] at hfault
    cases hfault

/-! ## What a change takes away -/

namespace Change

theorem mem_edges_apply {g : Streets α} (hsound : Sound g) (c : Change α) {d : Edge α}
    (hd : d ∈ g.edges) (hother : ∀ location, c ≠ .split d.number location) :
    d ∈ (c.apply g).edges := by
  rcases c.apply_cases hsound with
    ⟨new, hgrows⟩ | ⟨number, location, h, first, second, rfl, hh, hsplits⟩
  · rw [hgrows.edges]
    exact List.mem_append_right _ hd
  · have hparent := (hsound.edge?_eq_some_iff.1 (halve_eq_ok hh).1).2
    have hne : d.number ≠ number := fun hsame => hother location (by rw [hsame])
    simp [hsplits.edges, hd, hparent, hne]

end Change

theorem mem_edges_replay {g : Streets α} (hsound : Sound g) {changes : List (Change α)}
    {d : Edge α} (hd : d ∈ g.edges)
    (hother : ∀ c ∈ changes, ∀ location, c ≠ .split d.number location) :
    d ∈ (replay g changes).edges := by
  induction changes generalizing g with
  | nil => exact hd
  | cons c rest ih =>
    obtain ⟨hfirst, hrest⟩ := List.forall_mem_cons.1 hother
    exact ih (c.sound_apply hsound) (c.mem_edges_apply hsound hd hfirst) hrest

/-! ## Linking one edge after another -/

section Linking

variable (settings : Settings) (frame : Frame α) (entity : Entity α)

theorem number_of_mem_attachChanges {g : Streets α} {number n : Nat} {location : Location α}
    (h : .split n location ∈ attachChanges settings frame entity g number) : n = number := by
  unfold attachChanges at h
  split at h
  · rcases List.mem_cons.1 h with h | h
    · cases h
      rfl
    · split at h
      · split at h
        · cases List.mem_singleton.1 h
        · cases h
      · cases h
  · cases h

theorem exists_attach_of_sound {g : Streets α} (hsound : Sound g) {number : Nat}
    (hlive : ∃ e, g.edge? number = some e) :
    ∃ v g', attach settings frame entity g number = .ok v g' ∧ Sound g' ∧
      ∀ d ∈ g.edges, d.number ≠ number → d ∈ g'.edges := by
  obtain ⟨e, hedge⟩ := hlive
  obtain ⟨v, hanswer⟩ : ∃ v, (attach settings frame entity g number).answer = .ok v := by
    rcases attach_cases hsound hedge settings frame entity with
      ⟨v, -, -, hattach⟩ | ⟨location, h, -, -, -, hattach | ⟨-, area, hattach⟩⟩
    · exact ⟨v, by rw [hattach]; rfl⟩
    · exact ⟨_, by rw [hattach]; rfl⟩
    · exact ⟨_, by rw [hattach]; rfl⟩
  have hstate := replay_attachChanges settings frame entity g number
  generalize attach settings frame entity g number = outcome at hanswer hstate
  obtain ⟨answer, g'⟩ := outcome
  cases hanswer
  refine ⟨v, g', rfl, ?_, fun d hd hother => ?_⟩
  · rw [← show replay g (attachChanges settings frame entity g number) = g' from hstate]
    exact sound_replay hsound _
  · rw [← show replay g (attachChanges settings frame entity g number) = g' from hstate]
    refine mem_edges_replay hsound hd fun c hc location hsplits => hother ?_
    exact number_of_mem_attachChanges settings frame entity (hsplits ▸ hc)

/-- An entity is connected with live edges one after another, whatever the ones before have done,
and the edges that are not among them stay. -/
theorem exists_attachAll_of_sound {g : Streets α} (hsound : Sound g) {numbers : List Nat}
    (hdistinct : numbers.Nodup) (hlive : ∀ n ∈ numbers, ∃ e, g.edge? n = some e) :
    ∃ g', attachAll settings frame entity g numbers = .ok () g' ∧ Sound g' ∧
      ∀ d ∈ g.edges, d.number ∉ numbers → d ∈ g'.edges := by
  induction numbers generalizing g with
  | nil => exact ⟨g, rfl, hsound, fun d hd _ => hd⟩
  | cons number rest ih =>
    obtain ⟨hnew, hdistinct⟩ := List.nodup_cons.1 hdistinct
    obtain ⟨hfirst, hrest⟩ := List.forall_mem_cons.1 hlive
    obtain ⟨v, g₁, hattach, hsound₁, hkept⟩ :=
      exists_attach_of_sound settings frame entity hsound hfirst
    let c : Change α := .connect entity.vertex v entity.role
    have hstay : ∀ d ∈ g.edges, d.number ≠ number → d ∈ (c.apply g₁).edges :=
      fun d hd hother => c.mem_edges_apply hsound₁ (hkept d hd hother) fun _ => nofun
    have hlater : ∀ n ∈ rest, ∃ e, (c.apply g₁).edge? n = some e := by
      intro n hn
      obtain ⟨e, he⟩ := hrest n hn
      have hother : n ≠ number := fun hsame => hnew (hsame ▸ hn)
      exact ⟨e, hsound.edge?_of_kept (c.sound_apply hsound₁) he
        fun d hd hnumber => hstay d hd (hnumber ▸ hother)⟩
    obtain ⟨g₂, hall, hsound₂, hkept₂⟩ := ih (c.sound_apply hsound₁) hdistinct hlater
    refine ⟨g₂, ?_, hsound₂, fun d hd hother => ?_⟩
    · rw [attachAll, hattach, Outcome.andThen_ok]
      exact hall
    · rw [List.mem_cons, not_or] at hother
      exact hkept₂ d (hstay d hd hother.1) hother.2

theorem exists_attach_after {g : Streets α} (hsound : Sound g) {done later : List Nat}
    {number : Nat} (hdistinct : (done ++ number :: later).Nodup)
    (hlive : ∀ n ∈ done ++ number :: later, ∃ e, g.edge? n = some e) :
    ∃ g₁ v g₂, attachAll settings frame entity g done = .ok () g₁ ∧
      attach settings frame entity g₁ number = .ok v g₂ := by
  obtain ⟨g₁, hdone, hsound₁, hkept⟩ := exists_attachAll_of_sound settings frame entity hsound
    (hdistinct.sublist (List.sublist_append_left _ _))
    fun n hn => hlive n (List.mem_append_left _ hn)
  obtain ⟨e, hedge⟩ := hlive number (by simp)
  have hnew : number ∉ done := fun hin =>
    (List.nodup_append.1 hdistinct).2.2 _ hin _ List.mem_cons_self rfl
  have hstill : g₁.edge? number = some e :=
    hsound.edge?_of_kept hsound₁ hedge fun d hd hnumber => hkept d hd (hnumber ▸ hnew)
  obtain ⟨v, g₂, hattach, -⟩ := exists_attach_of_sound settings frame entity hsound₁ ⟨e, hstill⟩
  exact ⟨g₁, v, g₂, hdone, hattach⟩

end Linking

/-! ## Linking an entity -/

theorem warnFar_frame (settings : Settings) (entity : Entity α) (distance : α) (g : Streets α) :
    ∃ annotations, warnFar settings entity distance g = { g with annotations } := by
  unfold warnFar
  dsimp only
  split
  · exact ⟨_, rfl⟩
  · exact ⟨_, rfl⟩

namespace Reached

variable {g : Streets α} (h : Reached g) (settings : Settings) (mode : Mode)

include h

theorem exists_attach_in_turn (entity : Entity α) (distance : α) {done later : List Nat}
    {number : Nat}
    (hnumbers : (targets settings g entity.position mode).map (·.item.number) =
      done ++ number :: later) :
    let frame := Frame.around entity.position
    ∃ g₁ v g₂,
      attachAll settings frame entity (warnFar settings entity distance g) done = .ok () g₁ ∧
        attach settings frame entity g₁ number = .ok v g₂ := by
  have hdistinct := h.nodup_targets settings entity.position mode
  have hlive : ∀ n ∈ (targets settings g entity.position mode).map (·.item.number),
      ∃ e, g.edge? n = some e :=
    fun n hn => h.exists_edge?_of_mem_targets settings entity.position mode hn
  rw [hnumbers] at hdistinct hlive
  obtain ⟨annotations, hwarn⟩ := warnFar_frame settings entity distance g
  have hsound : Sound { g with annotations } := h.sound.congr rfl rfl rfl rfl (Nat.le_refl _)
  intro frame
  rw [hwarn]
  exact exists_attach_after settings frame entity hsound hdistinct hlive

theorem linkEntity_answer (entity : Entity α) :
    (linkEntity settings g entity mode).answer =
      .ok (!(targets settings g entity.position mode).isEmpty) := by
  unfold linkEntity
  cases htargets : targets settings g entity.position mode with
  | nil => rfl
  | cons first rest =>
    have hdistinct := h.nodup_targets settings entity.position mode
    have hlive : ∀ n ∈ (targets settings g entity.position mode).map (·.item.number),
        ∃ e, g.edge? n = some e :=
      fun n hn => h.exists_edge?_of_mem_targets settings entity.position mode hn
    rw [htargets] at hdistinct hlive
    obtain ⟨annotations, hwarn⟩ := warnFar_frame settings entity first.distance g
    have hsound : Sound { g with annotations } := h.sound.congr rfl rfl rfl rfl (Nat.le_refl _)
    obtain ⟨g', hall, -⟩ := exists_attachAll_of_sound settings (Frame.around entity.position)
      entity hsound hdistinct hlive
    simp only [hwarn, hall, Outcome.andThen_ok]
    rfl

theorem exists_link_answer {vertex : Nat} {x : Vertex α} {role : Role}
    (hx : g.vertex? vertex = some x) (hrole : x.kind.role? = some role) :
    ∃ linked, (link settings g vertex mode).answer = .ok linked := by
  rw [link_eq hx hrole]
  exact ⟨_, h.linkEntity_answer settings mode _⟩

theorem sparedBy_link (vertex : Nat) : SparedBy g (link settings g vertex mode) := by
  intro fault hfault
  cases hx : g.vertex? vertex with
  | none => simp only [link, hx, Outcome.fail]
  | some x =>
    cases hrole : x.kind.role? with
    | none => simp only [link, hx, hrole, Outcome.fail]
    | some role =>
      obtain ⟨linked, hanswer⟩ := h.exists_link_answer settings mode hx hrole
      rw [hanswer] at hfault
      cases hfault

theorem linkChanges_of_not_linked {vertex : Nat}
    (hanswer : (link settings g vertex mode).answer ≠ .ok true) :
    linkChanges settings g vertex mode = [] := by
  unfold linkChanges
  cases hx : g.vertex? vertex with
  | none => rfl
  | some x =>
    cases hrole : x.kind.role? with
    | none => simp only [hrole]
    | some role =>
      rw [link_eq hx hrole, h.linkEntity_answer settings mode] at hanswer
      have hnone : targets settings g x.position mode = [] := by simpa using hanswer
      simp only [hrole, linkEntityChanges, hnone]

/-! ## Linking everything -/

theorem exists_linkEach_answer (report : Report) {es : List (Nat × Role)}
    (hes : ∀ e ∈ es, ∃ x role, g.vertex? e.1 = some x ∧ x.kind.role? = some role) :
    ∃ total, (linkEach settings g report es).answer = .ok total := by
  induction es generalizing g report with
  | nil => exact ⟨report, rfl⟩
  | cons e rest ih =>
    obtain ⟨vertex, role⟩ := e
    obtain ⟨⟨x, own, hx, hrole⟩, hrest⟩ := List.forall_mem_cons.1 hes
    obtain ⟨linked, hanswer⟩ := h.exists_link_answer settings (buildingMode role) hx hrole
    have hlinked := replay_linkChanges settings g vertex (buildingMode role)
    rw [linkEach]
    generalize link settings g vertex (buildingMode role) = outcome at hanswer hlinked
    obtain ⟨answer, g₁⟩ := outcome
    cases hanswer
    let notes := if linked then [] else unlinkedChanges g₁ vertex
    have hnext : Linking.replay g (linkChanges settings g vertex (buildingMode role) ++ notes) =
        if linked then g₁ else annotateUnlinked g₁ vertex := by
      rw [replay_append, hlinked]
      cases linked with
      | true => rfl
      | false => exact replay_unlinkedChanges g₁ vertex
    show ∃ total, (linkEach settings (if linked then g₁ else annotateUnlinked g₁ vertex)
      (report.count role linked) rest).answer = .ok total
    rw [← hnext]
    refine ih (h.replay _) (report.count role linked) fun e he => ?_
    obtain ⟨y, role', hy, hrole'⟩ := hrest e he
    exact ⟨y, role', vertex?_mono (vertices_replay h.sound _) hy, hrole'⟩

omit [Scalar α] h in
theorem entity_of_mem_entities {e : Nat × Role} (he : e ∈ entities g) :
    ∃ x role, g.vertex? e.1 = some x ∧ x.kind.role? = some role := by
  obtain ⟨⟨x, number⟩, hx, hentity⟩ := List.mem_filterMap.1 he
  obtain ⟨role, hrole, rfl⟩ := Option.map_eq_some_iff.1 hentity
  have hat : g.vertices.toList[number]? = some x := List.mem_zipIdx_iff_getElem?.1 hx
  exact ⟨x, role, by rwa [Streets.vertex?, ← Array.getElem?_toList], hrole⟩

theorem exists_linkAll_answer : ∃ total, (linkAll settings g).answer = .ok total :=
  h.exists_linkEach_answer settings {} fun _ he => entity_of_mem_entities he

theorem sparedBy_linkStreets : SparedBy g (linkStreets settings g) := by
  unfold linkStreets
  cases settings.validate with
  | error fault => exact sparedBy_fail g _
  | ok _ =>
    cases coverageAnnotation? g with
    | none =>
      intro fault hfault
      obtain ⟨total, hanswer⟩ := h.exists_linkAll_answer settings
      cases hanswer.symm.trans hfault
    | some annotation =>
      intro fault hfault
      obtain ⟨total, hanswer⟩ := (h.apply (.annotate annotation)).exists_linkAll_answer settings
      cases hanswer.symm.trans hfault

end Reached

/-- Whatever has happened to a graph before: adding a street, a two-way street or an area, splitting
an edge, linking an entity and linking everything leave it as it was if they fail, and so does
linking an entity that finds no edge. Linking an entity that has changed anything succeeds, because
each of its edges can be attached to when those before it have been dealt with. -/
theorem failures_spare_the_graph (events : List (Event α)) :
    let g : Streets α := run .empty events
    (∀ source target line permission name,
      SparedBy g (g.addStreet source target line permission name) ∧
        SparedBy g (g.addTwoWayStreet source target line permission name)) ∧
    (∀ name ring permission, SparedBy g (g.addArea name ring permission)) ∧
    (∀ number location, SparedBy g (split g number location)) ∧
    (∀ settings vertex mode, SparedBy g (link settings g vertex mode) ∧
      ((link settings g vertex mode).answer = .ok false →
        (link settings g vertex mode).state = g)) ∧
    (∀ settings, SparedBy g (linkStreets settings g)) ∧
    (∀ settings vertex mode, linkChanges settings g vertex mode ≠ [] →
      (link settings g vertex mode).answer = .ok true) ∧
    ∀ settings vertex mode x role nearest others, g.vertex? vertex = some x →
      x.kind.role? = some role → targets settings g x.position mode = nearest :: others →
      ∀ done number later, (nearest :: others).map (·.item.number) = done ++ number :: later →
        let entity : Entity α := ⟨vertex, role, x.label, x.position⟩
        let frame := Frame.around x.position
        ∃ g₁ v g₂,
          attachAll settings frame entity (warnFar settings entity nearest.distance g) done =
              .ok () g₁ ∧
            attach settings frame entity g₁ number = .ok v g₂ := by
  intro g
  have h : Reached g := reached_run events
  refine ⟨fun source target line permission name =>
      ⟨sparedBy_addStreet g source target line permission name,
        sparedBy_addTwoWayStreet g source target line permission name⟩,
    sparedBy_addArea g, sparedBy_split g,
    fun settings vertex mode => ⟨h.sparedBy_link settings mode vertex, fun hfalse => ?_⟩,
    h.sparedBy_linkStreets, fun settings vertex mode hchanges => ?_, ?_⟩
  · have hnone : linkChanges settings g vertex mode = [] :=
      h.linkChanges_of_not_linked settings mode (by rw [hfalse]; nofun)
    rw [← replay_linkChanges, hnone, replay_nil]
  · by_contra hanswer
    exact hchanges (h.linkChanges_of_not_linked settings mode hanswer)
  · intro settings vertex mode x role nearest others _ _ htargets done number later hnumbers
    rw [← htargets] at hnumbers
    exact h.exists_attach_in_turn settings mode ⟨vertex, role, x.label, x.position⟩
      nearest.distance hnumbers

theorem failures_spare_the_graph_on_the_meridian :
    let g := run .empty meridian
    ((g.addStreet 0 9 none .all "Nowhere").answer = .error .unknownVertex ∧
      (g.addStreet 0 9 none .all "Nowhere").state = g) ∧
    ((g.addArea "Yard" [0, 1, 9] .all).answer = .error .unknownVertex ∧
      (g.addArea "Yard" [0, 1, 9] .all).state = g) ∧
    ((split g 5 ⟨0, 0.5⟩).answer = .error .unknownEdge ∧ (split g 5 ⟨0, 0.5⟩).state = g) ∧
    ((link {} g 0 .walk).answer = .error (.notLinkable 0) ∧ (link {} g 0 .walk).state = g) ∧
    ((link onTheSpot g 2 .walk).answer = .ok false ∧ (link onTheSpot g 2 .walk).state = g) ∧
    ((linkStreets { endpointSnap := 0.5 } g).answer =
        .error (.setting (.endpointSnap 0.5)) ∧
      (linkStreets { endpointSnap := 0.5 } g).state = g) ∧
    (linkChanges onTheSpot g 3 .walk ≠ [] ∧ (link onTheSpot g 3 .walk).answer = .ok true) ∧
    ∃ v g₂, attach onTheSpot (Frame.around ⟨0.0, 0.5⟩)
      ⟨3, .bikeRental, "Station", ⟨0.0, 0.5⟩⟩ g 0 = .ok v g₂ := by
  intro g
  obtain ⟨hstreet, harea, hsplit, hlink, hstreets, hbegun, hturn⟩ :=
    failures_spare_the_graph meridian
  have hstop : (link onTheSpot g 2 .walk).answer = .ok false := by
    have hx : g.vertex? 2 = some ⟨.stop "A" false, "Stop", ⟨0.0, 3.0⟩⟩ := rfl
    simp only [link_eq hx rfl, linkEntity, g, targets_beyond_meridian]
    rfl
  have hchanges : linkChanges onTheSpot g 3 .walk ≠ [] := by
    have hx : g.vertex? 3 = some ⟨.bikeRental "B", "Station", ⟨0.0, 0.5⟩⟩ := rfl
    have hcuts : cuts onTheSpot g ⟨0.0, 0.5⟩ 0 = true :=
      (cuts_meridian (Or.inr (Or.inr rfl))).trans (by decide)
    have hplan : ∃ location, plan g 0 ⟨0.0, 0.5⟩ (Frame.around ⟨0.0, 0.5⟩)
        (Scalar.ofDouble onTheSpot.endpointSnap) = .ok (.cut location) := by
      unfold cuts at hcuts
      split at hcuts
      · next location hplan => exact ⟨location, hplan⟩
      · cases hcuts
    obtain ⟨location, hplan⟩ := hplan
    intro hnone
    simp only [linkChanges, hx, VertexKind.role?, linkEntityChanges, g,
      targets_meridian (p := ⟨0.0, 0.5⟩) (Or.inr (Or.inr rfl)), List.append_eq_nil_iff,
      List.map_cons, attachAllChanges] at hnone
    obtain ⟨-, hattach, -⟩ := hnone
    have hwarn : warnFar onTheSpot ⟨3, .bikeRental, "Station", ⟨0.0, 0.5⟩⟩ 0.0 g = g := rfl
    have hnumber : meridianEdge.number = 0 := rfl
    rw [hwarn, hnumber] at hattach
    simp only [attachChanges, hplan] at hattach
    cases hattach
  refine ⟨⟨rfl, (hstreet 0 9 none .all "Nowhere").1 _ rfl⟩,
    ⟨rfl, harea "Yard" [0, 1, 9] .all _ rfl⟩, ⟨rfl, hsplit 5 ⟨0, 0.5⟩ _ rfl⟩,
    ⟨rfl, (hlink {} 0 .walk).1 _ rfl⟩, ⟨hstop, (hlink onTheSpot 2 .walk).2 hstop⟩,
    ⟨rfl, hstreets { endpointSnap := 0.5 } _ rfl⟩,
    ⟨hchanges, hbegun onTheSpot 3 .walk hchanges⟩, ?_⟩
  obtain ⟨g₁, v, g₂, hdone, hattach⟩ := hturn onTheSpot 3 .walk
    ⟨.bikeRental "B", "Station", ⟨0.0, 0.5⟩⟩ .bikeRental ⟨meridianEdge, 0.0⟩ [] rfl rfl
    (targets_meridian (Or.inr (Or.inr rfl))) [] 0 [] rfl
  obtain rfl : g = g₁ := congrArg Outcome.state hdone
  exact ⟨v, g₂, hattach⟩

end StreetLinking.Linking
