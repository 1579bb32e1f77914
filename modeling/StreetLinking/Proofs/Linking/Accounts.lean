import StreetLinking.Proofs.Linking.Agreement
import StreetLinking.Proofs.Linking.Lineage
import StreetLinking.Proofs.Linking.Persistence
/-!
# Linking everything

The entities of a built graph are linked one after the other, in a graph that the ones before have
left. Main statement: this never fails, what is counted as linked is joined with a street in the end
and what is not has no edge at all, and the annotations tell just what could not be linked and what
was linked from too far away.
-/

namespace StreetLinking.Linking

open Number Plane Street Streets Nearest

variable {α : Type} [Scalar α]

/-! ## Turns -/

/-- An entity when it is its turn to be linked: its vertex, and the graph as it is then. -/
structure Turn (α : Type) where
  number : Nat
  vertex : Vertex α
  role : Role
  graph : Streets α

namespace Turn

def found (settings : Settings) (t : Turn α) : List (Ranked α (Edge α)) :=
  targets settings t.graph t.vertex.position (buildingMode t.role)

def isLinked (settings : Settings) (t : Turn α) : Bool :=
  !(t.found settings).isEmpty

/-- What is to be annotated: that the entity was not linked, or that it is a stop whose nearest edge
lies beyond the warning distance. -/
def notes (settings : Settings) (t : Turn α) : List Annotation :=
  match t.found settings with
  | [] => (unlinkedAnnotation? t.number t.vertex).toList
  | nearest :: _ =>
    let metres := metresOfDegrees (Scalar.toDouble nearest.distance)
    if t.role = .stop ∧ settings.warningDistance < metres then
      [.stopLinkedTooFar t.number t.vertex.label metres]
    else []

/-- The annotation tells that the entity could not be linked. -/
def TellsUnlinked (t : Turn α) : Annotation → Prop
  | .stopUnlinked v id label =>
    v = t.number ∧ label = t.vertex.label ∧ ∃ wheelchair, t.vertex.kind = .stop id wheelchair
  | .bikeRentalUnlinked v id label =>
    v = t.number ∧ label = t.vertex.label ∧ t.vertex.kind = .bikeRental id
  | .bikeParkUnlinked v id label =>
    v = t.number ∧ label = t.vertex.label ∧ t.vertex.kind = .bikePark id
  | .stopLinkedTooFar _ _ _ | .stopsOutsideCoverage _ _ => False

def next (settings : Settings) (t : Turn α) : Streets α :=
  let g := (link settings t.graph t.number (buildingMode t.role)).state
  if t.isLinked settings then g else annotateUnlinked g t.number

end Turn

def turns (settings : Settings) : Streets α → List (Vertex α × Nat) → List (Turn α)
  | _, [] => []
  | g, (x, v) :: rest =>
    match x.kind.role? with
    | none => turns settings g rest
    | some role => ⟨v, x, role, g⟩ :: turns settings (Turn.next settings ⟨v, x, role, g⟩) rest

/-! ## One turn -/

omit [Scalar α] in
theorem exists_unlinkedAnnotation? {t : Turn α} (h : t.vertex.kind.role? = some t.role) :
    ∃ a, unlinkedAnnotation? t.number t.vertex = some a ∧ t.TellsUnlinked a := by
  unfold unlinkedAnnotation?
  cases hkind : t.vertex.kind with
  | intersection osmId | split parent =>
    rw [hkind] at h
    cases h
  | stop id wheelchair => exact ⟨_, rfl, rfl, rfl, wheelchair, hkind⟩
  | bikeRental id | bikePark id => exact ⟨_, rfl, rfl, rfl, hkind⟩

theorem advances_warnFar {g : Streets α} (hsound : Sound g) (hstreets : OnStreets g)
    (settings : Settings) (entity : Entity α) (distance : α) (us : List Nat) :
    let metres := metresOfDegrees (Scalar.toDouble distance)
    Advances us
        (if entity.role = .stop ∧ settings.warningDistance < metres then
          [.stopLinkedTooFar entity.vertex entity.label metres]
        else [])
        g (warnFar settings entity distance g) ∧
      (warnFar settings entity distance g).edges = g.edges := by
  intro metres
  by_cases hfar : entity.role = .stop ∧ settings.warningDistance < metres
  · have hwarn : warnFar settings entity distance g =
        g.annotate (.stopLinkedTooFar entity.vertex entity.label metres) :=
      if_pos (by simpa using hfar)
    rw [if_pos hfar, hwarn]
    exact ⟨advances_annotate hsound hstreets us _, rfl⟩
  · have hwarn : warnFar settings entity distance g = g := if_neg (by simpa using hfar)
    rw [if_neg hfar, hwarn]
    exact ⟨.refl hsound hstreets us, rfl⟩

namespace Turn

structure Ready (t : Turn α) : Prop where
  reached : Reached t.graph
  streets : OnStreets t.graph
  vertex? : t.graph.vertex? t.number = some t.vertex
  role? : t.vertex.kind.role? = some t.role

variable {t : Turn α} (h : t.Ready) (settings : Settings)

include h

theorem Ready.reached_next : Reached (t.next settings) := by
  have hlink : Reached (link settings t.graph t.number (buildingMode t.role)).state := by
    rw [← replay_linkChanges]
    exact h.reached.replay _
  unfold next
  dsimp only
  split
  · exact hlink
  · rw [← replay_unlinkedChanges]
    exact hlink.replay _

theorem Ready.link_eq :
    link settings t.graph t.number (buildingMode t.role) =
      linkEntity settings t.graph ⟨t.number, t.role, t.vertex.label, t.vertex.position⟩
        (buildingMode t.role) :=
  Linking.link_eq h.vertex? h.role? settings _

theorem Ready.unlinked (hnone : t.found settings = []) :
    ∃ a, t.TellsUnlinked a ∧ t.notes settings = [a] ∧ t.next settings = t.graph.annotate a ∧
      link settings t.graph t.number (buildingMode t.role) = .ok false t.graph := by
  have hlink : link settings t.graph t.number (buildingMode t.role) = .ok false t.graph := by
    rw [h.link_eq, linkEntity]
    unfold found at hnone
    simp only [hnone]
  obtain ⟨a, ha, htells⟩ := exists_unlinkedAnnotation? h.role?
  refine ⟨a, htells, ?_, ?_, hlink⟩
  · simp only [notes, hnone, ha, Option.toList_some]
  · simp only [next, isLinked, hnone, hlink, Outcome.ok, annotateUnlinked, h.vertex?,
      Option.bind_some, ha]
    rfl

theorem Ready.linked (hsome : t.found settings ≠ []) :
    (link settings t.graph t.number (buildingMode t.role)).answer = .ok true ∧
      Advances [t.number] (t.notes settings) t.graph (t.next settings) ∧
      Joined (t.next settings) t.number t.role.connector.kind := by
  obtain ⟨first, rest, hfound⟩ := List.exists_cons_of_ne_nil hsome
  let entity : Entity α := ⟨t.number, t.role, t.vertex.label, t.vertex.position⟩
  obtain ⟨hwarn, hedges⟩ := advances_warnFar h.reached.sound h.streets settings entity
    first.distance [t.number]
  have hdistinct : ((t.found settings).map (·.item.number)).Nodup :=
    h.reached.nodup_targets settings t.vertex.position (buildingMode t.role)
  have hlive : ∀ n ∈ (t.found settings).map (·.item.number), ∃ e,
      (warnFar settings entity first.distance t.graph).edge? n = some e ∧
        e.kind.isLinkable = true := by
    intro n hn
    obtain ⟨r, hr, rfl⟩ := List.mem_map.1 hn
    obtain ⟨hmem, hopen⟩ :=
      h.reached.live_of_mem_targets settings t.vertex.position (buildingMode t.role) hr
    exact ⟨r.item, hwarn.sound.edge?_eq_some_iff.2 ⟨hedges ▸ hmem, rfl⟩, hopen⟩
  obtain ⟨g', hattach, hadvances, hjoined⟩ := exists_attachAll hwarn.sound hwarn.streets entity
    (vertex?_mono hwarn.vertices h.vertex?) (direction_of_role? h.role?) settings
    (Frame.around entity.position) hdistinct hlive
  have hlink : link settings t.graph t.number (buildingMode t.role) = .ok true g' := by
    rw [hfound] at hattach
    rw [h.link_eq, linkEntity]
    unfold found at hfound
    simp only [hfound]
    rw [hattach, Outcome.andThen_ok]
  have hnext : t.next settings = g' := by
    simp only [next, isLinked, hfound, hlink]
    rfl
  have hall := hwarn.trans hadvances
  rw [List.append_nil] at hall
  rw [hlink, hnext]
  refine ⟨rfl, ?_, hjoined (by simp [hfound])⟩
  simp only [notes, hfound]
  exact hall

theorem Ready.answer :
    (link settings t.graph t.number (buildingMode t.role)).answer = .ok (t.isLinked settings) := by
  by_cases hfound : t.found settings = []
  · obtain ⟨-, -, -, -, hlink⟩ := h.unlinked settings hfound
    rw [hlink, isLinked, hfound]
    rfl
  · rw [(h.linked settings hfound).1, isLinked, List.isEmpty_eq_false_iff.2 hfound]
    rfl

theorem Ready.advances :
    Advances (if t.isLinked settings then [t.number] else []) (t.notes settings) t.graph
      (t.next settings) := by
  by_cases hfound : t.found settings = []
  · obtain ⟨a, -, hnotes, hnext, -⟩ := h.unlinked settings hfound
    rw [hnotes, hnext]
    exact advances_annotate h.reached.sound h.streets _ a
  · rw [isLinked, List.isEmpty_eq_false_iff.2 hfound]
    exact (h.linked settings hfound).2.1

theorem Ready.joined (hlinked : t.isLinked settings = true) :
    Joined (t.next settings) t.number t.role.connector.kind := by
  refine (h.linked settings fun hnone => ?_).2.2
  rw [isLinked, hnone] at hlinked
  cases hlinked

theorem Ready.linkEach_cons (report : Report) (rest : List (Nat × Role)) :
    linkEach settings t.graph report ((t.number, t.role) :: rest) =
      linkEach settings (t.next settings) (report.count t.role (t.isLinked settings)) rest := by
  have hanswer := h.answer settings
  rw [linkEach]
  unfold next
  generalize link settings t.graph t.number (buildingMode t.role) = outcome at hanswer
  obtain ⟨answer, g⟩ := outcome
  cases hanswer
  rfl

end Turn

/-! ## All turns -/

def linkedNumbers (settings : Settings) (ts : List (Turn α)) : List Nat :=
  (ts.filter (·.isLinked settings)).map (·.number)

theorem linkedNumbers_cons (settings : Settings) (t : Turn α) (rest : List (Turn α)) :
    linkedNumbers settings (t :: rest) =
      (if t.isLinked settings then [t.number] else []) ++ linkedNumbers settings rest := by
  rw [linkedNumbers, List.filter_cons]
  split <;> rfl

def Report.ofTurns (settings : Settings) (r : Report) (ts : List (Turn α)) : Report :=
  ts.foldl (fun r t => r.count t.role (t.isLinked settings)) r

theorem map_turns (settings : Settings) (g : Streets α) (vs : List (Vertex α × Nat)) :
    (turns settings g vs).map (fun t => (t.vertex, t.number)) =
      vs.filter fun v => v.1.kind.role?.isSome := by
  induction vs generalizing g with
  | nil => rfl
  | cons v rest ih =>
    obtain ⟨x, v⟩ := v
    rw [turns, List.filter_cons]
    cases hrole : x.kind.role? with
    | none => exact ih g
    | some role => exact congrArg ((x, v) :: ·) (ih _)

/-- Linking entities in turn is taking their turns: it never fails, and who is linked stays joined
with a street. -/
theorem linkEach_turns (settings : Settings) {g : Streets α} (hreached : Reached g)
    (hstreets : OnStreets g) {vs : List (Vertex α × Nat)}
    (hvs : ∀ v ∈ vs, g.vertex? v.2 = some v.1) (report : Report) :
    let ts := turns settings g vs
    let last := ts.foldl (fun _ t => t.next settings) g
    linkEach settings g report (vs.filterMap fun v => v.1.kind.role?.map (v.2, ·)) =
        .ok (report.ofTurns settings ts) last ∧
      Advances (linkedNumbers settings ts) (ts.flatMap (·.notes settings)) g last ∧
      ∀ t ∈ ts, t.Ready ∧
        (t.isLinked settings = true → Joined last t.number t.role.connector.kind) := by
  induction vs generalizing g report with
  | nil => exact ⟨rfl, .refl hreached.sound hstreets _, by simp [turns]⟩
  | cons v rest ih =>
    obtain ⟨x, v⟩ := v
    obtain ⟨hx, hrest⟩ := List.forall_mem_cons.1 hvs
    rw [turns, List.filterMap_cons]
    cases hrole : x.kind.role? with
    | none => exact ih hreached hstreets hrest report
    | some role =>
      let t : Turn α := ⟨v, x, role, g⟩
      have hready : t.Ready := ⟨hreached, hstreets, hx, hrole⟩
      have hadvances := hready.advances settings
      obtain ⟨hlink, hlater, hturns⟩ := ih (hready.reached_next settings) hadvances.streets
        (fun u hu => vertex?_mono hadvances.vertices (hrest u hu))
        (report.count role (t.isLinked settings))
      refine ⟨(hready.linkEach_cons settings report _).trans hlink, ?_, ?_⟩
      · rw [linkedNumbers_cons]
        exact (hadvances.mono (List.subset_append_left _ _)).trans
          (hlater.mono (List.subset_append_right _ _))
      · refine List.forall_mem_cons.2 ⟨⟨hready, fun hlinked => ?_⟩, hturns⟩
        exact hlater.joined (hready.joined settings hlinked)

/-! ## Counting -/

def Report.tally (r : Report) : Role → Tally
  | .stop => r.stops
  | .bikeRental => r.bikeRentals
  | _ => r.bikeParks

theorem Report.tally_count (r : Report) {k k' : VertexKind} {role role' : Role}
    (hrole : k.role? = some role) (hrole' : k'.role? = some role') (linked : Bool) :
    (r.count role' linked).tally role =
      if role' = role then (r.tally role).count linked else r.tally role := by
  cases k <;> cases hrole <;> cases k' <;> cases hrole' <;> rfl

theorem Report.tally_ofTurns (settings : Settings) (r : Report) {ts : List (Turn α)}
    (hready : ∀ t ∈ ts, t.Ready) {k : VertexKind} {role : Role} (hrole : k.role? = some role) :
    (r.ofTurns settings ts).tally role =
      ⟨(r.tally role).linked + ts.countP (fun t => t.role == role && t.isLinked settings),
        (r.tally role).unlinked + ts.countP (fun t => t.role == role && !t.isLinked settings)⟩ := by
  induction ts generalizing r with
  | nil => rfl
  | cons t rest ih =>
    obtain ⟨ht, hrest⟩ := List.forall_mem_cons.1 hready
    have hnext := ih (r.count t.role (t.isLinked settings)) hrest
    rw [Report.ofTurns, List.foldl_cons]
    refine hnext.trans ?_
    rw [tally_count r hrole ht.role?, List.countP_cons, List.countP_cons]
    by_cases hmine : t.role = role
    · cases hlinked : t.isLinked settings with
      | true => simp [hmine, Tally.count]; omega
      | false => simp [hmine, Tally.count]; omega
    · simp [hmine]

/-! ## Building -/

def covered (g : Streets α) : Streets α :=
  match coverageAnnotation? g with
  | some annotation => g.annotate annotation
  | none => g

theorem advances_covered {g : Streets α} (hsound : Sound g) (hstreets : OnStreets g)
    (us : List Nat) : Advances us (coverageAnnotation? g).toList g (covered g) := by
  unfold covered
  cases coverageAnnotation? g with
  | none => exact .refl hsound hstreets us
  | some annotation => exact advances_annotate hsound hstreets us annotation

theorem reached_covered {g : Streets α} (hreached : Reached g) : Reached (covered g) := by
  unfold covered
  cases coverageAnnotation? g with
  | none => exact hreached
  | some annotation => exact hreached.apply (.annotate annotation)

theorem linkStreets_eq {settings : Settings} (hvalid : settings.validate = .ok ())
    (g : Streets α) :
    linkStreets settings g = linkEach settings (covered g) {}
      (g.vertices.toList.zipIdx.filterMap fun v => v.1.kind.role?.map (v.2, ·)) := by
  unfold linkStreets covered
  rw [hvalid]
  cases coverageAnnotation? g <;> rfl

omit [Scalar α] in
theorem Advances.apart {us : List Nat} {notes : List Annotation} {g g' : Streets α}
    (h : Advances us notes g g') (hstreets : OnStreets g)
    (hopen : ∀ e ∈ g.edges, e.kind.isLinkable = true) {v : Nat} {x : Vertex α}
    (hx : g.vertex? v = some x) {role : Role} (hrole : x.kind.role? = some role) (hv : v ∉ us) :
    ∀ e ∈ g'.edges, e.source ≠ v ∧ e.target ≠ v := by
  have hnew : ¬ IsStreet g' v := not_isStreet (vertex?_mono h.vertices hx) hrole
  intro e he
  by_cases hold : e ∈ g.edges
  · exact hstreets.apart (not_isStreet hx hrole) hold (hopen e hold)
  · have hend (hw : v = e.source ∨ v = e.target) : False :=
      (h.ends e he hold v hw).elim hv hnew
    exact ⟨fun heq => hend (Or.inl heq.symm), fun heq => hend (Or.inr heq.symm)⟩

theorem nodup_numbers_turns (settings : Settings) (g : Streets α) (xs : List (Vertex α)) :
    ((turns settings g xs.zipIdx).map (·.number)).Nodup := by
  have hmap := congrArg (List.map Prod.snd) (map_turns settings g xs.zipIdx)
  rw [List.map_map] at hmap
  have hsub := (List.filter_sublist (p := fun v : Vertex α × Nat => v.1.kind.role?.isSome)
    (l := xs.zipIdx)).map Prod.snd
  rw [← hmap, List.zipIdx_map_snd] at hsub
  exact hsub.nodup (List.nodup_range' 1)

theorem countP_turns (settings : Settings) {g : Streets α} {xs : List (Vertex α)}
    (hready : ∀ t ∈ turns settings g xs.zipIdx, t.Ready) (role : Role) :
    (turns settings g xs.zipIdx).countP (fun t => t.role == role) =
      xs.countP fun x => x.kind.role? == some role := by
  let has (v : Vertex α × Nat) : Bool := v.1.kind.role? == some role
  have hsome : ∀ v ∈ xs.zipIdx, (has v && v.1.kind.role?.isSome) = has v := by
    intro v _
    by_cases hrole : v.1.kind.role? = some role <;> simp [has, hrole]
  calc (turns settings g xs.zipIdx).countP (fun t => t.role == role)
    _ = (turns settings g xs.zipIdx).countP (has ∘ fun t => (t.vertex, t.number)) :=
      List.countP_congr fun t ht => by simp [has, (hready t ht).role?]
    _ = (xs.zipIdx.filter fun v => v.1.kind.role?.isSome).countP has := by
      rw [← List.countP_map, map_turns]
    _ = xs.zipIdx.countP has := by
      rw [List.countP_filter]
      exact List.countP_congr fun v hv => by rw [hsome v hv]
    _ = (xs.zipIdx.map Prod.fst).countP fun x => x.kind.role? == some role := by
      rw [List.countP_map]
      rfl
    _ = xs.countP fun x => x.kind.role? == some role := by rw [List.zipIdx_map_fst]

/-- Where streets and areas are attached to vertices of streets only, building links every stop,
rental station and bike park in its turn, in the order of the vertices. What is linked has
connectors from and to a street in the end, and what is not has no edge at all. The report counts
them, and the annotations are that of the coverage and then those of each turn. -/
theorem links_everything {additions : List (Addition α)} {settings : Settings}
    (hvalid : settings.validate = .ok ()) (hstreets : OnStreets (build additions)) :
    let built := build additions
    let linked := linkStreets settings built
    let ts := turns settings (covered built) built.vertices.toList.zipIdx
    ts.map (fun t => (t.vertex, t.number)) =
        built.vertices.toList.zipIdx.filter (fun v => v.1.kind.role?.isSome) ∧
    linked.state = ts.foldl (fun _ t => t.next settings) (covered built) ∧
    (∀ t ∈ ts, t.vertex.kind.role? = some t.role ∧
      (link settings t.graph t.number (buildingMode t.role)).answer =
        .ok (t.isLinked settings) ∧
      (t.isLinked settings = true → Joined linked.state t.number t.role.connector.kind) ∧
      (t.isLinked settings = false →
        (∀ e ∈ linked.state.edges, e.source ≠ t.number ∧ e.target ≠ t.number) ∧
        ∃ note, t.notes settings = [note] ∧ t.TellsUnlinked note)) ∧
    linked.state.annotations = built.annotations ++ (coverageAnnotation? built).toList ++
      ts.flatMap (·.notes settings) ∧
    ∃ report, linked.answer = .ok report ∧ ∀ role ∈ [Role.stop, .bikeRental, .bikePark],
      let tally := report.tally role
      tally.linked = ts.countP (fun t => t.role == role && t.isLinked settings) ∧
      tally.unlinked = ts.countP (fun t => t.role == role && !t.isLinked settings) ∧
      tally.linked + tally.unlinked =
        built.vertices.toList.countP fun x => x.kind.role? == some role := by
  intro built linked ts
  have hreached : Reached built := reached_run (additions.map .add)
  have hcovered := advances_covered hreached.sound hstreets (linkedNumbers settings ts)
  have hvertex : ∀ v ∈ built.vertices.toList.zipIdx, built.vertex? v.2 = some v.1 := by
    intro v hv
    rw [Streets.vertex?, ← Array.getElem?_toList]
    exact List.mem_zipIdx_iff_getElem?.1 hv
  obtain ⟨hlink, hadvances, hturns⟩ := linkEach_turns settings (reached_covered hreached)
    hcovered.streets (fun v hv => vertex?_mono hcovered.vertices (hvertex v hv)) {}
  have hlinked : linked = _ := (linkStreets_eq hvalid built).trans hlink
  have hmap := map_turns settings (covered built) built.vertices.toList.zipIdx
  have hall := hcovered.trans hadvances
  rw [hlinked]
  refine ⟨hmap, rfl, fun t ht => ?_, ?_, _, rfl, fun role hrole => ?_⟩
  · obtain ⟨hready, hjoined⟩ := hturns t ht
    refine ⟨hready.role?, hready.answer settings, hjoined, fun hunlinked => ?_⟩
    have hnone : t.found settings = [] := by simpa [Turn.isLinked] using hunlinked
    obtain ⟨a, htells, hnotes, -⟩ := hready.unlinked settings hnone
    refine ⟨?_, a, hnotes, htells⟩
    have hmem : (t.vertex, t.number) ∈ built.vertices.toList.zipIdx :=
      (List.mem_filter.1 (hmap ▸ List.mem_map_of_mem ht)).1
    refine hall.apart hstreets (isLinkable_of_mem_build additions) (hvertex _ hmem)
      hready.role? fun hother => ?_
    -- no other turn is that of the same vertex
    obtain ⟨t', ht', hnumber⟩ := List.mem_map.1 hother
    obtain ⟨ht', hlinked'⟩ := List.mem_filter.1 ht'
    obtain rfl := List.inj_on_of_nodup_map (nodup_numbers_turns settings _ _) ht' ht hnumber
    rw [hunlinked] at hlinked'
    cases hlinked'
  · exact hall.annotations.trans (List.append_assoc ..).symm
  · obtain ⟨k, hk⟩ : ∃ k : VertexKind, k.role? = some role := by
      simp only [List.mem_cons, List.not_mem_nil, or_false] at hrole
      rcases hrole with rfl | rfl | rfl
      · exact ⟨.stop "" false, rfl⟩
      · exact ⟨.bikeRental "", rfl⟩
      · exact ⟨.bikePark "", rfl⟩
    have hready : ∀ t ∈ ts, t.Ready := fun t ht => (hturns t ht).1
    have hstart : ({} : Report).tally role = {} := by cases role <;> rfl
    have htally := Report.tally_ofTurns settings {} hready hk
    rw [hstart, Nat.zero_add, Nat.zero_add] at htally
    have hsum := List.countP_eq_countP_filter_add ts (fun t => t.role == role)
      (·.isLinked settings)
    rw [List.countP_filter, List.countP_filter] at hsum
    rw [htally]
    exact ⟨rfl, rfl, hsum.symm.trans (countP_turns settings hready role)⟩

/-! ## Building along a street -/

theorem targets_annotate (settings : Settings) (g : Streets α) (a : Annotation)
    (position : Point α) (mode : Mode) :
    targets settings (g.annotate a) position mode = targets settings g position mode := rfl

theorem targets_covered (settings : Settings) (g : Streets α) (position : Point α) (mode : Mode) :
    targets settings (covered g) position mode = targets settings g position mode := by
  unfold covered
  cases coverageAnnotation? g <;> rfl

theorem links_everything_on_the_meridian :
    let linked := linkStreets onTheSpot (build meridianAdditions)
    (∃ report, linked.answer = .ok report ∧ report.stops.linked = 0 ∧
      report.stops.unlinked = 1 ∧ report.bikeRentals.linked = 1 ∧
      report.bikeRentals.unlinked = 0) ∧
    Joined linked.state 3 .bikeRental ∧
    ∀ e ∈ linked.state.edges, e.source ≠ 2 ∧ e.target ≠ 2 := by
  intro linked
  have hvalid : onTheSpot.validate = .ok () := rfl
  obtain ⟨-, -, hturns, -, report, hanswer, htally⟩ :=
    links_everything hvalid onStreets_meridian
  let stop : Turn Float := ⟨2, ⟨.stop "A" false, "Stop", ⟨0.0, 3.0⟩⟩, .stop,
    covered (build meridianAdditions)⟩
  let rental : Turn Float := ⟨3, ⟨.bikeRental "B", "Station", ⟨0.0, 0.5⟩⟩, .bikeRental,
    stop.next onTheSpot⟩
  have hts : turns onTheSpot (covered (build meridianAdditions))
      (build meridianAdditions).vertices.toList.zipIdx = [stop, rental] := rfl
  rw [hts] at hturns htally
  have hstop : stop.found onTheSpot = [] :=
    (targets_covered ..).trans targets_beyond_meridian
  have hreached : Reached (build meridianAdditions) := reached_run meridian
  have hcovered := advances_covered hreached.sound onStreets_meridian []
  have hvertex : (build meridianAdditions).vertex? 2 = some stop.vertex := rfl
  have hready : stop.Ready :=
    ⟨reached_covered hreached, hcovered.streets, vertex?_mono hcovered.vertices hvertex, rfl⟩
  obtain ⟨a, -, -, hnext, -⟩ := hready.unlinked onTheSpot hstop
  have hrental : rental.found onTheSpot = [⟨meridianEdge, 0.0⟩] := by
    have hfound : rental.found onTheSpot =
        targets onTheSpot (stop.next onTheSpot) ⟨0.0, 0.5⟩ .walk := rfl
    rw [hfound, hnext, targets_annotate]
    exact (targets_covered ..).trans (targets_meridian (Or.inr (Or.inr rfl)))
  have hunlinked : stop.isLinked onTheSpot = false := by rw [Turn.isLinked, hstop]; rfl
  have hlinked : rental.isLinked onTheSpot = true := by rw [Turn.isLinked, hrental]; rfl
  obtain ⟨-, -, -, hapart⟩ := hturns stop List.mem_cons_self
  obtain ⟨-, -, hjoined, -⟩ := hturns rental (List.mem_cons_of_mem _ List.mem_cons_self)
  obtain ⟨hstops, hstops', -⟩ := htally .stop (by decide)
  obtain ⟨hrentals, hrentals', -⟩ := htally .bikeRental (by decide)
  simp only [List.countP_cons, List.countP_nil, hunlinked, hlinked]
    at hstops hstops' hrentals hrentals'
  exact ⟨⟨report, hanswer, hstops, hstops', hrentals, hrentals'⟩, hjoined hlinked,
    (hapart hunlinked).1⟩

end StreetLinking.Linking
