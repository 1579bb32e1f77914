import StreetLinking.Linking.Permanent
/-!
# Histories of the street graph

A street graph comes about by additions and by operations of permanent linking, and each of these is
a sequence of elementary changes. The changes that an operation makes are listed beside it, so that
one can say which of them brought an edge into the graph. Main statement: replaying the changes of
a history gives the graph that the history leads to.
-/

namespace StreetLinking.Linking

open Number Plane Street Nearest

/-- What can be added to a street graph while it is built. -/
inductive Addition (α : Type) where
  | intersection (position : Point α) (osmId : Option Int)
  | stop (id name : String) (position : Point α) (wheelchair : Bool)
  | bikeRental (id name : String) (position : Point α)
  | bikePark (id name : String) (position : Point α)
  | street (source target : Nat) (line : Option (Line α)) (permission : ModeSet) (name : String)
  | twoWayStreet (source target : Nat) (line : Option (Line α)) (permission : ModeSet)
      (name : String)
  | area (name : String) (ring : List Nat) (permission : ModeSet)

/-- An elementary change of a street graph. One that fails leaves the graph as it is. -/
inductive Change (α : Type) where
  | add (addition : Addition α)
  | annotate (note : Annotation)
  | split (number : Nat) (location : Location α)
  | connect (entity street : Nat) (role : Role)
  | cross (vertex area : Nat)

inductive Operation (α : Type) where
  | split (number : Nat) (location : Location α)
  | connect (entity street : Nat) (role : Role)
  | cross (vertex area : Nat)
  | link (settings : Settings) (vertex : Nat) (mode : Mode)
  | linkAll (settings : Settings)
  | linkStreets (settings : Settings)

/-- A step in the history of a street graph. -/
inductive Event (α : Type) where
  | add (addition : Addition α)
  | operate (operation : Operation α)

variable {α : Type} [Scalar α]

/-! ## What happens to the graph -/

def Addition.perform (g : Streets α) : Addition α → Streets α
  | intersection position osmId => (g.addIntersection position osmId).1
  | stop id name position wheelchair => (g.addStop id name position wheelchair).1
  | bikeRental id name position => (g.addBikeRental id name position).1
  | bikePark id name position => (g.addBikePark id name position).1
  | street source target line permission name =>
    (g.addStreet source target line permission name).state
  | twoWayStreet source target line permission name =>
    (g.addTwoWayStreet source target line permission name).state
  | area name ring permission => (g.addArea name ring permission).state

def Change.apply (g : Streets α) : Change α → Streets α
  | add addition => addition.perform g
  | annotate annotation => g.annotate annotation
  | split number location => (Linking.split g number location).state
  | connect entity street role => (Linking.connect g entity street role).1
  | cross vertex area => (crossArea g vertex area).1

def replay (g : Streets α) (changes : List (Change α)) : Streets α :=
  changes.foldl Change.apply g

def Operation.perform (g : Streets α) : Operation α → Streets α
  | split number location => (Linking.split g number location).state
  | connect entity street role => (Linking.connect g entity street role).1
  | cross vertex area => (crossArea g vertex area).1
  | link settings vertex mode => (Linking.link settings g vertex mode).state
  | linkAll settings => (Linking.linkAll settings g).state
  | linkStreets settings => (Linking.linkStreets settings g).state

def Event.perform (g : Streets α) : Event α → Streets α
  | add addition => addition.perform g
  | operate operation => operation.perform g

def run (g : Streets α) (events : List (Event α)) : Streets α :=
  events.foldl Event.perform g

def build (additions : List (Addition α)) : Streets α :=
  run .empty (additions.map .add)

def operateAll (g : Streets α) (operations : List (Operation α)) : Streets α :=
  run g (operations.map .operate)

/-- The edge enters the graph by the change. -/
def Change.makes (g : Streets α) (c : Change α) (e : Edge α) : Prop :=
  e ∈ (c.apply g).edges ∧ e ∉ g.edges

/-! ## The changes that operations make -/

def attachChanges (settings : Settings) (frame : Frame α) (entity : Entity α) (g : Streets α)
    (number : Nat) : List (Change α) :=
  match plan g number entity.position frame (Scalar.ofDouble settings.endpointSnap) with
  | .ok (.cut location) =>
    .split number location ::
      match (split g number location).answer, (g.edge? number).bind (·.kind.area?) with
      | .ok v, some area =>
        if entity.role == .stop && settings.crossAreas then [.cross v area] else []
      | _, _ => []
  | _ => []

def attachAllChanges (settings : Settings) (frame : Frame α) (entity : Entity α) :
    Streets α → List Nat → List (Change α)
  | _, [] => []
  | g, number :: rest =>
    let attached := attach settings frame entity g number
    attachChanges settings frame entity g number ++
      match attached.answer with
      | .ok v =>
        .connect entity.vertex v entity.role ::
          attachAllChanges settings frame entity
            (connect attached.state entity.vertex v entity.role).1 rest
      | .error _ => []

def warnChanges (settings : Settings) (entity : Entity α) (distance : α) : List (Change α) :=
  let metres := metresOfDegrees (Scalar.toDouble distance)
  if entity.role == .stop && decide (settings.warningDistance < metres) then
    [.annotate (.stopLinkedTooFar entity.vertex entity.label metres)]
  else []

def linkEntityChanges (settings : Settings) (g : Streets α) (entity : Entity α) (mode : Mode) :
    List (Change α) :=
  match targets settings g entity.position mode with
  | [] => []
  | first :: rest =>
    warnChanges settings entity first.distance ++
      attachAllChanges settings (Frame.around entity.position) entity
        (warnFar settings entity first.distance g) ((first :: rest).map (·.item.number))

def linkChanges (settings : Settings) (g : Streets α) (vertex : Nat) (mode : Mode) :
    List (Change α) :=
  match g.vertex? vertex with
  | none => []
  | some v =>
    match v.kind.role? with
    | none => []
    | some role => linkEntityChanges settings g ⟨vertex, role, v.label, v.position⟩ mode

def unlinkedChanges (g : Streets α) (vertex : Nat) : List (Change α) :=
  (((g.vertex? vertex).bind (unlinkedAnnotation? vertex)).map .annotate).toList

def linkEachChanges (settings : Settings) : Streets α → List (Nat × Role) → List (Change α)
  | _, [] => []
  | g, (vertex, role) :: rest =>
    let linked := link settings g vertex (buildingMode role)
    linkChanges settings g vertex (buildingMode role) ++
      match linked.answer with
      | .ok true => linkEachChanges settings linked.state rest
      | .ok false =>
        unlinkedChanges linked.state vertex ++
          linkEachChanges settings (annotateUnlinked linked.state vertex) rest
      | .error _ => []

def linkStreetsChanges (settings : Settings) (g : Streets α) : List (Change α) :=
  match settings.validate with
  | .error _ => []
  | .ok _ =>
    match coverageAnnotation? g with
    | some annotation =>
      .annotate annotation ::
        linkEachChanges settings (g.annotate annotation) (entities (g.annotate annotation))
    | none => linkEachChanges settings g (entities g)

def Operation.changes (g : Streets α) : Operation α → List (Change α)
  | split number location => [.split number location]
  | connect entity street role => [.connect entity street role]
  | cross vertex area => [.cross vertex area]
  | link settings vertex mode => linkChanges settings g vertex mode
  | linkAll settings => linkEachChanges settings g (entities g)
  | linkStreets settings => linkStreetsChanges settings g

def Event.changes (g : Streets α) : Event α → List (Change α)
  | add addition => [.add addition]
  | operate operation => operation.changes g

def changesOf : Streets α → List (Event α) → List (Change α)
  | _, [] => []
  | g, event :: rest => event.changes g ++ changesOf (event.perform g) rest

/-! ## Replaying them -/

@[simp] theorem replay_nil (g : Streets α) : replay g [] = g := rfl

@[simp] theorem replay_cons (g : Streets α) (c : Change α) (changes : List (Change α)) :
    replay g (c :: changes) = replay (c.apply g) changes := rfl

theorem replay_append (g : Streets α) (before after : List (Change α)) :
    replay g (before ++ after) = replay (replay g before) after :=
  List.foldl_append

@[simp] theorem run_cons (g : Streets α) (event : Event α) (events : List (Event α)) :
    run g (event :: events) = run (event.perform g) events := rfl

theorem replay_attachChanges (settings : Settings) (frame : Frame α) (entity : Entity α)
    (g : Streets α) (number : Nat) :
    replay g (attachChanges settings frame entity g number) =
      (attach settings frame entity g number).state := by
  unfold attachChanges attach
  cases plan g number entity.position frame (Scalar.ofDouble settings.endpointSnap) with
  | error fault => rfl
  | ok attachment =>
    cases attachment with
    | endpoint v => rfl
    | cut location =>
      simp only [replay_cons, Change.apply]
      generalize split g number location = outcome
      rcases outcome with ⟨_ | v, after⟩
      · rfl
      · cases (g.edge? number).bind (·.kind.area?) with
        | none => rfl
        | some area =>
          simp only [Outcome.andThen]
          split <;> rfl

theorem replay_attachAllChanges (settings : Settings) (frame : Frame α) (entity : Entity α)
    (g : Streets α) (numbers : List Nat) :
    replay g (attachAllChanges settings frame entity g numbers) =
      (attachAll settings frame entity g numbers).state := by
  induction numbers generalizing g with
  | nil => rfl
  | cons number rest ih =>
    rw [attachAllChanges, attachAll, replay_append, replay_attachChanges]
    generalize attach settings frame entity g number = outcome
    rcases outcome with ⟨_ | v, after⟩
    · rfl
    · exact ih _

theorem replay_warnChanges (settings : Settings) (entity : Entity α) (distance : α)
    (g : Streets α) :
    replay g (warnChanges settings entity distance) = warnFar settings entity distance g := by
  simp only [warnChanges, warnFar]
  split <;> rfl

theorem replay_linkChanges (settings : Settings) (g : Streets α) (vertex : Nat) (mode : Mode) :
    replay g (linkChanges settings g vertex mode) = (link settings g vertex mode).state := by
  unfold linkChanges link
  cases g.vertex? vertex with
  | none => rfl
  | some v =>
    cases hrole : v.kind.role? with
    | none => simp only [hrole, replay_nil, Outcome.fail]
    | some role =>
      simp only [hrole, linkEntityChanges, linkEntity]
      cases targets settings g v.position mode with
      | nil => rfl
      | cons first rest =>
        simp only [replay_append, replay_warnChanges, replay_attachAllChanges]
        generalize attachAll settings (Frame.around v.position)
          (⟨vertex, role, v.label, v.position⟩ : Entity α) _ _ = outcome
        rcases outcome with ⟨_ | _, after⟩ <;> rfl

theorem replay_unlinkedChanges (g : Streets α) (vertex : Nat) :
    replay g (unlinkedChanges g vertex) = annotateUnlinked g vertex := by
  unfold unlinkedChanges annotateUnlinked
  cases (g.vertex? vertex).bind (unlinkedAnnotation? vertex) <;> rfl

theorem replay_linkEachChanges (settings : Settings) (g : Streets α) (report : Report)
    (targets : List (Nat × Role)) :
    replay g (linkEachChanges settings g targets) =
      (linkEach settings g report targets).state := by
  induction targets generalizing g report with
  | nil => rfl
  | cons target rest ih =>
    obtain ⟨vertex, role⟩ := target
    rw [linkEachChanges, linkEach, replay_append, replay_linkChanges]
    generalize link settings g vertex (buildingMode role) = outcome
    rcases outcome with ⟨_ | linked, after⟩
    · rfl
    · cases linked with
      | true => exact ih _ _
      | false =>
        simp only [replay_append, replay_unlinkedChanges]
        exact ih _ _

theorem replay_linkStreetsChanges (settings : Settings) (g : Streets α) :
    replay g (linkStreetsChanges settings g) = (linkStreets settings g).state := by
  unfold linkStreetsChanges linkStreets
  cases settings.validate with
  | error fault => rfl
  | ok _ =>
    cases coverageAnnotation? g with
    | none => exact replay_linkEachChanges settings g {} _
    | some annotation => exact replay_linkEachChanges settings (g.annotate annotation) {} _

theorem replay_operation_changes (g : Streets α) (operation : Operation α) :
    replay g (operation.changes g) = operation.perform g := by
  cases operation with
  | split number location => rfl
  | connect entity street role => rfl
  | cross vertex area => rfl
  | link settings vertex mode => exact replay_linkChanges settings g vertex mode
  | linkAll settings => exact replay_linkEachChanges settings g {} _
  | linkStreets settings => exact replay_linkStreetsChanges settings g

theorem replay_event_changes (g : Streets α) (event : Event α) :
    replay g (event.changes g) = event.perform g := by
  cases event with
  | add addition => rfl
  | operate operation => exact replay_operation_changes g operation

/-- Replaying the changes of a history gives the graph after it. -/
theorem replay_changesOf (g : Streets α) (events : List (Event α)) :
    replay g (changesOf g events) = run g events := by
  induction events generalizing g with
  | nil => rfl
  | cons event rest ih => rw [changesOf, replay_append, run_cons, ← ih, replay_event_changes]

theorem exists_makes {g : Streets α} {changes : List (Change α)} {e : Edge α}
    (he : e ∈ (replay g changes).edges) :
    e ∈ g.edges ∨ ∃ before c after, changes = before ++ c :: after ∧
      c.makes (replay g before) e := by
  induction changes generalizing g with
  | nil => exact Or.inl he
  | cons c rest ih =>
    rcases ih he with hfirst | ⟨before, d, after, rfl, hmakes⟩
    · by_cases hold : e ∈ g.edges
      · exact Or.inl hold
      · exact Or.inr ⟨[], c, rest, rfl, hfirst, hold⟩
    · exact Or.inr ⟨c :: before, d, after, rfl, hmakes⟩

/-! ## Operations add nothing of their own -/

def Change.isAddition : Change α → Bool
  | add _ => true
  | _ => false

theorem attachChanges_isAddition (settings : Settings) (frame : Frame α) (entity : Entity α)
    (g : Streets α) (number : Nat) :
    ∀ c ∈ attachChanges settings frame entity g number, c.isAddition = false := by
  intro c hc
  unfold attachChanges at hc
  split at hc
  · rcases List.mem_cons.1 hc with rfl | hc
    · rfl
    · split at hc
      · split at hc
        · rw [List.mem_singleton.1 hc]
          rfl
        · simp at hc
      · simp at hc
  · simp at hc

theorem attachAllChanges_isAddition (settings : Settings) (frame : Frame α) (entity : Entity α)
    (g : Streets α) (numbers : List Nat) :
    ∀ c ∈ attachAllChanges settings frame entity g numbers, c.isAddition = false := by
  induction numbers generalizing g with
  | nil => simp [attachAllChanges]
  | cons number rest ih =>
    intro c hc
    rw [attachAllChanges] at hc
    rcases List.mem_append.1 hc with hc | hc
    · exact attachChanges_isAddition settings frame entity g number c hc
    · split at hc
      · rcases List.mem_cons.1 hc with rfl | hc
        · rfl
        · exact ih _ c hc
      · simp at hc

theorem linkChanges_isAddition (settings : Settings) (g : Streets α) (vertex : Nat)
    (mode : Mode) : ∀ c ∈ linkChanges settings g vertex mode, c.isAddition = false := by
  intro c hc
  unfold linkChanges at hc
  split at hc
  · simp at hc
  · split at hc
    · simp at hc
    · unfold linkEntityChanges at hc
      split at hc
      · simp at hc
      · rcases List.mem_append.1 hc with hc | hc
        · simp only [warnChanges] at hc
          split at hc
          · rw [List.mem_singleton.1 hc]
            rfl
          · simp at hc
        · exact attachAllChanges_isAddition settings _ _ _ _ c hc

theorem linkEachChanges_isAddition (settings : Settings) (g : Streets α)
    (targets : List (Nat × Role)) :
    ∀ c ∈ linkEachChanges settings g targets, c.isAddition = false := by
  induction targets generalizing g with
  | nil => simp [linkEachChanges]
  | cons target rest ih =>
    obtain ⟨vertex, role⟩ := target
    intro c hc
    rw [linkEachChanges] at hc
    rcases List.mem_append.1 hc with hc | hc
    · exact linkChanges_isAddition settings g vertex _ c hc
    · split at hc
      · exact ih _ c hc
      · rcases List.mem_append.1 hc with hc | hc
        · rw [unlinkedChanges, Option.mem_toList, Option.map_eq_some_iff] at hc
          obtain ⟨note, -, rfl⟩ := hc
          rfl
        · exact ih _ c hc
      · simp at hc

theorem Operation.changes_isAddition (g : Streets α) (operation : Operation α) :
    ∀ c ∈ operation.changes g, c.isAddition = false := by
  intro c hc
  cases operation with
  | split number location => rw [List.mem_singleton.1 hc]; rfl
  | connect entity street role => rw [List.mem_singleton.1 hc]; rfl
  | cross vertex area => rw [List.mem_singleton.1 hc]; rfl
  | link settings vertex mode => exact linkChanges_isAddition settings g vertex mode c hc
  | linkAll settings => exact linkEachChanges_isAddition settings g _ c hc
  | linkStreets settings =>
    simp only [Operation.changes, linkStreetsChanges] at hc
    split at hc
    · simp at hc
    · split at hc
      · rcases List.mem_cons.1 hc with rfl | hc
        · rfl
        · exact linkEachChanges_isAddition settings _ _ c hc
      · exact linkEachChanges_isAddition settings g _ c hc

theorem changesOf_operations_isAddition (g : Streets α) (operations : List (Operation α)) :
    ∀ c ∈ changesOf g (operations.map .operate), c.isAddition = false := by
  induction operations generalizing g with
  | nil => simp [changesOf]
  | cons operation rest ih =>
    intro c hc
    rw [List.map_cons, changesOf] at hc
    rcases List.mem_append.1 hc with hc | hc
    · exact operation.changes_isAddition g c hc
    · exact ih _ c hc

end StreetLinking.Linking
