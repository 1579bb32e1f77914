import StreetLinking.Proofs.Linking.Changes
/-!
# The index of stops

Stops enter the index when they are added, and nothing else ever does. Main statement: in every
graph that a history leads to, the index has just the stops of the graph, the latest first.
-/

namespace StreetLinking.Linking

open Number Plane Street Streets

variable {α : Type}

/-! ## The stops of a graph -/

def asStop? (v : Vertex α × Nat) : Option (StopEntry α) :=
  if isStop v.1.kind then some ⟨v.2, v.1.position⟩ else none

def stopEntries (g : Streets α) : List (StopEntry α) :=
  g.vertices.toList.zipIdx.filterMap asStop?

theorem asStop?_eq_some_iff {v : Vertex α × Nat} {s : StopEntry α} :
    asStop? v = some s ↔
      isStop v.1.kind = true ∧ v.2 = s.vertex ∧ v.1.position = s.position := by
  cases s
  simp [asStop?]

theorem mem_stopEntries {g : Streets α} {s : StopEntry α} :
    s ∈ stopEntries g ↔ ∃ x, g.vertex? s.vertex = some x ∧ isStop x.kind = true ∧
      x.position = s.position := by
  rw [stopEntries, List.mem_filterMap]
  constructor
  · rintro ⟨⟨x, number⟩, hmem, hs⟩
    obtain ⟨hstop, rfl, hposition⟩ := asStop?_eq_some_iff.1 hs
    have hat := List.mem_zipIdx_iff_getElem?.1 hmem
    rw [Array.getElem?_toList] at hat
    exact ⟨x, hat, hstop, hposition⟩
  · rintro ⟨x, hx, hstop, hposition⟩
    refine ⟨(x, s.vertex), List.mem_zipIdx_iff_getElem?.2 ?_,
      asStop?_eq_some_iff.2 ⟨hstop, rfl, hposition⟩⟩
    rw [Array.getElem?_toList]
    exact hx

theorem nodup_stopEntries (g : Streets α) : ((stopEntries g).map (·.vertex)).Nodup := by
  have hsub : ((stopEntries g).map (·.vertex)).Sublist
      (g.vertices.toList.zipIdx.map (·.2)) := by
    unfold stopEntries
    induction g.vertices.toList.zipIdx with
    | nil => exact .refl _
    | cons v rest ih =>
      rw [List.filterMap_cons]
      split
      · exact ih.cons _
      · next s hs =>
        obtain ⟨-, hvertex, -⟩ := asStop?_eq_some_iff.1 hs
        rw [List.map_cons, List.map_cons, hvertex]
        exact ih.cons_cons _
  rw [List.zipIdx_map_snd] at hsub
  exact List.Nodup.sublist hsub List.nodup_range'

theorem stopEntries_congr {g g' : Streets α} (h : g'.vertices = g.vertices) :
    stopEntries g' = stopEntries g := by
  rw [stopEntries, stopEntries, h]

theorem stopEntries_push {g g' : Streets α} {x : Vertex α}
    (h : g'.vertices = g.vertices.push x) :
    stopEntries g' =
      stopEntries g ++ if isStop x.kind then [⟨g.vertices.size, x.position⟩] else [] := by
  rw [stopEntries, stopEntries, h, Array.toList_push, List.zipIdx_append, List.filterMap_append]
  congr 1
  cases hstop : isStop x.kind <;> simp [asStop?, hstop]

variable [Scalar α]

/-! ## What a change does to the stops -/

/-- A change enters a stop into the index together with its vertex. Other vertices come without an
entry, and otherwise neither the vertices nor the index change. -/
theorem Change.stops_cases {g : Streets α} (hsound : Sound g) (c : Change α) :
    ((c.apply g).stopIndex = g.stopIndex ∧ ((c.apply g).vertices = g.vertices ∨
      ∃ x, isStop x.kind = false ∧ (c.apply g).vertices = g.vertices.push x)) ∨
    ∃ x, isStop x.kind = true ∧ (c.apply g).vertices = g.vertices.push x ∧
      (c.apply g).stopIndex =
        g.stopIndex.insert StopEntry.box ⟨g.vertices.size, x.position⟩ := by
  have hbatch {es : List (Nat × Nat × EdgeData α)} {g' : Streets α}
      (hvertices : g'.vertices = (insertIndexed g es).vertices)
      (hindex : g'.stopIndex = (insertIndexed g es).stopIndex) :
      g'.stopIndex = g.stopIndex ∧ (g'.vertices = g.vertices ∨
        ∃ x, isStop x.kind = false ∧ g'.vertices = g.vertices.push x) :=
    ⟨hindex.trans (frame_insertIndexed g es).2.2,
      Or.inl (hvertices.trans (insertIndexed_vertices g es))⟩
  have hjoined (es : List (Nat × Nat × EdgeData α)) (heq : c.apply g = (insertAll g es).1) :
      (c.apply g).stopIndex = g.stopIndex ∧ ((c.apply g).vertices = g.vertices ∨
        ∃ x, isStop x.kind = false ∧ (c.apply g).vertices = g.vertices.push x) := by
    obtain ⟨_, _, _, _, hframe⟩ := insertAll_frame g es
    rw [heq, hframe]
    exact ⟨rfl, Or.inl rfl⟩
  -- the addition of a stop is the only change that enters one
  cases c with
  | add addition =>
    cases addition with
    | intersection position osmId => exact Or.inl ⟨rfl, Or.inr ⟨_, rfl, rfl⟩⟩
    | bikeRental id name position => exact Or.inl ⟨rfl, Or.inr ⟨_, rfl, rfl⟩⟩
    | bikePark id name position => exact Or.inl ⟨rfl, Or.inr ⟨_, rfl, rfl⟩⟩
    | stop id name position wheelchair =>
      exact Or.inr ⟨⟨.stop id wheelchair, name, position⟩, rfl, rfl, rfl⟩
    | street source target line permission name =>
      rcases addStreet_state g source target line permission name with heq | ⟨line, -, heq⟩
      · rw [Change.apply, Addition.perform, heq]
        exact Or.inl ⟨rfl, Or.inl rfl⟩
      · exact Or.inl (hbatch (congrArg Streets.vertices heq) (congrArg Streets.stopIndex heq))
    | twoWayStreet source target line permission name =>
      rcases addTwoWayStreet_state g source target line permission name with heq | ⟨line, -, heq⟩
      · rw [Change.apply, Addition.perform, heq]
        exact Or.inl ⟨rfl, Or.inl rfl⟩
      · exact Or.inl (hbatch (congrArg Streets.vertices heq) (congrArg Streets.stopIndex heq))
    | area name ring permission =>
      rcases addArea_cases g name ring permission with ⟨fault, heq⟩ | ⟨corners, -, heq⟩
      · rw [Change.apply, Addition.perform, heq]
        exact Or.inl ⟨rfl, Or.inl rfl⟩
      · rw [Change.apply, Addition.perform, heq]
        exact Or.inl (hbatch rfl rfl)
  | annotate note => exact Or.inl ⟨rfl, Or.inl rfl⟩
  | split number location =>
    cases hh : halve g number location with
    | error fault =>
      rw [Change.apply, split_state_of_error hh]
      exact Or.inl ⟨rfl, Or.inl rfl⟩
    | ok halves =>
      obtain ⟨-, first, second, hsplits, -, hstops, -⟩ := exists_splits hsound hh
      exact Or.inl ⟨hstops, Or.inr ⟨splitVertex halves, rfl, hsplits.vertices⟩⟩
  | connect entity street role =>
    obtain ⟨es, -, heq⟩ := connect_state g entity street role
    exact Or.inl (hjoined es heq)
  | cross vertex area =>
    obtain ⟨es, -, heq⟩ := crossArea_state g vertex area
    exact Or.inl (hjoined es heq)

def StopsIndexed (g : Streets α) : Prop :=
  g.stopIndex.items = (stopEntries g).reverse

theorem StopsIndexed.apply {g : Streets α} (hsound : Sound g) (h : StopsIndexed g) (c : Change α) :
    StopsIndexed (c.apply g) := by
  unfold StopsIndexed at *
  rcases c.stops_cases hsound with ⟨hindex, hsame | ⟨x, hstop, hpush⟩⟩ | ⟨x, hstop, hpush, hindex⟩
  · rw [hindex, h, stopEntries_congr hsame]
  · rw [hindex, h, stopEntries_push hpush, hstop]
    simp
  · rw [hindex, BoxIndex.items_insert, h, stopEntries_push hpush, hstop]
    simp

theorem stopsIndexed_run (events : List (Event α)) :
    StopsIndexed (run (.empty : Streets α) events) := by
  rw [← replay_changesOf]
  have hstart : StopsIndexed (.empty : Streets α) := rfl
  generalize changesOf _ events = changes
  have hall (g : Streets α) (hsound : Sound g) (h : StopsIndexed g) :
      StopsIndexed (replay g changes) := by
    induction changes generalizing g with
    | nil => exact h
    | cons c rest ih => exact ih _ (c.sound_apply hsound) (h.apply hsound c)
  exact hall _ sound_empty hstart

end StreetLinking.Linking
