import Mathlib.Data.List.Perm.Subperm
import StreetLinking.Proofs.Linking.EdgeIndex
import StreetLinking.Proofs.Plane.BoxPlaces
/-!
# Graphs that a history leads to

Such a graph is sound, its index has entries with serials of their own, and a search of the index
finds nothing twice. Main statement: the edges that a point is linked to in such a graph are live
and open to linking, and they have different numbers.
-/

namespace StreetLinking.Linking

open Number Plane Street Streets Nearest

variable {α : Type} [Scalar α]

/-- What holds of every graph that a history leads to. -/
structure Reached (g : Streets α) : Prop where
  sound : Sound g
  indexed : Indexed g
  places : g.edgeIndex.HasPlaces

/-! ## The index is filled entry by entry -/

theorem hasPlaces_indexEdge {g : Streets α} (h : g.edgeIndex.HasPlaces) (n : Nat) :
    (g.indexEdge n).edgeIndex.HasPlaces := by
  unfold indexEdge
  split
  · exact h
  · split
    · exact h
    · exact h.insert _ _

theorem hasPlaces_insertIndexed {g : Streets α} (h : g.edgeIndex.HasPlaces)
    (es : List (Nat × Nat × EdgeData α)) : (insertIndexed g es).edgeIndex.HasPlaces := by
  have hindexAll (g : Streets α) (numbers : List Nat) (h : g.edgeIndex.HasPlaces) :
      (g.indexAll numbers).edgeIndex.HasPlaces := by
    induction numbers generalizing g with
    | nil => exact h
    | cons n rest ih => exact ih (g.indexEdge n) (hasPlaces_indexEdge h n)
  obtain ⟨_, _, _, _, hframe⟩ := insertAll_frame g es
  refine hindexAll _ _ ?_
  rw [hframe]
  exact h

omit [Scalar α] in
theorem edgeIndex_insertAll (g : Streets α) (es : List (Nat × Nat × EdgeData α)) :
    (insertAll g es).1.edgeIndex = g.edgeIndex := by
  obtain ⟨_, _, _, _, hframe⟩ := insertAll_frame g es
  rw [hframe]

omit [Scalar α] in
theorem edgeIndex_detach (g : Streets α) (n : Nat) : (g.detach n).edgeIndex = g.edgeIndex := by
  unfold detach
  split <;> rfl

theorem hasPlaces_apply {g : Streets α} (h : g.edgeIndex.HasPlaces) (c : Change α) :
    (c.apply g).edgeIndex.HasPlaces := by
  cases c with
  | add addition =>
    rcases addition.perform_cases g with ⟨v, stopIndex, heq⟩ | heq | ⟨es, areas, -, heq⟩
    · rw [Change.apply, heq]
      exact h
    · rwa [Change.apply, heq]
    · rw [Change.apply, heq]
      exact hasPlaces_insertIndexed h es
  | annotate note => exact h
  | split number location =>
    rw [Change.apply]
    cases hh : halve g number location with
    | error fault => rwa [split_state_of_error hh]
    | ok halves =>
      obtain ⟨areas, hstate⟩ := split_state_of_ok hh
      have hhalves := hasPlaces_insertIndexed (g := (g.addVertex (splitVertex halves)).1) h
        (halfEdges g halves)
      rw [hstate]
      simpa only [edgeIndex_detach] using hhalves
  | connect entity street role =>
    obtain ⟨es, -, heq⟩ := connect_state g entity street role
    rwa [Change.apply, heq, edgeIndex_insertAll]
  | cross vertex area =>
    obtain ⟨es, -, heq⟩ := crossArea_state g vertex area
    rwa [Change.apply, heq, edgeIndex_insertAll]

theorem reached_empty : Reached (empty : Streets α) :=
  ⟨sound_empty, indexed_empty, BoxIndex.hasPlaces_empty⟩

theorem Reached.apply {g : Streets α} (h : Reached g) (c : Change α) : Reached (c.apply g) where
  sound := c.sound_apply h.sound
  indexed := h.indexed.replay h.sound [c]
  places := hasPlaces_apply h.places c

theorem Reached.replay {g : Streets α} (h : Reached g) (changes : List (Change α)) :
    Reached (replay g changes) := by
  induction changes generalizing g with
  | nil => exact h
  | cons c rest ih => exact ih (h.apply c)

theorem reached_run (events : List (Event α)) : Reached (run (.empty : Streets α) events) := by
  rw [← replay_changesOf]
  exact reached_empty.replay _

/-! ## What a point is linked to -/

theorem subperm_items_nearest {β κ : Type} [Ord κ] (distance : β → α) (key : β → κ) (gap : α)
    (items : List β) : ((nearest distance key gap items).map (·.item)).Subperm items := by
  have hhead : nearest distance key gap items <+: rank distance key items := chain_prefix gap _
  have hchain := hhead.sublist.map (·.item)
  have hrank := (rank_perm distance key items).map (·.item)
  have hmeasured : ((measured distance items).map (·.item)).Sublist items := by
    have hall : (items.map fun item => (⟨item, distance item⟩ : Ranked α β)).map (·.item) =
        items := (List.map_map).trans (List.map_id items)
    have hsub := (List.filter_sublist (p := fun r => !Scalar.isUndefined r.distance)
      (l := items.map fun item => (⟨item, distance item⟩ : Ranked α β))).map (·.item)
    rwa [hall] at hsub
  exact hchain.subperm.trans (hrank.subperm.trans hmeasured.subperm)

theorem withinRadius_sublist {β : Type} (radius : α) (rs : List (Ranked α β)) :
    (withinRadius radius rs).Sublist rs := by
  cases rs with
  | nil => exact .refl _
  | cons r rest =>
    rw [withinRadius]
    split
    · exact .refl _
    · exact List.nil_sublist _

theorem subperm_items_nearestEdges (g : Streets α) (search : Search α) (mode : Mode) (gap : α) :
    ((nearestEdges g search mode gap).map (·.item)).Subperm (candidates g search mode) := by
  have hnearest := subperm_items_nearest
    (fun e : Edge α => search.frame.distanceToLine search.point e.line) (·.serial) gap
    (candidates g search mode)
  exact ((withinRadius_sublist search.radius _).map _).subperm.trans hnearest

namespace Reached

variable {g : Streets α}

theorem nodup_candidates (h : Reached g) (search : Search α) (mode : Mode) :
    (candidates g search mode).Nodup := by
  have hitems : g.edgeIndex.items.Nodup := h.indexed.serials.of_map _
  have hentries : (g.entriesIn search.box).Nodup :=
    BoxIndex.nodup_search h.places hitems EdgeEntry.box search.box
  have hserials : ((g.entriesIn search.box).map (·.serial)).Nodup := by
    refine List.Nodup.map_on (fun a ha b hb hsame => ?_) hentries
    exact List.inj_on_of_nodup_map h.indexed.serials (BoxIndex.meets_of_mem_search ha).1
      (BoxIndex.meets_of_mem_search hb).1 hsame
  exact ((hserials.sublist (serials_attachedTo_sublist g _)).of_map _).filter _

theorem live_of_mem_candidates (h : Reached g) {search : Search α} {mode : Mode} {e : Edge α}
    (he : e ∈ candidates g search mode) : e ∈ g.edges ∧ e.kind.isLinkable = true := by
  obtain ⟨hfound, hopen⟩ := List.mem_filter.1 he
  rw [attachedTo_eq] at hfound
  obtain ⟨entry, -, hattached⟩ := List.mem_filterMap.1 hfound
  rw [Bool.and_eq_true] at hopen
  exact ⟨((attached?_eq_some_iff h.sound).1 hattached).1, hopen.1⟩

variable (settings : Settings) (position : Point α) (mode : Mode)

theorem live_of_mem_targets (h : Reached g) {t : Ranked α (Edge α)}
    (ht : t ∈ targets settings g position mode) :
    t.item ∈ g.edges ∧ t.item.kind.isLinkable = true := by
  have hitem := (subperm_items_nearestEdges g (Search.around position settings) mode _).subset
    (List.mem_map_of_mem ht)
  exact h.live_of_mem_candidates hitem

theorem exists_edge?_of_mem_targets (h : Reached g) {number : Nat}
    (hn : number ∈ (targets settings g position mode).map (·.item.number)) :
    ∃ e, g.edge? number = some e := by
  obtain ⟨t, ht, rfl⟩ := List.mem_map.1 hn
  obtain ⟨hlive, -⟩ := h.live_of_mem_targets settings position mode ht
  exact ⟨t.item, h.sound.edge?_eq_some_iff.2 ⟨hlive, rfl⟩⟩

theorem nodup_targets (h : Reached g) :
    ((targets settings g position mode).map (·.item.number)).Nodup := by
  obtain ⟨items, hperm, hsub⟩ :=
    subperm_items_nearestEdges g (Search.around position settings) mode
      (Scalar.ofDouble settings.duplicateWayDegrees)
  have hitems : ((targets settings g position mode).map (·.item)).Nodup :=
    hperm.nodup_iff.1 ((h.nodup_candidates _ mode).sublist hsub)
  have hnumbers := List.Nodup.map_on (f := (·.number)) (fun d hd e he hsame => ?_) hitems
  · rwa [List.map_map] at hnumbers
  · obtain ⟨t, ht, rfl⟩ := List.mem_map.1 hd
    obtain ⟨u, hu, rfl⟩ := List.mem_map.1 he
    exact h.sound.number_inj (h.live_of_mem_targets settings position mode ht).1
      (h.live_of_mem_targets settings position mode hu).1 hsame

end Reached

end StreetLinking.Linking
