import StreetLinking.Proofs.Linking.GraphSteps
/-!
# Crossing an area

A vertex is connected with the other vertices that an area lists, and an edge of any kind that leads
the same way already makes a further one needless. Main statements: crossing puts at most one edge
for each way between the vertex and another one on top of the graph and leaves all else as it is; it
leaves no way open; and crossing once more adds nothing.
-/

namespace StreetLinking.Linking

open Number Plane Street Streets

variable {α : Type}

/-! ## Edges on top of the graph -/

/-- The graph gets new edges on top of its own. Numbers and serials are given out for them, and all
else stays as it is. -/
def Tops (new : List (Edge α)) (g g' : Streets α) : Prop :=
  ∃ freed numbers nextSerial,
    g' = { g with edges := new ++ g.edges, freed, numbers, nextSerial }

namespace Tops

variable {new : List (Edge α)} {g g' : Streets α} (h : Tops new g g')

include h

theorem edges_eq : g'.edges = new ++ g.edges := by
  obtain ⟨_, _, _, rfl⟩ := h
  rfl

theorem vertices_eq : g'.vertices = g.vertices := by
  obtain ⟨_, _, _, rfl⟩ := h
  rfl

theorem position?_eq (w : Nat) : g'.position? w = g.position? w := by
  rw [position?, position?, vertex?, vertex?, h.vertices_eq]

theorem areas_eq : g'.areas = g.areas := by
  obtain ⟨_, _, _, rfl⟩ := h
  rfl

theorem hasEdge {source target : Nat} (hthere : HasEdge g source target) :
    HasEdge g' source target :=
  hthere.mono fun _ he => h.edges_eq ▸ List.mem_append_right _ he

end Tops

variable [Scalar α]

theorem exists_tops_insertAll (g : Streets α) (es : List (Nat × Nat × EdgeData α)) :
    ∃ new, Tops new g (insertAll g es).1 ∧ new.reverse.map Edge.place = es := by
  obtain ⟨new, hgrows, hplaces, -⟩ := exists_grows_insertAll g es
  obtain ⟨edges, freed, numbers, nextSerial, hframe⟩ := insertAll_frame g es
  have hedges := hgrows.edges
  rw [hframe] at hedges ⊢
  obtain rfl : edges = new ++ g.edges := hedges
  exact ⟨new, ⟨freed, numbers, nextSerial, rfl⟩, hplaces⟩

/-! ## Crossing -/

/-- A vertex is connected across an area: edges of the street are put on top of the graph, each
along a way of its own that was open, between the vertex and another one that the area lists. -/
structure Crosses (vertex area : Nat) (new : List (Edge α)) (g g' : Streets α) : Prop where
  tops : Tops new g g'
  distinct : (new.map fun e => (e.source, e.target)).Nodup
  kind : ∀ e ∈ new, e.kind = .street
  opened : ∀ e ∈ new, ¬ HasEdge g e.source e.target
  ends : ∀ e ∈ new, ∃ a w, g.areas[area]? = some a ∧ w ∈ a.vertices ∧ w ≠ vertex ∧
    (e.source = vertex ∧ e.target = w ∨ e.source = w ∧ e.target = vertex)

theorem crossArea_eq {g : Streets α} {vertex area : Nat} {a : Area} {p : Point α}
    (ha : g.areas[area]? = some a) (hp : g.position? vertex = some p) :
    crossArea g vertex area =
      ((insertAll g (crossings g a.name vertex p (a.vertices.filter (· != vertex)))).1,
        (crossings g a.name vertex p (a.vertices.filter (· != vertex))).length) := by
  simp only [crossArea, ha, hp, foldl_insertEdge]

theorem crossArea_eq_self {g : Streets α} {vertex area : Nat}
    (h : ∀ a p, g.areas[area]? = some a → g.position? vertex = some p → False) :
    crossArea g vertex area = (g, 0) := by
  unfold crossArea
  split
  · next a p ha hp => exact (h a p ha hp).elim
  · rfl

theorem exists_crosses (g : Streets α) (vertex area : Nat) :
    ∃ new, Crosses vertex area new g (crossArea g vertex area).1 ∧
      (crossArea g vertex area).2 = new.length := by
  by_cases h : ∃ a p, g.areas[area]? = some a ∧ g.position? vertex = some p
  · obtain ⟨a, p, ha, hp⟩ := h
    rw [crossArea_eq ha hp]
    let missing := crossings g a.name vertex p (a.vertices.filter (· != vertex))
    obtain ⟨new, htops, hplaces⟩ := exists_tops_insertAll g missing
    have hmem {e : Edge α} (he : e ∈ new) : ∃ w, w ∈ a.vertices ∧ w ≠ vertex ∧
        e.place ∈ crossingsTo g a.name vertex p w := by
      have hplace : e.place ∈ missing :=
        hplaces ▸ List.mem_map_of_mem (List.mem_reverse.2 he)
      obtain ⟨w, hw, hplace⟩ := mem_crossings_iff.1 hplace
      obtain ⟨hw, hne⟩ := List.mem_filter.1 hw
      exact ⟨w, hw, bne_iff_ne.1 hne, hplace⟩
    refine ⟨new, ⟨htops, ?_, fun e he => ?_, fun e he => ?_, fun e he => ?_⟩, ?_⟩
    · have hapart : vertex ∉ a.vertices.filter (· != vertex) := by simp
      have hways := nodup_crossings g a.name p hapart
      have hlist : missing.map (fun c => (c.1, c.2.1)) =
          (new.map fun e => (e.source, e.target)).reverse := by
        rw [← hplaces, List.map_map, List.map_reverse]
        rfl
      rw [hlist] at hways
      exact List.nodup_reverse.1 hways
    · obtain ⟨w, -, -, hplace⟩ := hmem he
      obtain ⟨there, -, ⟨-, hplace⟩ | ⟨-, hplace⟩⟩ := mem_crossingsTo_iff.1 hplace
      · exact congrArg (fun c => c.2.2.kind) hplace
      · exact congrArg (fun c => c.2.2.kind) hplace
    · obtain ⟨w, -, -, hplace⟩ := hmem he
      obtain ⟨there, -, ⟨hopen, hplace⟩ | ⟨hopen, hplace⟩⟩ := mem_crossingsTo_iff.1 hplace
      all_goals
        have hsource := congrArg (fun c => c.1) hplace
        have htarget := congrArg (fun c => c.2.1) hplace
        simp only [Edge.place] at hsource htarget
        rwa [hsource, htarget]
    · obtain ⟨w, hw, hne, hplace⟩ := hmem he
      refine ⟨a, w, ha, hw, hne, ?_⟩
      simpa [Edge.place] using ends_of_mem_crossingsTo hplace
    · have hlength := congrArg List.length hplaces
      simpa using hlength.symm
  · rw [crossArea_eq_self fun a p ha hp => h ⟨a, p, ha, hp⟩]
    exact ⟨[], ⟨⟨_, _, _, rfl⟩, by simp, by simp, by simp, by simp⟩, rfl⟩

theorem hasEdge_crossArea {g : Streets α} {vertex area : Nat} {a : Area} {p : Point α}
    (ha : g.areas[area]? = some a) (hp : g.position? vertex = some p) {w : Nat}
    (hw : w ∈ a.vertices) (hne : w ≠ vertex) {q : Point α} (hq : g.position? w = some q) :
    HasEdge (crossArea g vertex area).1 vertex w ∧
      HasEdge (crossArea g vertex area).1 w vertex := by
  rw [crossArea_eq ha hp]
  let missing := crossings g a.name vertex p (a.vertices.filter (· != vertex))
  obtain ⟨new, htops, hplaces⟩ := exists_tops_insertAll g missing
  have hother : w ∈ a.vertices.filter (· != vertex) := List.mem_filter.2 ⟨hw, bne_iff_ne.2 hne⟩
  have hadded {c : Nat × Nat × EdgeData α} (hc : c ∈ crossingsTo g a.name vertex p w) :
      HasEdge (insertAll g missing).1 c.1 c.2.1 := by
    have hmem : c ∈ new.reverse.map Edge.place :=
      hplaces ▸ mem_crossings_iff.2 ⟨w, hother, hc⟩
    obtain ⟨e, he, rfl⟩ := List.mem_map.1 hmem
    exact ⟨e, htops.edges_eq ▸ List.mem_append_left _ (List.mem_reverse.1 he), rfl, rfl⟩
  constructor
  · by_cases hthere : HasEdge g vertex w
    · exact htops.hasEdge hthere
    · exact hadded (mem_crossingsTo_iff.2 ⟨q, hq, Or.inl ⟨hthere, rfl⟩⟩)
  · by_cases hback : HasEdge g w vertex
    · exact htops.hasEdge hback
    · exact hadded (mem_crossingsTo_iff.2 ⟨q, hq, Or.inr ⟨hback, rfl⟩⟩)

theorem crossArea_crossArea (g : Streets α) (vertex area : Nat) :
    crossArea (crossArea g vertex area).1 vertex area = ((crossArea g vertex area).1, 0) := by
  obtain ⟨new, hcrosses, -⟩ := exists_crosses g vertex area
  have hareas := hcrosses.tops.areas_eq
  have hposition := hcrosses.tops.position?_eq
  by_cases h : ∃ a p, g.areas[area]? = some a ∧ g.position? vertex = some p
  · obtain ⟨a, p, ha, hp⟩ := h
    have hnone : crossings (crossArea g vertex area).1 a.name vertex p
        (a.vertices.filter (· != vertex)) = [] := by
      refine List.eq_nil_iff_forall_not_mem.2 fun c hc => ?_
      obtain ⟨w, hw, hc⟩ := mem_crossings_iff.1 hc
      obtain ⟨hw, hne⟩ := List.mem_filter.1 hw
      obtain ⟨q, hq, hopen⟩ := mem_crossingsTo_iff.1 hc
      rw [hposition] at hq
      obtain ⟨hthere, hback⟩ := hasEdge_crossArea ha hp hw (bne_iff_ne.1 hne) hq
      rcases hopen with ⟨hopen, -⟩ | ⟨hopen, -⟩
      · exact hopen hthere
      · exact hopen hback
    rw [crossArea_eq (hareas ▸ ha) ((hposition vertex).trans hp), hnone]
    rfl
  · refine crossArea_eq_self fun a p ha hp => h ⟨a, p, ?_, ?_⟩
    · rwa [hareas] at ha
    · rwa [hposition] at hp

end StreetLinking.Linking
