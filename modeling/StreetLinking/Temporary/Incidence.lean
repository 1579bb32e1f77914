import StreetLinking.Street.VertexTable
/-!
# Lists of edges

An overlay names its vertices and edges by their places, and only the overlay that gave a name
resolves it. Where an edge begins and where it ends its name is entered in a list. Vertices of the
overlay have a list from the start, street vertices from their first edge on; a vertex of another
overlay has none, and there nothing is entered.
-/
namespace StreetLinking.Temporary

open Street

/-- The identity of an overlay: who made it, and how many that one had made before. -/
structure OverlayId where
  owner : Nat
  number : Nat
deriving DecidableEq

structure LocalVertex where
  overlay : OverlayId
  position : Nat
deriving DecidableEq

structure LocalEdge where
  overlay : OverlayId
  position : Nat
deriving DecidableEq

inductive VertexRef where
  | permanent (vertex : Nat)
  | temporary (vertex : LocalVertex)
deriving DecidableEq

/-- The edges of an overlay by one of their ends. -/
structure Incidence where
  /-- The lists of the overlay's own vertices, by position. -/
  own : List (List LocalEdge) := []
  permanent : VertexTable LocalEdge := []
deriving DecidableEq

namespace Incidence

def addVertex (i : Incidence) : Incidence :=
  { i with own := i.own ++ [[]] }

/-- Enters an edge at one of its ends, if the end has a list. -/
def register (i : Incidence) (r : VertexRef) (e : LocalEdge) : Incidence :=
  match r with
  | .permanent v => { i with permanent := i.permanent.push e v }
  | .temporary v =>
    if v.overlay = e.overlay then { i with own := i.own.modify v.position (· ++ [e]) } else i

/-- The list of a vertex, the earliest edge first, as the overlay with the identity has it. -/
def incident (i : Incidence) (id : OverlayId) : VertexRef → List LocalEdge
  | .permanent v => i.permanent.get v
  | .temporary v => if v.overlay = id then (i.own[v.position]?).getD [] else []

def lists (i : Incidence) (id : OverlayId) : VertexRef → Bool
  | .permanent _ => true
  | .temporary v => v.overlay == id && decide (v.position < i.own.length)

/-! ## Entering edges -/

theorem incident_addVertex (i : Incidence) (id : OverlayId) (r : VertexRef) :
    i.addVertex.incident id r = i.incident id r := by
  cases r with
  | permanent v => rfl
  | temporary v =>
    simp only [incident, addVertex]
    congr 1
    rcases Nat.lt_trichotomy v.position i.own.length with hlt | heq | hgt
    · rw [List.getElem?_append_left hlt]
    · simp [heq]
    · rw [List.getElem?_eq_none (by simp; omega), List.getElem?_eq_none (by omega)]

/-- An edge is entered at its end, and nowhere else. -/
theorem incident_register (i : Incidence) (s r : VertexRef) (e : LocalEdge) :
    (i.register s e).incident e.overlay r =
      i.incident e.overlay r ++ if r = s ∧ i.lists e.overlay s = true then [e] else [] := by
  cases s with
  | permanent v =>
    cases r with
    | permanent w => simp [register, incident, lists, VertexTable.get_push]
    | temporary w => simp [register, incident]
  | temporary v =>
    simp only [register]
    split
    · next hv =>
      cases r with
      | permanent w => simp [incident]
      | temporary w =>
        simp only [incident, lists, hv, beq_self_eq_true, Bool.true_and, decide_eq_true_eq,
          VertexRef.temporary.injEq, List.getElem?_modify]
        by_cases hw : w = v
        · subst hw
          by_cases hlt : w.position < i.own.length
          · simp [hv, hlt]
          · simp [hlt]
        · have hposition : w.overlay = e.overlay → v.position ≠ w.position := by
            intro hown hsame
            obtain ⟨_, _⟩ := w
            obtain ⟨_, _⟩ := v
            simp_all
          by_cases hown : w.overlay = e.overlay
          · simp [hown, hw, hposition hown]
          · simp [hown, hw]
    · next hv => simp [lists, hv]

theorem own_length_register (i : Incidence) (r : VertexRef) (e : LocalEdge) :
    (i.register r e).own.length = i.own.length := by
  unfold register
  cases r with
  | permanent v => rfl
  | temporary v =>
    dsimp only
    split <;> simp

theorem incident_eq_nil {i : Incidence} {id : OverlayId} {r : VertexRef}
    (h : i.lists id r = false) : i.incident id r = [] := by
  cases r with
  | permanent v => cases h
  | temporary v =>
    simp only [lists, Bool.and_eq_false_iff, beq_eq_false_iff_ne, decide_eq_false_iff_not] at h
    simp only [incident]
    split
    · next hv =>
      have hnone : i.own[v.position]? = none := List.getElem?_eq_none (by
        rcases h with h | h
        · exact absurd hv h
        · omega)
      rw [hnone]
      rfl
    · rfl

/-! ## What the lists have -/

def namesAt (id : OverlayId) (ends : List VertexRef) (r : VertexRef) : List LocalEdge :=
  (ends.zipIdx.filter (·.1 == r)).map fun e => ⟨id, e.2⟩

theorem namesAt_concat (id : OverlayId) (ends : List VertexRef) (s r : VertexRef) :
    namesAt id (ends ++ [s]) r =
      namesAt id ends r ++ if r = s then [⟨id, ends.length⟩] else [] := by
  have hsame : (s == r) = decide (r = s) := by
    rw [Bool.eq_iff_iff, beq_iff_eq, decide_eq_true_eq, eq_comm]
  by_cases h : r = s <;> simp [namesAt, List.zipIdx_append, hsame, h]

/-- The lists have nothing but the edges of an overlay where their ends are, in order, and all those
at street vertices. -/
structure Faithful (i : Incidence) (id : OverlayId) (size : Nat) (ends : List VertexRef) : Prop where
  own_length : i.own.length = size
  sublist : ∀ r, (i.incident id r).Sublist (namesAt id ends r)
  permanent : ∀ v, i.incident id (.permanent v) = namesAt id ends (.permanent v)
  keys : ∀ v, v ∈ i.permanent.keys ↔ .permanent v ∈ ends

theorem faithful_empty (id : OverlayId) : Faithful {} id 0 [] where
  own_length := rfl
  sublist r := by
    cases r with
    | permanent v => exact List.nil_sublist _
    | temporary v => simp [incident]
  permanent _ := rfl
  keys := by simp [VertexTable.keys]

namespace Faithful

variable {i : Incidence} {id : OverlayId} {size : Nat} {ends : List VertexRef}

theorem addVertex (h : i.Faithful id size ends) : i.addVertex.Faithful id (size + 1) ends where
  own_length := by simp [Incidence.addVertex, h.own_length]
  sublist r := by
    rw [incident_addVertex]
    exact h.sublist r
  permanent v := by
    rw [incident_addVertex]
    exact h.permanent v
  keys := h.keys

theorem register (h : i.Faithful id size ends) (s : VertexRef) :
    (i.register s ⟨id, ends.length⟩).Faithful id size (ends ++ [s]) where
  own_length := (i.own_length_register s _).trans h.own_length
  sublist r := by
    have hnew := i.incident_register s r ⟨id, ends.length⟩
    rw [hnew, namesAt_concat]
    refine (h.sublist r).append ?_
    by_cases hr : r = s
    · split <;> simp
    · simp [hr]
  permanent v := by
    have hnew := i.incident_register s (.permanent v) ⟨id, ends.length⟩
    rw [hnew, namesAt_concat, h.permanent]
    cases s with
    | permanent w => simp [lists]
    | temporary w => simp
  keys v := by
    cases s with
    | permanent w =>
      rw [Incidence.register]
      simp only [VertexTable.mem_keys_push, h.keys, List.mem_append, List.mem_singleton,
        VertexRef.permanent.injEq, or_comm]
    | temporary w =>
      have hkeys : (i.register (.temporary w) ⟨id, ends.length⟩).permanent = i.permanent := by
        unfold Incidence.register
        dsimp only
        split <;> rfl
      simp [hkeys, h.keys]

end Faithful

end Incidence

end StreetLinking.Temporary
