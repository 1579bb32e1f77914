import StreetLinking.Proofs.Temporary.Listing
/-!
# Who resolves a vertex

The overlays of a view have identities of their own, and a vertex of an overlay is named by the
identity. Main statements: in such a view only one overlay knows a vertex, and what the view has
there is what that overlay has; if the overlays miss no edge in their lists, the view lists each
edge where it leaves and where it enters.
-/

namespace StreetLinking.Temporary

open Street

variable {α : Type}

namespace Overlay

theorem vertex?_addVertex (o : Overlay α) (x : TempVertex α) (v : LocalVertex) :
    (o.addVertex x).1.vertex? v =
      if v = ⟨o.id, o.vertices.length⟩ then some x else o.vertex? v := by
  obtain ⟨overlay, position⟩ := v
  by_cases hown : overlay = o.id
  · subst hown
    simp only [addVertex, vertex?, if_pos, LocalVertex.mk.injEq, true_and]
    by_cases hnew : position = o.vertices.length
    · rw [if_pos hnew, hnew, List.getElem?_concat_length]
    · rw [if_neg hnew]
      rcases Nat.lt_or_gt_of_ne hnew with hlt | hgt
      · exact List.getElem?_append_left hlt
      · rw [List.getElem?_eq_none (Nat.le_of_lt hgt), List.getElem?_eq_none]
        rw [List.length_append]
        exact hgt
  · simp [addVertex, vertex?, hown]

end Overlay

namespace View

def edges (w : View α) : List (ViewEdge α) :=
  w.streets.edges.map .permanent ++ w.overlays.flatMap fun o => o.edges.map .temporary

theorem mem_edges {w : View α} {d : ViewEdge α} :
    d ∈ w.edges ↔ (∃ e ∈ w.streets.edges, .permanent e = d) ∨
      ∃ o ∈ w.overlays, ∃ e ∈ o.edges, .temporary e = d := by
  simp only [edges, List.mem_append, List.mem_map, List.mem_flatMap]

theorem filter_edges (w : View α) (p : ViewEdge α → Bool) :
    w.edges.filter p =
      (w.streets.edges.filter fun e => p (.permanent e)).map .permanent ++
        w.overlays.flatMap fun o => (o.edges.filter fun e => p (.temporary e)).map .temporary := by
  rw [edges, List.filter_append, List.filter_map, List.filter_flatMap]
  simp only [List.filter_map]
  rfl

theorem outgoing_eq_filter {w : View α} (h : ∀ o ∈ w.overlays, o.Registered) (r : VertexRef) :
    w.outgoing r = w.edges.filter (·.source == r) := by
  have hoverlays : (w.overlays.flatMap fun o => (o.outgoing r).map ViewEdge.temporary) =
      w.overlays.flatMap fun o => (o.edges.filter (·.source == r)).map .temporary :=
    List.flatMap_congr fun o ho => by rw [(h o ho).outgoing_eq_filter]
  rw [filter_edges]
  simp only [View.outgoing, hoverlays]
  cases r with
  | permanent v => simp [Streets.outgoing, ViewEdge.source, beq_eq_decide]
  | temporary v => simp [ViewEdge.source, beq_eq_decide]

theorem incoming_eq_filter {w : View α} (h : ∀ o ∈ w.overlays, o.Registered) (r : VertexRef) :
    w.incoming r = w.edges.filter (·.target == r) := by
  have hoverlays : (w.overlays.flatMap fun o => (o.incoming r).map ViewEdge.temporary) =
      w.overlays.flatMap fun o => (o.edges.filter (·.target == r)).map .temporary :=
    List.flatMap_congr fun o ho => by rw [(h o ho).incoming_eq_filter]
  rw [filter_edges]
  simp only [View.incoming, hoverlays]
  cases r with
  | permanent v => simp [Streets.incoming, ViewEdge.target, beq_eq_decide]
  | temporary v => simp [ViewEdge.target, beq_eq_decide]

end View

section Owner

variable {overlays : List (Overlay α)} (hids : (overlays.map (·.id)).Nodup) {o : Overlay α}
  (ho : o ∈ overlays)

include hids ho

/-- Of overlays with different identities, what only one of them has is had once. -/
theorem flatMap_of_owner {β : Type} {f : Overlay α → List β}
    (hf : ∀ o' ∈ overlays, o'.id ≠ o.id → f o' = []) : overlays.flatMap f = f o := by
  induction overlays with
  | nil => cases ho
  | cons first rest ih =>
    obtain ⟨hnew, hrest⟩ := List.nodup_cons.1 hids
    rw [List.flatMap_cons]
    rcases List.mem_cons.1 ho with rfl | ho
    · have hnone : rest.flatMap f = [] := by
        refine List.flatMap_eq_nil_iff.2 fun o' ho' => hf o' (List.mem_cons_of_mem _ ho') ?_
        exact fun hsame => hnew (List.mem_map.2 ⟨o', ho', hsame⟩)
      rw [hnone, List.append_nil]
    · have hother : first.id ≠ o.id := fun hsame => hnew (List.mem_map.2 ⟨o, ho, hsame.symm⟩)
      rw [hf first List.mem_cons_self hother, List.nil_append]
      exact ih hrest ho fun o' ho' => hf o' (List.mem_cons_of_mem _ ho')

theorem findSome?_of_owner {β : Type} {f : Overlay α → Option β}
    (hf : ∀ o' ∈ overlays, o'.id ≠ o.id → f o' = none) : overlays.findSome? f = f o := by
  induction overlays with
  | nil => cases ho
  | cons first rest ih =>
    obtain ⟨hnew, hrest⟩ := List.nodup_cons.1 hids
    rw [List.findSome?_cons]
    rcases List.mem_cons.1 ho with rfl | ho
    · have hnone : rest.findSome? f = none := by
        refine List.findSome?_eq_none_iff.2 fun o' ho' => hf o' (List.mem_cons_of_mem _ ho') ?_
        exact fun hsame => hnew (List.mem_map.2 ⟨o', ho', hsame⟩)
      cases hf : f o with
      | none => exact hnone
      | some b => rfl
    · have hother : first.id ≠ o.id := fun hsame => hnew (List.mem_map.2 ⟨o, ho, hsame.symm⟩)
      rw [hf first List.mem_cons_self hother]
      exact ih hrest ho fun o' ho' => hf o' (List.mem_cons_of_mem _ ho')

variable (g : Streets α) {v : LocalVertex} (hv : v.overlay = o.id)

include hv

theorem position?_of_owner :
    (⟨g, overlays⟩ : View α).position? (.temporary v) = (o.vertex? v).map (·.position) := by
  have howner : overlays.findSome? (·.vertex? v) = o.vertex? v :=
    findSome?_of_owner hids ho fun o' _ hother =>
      Overlay.vertex?_eq_none_of_ne fun hsame => hother (hsame.symm.trans hv)
  rw [View.position?, howner]

theorem outgoing_of_owner :
    (⟨g, overlays⟩ : View α).outgoing (.temporary v) =
      (o.outgoing (.temporary v)).map .temporary := by
  refine flatMap_of_owner hids ho fun o' _ hother => ?_
  rw [Overlay.outgoing_eq_nil fun hsame => hother (hsame.symm.trans hv), List.map_nil]

theorem incoming_of_owner :
    (⟨g, overlays⟩ : View α).incoming (.temporary v) =
      (o.incoming (.temporary v)).map .temporary := by
  refine flatMap_of_owner hids ho fun o' _ hother => ?_
  rw [Overlay.incoming_eq_nil fun hsame => hother (hsame.symm.trans hv), List.map_nil]

end Owner

end StreetLinking.Temporary
