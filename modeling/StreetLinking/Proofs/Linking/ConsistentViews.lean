import StreetLinking.Proofs.Linking.GuestPlaces
/-!
# The combined view is a graph

A path search walks the street graph and the overlays as one graph. Main statement: if all
coordinates are moderate and the given lines of streets lead from end to end, this graph is
consistent, whatever overlays have been linked on whatever graph. Each edge is listed once where it
leaves and once where it enters, and nowhere else; both of its ends have a position, and its line
leads from one to the other; and a vertex of an overlay is known to that overlay only.
-/

namespace StreetLinking.Linking

open Number Plane Street Streets Temporary

/-! ## Consistency -/

/-- The overlays that linking produces over a street graph: that of a request, after any calls that
link its ends, and that of an entity that was linked. -/
inductive Produced (g : Streets Float) : Overlay Float → Prop
  | request (modes : RequestModes) (id : OverlayId) (calls : List (EndCall Float)) :
      Produced g (linkEnds g (.start modes id) calls).overlay
  | entity {settings : Settings} {id : OverlayId} {d : Fleet.Descriptor} {l : Fleet.EntityLink}
      (hlink : Fleet.linkDescriptor settings g id d = some l) : Produced g l.overlay

/-- A view that is a graph: edges are listed just at their ends and lead from one to the other.
Vertices and edges of overlays are known by name to their own overlays only, which enter an edge in
the lists of its ends and in no others. -/
structure IsConsistent (w : View Float) : Prop where
  nodup_outgoing : ∀ r, (w.outgoing r).Nodup
  nodup_incoming : ∀ r, (w.incoming r).Nodup
  mem_outgoing_iff : ∀ r d, d ∈ w.outgoing r ↔ d ∈ w.edges ∧ d.source = r
  mem_incoming_iff : ∀ r d, d ∈ w.incoming r ↔ d ∈ w.edges ∧ d.target = r
  leads : ∀ d ∈ w.edges, Leads w d.source d.target d.line
  position_of_owner : ∀ o ∈ w.overlays, ∀ v, v.overlay = o.id →
    w.position? (.temporary v) = (o.vertex? v).map (·.position)
  unknown_elsewhere : ∀ o ∈ w.overlays, ∀ v, v.overlay ≠ o.id →
    o.vertex? v = none ∧ o.outgoing (.temporary v) = [] ∧ o.incoming (.temporary v) = []
  unknown_edges_elsewhere : ∀ o ∈ w.overlays, ∀ n : LocalEdge, n.overlay ≠ o.id → o.edge? n = none
  mem_leaving_iff : ∀ o ∈ w.overlays, ∀ r n,
    n ∈ o.leaving.incident o.id r ↔ ∃ e, o.edge? n = some e ∧ e.source = r
  mem_entering_iff : ∀ o ∈ w.overlays, ∀ r n,
    n ∈ o.entering.incident o.id r ↔ ∃ e, o.edge? n = some e ∧ e.target = r

/-! ## Edges of a view -/

theorem overlay_eq_of_position? {g : Streets Float} {o : Overlay Float} {v : LocalVertex}
    {p : Point Float} (h : View.position? ⟨g, [o]⟩ (.temporary v) = some p) :
    v.overlay = o.id := by
  by_contra hother
  rw [position?_temporary, Overlay.vertex?_eq_none_of_ne hother] at h
  cases h

theorem Fits.id_eq {g : Streets Float} {o o' : Overlay Float} {e : TempEdge Float}
    (h : Fits g o e) (h' : Fits g o' e) : o.id = o'.id := by
  obtain ⟨⟨p, q, hp, hq, -⟩, v, hv⟩ := h
  obtain ⟨⟨p', q', hp', hq', -⟩, -⟩ := h'
  rcases hv with hv | hv
  · rw [hv] at hp hp'
    exact (overlay_eq_of_position? hp).symm.trans (overlay_eq_of_position? hp')
  · rw [hv] at hq hq'
    exact (overlay_eq_of_position? hq).symm.trans (overlay_eq_of_position? hq')

section Overlays

variable {g : Streets Float} {overlays : List (Overlay Float)}
  (hids : (overlays.map (·.id)).Nodup)

include hids

theorem position?_of_mem {o : Overlay Float} (ho : o ∈ overlays) {r : VertexRef} {p : Point Float}
    (h : View.position? ⟨g, [o]⟩ r = some p) : View.position? ⟨g, overlays⟩ r = some p := by
  cases r with
  | permanent v => exact h
  | temporary v =>
    rw [position?_of_owner hids ho g (overlay_eq_of_position? h), ← h, position?_temporary]

variable (hsits : ∀ o ∈ overlays, Sits g o)

include hsits

theorem nodup_edges (hsound : Sound g) : (⟨g, overlays⟩ : View Float).edges.Nodup := by
  have hstreets : g.edges.Nodup := (List.nodup_append.1 hsound.numbers).1.of_map _
  have hone : ∀ o ∈ overlays, (o.edges.map ViewEdge.temporary).Nodup := fun o ho =>
    (hsits o ho).distinct.map fun a b hab => by cases hab; rfl
  have hapart : overlays.Pairwise fun o o' => o.id ≠ o'.id := List.pairwise_map.1 hids
  refine List.nodup_append'.2 ⟨hstreets.map fun a b hab => by cases hab; rfl,
    List.nodup_flatMap.2 ⟨hone, ?_⟩, ?_⟩
  · refine hapart.imp_of_mem fun {o o'} ho ho' hother d hd hd' => hother ?_
    obtain ⟨e, he, rfl⟩ := List.mem_map.1 hd
    obtain ⟨e', he', heq⟩ := List.mem_map.1 hd'
    cases heq
    exact ((hsits o ho).edges e he).id_eq ((hsits o' ho').edges e he')
  · intro d hd hd'
    obtain ⟨e, -, rfl⟩ := List.mem_map.1 hd
    obtain ⟨o, -, hd'⟩ := List.mem_flatMap.1 hd'
    obtain ⟨e', -, heq⟩ := List.mem_map.1 hd'
    cases heq

theorem isConsistent (hsound : Sound g) (hplaced : Placed g) :
    IsConsistent ⟨g, overlays⟩ := by
  have hedges := nodup_edges hids hsits hsound
  have houtgoing := View.outgoing_eq_filter (w := ⟨g, overlays⟩)
    fun o ho => (hsits o ho).registered
  have hincoming := View.incoming_eq_filter (w := ⟨g, overlays⟩)
    fun o ho => (hsits o ho).registered
  refine ⟨fun r => ?_, fun r => ?_, fun r d => ?_, fun r d => ?_, fun d hd => ?_,
    fun o ho v hv => position?_of_owner hids ho g hv, fun o _ v hv => ?_, fun o _ n hn => if_neg hn,
    fun o ho => (hsits o ho).registered.mem_leaving_iff,
    fun o ho => (hsits o ho).registered.mem_entering_iff⟩
  · rw [houtgoing]
    exact hedges.filter _
  · rw [hincoming]
    exact hedges.filter _
  · rw [houtgoing, List.mem_filter, beq_iff_eq]
  · rw [hincoming, List.mem_filter, beq_iff_eq]
  · rcases View.mem_edges.1 hd with ⟨e, he, rfl⟩ | ⟨o, ho, e, he, rfl⟩
    · exact (hplaced.edges e he).2
    · obtain ⟨p, q, hp, hq, hspans⟩ := ((hsits o ho).edges e he).leads
      exact ⟨p, q, position?_of_mem hids ho hp, position?_of_mem hids ho hq, hspans⟩
  · exact ⟨Overlay.vertex?_eq_none_of_ne hv, Overlay.outgoing_eq_nil hv,
      Overlay.incoming_eq_nil hv⟩

end Overlays

/-! ## Views of what linking produces -/

theorem Produced.sits {g : Streets Float} (hsound : Sound g) (hplaced : Placed g)
    (hstops : StopsPlaced g) {o : Overlay Float} (h : Produced g o) : Sits g o := by
  cases h with
  | request modes id calls => exact (Sits.empty g id).linkEnds hsound hplaced hstops calls
  | entity hlink => exact sits_linkDescriptor hsound hplaced hstops _ hlink

/-- After any fair history, the street graph and any overlays that were linked on it, with
identities of their own, are a consistent graph. -/
theorem consistent_views {events : List (Event Float)} (hfair : FairHistory .empty events)
    {overlays : List (Overlay Float)} (hids : (overlays.map (·.id)).Nodup)
    (hproduced : ∀ o ∈ overlays, Produced (run .empty events) o) :
    IsConsistent ⟨run .empty events, overlays⟩ := by
  have hsound : Sound (run .empty events) := (reached_run events).sound
  have hplaced : Placed (run .empty events) := placed_run hfair
  have hstops : StopsPlaced (run .empty events) := stopsPlaced_run events
  exact isConsistent hids (fun o ho => (hproduced o ho).sits hsound hplaced hstops) hsound hplaced

/-- A search that starts half way along a street. -/
theorem consistent_views_on_the_meridian :
    let g := run .empty meridian
    let o := (linkEnds g (.start (.only .walk) ⟨0, 0⟩) [onMeridian ⟨0.0, 0.5⟩ false]).overlay
    (FairHistory .empty meridian ∧ meridianEdge ∈ g.edges ∧ 0 ∈ o.partNumbers) ∧
      IsConsistent ⟨g, [o]⟩ := by
  intro g o
  have hreached : Reached g := reached_run meridian
  have hmem : meridianEdge ∈ g.edges := (hreached.sound.edge?_eq_some_iff.1 edge?_meridian).1
  have hcut : (linkEnds g (.start (.only .walk) ⟨0, 0⟩)
      [onMeridian ⟨0.0, 0.5⟩ false]).gate.isCut 0 = true :=
    (isCut_linkEnd_meridian (Or.inr (Or.inr rfl)) false 0).2 ⟨rfl, by decide⟩
  obtain ⟨es, hrecords⟩ := exists_records_linkEnds hreached
    (records_start g (.only .walk) ⟨0, 0⟩) [onMeridian ⟨0.0, 0.5⟩ false]
  have hpart : o.partNumbers.count 0 = 1 :=
    (hrecords.count_eq hreached.sound hmem).2.trans (if_pos hcut)
  have hfair : FairHistory .empty meridian := by
    refine ⟨?_, ?_, ?_, ?_, ?_, trivial⟩
    · show IsModerate _
      decide
    · show IsModerate _
      decide
    · intro given hgiven
      cases hgiven
    · show IsModerate _
      decide
    · show IsModerate _
      decide
  refine ⟨⟨hfair, hmem, List.count_pos_iff.1 (by rw [hpart]; decide)⟩, ?_⟩
  exact consistent_views hfair (List.nodup_singleton _)
    (List.forall_mem_singleton.2 (.request (.only .walk) ⟨0, 0⟩ [onMeridian ⟨0.0, 0.5⟩ false]))

end StreetLinking.Linking
