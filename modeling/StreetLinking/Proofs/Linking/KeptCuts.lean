import StreetLinking.Proofs.Linking.GuestSteps
import StreetLinking.Proofs.Temporary.Resolving
import StreetLinking.Proofs.Temporary.Splicing
/-!
# Edges that overlays cut

An entity is linked in an overlay of its own, which keeps both halves of every edge that it cuts.
Main statements: the parts in such an overlay are just the halves of its cuts, and each vertex of a
cut belongs to one of them; and a view of any such overlays with different identities splices.
-/

namespace StreetLinking.Linking

open Number Plane Street Streets Temporary

variable {α : Type} [Scalar α]

/-! ## Cuts -/

def inboundPart (v : LocalVertex) (h : Halves α) : TempEdge α :=
  partEdge (.permanent h.parent.source) (.temporary v) h.parent h.first

def outboundPart (v : LocalVertex) (h : Halves α) : TempEdge α :=
  partEdge (.temporary v) (.permanent h.parent.target) h.parent h.second

/-- The cuts of an overlay, each with the place of its vertex, of which both halves are kept. -/
structure HasCuts (g : Streets α) (o : Overlay α) (cuts : List (Nat × Halves α)) : Prop where
  parts : o.edges.filter (·.isPart) =
    cuts.flatMap fun c => [inboundPart ⟨o.id, c.1⟩ c.2, outboundPart ⟨o.id, c.1⟩ c.2]
  distinct : (cuts.map (·.1)).Nodup
  vertices : ∀ c ∈ cuts, o.vertices[c.1]? = some (cutVertex .both c.2)
  splits : ∀ (i : Nat) (x : TempVertex α), o.vertices[i]? = some x → ∀ parent side,
    x.kind = .split parent side → ∃ h, (i, h) ∈ cuts
  halves : ∀ c ∈ cuts, ∃ number location, halve g number location = .ok c.2

namespace HasCuts

variable {g : Streets α} {o : Overlay α} {cuts : List (Nat × Halves α)}

theorem connect (h : HasCuts g o cuts) (entity street : VertexRef × Point α) (role : Role) :
    HasCuts g (connectIn o entity street role).1 cuts := by
  obtain ⟨added, hsub, hframe⟩ := connectIn_frame o entity street role
  have hnone : added.filter (·.isPart) = [] := by
    refine List.filter_eq_nil_iff.2 fun e he => ?_
    rw [TempEdge.isPart, kind_of_mem_connectorsIn (hsub.subset he)]
    exact Bool.false_ne_true
  have hvertices : (o.addEdges added).vertices = o.vertices := o.vertices_addEdges added
  rw [hframe]
  refine ⟨?_, h.distinct, hvertices ▸ h.vertices, hvertices ▸ h.splits, h.halves⟩
  rw [Overlay.edges_addEdges, Overlay.id_addEdges, List.filter_append, hnone, List.append_nil]
  exact h.parts

theorem cut (h : HasCuts g o cuts) {number : Nat} {location : Location α} {halves : Halves α}
    (hh : halve g number location = .ok halves) :
    HasCuts g (withCut o .both halves) (cuts ++ [(o.vertices.length, halves)]) where
  parts := by
    simp only [edges_withCut, id_withCut, List.filter_append, List.flatMap_append, h.parts]
    rfl
  distinct := by
    rw [List.map_append, List.map_singleton, ← List.concat_eq_append, List.nodup_concat]
    refine ⟨fun hmem => ?_, h.distinct⟩
    obtain ⟨c, hc, hplace⟩ := List.mem_map.1 hmem
    have hlt := (List.getElem?_eq_some_iff.1 (h.vertices c hc)).1
    omega
  vertices := by
    intro c hc
    rw [vertices_withCut]
    rcases List.mem_append.1 hc with hc | hc
    · have hlt := (List.getElem?_eq_some_iff.1 (h.vertices c hc)).1
      exact (List.getElem?_append_left hlt).trans (h.vertices c hc)
    · rw [List.mem_singleton.1 hc]
      exact List.getElem?_concat_length
  splits := by
    intro i x hx parent side hkind
    rw [vertices_withCut] at hx
    by_cases hlt : i < o.vertices.length
    · rw [List.getElem?_append_left hlt] at hx
      obtain ⟨halves', hmem⟩ := h.splits i x hx parent side hkind
      exact ⟨halves', List.mem_append_left _ hmem⟩
    · rw [List.getElem?_append_right (Nat.not_lt.1 hlt), List.getElem?_singleton] at hx
      split at hx
      · obtain rfl : i = o.vertices.length := by omega
        exact ⟨halves, List.mem_append_right _ (List.mem_singleton_self _)⟩
      · cases hx
  halves := by
    intro c hc
    rcases List.mem_append.1 hc with hc | hc
    · exact h.halves c hc
    · rw [List.mem_singleton.1 hc]
      exact ⟨number, location, hh⟩

end HasCuts

theorem exists_hasCuts {g : Streets α} {guest : Guest α} (hside : guest.role.side = .both)
    {o o' : Overlay α} (hsteps : GuestSteps g guest o o') (h : ∃ cuts, HasCuts g o cuts) :
    ∃ cuts, HasCuts g o' cuts := by
  refine hsteps.preserve (P := fun o => ∃ cuts, HasCuts g o cuts) (fun o o' hstep ⟨cuts, h⟩ => ?_) h
  cases hstep with
  | connect hstreet => exact ⟨cuts, h.connect _ _ _⟩
  | cut hh hlocation =>
    rw [hside]
    exact ⟨_, h.cut hh⟩

/-! ## The parts of a cut -/

theorem flatMap_if_eq_map_filter {β γ : Type} (p : β → Bool) (f : β → γ) (l : List β) :
    (l.flatMap fun b => if p b then [f b] else []) = (l.filter p).map f := by
  induction l with
  | nil => rfl
  | cons b rest ih => cases hb : p b <;> simp [hb, ih]

/-- The halves of a cut make up the edge. -/
theorem makeUp_of_halve {g : Streets α} {number : Nat} {location : Location α} {h : Halves α}
    (hh : halve g number location = .ok h) (v : LocalVertex) :
    MakeUp (inboundPart v h) (outboundPart v h) h.parent := by
  obtain ⟨-, first, second, m, n, hfirst, hsecond, hsum, -⟩ := halve_eq_ok hh
  refine ⟨rfl, rfl, ?_⟩
  simp only [inboundPart, outboundPart, partEdge, hfirst, hsecond, partOf]
  exact hsum

namespace HasCuts

variable {g : Streets α} {o : Overlay α} {cuts : List (Nat × Halves α)} (h : HasCuts g o cuts)

include h

theorem part_cases {e : TempEdge α} (he : e ∈ o.edges) (hpart : e.isPart = true) :
    ∃ c ∈ cuts, e = inboundPart ⟨o.id, c.1⟩ c.2 ∨ e = outboundPart ⟨o.id, c.1⟩ c.2 := by
  have hmem : e ∈ o.edges.filter (·.isPart) := List.mem_filter.2 ⟨he, hpart⟩
  rw [h.parts] at hmem
  obtain ⟨c, hc, hmem⟩ := List.mem_flatMap.1 hmem
  exact ⟨c, hc, List.mem_pair.1 hmem⟩

theorem filter_place {c : Nat × Halves α} (hc : c ∈ cuts) :
    cuts.filter (fun d => d.1 == c.1) = [c] := by
  have hplaces := h.distinct
  clear h
  induction cuts with
  | nil => cases hc
  | cons d rest ih =>
    obtain ⟨hnew, hrest⟩ := List.nodup_cons.1 hplaces
    rw [List.filter_cons]
    rcases List.mem_cons.1 hc with rfl | hc
    · have hnone : rest.filter (fun d => d.1 == c.1) = [] := by
        refine List.filter_eq_nil_iff.2 fun d hd hsame => hnew ?_
        exact List.mem_map.2 ⟨d, hd, beq_iff_eq.1 hsame⟩
      rw [if_pos (beq_self_eq_true _), hnone]
    · have hother : d.1 ≠ c.1 := fun hsame => hnew (List.mem_map.2 ⟨c, hc, hsame.symm⟩)
      rw [if_neg (by simpa using hother)]
      exact ih hc hrest

theorem filter_parts {c : Nat × Halves α} (hc : c ∈ cuts) (ends : TempEdge α → VertexRef)
    (part : Nat × Halves α → TempEdge α)
    (hends : ∀ d : Nat × Halves α,
      [inboundPart ⟨o.id, d.1⟩ d.2, outboundPart ⟨o.id, d.1⟩ d.2].filter
          (fun e => ends e == .temporary ⟨o.id, c.1⟩) =
        if d.1 == c.1 then [part d] else []) :
    (o.edges.filter fun e => ends e == .temporary ⟨o.id, c.1⟩).filter (·.isPart) = [part c] := by
  calc (o.edges.filter fun e => ends e == .temporary ⟨o.id, c.1⟩).filter (·.isPart)
    _ = (o.edges.filter (·.isPart)).filter fun e => ends e == .temporary ⟨o.id, c.1⟩ := by
      simp only [List.filter_filter, Bool.and_comm]
    _ = cuts.flatMap fun d => if d.1 == c.1 then [part d] else [] := by
      simp only [h.parts, List.filter_flatMap, hends]
    _ = (cuts.filter fun d => d.1 == c.1).map part := flatMap_if_eq_map_filter _ _ _
    _ = [part c] := by rw [h.filter_place hc, List.map_singleton]

theorem incoming_parts (hregistered : o.Registered) {c : Nat × Halves α} (hc : c ∈ cuts) :
    (o.incoming (.temporary ⟨o.id, c.1⟩)).filter (·.isPart) = [inboundPart ⟨o.id, c.1⟩ c.2] := by
  rw [hregistered.incoming_eq_filter]
  apply h.filter_parts hc (·.target) fun d => inboundPart ⟨o.id, d.1⟩ d.2
  intro d
  simp [inboundPart, outboundPart, partEdge, List.filter_cons]

theorem outgoing_parts (hregistered : o.Registered) {c : Nat × Halves α} (hc : c ∈ cuts) :
    (o.outgoing (.temporary ⟨o.id, c.1⟩)).filter (·.isPart) = [outboundPart ⟨o.id, c.1⟩ c.2] := by
  rw [hregistered.outgoing_eq_filter]
  apply h.filter_parts hc (·.source) fun d => outboundPart ⟨o.id, d.1⟩ d.2
  intro d
  simp [inboundPart, outboundPart, partEdge, List.filter_cons]

end HasCuts

/-! ## Views of overlays with cuts -/

/-- Overlays with identities of their own, each with cuts of edges of the graph. -/
structure Cutting (g : Streets α) (overlays : List (Overlay α)) : Prop where
  ids : (overlays.map (·.id)).Nodup
  registered : ∀ o ∈ overlays, o.Registered
  cuts : ∀ o ∈ overlays, ∃ cuts, HasCuts g o cuts

namespace Cutting

variable {g : Streets α} {overlays : List (Overlay α)} (h : Cutting g overlays)

include h

theorem parts_of_cut {o : Overlay α} (ho : o ∈ overlays) {cuts : List (Nat × Halves α)}
    (hcuts : HasCuts g o cuts) {i : Nat} {halves : Halves α} (hc : (i, halves) ∈ cuts) :
    ((⟨g, overlays⟩ : View α).incoming (.temporary ⟨o.id, i⟩)).filter (·.isPart) =
        [.temporary (inboundPart ⟨o.id, i⟩ halves)] ∧
      ((⟨g, overlays⟩ : View α).outgoing (.temporary ⟨o.id, i⟩)).filter (·.isPart) =
        [.temporary (outboundPart ⟨o.id, i⟩ halves)] := by
  have hview (es : List (TempEdge α)) : (es.map ViewEdge.temporary).filter (·.isPart) =
      (es.filter (·.isPart)).map .temporary := List.filter_map
  constructor
  · rw [incoming_of_owner h.ids ho g rfl, hview, hcuts.incoming_parts (h.registered o ho) hc,
      List.map_singleton]
  · rw [outgoing_of_owner h.ids ho g rfl, hview, hcuts.outgoing_parts (h.registered o ho) hc,
      List.map_singleton]

theorem exists_cut {o : Overlay α} (ho : o ∈ overlays) {v : LocalVertex} {x : TempVertex α}
    (hx : o.vertex? v = some x) {parent : Nat} {side : Side} (hkind : x.kind = .split parent side) :
    ∃ number location halves, halve g number location = .ok halves ∧
      halves.parent.serial = parent ∧
      ((⟨g, overlays⟩ : View α).incoming (.temporary v)).filter (·.isPart) =
        [.temporary (inboundPart v halves)] ∧
      ((⟨g, overlays⟩ : View α).outgoing (.temporary v)).filter (·.isPart) =
        [.temporary (outboundPart v halves)] := by
  obtain ⟨cuts, hcuts⟩ := h.cuts o ho
  have hv : v.overlay = o.id := by
    by_contra hother
    rw [Overlay.vertex?_eq_none_of_ne hother] at hx
    cases hx
  obtain ⟨overlay, i⟩ := v
  obtain rfl : overlay = o.id := hv
  rw [Overlay.vertex?, if_pos rfl] at hx
  obtain ⟨halves, hc⟩ := hcuts.splits i x hx parent side hkind
  obtain ⟨number, location, hh⟩ := hcuts.halves _ hc
  have hcut : x = cutVertex .both halves := Option.some.inj (hx.symm.trans (hcuts.vertices _ hc))
  have hserial : halves.parent.serial = parent := by
    rw [hcut] at hkind
    cases hkind
    rfl
  exact ⟨number, location, halves, hh, hserial, h.parts_of_cut ho hcuts hc⟩

theorem splices (hsound : Sound g) : Splices (⟨g, overlays⟩ : View α) := by
  intro u first hfirst hpart
  obtain ⟨o, ho, he⟩ : ∃ o ∈ overlays, first ∈ o.outgoing (.permanent u) := by
    rcases List.mem_append.1 hfirst with hstreet | hfirst
    · simp at hstreet
    · obtain ⟨o, ho, hfirst⟩ := List.mem_flatMap.1 hfirst
      obtain ⟨e, he, heq⟩ := List.mem_map.1 hfirst
      cases heq
      exact ⟨o, ho, he⟩
  obtain ⟨he, hsource⟩ := Overlay.mem_of_mem_outgoing he
  obtain ⟨cuts, hcuts⟩ := h.cuts o ho
  obtain ⟨⟨i, halves⟩, hc, rfl | rfl⟩ := hcuts.part_cases he hpart
  · obtain ⟨number, location, hh⟩ := hcuts.halves _ hc
    have hlive := (hsound.edge?_eq_some_iff.1 (halve_eq_ok hh).1).1
    have hu : halves.parent.source = u := by simpa [inboundPart, partEdge] using hsource
    refine ⟨⟨o.id, i⟩, rfl, halves.parent, List.mem_filter.2 ⟨hlive, by simpa using hu⟩, ?_⟩
    intro second hsecond hpart'
    have hmem : ViewEdge.temporary second ∈
        ((⟨g, overlays⟩ : View α).outgoing (.temporary ⟨o.id, i⟩)).filter (·.isPart) :=
      List.mem_filter.2 ⟨hsecond, hpart'⟩
    rw [(h.parts_of_cut ho hcuts hc).2, List.mem_singleton] at hmem
    cases hmem
    exact makeUp_of_halve hh _
  · cases hsource

end Cutting

end StreetLinking.Linking
