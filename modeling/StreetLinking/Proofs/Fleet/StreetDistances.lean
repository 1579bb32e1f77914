import StreetLinking.Proofs.Fleet.SnapshotIndex
import StreetLinking.Proofs.Linking.KeptCuts
/-!
# Entities and street distances

Each entity of a snapshot cuts edges in an overlay of its own, and no two overlays have the same
identity, however entities come and go. Main statement: whatever entities a snapshot links in a
street graph, at each vertex of a cut one part comes in and one goes out, and together they are the
edge that is cut; so shortest walks along streets are as long as in the street graph alone.
-/

namespace StreetLinking.Fleet

open Street Streets Temporary Linking

/-! ## Identities -/

def linkIds (tracked : List Tracked) : List OverlayId :=
  tracked.filterMap fun t => t.link.map (·.overlay.id)

theorem steps_of_linkDescriptor {g : Streets Float} (hsound : Sound g) (hstops : StopsPlaced g)
    {settings : Settings} {id : OverlayId} {d : Descriptor} {l : EntityLink}
    (h : linkDescriptor settings g id d = some l) :
    GuestSteps g (entityGuest id d) (entityOverlay id d) l.overlay := by
  obtain ⟨-, rfl⟩ := linkDescriptor_eq_some_iff.1 h
  exact steps_linkGuest settings (entityGuest id d) hsound hstops _ ⟨entityOverlay id d, none⟩

theorem id_of_linkDescriptor {g : Streets Float} (hsound : Sound g) (hstops : StopsPlaced g)
    {settings : Settings} {id : OverlayId} {d : Descriptor} {l : EntityLink}
    (h : linkDescriptor settings g id d = some l) : l.overlay.id = id :=
  (steps_of_linkDescriptor hsound hstops h).id_eq

namespace Roster

/-- What has been linked has been linked in the graph, in overlays that were numbered in turn. -/
structure Seated (g : Streets Float) (r : Roster) : Prop where
  links : ∀ t ∈ r.tracked, ∀ l, t.link = some l →
    ∃ settings id, linkDescriptor settings g id t.descriptor = some l
  ids : (linkIds r.tracked).Nodup
  attempts : ∀ id ∈ linkIds r.tracked, id.number < r.linkAttempts

variable {g : Streets Float} (hsound : Sound g) (hstops : StopsPlaced g)

include hsound hstops

theorem linkIds_trackFrom (settings : Settings) (owner attempt : Nat) (ds : List Descriptor) :
    (linkIds (trackFrom settings g owner attempt ds)).Sublist
      ((List.range' attempt ds.length).map (⟨owner, ·⟩)) := by
  induction ds generalizing attempt with
  | nil => exact .refl _
  | cons d rest ih =>
    rw [trackFrom, List.length_cons, List.range'_succ, List.map_cons]
    cases hlink : linkDescriptor settings g ⟨owner, attempt⟩ d with
    | none => exact (ih (attempt + 1)).cons _
    | some l =>
      have hid := id_of_linkDescriptor hsound hstops hlink
      have hcons : linkIds (⟨d, some l⟩ :: trackFrom settings g owner (attempt + 1) rest) =
          ⟨owner, attempt⟩ :: linkIds (trackFrom settings g owner (attempt + 1) rest) := by
        rw [← hid]
        rfl
      rw [hcons]
      exact (ih (attempt + 1)).cons_cons _

theorem Seated.update {r : Roster} (h : r.Seated g) (settings : Settings)
    (report : List Descriptor) : (r.update settings g report).2.Seated g := by
  have hnew := linkIds_trackFrom hsound hstops settings r.owner r.linkAttempts (r.arrivals report)
  have hnumbers : ∀ id ∈ linkIds (trackFrom settings g r.owner r.linkAttempts (r.arrivals report)),
      r.linkAttempts ≤ id.number ∧ id.number < r.linkAttempts + (r.arrivals report).length := by
    intro id hid
    obtain ⟨attempt, hattempt, rfl⟩ := List.mem_map.1 (hnew.subset hid)
    simpa using hattempt
  let stays (t : Tracked) : Bool := report.any (·.key == t.key)
  have hold : (linkIds (r.tracked.filter stays)).Sublist (linkIds r.tracked) :=
    List.filter_sublist.filterMap _
  have hperm : (linkIds (r.update settings g report).2.tracked).Perm
      (linkIds (r.tracked.filter stays) ++
        linkIds (trackFrom settings g r.owner r.linkAttempts (r.arrivals report))) := by
    rw [linkIds, linkIds, linkIds, ← List.filterMap_append]
    exact (List.mergeSort_perm _ _).filterMap _
  refine ⟨fun t ht l hl => ?_, ?_, fun id hid => ?_⟩
  · rcases (mem_tracked_update settings g r).1 ht with ⟨hmem, -⟩ | hentrant
    · exact h.links t hmem l hl
    · obtain ⟨-, id, hlink⟩ := mem_trackFrom settings g hentrant
      exact ⟨settings, id, hlink.symm.trans hl⟩
  · rw [hperm.nodup_iff, List.nodup_append]
    refine ⟨h.ids.sublist hold, ?_, fun id hid id' hid' hsame => ?_⟩
    · refine List.Nodup.sublist hnew (List.Nodup.map (fun a b hab => ?_) List.nodup_range')
      cases hab
      rfl
    · have hless := h.attempts id (hold.subset hid)
      have hmore := (hnumbers id' hid').1
      rw [← hsame] at hmore
      omega
  · have hlength : (r.update settings g report).2.linkAttempts =
        r.linkAttempts + (r.arrivals report).length := by
      simp only [Roster.update, length_trackFrom]
    rw [hlength]
    rcases List.mem_append.1 (hperm.subset hid) with hid | hid
    · have hless := h.attempts id (hold.subset hid)
      omega
    · exact (hnumbers id hid).2

theorem Seated.afterRounds {r : Roster} (h : r.Seated g) {rounds : List Round}
    (hrounds : ∀ round ∈ rounds, round.streets = g) : (r.afterRounds rounds).Seated g := by
  induction rounds generalizing r with
  | nil => exact h
  | cons round rest ih =>
    obtain ⟨hfirst, hrest⟩ := List.forall_mem_cons.1 hrounds
    have hnext := h.update hsound hstops round.settings round.report
    rw [← hfirst] at hnext
    exact ih (hfirst ▸ hnext) hrest

omit hsound hstops in
theorem overlays_eq {r : Roster} (h : r.Genuine) :
    r.snapshot.overlays = r.tracked.filterMap fun t => t.link.map (·.overlay) := by
  have hfound : ∀ t ∈ r.tracked, ((r.find? t.key).bind (·.link)).map (·.overlay) =
      t.link.map (·.overlay) := by
    intro t ht
    rw [find?_eq_some h.keys.nodup ht, Option.bind_some]
  calc r.snapshot.overlays
    _ = r.snapshot.linkedKeys.filterMap fun key =>
        ((r.find? key).bind (·.link)).map (·.overlay) := rfl
    _ = (r.tracked.filter (·.isLinked)).filterMap fun t =>
        ((r.find? t.key).bind (·.link)).map (·.overlay) := by
      rw [linkedKeys_snapshot h, List.filterMap_map]
      rfl
    _ = (r.tracked.filter (·.isLinked)).filterMap fun t => t.link.map (·.overlay) :=
      List.filterMap_congr fun t ht => hfound t (List.mem_filter.1 ht).1
    _ = r.tracked.filterMap fun t => t.link.map (·.overlay) := by
      rw [List.filterMap_filter]
      apply List.filterMap_congr
      intro t _
      cases hlink : t.link <;> simp [Tracked.isLinked, hlink]

/-- The overlays of a snapshot cut edges of the graph in which its entities were linked. -/
theorem Seated.cutting {r : Roster} (hgenuine : r.Genuine) (h : r.Seated g) :
    Cutting g r.snapshot.overlays := by
  rw [overlays_eq hgenuine]
  have hlinked : ∀ o ∈ r.tracked.filterMap fun t => t.link.map (·.overlay),
      ∃ settings id d l, linkDescriptor settings g id d = some l ∧ l.overlay = o := by
    intro o ho
    obtain ⟨t, ht, hlink⟩ := List.mem_filterMap.1 ho
    obtain ⟨l, hl, hoverlay⟩ := Option.map_eq_some_iff.1 hlink
    obtain ⟨settings, id, hlinked⟩ := h.links t ht l hl
    exact ⟨settings, id, t.descriptor, l, hlinked, hoverlay⟩
  refine ⟨?_, fun o ho => ?_, fun o ho => ?_⟩
  · have hids : (r.tracked.filterMap fun t => t.link.map (·.overlay)).map (·.id) =
        linkIds r.tracked := by
      rw [List.map_filterMap, linkIds]
      apply List.filterMap_congr
      intro t _
      cases t.link <;> rfl
    rw [hids]
    exact h.ids
  · obtain ⟨settings, id, d, l, hlinked, rfl⟩ := hlinked o ho
    exact (registered_linkDescriptor hlinked).1
  · obtain ⟨settings, id, d, l, hlinked, rfl⟩ := hlinked o ho
    have hside : (entityGuest id d).role.side = .both := by
      show d.kind.role.side = .both
      cases d.kind <;> rfl
    refine exists_hasCuts hside (steps_of_linkDescriptor hsound hstops hlinked) ⟨[], ?_⟩
    refine ⟨rfl, List.nodup_nil, by simp, fun i x hx parent side hkind => ?_, by simp⟩
    obtain rfl : x = ⟨.entity d.key d.kind.role, d.name, d.position⟩ := by
      simpa [entityOverlay, Overlay.addVertex] using List.mem_of_getElem? hx
    cases hkind

end Roster

/-- Whatever entities have been linked in a street graph by any reconciliations: at each vertex at
which one of them cuts an edge, one part comes in from the start of the edge and one goes out to its
end, both with the permission of the edge, and their lengths add up to its length. So for every mode
the length of a shortest walk between two vertices of the street graph is the same in the graph and
along the streets and parts that the snapshot shows. -/
theorem distances_unbent (events : List (Linking.Event Float)) (owner : Nat)
    (reports : List (Settings × List Descriptor)) :
    let g := run .empty events
    let s := (Roster.afterRounds { owner } (reports.map fun r => ⟨r.1, g, r.2⟩)).snapshot
    let w : View Float := ⟨g, s.overlays⟩
    (∀ o ∈ s.overlays, ∀ v x parent side, o.vertex? v = some x → x.kind = .split parent side →
      ∃ e ∈ g.edges, e.serial = parent ∧ ∃ inbound outbound : TempEdge Float,
        (w.incoming (.temporary v)).filter (·.isPart) = [.temporary inbound] ∧
        (w.outgoing (.temporary v)).filter (·.isPart) = [.temporary outbound] ∧
        inbound.source = .permanent e.source ∧ outbound.target = .permanent e.target ∧
        inbound.kind = .part e.number ∧ outbound.kind = .part e.number ∧
        inbound.permission = e.permission ∧ outbound.permission = e.permission ∧
        inbound.lengthMm + outbound.lengthMm = e.lengthMm) ∧
    ∀ mode u v n,
      IsShortestAlong (fun e => e.permits mode && e.isOfStreets) w (.permanent u) (.permanent v) n ↔
        IsShortestAlong (·.permits mode) ⟨g, []⟩ (.permanent u) (.permanent v) n := by
  intro g s w
  have hsound : Sound g := sound_run sound_empty events
  have hstops : StopsPlaced g := stopsPlaced_run events
  have hgenuine : ({ owner } : Roster).Genuine := ⟨List.Pairwise.nil, by simp⟩
  have hseated : ({ owner } : Roster).Seated g := ⟨by simp, List.nodup_nil, by simp [linkIds]⟩
  have hcutting : Cutting g s.overlays := by
    refine Roster.Seated.cutting hsound hstops (Roster.genuine_afterRounds hgenuine _) ?_
    apply hseated.afterRounds hsound hstops
    intro round hround
    obtain ⟨_, -, rfl⟩ := List.mem_map.1 hround
    rfl
  refine ⟨fun o ho v x parent side hx hkind => ?_, fun mode u v n => ?_⟩
  · obtain ⟨number, location, halves, hh, hserial, hin, hout⟩ := hcutting.exists_cut ho hx hkind
    have hlive := (hsound.edge?_eq_some_iff.1 (halve_eq_ok hh).1).1
    exact ⟨halves.parent, hlive, hserial, inboundPart v halves, outboundPart v halves, hin, hout,
      rfl, rfl, rfl, rfl, rfl, rfl, (makeUp_of_halve hh v).length⟩
  · exact (hcutting.splices hsound).isShortestAlong_iff mode u v n

end StreetLinking.Fleet
