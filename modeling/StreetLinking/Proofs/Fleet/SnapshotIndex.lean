import StreetLinking.Proofs.Fleet.Reconciliation
import StreetLinking.Proofs.Linking.Accessible
import StreetLinking.Proofs.Linking.TrivialPaths
/-!
# What a snapshot lists

A snapshot lists the keys of the linked entities, and for every street vertex the keys of those that
attach to it. Both lists are made by going through the roster. Main statement: after any
reconciliations, each of them perhaps with other settings and another street graph, they are in
order of keys and just right for the edges that the overlays hold, the overlays come in that order,
and every linked entity is listed at a vertex from which it can be reached and at one that can be
reached from it.
-/

namespace StreetLinking.Temporary

namespace Overlay

variable {α : Type}

theorem meets_of_walks_from {o : Overlay α} {v : Nat} {r : VertexRef} {path : List (TempEdge α)}
    (hr : r ≠ .permanent v) (h : Walks o (.permanent v) path r) : o.Meets v := by
  generalize hs : VertexRef.permanent v = s at h
  cases h with
  | nil => exact absurd hs.symm hr
  | cons hedge _ => exact ⟨_, hedge, Or.inl hs.symm⟩

theorem meets_of_walks_to {o : Overlay α} {v : Nat} {r : VertexRef} {path : List (TempEdge α)}
    (hr : r ≠ .permanent v) (h : Walks o r path (.permanent v)) : o.Meets v := by
  generalize hs : VertexRef.permanent v = s at h
  induction h with
  | nil r => exact absurd hs.symm hr
  | @cons e rest last hedge hrest ih =>
    by_cases htarget : e.target = .permanent v
    · exact ⟨e, hedge, Or.inr htarget⟩
    · exact ih htarget hs

end Overlay

end StreetLinking.Temporary

namespace StreetLinking.Fleet

open Street Temporary Linking

/-! ## The index of vertices -/

namespace VertexIndex

theorem get_foldl_push (key : Key) {vertices : List Nat} (h : vertices.Nodup)
    (index : VertexIndex) (v : Nat) :
    VertexTable.get (vertices.foldl (fun index w => VertexTable.push key w index) index) v =
      index.get v ++ if v ∈ vertices then [key] else [] := by
  induction vertices generalizing index with
  | nil => simp
  | cons w rest ih =>
    obtain ⟨hnew, hrest⟩ := List.nodup_cons.1 h
    rw [List.foldl_cons, ih hrest, VertexTable.get_push, List.append_assoc]
    by_cases hsame : v = w
    · have hout : v ∉ rest := hsame ▸ hnew
      simp [hsame, hsame ▸ hout]
    · simp [hsame]

def attachedAt (tracked : List Tracked) (v : Nat) : List Tracked :=
  tracked.filter fun t => t.streetVertices.contains v

theorem get_foldl_enterEntity {tracked : List Tracked}
    (h : ∀ t ∈ tracked, t.streetVertices.Nodup) (index : VertexIndex) (v : Nat) :
    VertexTable.get (tracked.foldl enterEntity index) v =
      index.get v ++ (attachedAt tracked v).map (·.key) := by
  induction tracked generalizing index with
  | nil => exact (List.append_nil _).symm
  | cons t rest ih =>
    obtain ⟨hfirst, hrest⟩ := List.forall_mem_cons.1 h
    rw [List.foldl_cons, ih hrest, enterEntity, get_foldl_push t.key hfirst, List.append_assoc]
    unfold attachedAt
    rw [List.filter_cons]
    by_cases hthere : v ∈ t.streetVertices <;> simp [hthere]

theorem get_sorted (index : VertexIndex) (v : Nat) :
    VertexTable.get (index.map fun entry => (entry.1, Key.sort entry.2)) v =
      Key.sort (index.get v) := by
  induction index with
  | nil => exact List.mergeSort_nil.symm
  | cons entry rest ih =>
    obtain ⟨w, keys⟩ := entry
    rw [List.map_cons, VertexTable.get_cons, VertexTable.get_cons, ih]
    split <;> rfl

end VertexIndex

theorem sort_eq {keys keys' : List Key} (h : Increasing keys) (hperm : keys'.Perm keys) :
    Key.sort keys' = keys := by
  have hsorted : Increasing (Key.sort keys') := by
    have hnodup : (keys'.map id).Nodup := by
      rw [List.map_id]
      exact hperm.nodup_iff.2 h.nodup
    have hincreasing := increasing_mergeSort id hnodup
    rwa [List.map_id] at hincreasing
  refine eq_of_increasing id (by rwa [List.map_id]) (by rwa [List.map_id]) fun key => ?_
  rw [Key.sort, List.mem_mergeSort]
  exact hperm.mem_iff

open VertexIndex in
theorem get_ofTracked {tracked tracked' : List Tracked}
    (h : Increasing (tracked.map (·.key))) (hperm : tracked'.Perm tracked)
    (hvertices : ∀ t ∈ tracked, t.streetVertices.Nodup) (v : Nat) :
    (ofTracked tracked').get v = (attachedAt tracked v).map (·.key) := by
  have hvertices' : ∀ t ∈ tracked', t.streetVertices.Nodup :=
    fun t ht => hvertices t (hperm.mem_iff.1 ht)
  rw [ofTracked, get_sorted, get_foldl_enterEntity hvertices']
  exact sort_eq (h.sublist (List.filter_sublist.map _)) ((hperm.filter _).map _)

/-! ## Reconciliations -/

/-- A report, with the settings and the street graph to link new entities with. -/
structure Round where
  settings : Settings
  streets : Streets Float
  report : List Descriptor

namespace Roster

def afterRounds (r : Roster) (rounds : List Round) : Roster :=
  rounds.foldl (fun r round => (r.update round.settings round.streets round.report).2) r

/-- The keys increase, and every link is what linking its entity has given. -/
structure Genuine (r : Roster) : Prop where
  keys : Increasing (r.tracked.map (·.key))
  links : ∀ t ∈ r.tracked, ∃ settings g id,
    t.link = linkDescriptor settings g id t.descriptor

theorem Genuine.update {r : Roster} (h : r.Genuine) (round : Round) :
    (r.update round.settings round.streets round.report).2.Genuine where
  keys := increasing_update round.settings round.streets r h.keys round.report
  links := by
    intro t ht
    rcases (mem_tracked_update round.settings round.streets r).1 ht with ⟨hold, -⟩ | hnew
    · exact h.links t hold
    · obtain ⟨-, id, hlink⟩ := mem_trackFrom round.settings round.streets hnew
      exact ⟨round.settings, round.streets, id, hlink⟩

theorem genuine_afterRounds {r : Roster} (h : r.Genuine) (rounds : List Round) :
    (r.afterRounds rounds).Genuine := by
  induction rounds generalizing r with
  | nil => exact h
  | cons round rest ih => exact ih (h.update round)

theorem find?_eq_some_iff {r : Roster} (h : (r.tracked.map (·.key)).Nodup) {key : Key}
    {t : Tracked} : r.find? key = some t ↔ t ∈ r.tracked ∧ t.key = key := by
  constructor
  · intro hfound
    exact ⟨List.mem_of_find?_eq_some hfound, by simpa using List.find?_some hfound⟩
  · rintro ⟨ht, rfl⟩
    exact find?_eq_some h ht

end Roster

/-! ## Links of entities -/

theorem isSearchEnd_role (d : Descriptor) : d.kind.role.isSearchEnd = false := by
  cases d.kind <;> rfl

theorem accessible_of_linkDescriptor {settings : Settings} {g : Streets Float} {id : OverlayId}
    {d : Descriptor} {l : EntityLink} (h : linkDescriptor settings g id d = some l) :
    Accessible l.overlay d.kind.role (.temporary l.vertex) := by
  obtain ⟨hanswer, rfl⟩ := linkDescriptor_eq_some_iff.1 h
  exact accessible_linkGuest settings g hanswer

/-- Without a gate nothing is refused, so only the lack of edges to link to is left. -/
theorem answer_linkGuest_without_gate {g : Streets Float} (hreached : Reached g)
    (settings : Settings) {guest : Guest Float} (hend : guest.role.isSearchEnd = false)
    (mode : Mode) (o : Overlay Float) :
    (linkGuest settings g guest mode ⟨o, none⟩).answer =
      .ok (!(targets settings g guest.position mode).isEmpty) := by
  have hall := answer_attachAllIn hreached.sound settings guest
    (fun _ hn => hreached.exists_edge?_of_mem_targets settings guest.position mode hn)
    (hreached.nodup_targets settings guest.position mode) ⟨o, none⟩
  have hfree : refusal? settings g guest.position ⟨o, none⟩
      ((targets settings g guest.position mode).map (·.item.number)) = none := by
    refine List.find?_eq_none.2 fun n _ => ?_
    simp [Draft.isCut]
  rw [hfree] at hall
  unfold linkGuest
  unfold targets at hall ⊢
  split
  · next hnone =>
    rw [hnone, hend]
    rfl
  · next hsome =>
    rw [List.isEmpty_eq_false_iff.2 hsome]
    exact Outcome.andThen_answer_eq_ok_iff.2 ⟨(), hall, rfl⟩

theorem exists_linkDescriptor_iff {g : Streets Float} (hreached : Reached g) (settings : Settings)
    (id : OverlayId) (d : Descriptor) :
    (∃ l, linkDescriptor settings g id d = some l) ↔
      targets settings g d.position d.kind.linkingMode ≠ [] := by
  have hrole : (entityGuest id d).role.isSearchEnd = false := isSearchEnd_role d
  have hanswer := answer_linkGuest_without_gate hreached settings hrole d.kind.linkingMode
    (entityOverlay id d)
  simp only [linkDescriptor_eq_some_iff, hanswer, Except.ok.injEq, Bool.not_eq_true',
    List.isEmpty_eq_false_iff]
  simp [entityGuest]

/-! ## Snapshots -/

namespace Roster

variable {r : Roster}

theorem Genuine.streetVertices_eq (h : r.Genuine) {t : Tracked} (ht : t ∈ r.tracked)
    {l : EntityLink} (hlink : t.link = some l) : l.streetVertices = l.overlay.streetVertices := by
  obtain ⟨settings, g, id, horigin⟩ := h.links t ht
  exact (registered_linkDescriptor (horigin.symm.trans hlink)).2

theorem Genuine.nodup_streetVertices (h : r.Genuine) {t : Tracked} (ht : t ∈ r.tracked) :
    t.streetVertices.Nodup := by
  unfold Tracked.streetVertices
  split
  · next l hlink =>
    rw [h.streetVertices_eq ht hlink]
    exact l.overlay.pairwise_streetVertices.imp Nat.ne_of_lt
  · exact List.nodup_nil

theorem Genuine.mem_streetVertices (h : r.Genuine) {t : Tracked} (ht : t ∈ r.tracked) {v : Nat} :
    v ∈ t.streetVertices ↔ ∃ l, t.link = some l ∧ l.overlay.Meets v := by
  unfold Tracked.streetVertices
  split
  · next l hlink => simp [h.streetVertices_eq ht hlink, Overlay.mem_streetVertices, hlink]
  · next hnone => simp [hnone]

theorem entitiesAt_snapshot (h : r.Genuine) (v : Nat) :
    r.snapshot.entitiesAt v = (VertexIndex.attachedAt r.tracked v).map (·.key) :=
  get_ofTracked h.keys (List.Perm.refl _) (fun _ => h.nodup_streetVertices) v

theorem linkedKeys_snapshot (h : r.Genuine) :
    r.snapshot.linkedKeys = (r.tracked.filter (·.isLinked)).map (·.key) :=
  sort_eq (h.keys.sublist (List.filter_sublist.map _)) (List.Perm.refl _)

theorem mem_entitiesAt (h : r.Genuine) {v : Nat} {key : Key} :
    key ∈ r.snapshot.entitiesAt v ↔
      ∃ t l, r.find? key = some t ∧ t.link = some l ∧ l.overlay.Meets v := by
  rw [entitiesAt_snapshot h, VertexIndex.attachedAt, List.mem_map]
  constructor
  · rintro ⟨t, ht, rfl⟩
    obtain ⟨hmem, hthere⟩ := List.mem_filter.1 ht
    obtain ⟨l, hlink, hmeets⟩ := (h.mem_streetVertices hmem).1 (by simpa using hthere)
    exact ⟨t, l, find?_eq_some h.keys.nodup hmem, hlink, hmeets⟩
  · rintro ⟨t, l, hfound, hlink, hmeets⟩
    obtain ⟨hmem, hkey⟩ := (find?_eq_some_iff h.keys.nodup).1 hfound
    have hthere := (h.mem_streetVertices hmem).2 ⟨l, hlink, hmeets⟩
    exact ⟨t, List.mem_filter.2 ⟨hmem, by simpa using hthere⟩, hkey⟩

theorem mem_linkedKeys (h : r.Genuine) {key : Key} :
    key ∈ r.snapshot.linkedKeys ↔ ∃ t l, r.find? key = some t ∧ t.link = some l := by
  rw [linkedKeys_snapshot h, List.mem_map]
  constructor
  · rintro ⟨t, ht, rfl⟩
    obtain ⟨hmem, hlinked⟩ := List.mem_filter.1 ht
    obtain ⟨l, hlink⟩ := Option.isSome_iff_exists.1 hlinked
    exact ⟨t, l, find?_eq_some h.keys.nodup hmem, hlink⟩
  · rintro ⟨t, l, hfound, hlink⟩
    obtain ⟨hmem, hkey⟩ := (find?_eq_some_iff h.keys.nodup).1 hfound
    exact ⟨t, List.mem_filter.2 ⟨hmem, Option.isSome_iff_exists.2 ⟨l, hlink⟩⟩, hkey⟩

theorem overlays_snapshot (h : r.Genuine) :
    r.snapshot.overlays.map some =
      r.snapshot.linkedKeys.map fun key => ((r.find? key).bind (·.link)).map (·.overlay) := by
  show (r.snapshot.linkedKeys.filterMap fun key =>
    ((r.find? key).bind (·.link)).map (·.overlay)).map some = _
  have hall : ∀ key ∈ r.snapshot.linkedKeys,
      (((r.find? key).bind (·.link)).map (·.overlay)).isSome = true := by
    intro key hkey
    obtain ⟨t, l, hfound, hlink⟩ := (mem_linkedKeys h).1 hkey
    simp [hfound, hlink]
  generalize r.snapshot.linkedKeys = keys at hall ⊢
  induction keys with
  | nil => rfl
  | cons key rest ih =>
    obtain ⟨o, ho⟩ := Option.isSome_iff_exists.1 (hall key List.mem_cons_self)
    rw [List.filterMap_cons, ho, List.map_cons, List.map_cons, ho,
      ih fun k hk => hall k (List.mem_cons_of_mem _ hk)]

theorem accessible_of_find? (h : r.Genuine) {key : Key} {t : Tracked} {l : EntityLink}
    (hfound : r.find? key = some t) (hlink : t.link = some l) :
    Accessible l.overlay t.descriptor.kind.role (.temporary l.vertex) := by
  obtain ⟨hmem, -⟩ := (find?_eq_some_iff h.keys.nodup).1 hfound
  obtain ⟨settings, g, id, horigin⟩ := h.links t hmem
  exact accessible_of_linkDescriptor (horigin.symm.trans hlink)

end Roster

/-- After any reconciliations the snapshot lists at every street vertex, in order of keys, just the
linked entities whose overlays have an edge there, whatever the order in which it goes through the
roster; its overlays are those of the linked entities, in order of keys; and from every linked
entity one gets to a vertex where it is listed, and from such a vertex to the entity. -/
theorem snapshot_lists_exactly (owner : Nat) (rounds : List Round) :
    let r := Roster.afterRounds { owner } rounds
    let s := r.snapshot
    (∀ v, Increasing (s.entitiesAt v) ∧
      (∀ key, key ∈ s.entitiesAt v ↔
        ∃ t l, r.find? key = some t ∧ t.link = some l ∧ l.overlay.Meets v) ∧
      ∀ tracked : List Tracked, tracked.Perm r.tracked →
        (VertexIndex.ofTracked tracked).get v = s.entitiesAt v) ∧
    (Increasing s.linkedKeys ∧
      (∀ key, key ∈ s.linkedKeys ↔ ∃ t l, r.find? key = some t ∧ t.link = some l) ∧
      s.overlays.map some =
        s.linkedKeys.map fun key => ((r.find? key).bind (·.link)).map (·.overlay)) ∧
    ∀ key t l, r.find? key = some t → t.link = some l →
      (∃ v path, key ∈ s.entitiesAt v ∧ path.length ≤ 2 ∧
        Walks l.overlay (.permanent v) path (.temporary l.vertex)) ∧
      ∃ v path, key ∈ s.entitiesAt v ∧ path.length ≤ 2 ∧
        Walks l.overlay (.temporary l.vertex) path (.permanent v) := by
  intro r s
  have hempty : (⟨owner, [], 0, 0⟩ : Roster).Genuine := ⟨List.Pairwise.nil, by simp⟩
  have hr : r.Genuine := Roster.genuine_afterRounds hempty rounds
  refine ⟨fun v => ⟨?_, fun key => Roster.mem_entitiesAt hr, fun tracked hperm => ?_⟩,
    ⟨?_, fun key => Roster.mem_linkedKeys hr, Roster.overlays_snapshot hr⟩, ?_⟩
  · show Increasing (r.snapshot.entitiesAt v)
    rw [Roster.entitiesAt_snapshot hr]
    exact hr.keys.sublist (List.filter_sublist.map _)
  · exact (get_ofTracked hr.keys hperm (fun _ => hr.nodup_streetVertices) v).trans
      (Roster.entitiesAt_snapshot hr v).symm
  · show Increasing r.snapshot.linkedKeys
    rw [Roster.linkedKeys_snapshot hr]
    exact hr.keys.sublist (List.filter_sublist.map _)
  · intro key t l hfound hlink
    have haccess := Roster.accessible_of_find? hr hfound hlink
    have hdirection : t.descriptor.kind.role.connector.direction = .both := by
      cases t.descriptor.kind <;> rfl
    constructor
    · obtain ⟨path, v, hlength, hwalk⟩ := haccess.arrives (by rw [hdirection]; rfl)
      have hmeets := Overlay.meets_of_walks_from (by simp) hwalk
      exact ⟨v, path, (Roster.mem_entitiesAt hr).2 ⟨t, l, hfound, hlink, hmeets⟩, hlength, hwalk⟩
    · obtain ⟨path, v, hlength, hwalk⟩ := haccess.leaves (by rw [hdirection]; rfl)
      have hmeets := Overlay.meets_of_walks_to (by simp) hwalk
      exact ⟨v, path, (Roster.mem_entitiesAt hr).2 ⟨t, l, hfound, hlink, hmeets⟩, hlength, hwalk⟩

/-! ## A station half way along a street -/

def halfwayStation : Descriptor :=
  .bikeStation ⟨"city", "station 2"⟩ "Half way" 10 ⟨0.0, 0.5⟩

theorem snapshot_lists_exactly_halfway :
    let r := Roster.afterRounds { owner := 0 }
      [⟨onTheSpot, run .empty meridian, [halfwayStation]⟩]
    ∃ t l, r.find? halfwayStation.key = some t ∧ t.link = some l ∧
      (∃ v path, halfwayStation.key ∈ r.snapshot.entitiesAt v ∧ path.length ≤ 2 ∧
        Walks l.overlay (.permanent v) path (.temporary l.vertex)) ∧
      ∃ v path, halfwayStation.key ∈ r.snapshot.entitiesAt v ∧ path.length ≤ 2 ∧
        Walks l.overlay (.temporary l.vertex) path (.permanent v) := by
  intro r
  obtain ⟨-, -, hwalks⟩ := snapshot_lists_exactly 0
    [⟨onTheSpot, run .empty meridian, [halfwayStation]⟩]
  have hlink : ∃ t l, r.find? halfwayStation.key = some t ∧ t.link = some l := by
    have htargets : targets onTheSpot (run .empty meridian) ⟨0.0, 0.5⟩ .walk ≠ [] := by
      rw [targets_meridian (Or.inr (Or.inr rfl))]
      exact List.cons_ne_nil _ _
    obtain ⟨l, hl⟩ := (exists_linkDescriptor_iff (reached_run meridian) onTheSpot ⟨0, 0⟩
      halfwayStation).2 htargets
    have htracked : r.tracked = [⟨halfwayStation,
        linkDescriptor onTheSpot (run .empty meridian) ⟨0, 0⟩ halfwayStation⟩] := by
      show List.mergeSort _ _ = _
      have harrivals : ({ owner := 0 } : Roster).arrivals [halfwayStation] = [halfwayStation] :=
        List.mergeSort_singleton _
      simp [Roster.trackFrom, harrivals]
    refine ⟨⟨halfwayStation, _⟩, l, ?_, hl⟩
    rw [Roster.find?, htracked]
    exact List.find?_cons_of_pos (beq_self_eq_true _)
  obtain ⟨t, l, hfound, hlink⟩ := hlink
  exact ⟨t, l, hfound, hlink, hwalks _ t l hfound hlink⟩

end StreetLinking.Fleet
