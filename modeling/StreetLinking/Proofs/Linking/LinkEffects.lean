import StreetLinking.Proofs.Linking.LinkSteps
/-!
# What one call of linking does to the street graph

The vertex that is linked gets the connectors that it lacks with the ends to which it attaches and
with the vertices at which edges are split, however often one of them is met. Main statement: a call
of linking does to the graph just what can be read off the graph before, and nothing else.
-/

namespace StreetLinking.Linking

open Number Plane Street Streets Nearest

variable {α : Type} [Scalar α]

/-! ## Connectors in the graph -/

namespace Effects

variable {settings : Settings} {role : Role} {notes : List Annotation} {g g₁ : Streets α}
  {pieces : List (Piece α)} {joins crossings : List (Edge α)}
  (h : Effects settings role notes g pieces joins crossings g₁) (hsound : Sound g)

include h hsound

theorem whole_of_connector {e : Edge α} (he : e ∈ g.edges) {kind : ConnectorKind}
    (hkind : e.kind = .connector kind) : e.number ∉ pieces.map (·.halves.parent.number) := by
  intro hcut
  obtain ⟨p, hp, hnumber⟩ := List.mem_map.1 hcut
  have hpiece := h.cuts p hp
  have hopen := hpiece.isLinkable
  rw [hsound.number_inj hpiece.parent_mem he hnumber, hkind] at hopen
  cases hopen

theorem connects_iff {source target : Nat} :
    g₁.connects source target (· == .connector role.connector.kind) = true ↔
      g.connects source target (· == .connector role.connector.kind) = true ∨
        ∃ e ∈ joins, e.source = source ∧ e.target = target := by
  simp only [connects, outgoing, List.any_eq_true, List.mem_filter, Bool.and_eq_true, beq_iff_eq]
  constructor
  · rintro ⟨e, ⟨he, hsource⟩, htarget, hkind⟩
    rcases h.mem_edges_iff.1 he with ⟨p, hp, hhalf⟩ | (hjoin | hcross) | ⟨hold, -⟩
    · have hpiece := h.cuts p hp
      have hopen := hpiece.isLinkable
      have hparent : p.halves.parent.kind = e.kind := by
        rcases hhalf with rfl | rfl
        · exact hpiece.kinds.1.symm
        · exact hpiece.kinds.2.symm
      rw [hparent, hkind] at hopen
      cases hopen
    · exact Or.inr ⟨e, hjoin, hsource, htarget⟩
    · cases hkind.symm.trans (h.crossed e hcross).kind
    · exact Or.inl ⟨e, ⟨hold, hsource⟩, htarget, hkind⟩
  · rintro (⟨e, ⟨he, hsource⟩, htarget, hkind⟩ | ⟨e, he, hsource, htarget⟩)
    · have hwhole := h.whole_of_connector hsound he hkind
      exact ⟨e, ⟨h.mem_edges_iff.2 (Or.inr (Or.inr ⟨he, hwhole⟩)), hsource⟩, htarget, hkind⟩
    · exact ⟨e, ⟨h.mem_edges_iff.2 (Or.inr (Or.inl (Or.inl he))), hsource⟩, htarget,
        h.joined e he⟩

end Effects

/-! ## Connectors that are missing -/

/-- The vertex `v` is joined with some vertices by just the connectors that the graph lacks, once in
each direction. -/
structure JoinsMissing (g : Streets α) (v : Nat) (x : Vertex α) (role : Role)
    (joint : Nat → Vertex α → Prop) (joins : List (Edge α)) : Prop where
  mem_iff : ∀ c, c ∈ joins.map Edge.place ↔
    (∃ w b, joint w b ∧ c ∈ connectors (v, x) (w, b) role) ∧
      g.connects c.1 c.2.1 (· == .connector role.connector.kind) = false
  distinct : (joins.map fun e => (e.source, e.target)).Nodup

theorem JoinsMissing.congr {g : Streets α} {v : Nat} {x : Vertex α} {role : Role}
    {joint joint' : Nat → Vertex α → Prop} {joins : List (Edge α)}
    (h : JoinsMissing g v x role joint joins) (hsame : ∀ w b, joint' w b ↔ joint w b) :
    JoinsMissing g v x role joint' joins :=
  ⟨fun c => by simp only [hsame, h.mem_iff], h.distinct⟩

theorem eq_of_mem_connectors {v w w' : Nat} {x b : Vertex α} {role : Role} (hw : w ≠ v)
    (hw' : w' ≠ v) {c : Nat × Nat × EdgeData α} (hc : c ∈ connectors (v, x) (w, b) role)
    {b' : Vertex α} {c' : Nat × Nat × EdgeData α} (hc' : c' ∈ connectors (v, x) (w', b') role)
    (hends : (c.1, c.2.1) = (c'.1, c'.2.1)) (hsame : w = w' → b = b') : w = w' ∧ c = c' := by
  have heq : w = w' := by
    rw [Prod.mk.injEq] at hends
    obtain ⟨-, ⟨hsource, htarget⟩ | ⟨hsource, htarget⟩⟩ := kind_of_mem_connectors hc <;>
      obtain ⟨-, ⟨hsource', htarget'⟩ | ⟨hsource', htarget'⟩⟩ := kind_of_mem_connectors hc'
    · exact htarget.symm.trans (hends.2.trans htarget')
    · exact absurd (hsource'.symm.trans (hends.1.symm.trans hsource)) hw'
    · exact absurd (hsource.symm.trans (hends.1.trans hsource')) hw
    · exact hsource.symm.trans (hends.1.trans hsource')
  subst heq
  obtain rfl := hsame rfl
  exact ⟨rfl, List.inj_on_of_nodup_map (nodup_connectors hw.symm role) hc hc' hends⟩

namespace Connects

variable {entity street : Nat × Vertex α} {role : Role} {added : List (Edge α)}
  {g g' : Streets α} (h : Connects entity street role added g g') (hne : entity.1 ≠ street.1)

include h hne

theorem mem_places_iff {c : Nat × Nat × EdgeData α} :
    c ∈ added.map Edge.place ↔ c ∈ connectors entity street role ∧
      g.connects c.1 c.2.1 (· == .connector role.connector.kind) = false := by
  have hmissing := h.missing hne
  rw [List.map_reverse] at hmissing
  rw [← List.mem_reverse, hmissing, List.mem_filter, Bool.not_eq_true']

theorem distinct : (added.map fun e => (e.source, e.target)).Nodup := by
  have hways := nodup_connectors hne role
  have hsub := (List.filter_sublist (l := connectors entity street role)
    (p := fun c => !g.connects c.1 c.2.1 (· == .connector role.connector.kind))).map
      fun c => (c.1, c.2.1)
  rw [← h.missing hne, List.map_map, List.map_reverse] at hsub
  exact List.nodup_reverse.1 (hways.sublist hsub)

end Connects

theorem JoinsMissing.connect {settings : Settings} {role : Role} {notes : List Annotation}
    {g g₁ g₂ : Streets α} {pieces : List (Piece α)} {joins crossings added : List (Edge α)}
    {v w : Nat} {x b : Vertex α} {joint : Nat → Vertex α → Prop}
    (h : JoinsMissing g v x role joint joins)
    (heffects : Effects settings role notes g pieces joins crossings g₁) (hsound : Sound g)
    (hjoint : ∀ w b, joint w b → g₁.vertex? w = some b ∧ w ≠ v)
    (hw : g₁.vertex? w = some b) (hne : w ≠ v)
    (hconnects : Connects (v, x) (w, b) role added g₁ g₂) :
    JoinsMissing g v x role (fun w' b' => joint w' b' ∨ w' = w ∧ b' = b) (joins ++ added) := by
  refine ⟨fun c => ?_, ?_⟩
  · rw [List.map_append, List.mem_append, hconnects.mem_places_iff hne.symm]
    constructor
    · rintro (hc | ⟨hc, hfree⟩)
      · obtain ⟨⟨w', b', hw', hc⟩, hfree⟩ := (h.mem_iff c).1 hc
        exact ⟨⟨w', b', Or.inl hw', hc⟩, hfree⟩
      · refine ⟨⟨w, b, Or.inr ⟨rfl, rfl⟩, hc⟩, Bool.eq_false_iff.2 fun hthere => ?_⟩
        exact Bool.eq_false_iff.1 hfree ((heffects.connects_iff hsound).2 (Or.inl hthere))
    · rintro ⟨⟨w', b', hw' | ⟨rfl, rfl⟩, hc⟩, hfree⟩
      · exact Or.inl ((h.mem_iff c).2 ⟨⟨w', b', hw', hc⟩, hfree⟩)
      · by_cases hthere : g₁.connects c.1 c.2.1 (· == .connector role.connector.kind) = true
        · -- the way was taken when the vertex was met before
          obtain hold | ⟨e, he, hsource, htarget⟩ := (heffects.connects_iff hsound).1 hthere
          · exact absurd hold (Bool.eq_false_iff.1 hfree)
          · have hplace := List.mem_map_of_mem (f := Edge.place) he
            obtain ⟨⟨w'', b'', hw'', hc''⟩, -⟩ := (h.mem_iff e.place).1 hplace
            obtain ⟨hb'', hne''⟩ := hjoint w'' b'' hw''
            have hends : (c.1, c.2.1) = (e.place.1, e.place.2.1) := by
              rw [← hsource, ← htarget]
              rfl
            obtain ⟨-, heq⟩ := eq_of_mem_connectors hne hne'' hc hc'' hends fun hsame =>
              Option.some.inj (hw.symm.trans (hsame ▸ hb''))
            exact Or.inl (heq ▸ hplace)
        · exact Or.inr ⟨hc, Bool.eq_false_iff.2 hthere⟩
  · rw [List.map_append, List.nodup_append]
    refine ⟨h.distinct, hconnects.distinct hne.symm, fun c hc c' hc' hsame => ?_⟩
    obtain ⟨e, he, rfl⟩ := List.mem_map.1 hc
    obtain ⟨d, hd, rfl⟩ := List.mem_map.1 hc'
    rw [Prod.mk.injEq] at hsame
    have hfree := ((hconnects.mem_places_iff hne.symm).1 (List.mem_map_of_mem hd)).2
    exact Bool.eq_false_iff.1 hfree
      ((heffects.connects_iff hsound).2 (Or.inr ⟨e, he, hsame.1, hsame.2⟩))

/-! ## Where a vertex is connected -/

/-- The linked vertex attaches to an end of an edge that it uses, or to the vertex of a piece. -/
def AttachesAt (g : Streets α) (uses : List (Use α)) (pieces : List (Piece α)) (w : Nat)
    (b : Vertex α) : Prop :=
  (∃ u ∈ uses, u.attachment = .endpoint w) ∧ g.vertex? w = some b ∨
    ∃ p ∈ pieces, p.vertex = w ∧ splitVertex p.halves = b

omit [Scalar α] in
theorem attachesAt_endpoint {g : Streets α} {uses : List (Use α)} {pieces : List (Piece α)}
    {w : Nat} {b : Vertex α} (hw : g.vertex? w = some b) (e : Edge α) (w' : Nat) (b' : Vertex α) :
    AttachesAt g (uses ++ [⟨e, .endpoint w⟩]) pieces w' b' ↔
      AttachesAt g uses pieces w' b' ∨ w' = w ∧ b' = b := by
  have hlast : (∃ u ∈ uses ++ [⟨e, .endpoint w⟩], u.attachment = .endpoint w') ↔
      (∃ u ∈ uses, u.attachment = .endpoint w') ∨ w' = w := by
    simp [or_and_right, exists_or, eq_comm]
  unfold AttachesAt
  rw [hlast]
  constructor
  · rintro (⟨hold | rfl, hb⟩ | hpiece)
    · exact Or.inl (Or.inl ⟨hold, hb⟩)
    · exact Or.inr ⟨rfl, Option.some.inj (hb.symm.trans hw)⟩
    · exact Or.inl (Or.inr hpiece)
  · rintro ((⟨hold, hb⟩ | hpiece) | ⟨rfl, rfl⟩)
    · exact Or.inl ⟨Or.inl hold, hb⟩
    · exact Or.inr hpiece
    · exact Or.inl ⟨Or.inr rfl, hw⟩

omit [Scalar α] in
theorem attachesAt_cut (g : Streets α) (uses : List (Use α)) (pieces : List (Piece α)) (e : Edge α)
    (location : Location α) (p : Piece α) (w : Nat) (b : Vertex α) :
    AttachesAt g (uses ++ [⟨e, .cut location⟩]) (pieces ++ [p]) w b ↔
      AttachesAt g uses pieces w b ∨ w = p.vertex ∧ b = splitVertex p.halves := by
  simp [AttachesAt, or_and_right, exists_or, or_assoc, eq_comm]

/-- If no street or area begins or ends at the linked vertex, it gets just the connectors that it
lacks with each vertex that it attaches to. -/
theorem Links.joinsMissing {settings : Settings} {v : Nat} {x : Vertex α} {role : Role}
    {g start g₁ : Streets α} {done : List (Use α)} {pieces : List (Piece α)}
    {joins crossings : List (Edge α)}
    (h : Links settings v x role g start done pieces joins crossings g₁) (hsound : Sound g)
    {notes : List Annotation} (hstart : start = { g with annotations := g.annotations ++ notes })
    (hx : g.vertex? v = some x)
    (hapart : ∀ e ∈ g.edges, e.kind.isLinkable = true → e.source ≠ v ∧ e.target ≠ v) :
    (∀ w b, AttachesAt g done pieces w b → w ≠ v) ∧
      JoinsMissing g v x role (AttachesAt g done pieces) joins := by
  have hlt : v < g.vertices.size := (Array.getElem?_eq_some_iff.1 hx).1
  have hthere {done : List (Use α)} {pieces pieces' : List (Piece α)}
      {joins crossings : List (Edge α)} {g₁ : Streets α}
      (heffects : Effects settings role notes g pieces' joins crossings g₁)
      (hsub : ∀ p ∈ pieces, p ∈ pieces') {w : Nat} {b : Vertex α}
      (hjoint : AttachesAt g done pieces w b) : g₁.vertex? w = some b := by
    rcases hjoint with ⟨-, hb⟩ | ⟨p, hp, rfl, rfl⟩
    · exact vertex?_mono heffects.vertices_prefix hb
    · exact heffects.vertex?_of_mem (hsub p hp)
  -- by induction on the edges that are used; each meets a vertex other than `v`
  induction h with
  | start => exact ⟨by simp [AttachesAt], by simp [AttachesAt], by simp⟩
  | @endpoint done pieces joins crossings added g₁ e w b hlinks hlive hopen hend hw hconnects ih =>
    obtain ⟨hne, hmissing⟩ := ih
    have heffects := hlinks.effects hsound hstart
    have hother : w ≠ v := by
      obtain ⟨hsource, htarget⟩ := hapart e hlive hopen
      rcases hend with rfl | rfl
      · exact hsource
      · exact htarget
    refine ⟨fun w' b' hjoint => ?_, .congr ?_ (attachesAt_endpoint hw e)⟩
    · rcases (attachesAt_endpoint hw e w' b').1 hjoint with hold | ⟨rfl, -⟩
      · exact hne w' b' hold
      · exact hother
    · exact hmissing.connect heffects hsound
        (fun w' b' hold => ⟨hthere heffects (fun p hp => hp) hold, hne w' b' hold⟩)
        (vertex?_mono heffects.vertices_prefix hw) hother hconnects
  | @cut done pieces joins crossings added new g₁ g₂ location halves first second hlinks hlive
      hopen hwhole hhalve hcleaves hfills hconnects ih =>
    obtain ⟨hne, hmissing⟩ := ih
    have heffects := (hlinks.effects hsound hstart).split hsound hlive hopen hwhole hhalve hcleaves
      hfills
    have hlast := List.mem_append_right pieces
      (List.mem_singleton_self (⟨halves, g₁.vertices.size, first, second⟩ : Piece α))
    have hother : g₁.vertices.size ≠ v := by
      have hle := (heffects.lt_of_mem_pieces hlast).1
      exact (Nat.lt_of_lt_of_le hlt hle).ne'
    refine ⟨fun w' b' hjoint => ?_,
      .congr ?_ (attachesAt_cut g done pieces halves.parent location _)⟩
    · rcases (attachesAt_cut ..).1 hjoint with hold | ⟨rfl, -⟩
      · exact hne w' b' hold
      · exact hother
    · exact hmissing.connect heffects hsound
        (fun w' b' hold =>
          ⟨hthere heffects (fun p hp => List.mem_append_left _ hp) hold, hne w' b' hold⟩)
        (heffects.vertex?_of_mem hlast) hother hconnects

/-! ## A call of linking -/

theorem Effects.length_entries {settings : Settings} {role : Role} {notes : List Annotation}
    {g g₁ : Streets α} {pieces : List (Piece α)} {joins crossings : List (Edge α)}
    (h : Effects settings role notes g pieces joins crossings g₁) :
    g₁.edgeIndex.items.length = g.edgeIndex.items.length + 2 * pieces.length := by
  have hentered (ps : List (Piece α)) (hps : ∀ p ∈ ps, p ∈ pieces) :
      ((ps.flatMap fun p => [p.second, p.first]).filterMap Edge.entry?).length =
        2 * ps.length := by
    induction ps with
    | nil => rfl
    | cons p rest ih =>
      obtain ⟨hp, hrest⟩ := List.forall_mem_cons.1 hps
      have hmem (e : Edge α) (he : e = p.first ∨ e = p.second) : e ∈ g₁.edges :=
        h.mem_edges_iff.2 (Or.inl ⟨p, hp, he⟩)
      obtain ⟨a, ha⟩ := exists_entry? (h.sound.lines _ (hmem _ (Or.inl rfl)))
      obtain ⟨b, hb⟩ := exists_entry? (h.sound.lines _ (hmem _ (Or.inr rfl)))
      have hlength := ih hrest
      simp only [List.flatMap_cons, List.filterMap_append, List.length_append, hlength]
      simp only [List.filterMap_cons, ha, hb, List.filterMap_nil, List.length_cons, List.length_nil]
      omega
  rw [h.entries, List.length_append, hentered _ (fun p hp => List.mem_reverse.1 hp),
    List.length_reverse, Nat.add_comm]

/-- A call of linking never fails, and tells whether an edge is found. The edges that are found are
used as it is planned in the graph before, and just this is done to the graph: each edge that is to
be split is replaced by its halves, in its area and in the index as well, and a new vertex joins
them; the vertex gets the connectors that it lacks with the ends that it attaches to and with the
new vertices; a stop gets edges across the areas whose edges are split, if the settings ask for
them; and a stop that is far from its nearest edge is annotated. -/
theorem linking_changes_just_this (events : List (Event α)) (settings : Settings) (mode : Mode)
    {v : Nat} {x : Vertex α} {role : Role} (hstreets : OnStreets (run (.empty : Streets α) events))
    (hx : (run (.empty : Streets α) events).vertex? v = some x)
    (hrole : x.kind.role? = some role) :
    let g := run (.empty : Streets α) events
    let found := targets settings g x.position mode
    let uses := usesOf settings g x.position mode
    let linked := link settings g v mode
    uses.map (·.edge) = found.map (·.item) ∧ linked.answer = .ok (!found.isEmpty) ∧
    ∃ pieces joins crossings,
      pieces.map (·.halves.parent) = splitEdges uses ∧
      pieces.map (·.halves) = halvesOf g uses ∧
      Effects settings role (farNotes settings v x role found) g pieces joins crossings
        linked.state ∧
      JoinsMissing g v x role (AttachesAt g uses pieces) joins ∧
      linked.state.edgeIndex.items.length =
        g.edgeIndex.items.length + 2 * (splitEdges uses).length := by
  intro g found uses linked
  have hreached : Reached g := reached_run events
  obtain ⟨pieces, joins, crossings, g', hlink, hlinks⟩ :=
    hreached.exists_links settings mode hx hrole
  have hparents := hlinks.parents_eq
  have heffects := hlinks.effects hreached.sound rfl
  have hmissing := (hlinks.joinsMissing hreached.sound rfl hx fun e he hopen =>
    hstreets.apart (not_isStreet hx hrole) he hopen).2
  have hlinked : linked = .ok (!found.isEmpty) g' := hlink
  rw [hlinked]
  refine ⟨edges_usesOf hreached settings x.position mode, rfl, pieces, joins, crossings, hparents,
    hlinks.halves_eq, heffects, hmissing, ?_⟩
  rw [← hparents, List.length_map]
  exact heffects.length_entries

theorem usesOf_meridian : usesOf onTheSpot (run .empty meridian) ⟨0.0, 0.5⟩ .walk =
    [⟨meridianEdge, .cut ⟨0, 0.5⟩⟩] := by
  have hthere : OnMeridian ⟨0.0, 0.5⟩ := Or.inr (Or.inr rfl)
  have hplan : plan (run .empty meridian) meridianEdge.number ⟨0.0, 0.5⟩
      (Frame.around ⟨0.0, 0.5⟩) (Scalar.ofDouble onTheSpot.endpointSnap) =
        .ok (.cut ⟨0, 0.5⟩) := by
    have hedge : (run .empty meridian).edge? meridianEdge.number = some meridianEdge := rfl
    simp only [plan, hedge, (place_meridian hthere).2]
    exact (if_neg (by decide)).trans (if_neg (by decide))
  simp only [usesOf, targets_meridian hthere, List.filterMap_cons, hplan, List.filterMap_nil]

theorem linking_changes_just_this_on_the_meridian :
    let g := run .empty meridian
    let linked := link onTheSpot g 3 .walk
    let x : Vertex Float := ⟨.bikeRental "B", "Station", ⟨0.0, 0.5⟩⟩
    (OnStreets g ∧ g.vertex? 3 = some x ∧ x.kind.role? = some .bikeRental) ∧
      linked.answer = .ok true ∧
      ∃ pieces joins crossings, pieces.map (·.halves.parent) = [meridianEdge] ∧
        Effects onTheSpot .bikeRental [] g pieces joins crossings linked.state ∧
        JoinsMissing g 3 x .bikeRental (AttachesAt g [⟨meridianEdge, .cut ⟨0, 0.5⟩⟩] pieces) joins ∧
        linked.state.edgeIndex.items.length = 3 := by
  intro g linked x
  have htargets : targets onTheSpot g x.position .walk = [⟨meridianEdge, 0.0⟩] :=
    targets_meridian (Or.inr (Or.inr rfl))
  have huses : usesOf onTheSpot g x.position .walk = [⟨meridianEdge, .cut ⟨0, 0.5⟩⟩] :=
    usesOf_meridian
  have hx : g.vertex? 3 = some x := rfl
  have hrole : x.kind.role? = some .bikeRental := rfl
  obtain ⟨-, hanswer, pieces, joins, crossings, hparents, -, heffects, hjoins, hlength⟩ :=
    linking_changes_just_this meridian onTheSpot .walk onStreets_meridian hx hrole
  rw [htargets] at hanswer heffects
  rw [huses] at hparents hjoins hlength
  exact ⟨⟨onStreets_meridian, rfl, rfl⟩, hanswer, pieces, joins, crossings, hparents, heffects,
    hjoins, hlength⟩

end StreetLinking.Linking
