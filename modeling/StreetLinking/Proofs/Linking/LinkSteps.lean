import StreetLinking.Proofs.Linking.Agreement
import StreetLinking.Proofs.Linking.Pieces
/-!
# A vertex being linked

A vertex of the street graph is linked to its nearest edges in turn. Each of them is planned in the
graph that the edges before have left, but it is there as it was, so that the plan is the one that
is made before anything has changed. Main statement: linking goes through the edges one by one and
never fails.
-/

namespace StreetLinking.Linking

open Number Plane Street Streets Nearest

variable {α : Type} [Scalar α]

/-! ## One edge -/

theorem attach_of_endpoint {g : Streets α} {number w : Nat} {settings : Settings}
    {frame : Frame α} {entity : Entity α}
    (hplan : plan g number entity.position frame (Scalar.ofDouble settings.endpointSnap) =
      .ok (.endpoint w)) : attach settings frame entity g number = .ok w g := by
  simp only [attach, hplan]

theorem attach_of_cut {g : Streets α} {number : Nat} {settings : Settings} {frame : Frame α}
    (entity : Entity α) {location : Location α}
    (hplan : plan g number entity.position frame (Scalar.ofDouble settings.endpointSnap) =
      .ok (.cut location)) {h : Halves α} (hh : halve g number location = .ok h) :
    ∃ new g', Fills settings entity.role h g.vertices.size new (split g number location).state g' ∧
      attach settings frame entity g number = .ok g.vertices.size g' := by
  simp only [attach, hplan]
  rw [split_of_halve hh, Outcome.andThen_ok, (halve_eq_ok hh).1, Option.bind_some]
  cases hkind : h.parent.kind with
  | street => exact ⟨_, _, .skip (by simp [hkind, EdgeKind.area?]), rfl⟩
  | connector kind => exact ⟨_, _, .skip (by simp [hkind, EdgeKind.area?]), rfl⟩
  | area area =>
    simp only [EdgeKind.area?]
    split
    · next hcross =>
      obtain ⟨hstop, hoption⟩ := Bool.and_eq_true_iff.1 hcross
      obtain ⟨new, hcrosses, -⟩ :=
        exists_crosses (split g number location).state g.vertices.size area
      exact ⟨new, _, .cross (beq_iff_eq.1 hstop) hoption hkind hcrosses, rfl⟩
    · next hskip =>
      refine ⟨_, _, .skip fun _ hcross => hskip ?_, rfl⟩
      rw [hcross.1, hcross.2]
      rfl

/-! ## One edge after the other -/

/-- A vertex is linked to edges in turn, each of which it uses as it was planned in the graph `g`.
In the graph that this leads to, the pieces tell which edges have been split; the connectors that
were added and the edges across areas are listed apart. -/
inductive Links (settings : Settings) (v : Nat) (x : Vertex α) (role : Role)
    (g start : Streets α) : List (Use α) → List (Piece α) → List (Edge α) → List (Edge α) →
      Streets α → Prop
  | start : Links settings v x role g start [] [] [] [] start
  | endpoint {done : List (Use α)} {pieces : List (Piece α)} {joins crossings added : List (Edge α)}
      {g₁ : Streets α} {e : Edge α} {w : Nat} {b : Vertex α}
      (hlinks : Links settings v x role g start done pieces joins crossings g₁)
      (hlive : e ∈ g.edges) (hopen : e.kind.isLinkable = true)
      (hend : w = e.source ∨ w = e.target) (hw : g.vertex? w = some b)
      (hconnects : Connects (v, x) (w, b) role added g₁ (connect g₁ v w role).1) :
      Links settings v x role g start (done ++ [⟨e, .endpoint w⟩]) pieces (joins ++ added)
        crossings (connect g₁ v w role).1
  | cut {done : List (Use α)} {pieces : List (Piece α)}
      {joins crossings added new : List (Edge α)} {g₁ g₂ : Streets α} {location : Location α}
      {h : Halves α} {first second : Edge α}
      (hlinks : Links settings v x role g start done pieces joins crossings g₁)
      (hlive : h.parent ∈ g.edges) (hopen : h.parent.kind.isLinkable = true)
      (hwhole : h.parent.number ∉ pieces.map (·.halves.parent.number))
      (hhalve : halve g h.parent.number location = .ok h)
      (hcleaves : Cleaves (.split h.parent.number location) h first second g₁
        (split g₁ h.parent.number location).state)
      (hfills : Fills settings role h g₁.vertices.size new
        (split g₁ h.parent.number location).state g₂)
      (hconnects : Connects (v, x) (g₁.vertices.size, splitVertex h) role added g₂
        (connect g₂ v g₁.vertices.size role).1) :
      Links settings v x role g start (done ++ [⟨h.parent, .cut location⟩])
        (pieces ++ [⟨h, g₁.vertices.size, first, second⟩]) (joins ++ added) (crossings ++ new)
        (connect g₂ v g₁.vertices.size role).1

/-! ## The whole run -/

def splitEdges (uses : List (Use α)) : List (Edge α) :=
  uses.filterMap fun u =>
    match u.attachment with
    | .endpoint _ => none
    | .cut _ => some u.edge

namespace Links

variable {settings : Settings} {v : Nat} {x : Vertex α} {role : Role} {g start g₁ : Streets α}
  {done : List (Use α)} {pieces : List (Piece α)} {joins crossings : List (Edge α)}

theorem halves_eq (h : Links settings v x role g start done pieces joins crossings g₁) :
    pieces.map (·.halves) = halvesOf g done := by
  induction h with
  | start => rfl
  | endpoint _ _ _ _ _ _ ih =>
    rw [halvesOf_append, ih]
    exact (List.append_nil _).symm
  | cut _ _ _ _ hhalve _ _ _ ih =>
    rw [halvesOf_append, halvesOf_cons_cut hhalve, List.map_append, ih]
    rfl

theorem parents_eq (h : Links settings v x role g start done pieces joins crossings g₁) :
    pieces.map (·.halves.parent) = splitEdges done := by
  induction h with
  | start => rfl
  | endpoint _ _ _ _ _ _ ih =>
    rw [splitEdges, List.filterMap_append, ← splitEdges, ih]
    exact (List.append_nil _).symm
  | cut _ _ _ _ _ _ _ _ ih =>
    rw [splitEdges, List.filterMap_append, ← splitEdges, List.map_append, ih]
    rfl

theorem number_of_mem_pieces (h : Links settings v x role g start done pieces joins crossings g₁)
    {n : Nat} (hn : n ∈ pieces.map (·.halves.parent.number)) : n ∈ done.map (·.edge.number) := by
  refine number_of_mem_halvesOf (g := g) ?_
  rw [← h.halves_eq, List.map_map]
  exact hn

section Run

variable (hsound : Sound g) {notes : List Annotation}
  (hstart : start = { g with annotations := g.annotations ++ notes })

include hsound hstart

theorem effects (h : Links settings v x role g start done pieces joins crossings g₁) :
    Effects settings role notes g pieces joins crossings g₁ := by
  induction h with
  | start => exact hstart ▸ Effects.start hsound settings role notes
  | endpoint _ _ _ _ _ hconnects ih => exact ih.connect hconnects
  | cut _ hlive hopen hwhole hhalve hcleaves hfills hconnects ih =>
    exact (ih.split hsound hlive hopen hwhole hhalve hcleaves hfills).connect hconnects

variable (hx : g.vertex? v = some x)

include hx

/-- A further edge of the graph at the start is used as it was planned there. -/
theorem step (h : Links settings v x role g start done pieces joins crossings g₁) {u : Use α}
    (hlive : u.edge ∈ g.edges) (hopen : u.edge.kind.isLinkable = true)
    (hplan : plan g u.edge.number x.position (Frame.around x.position)
      (Scalar.ofDouble settings.endpointSnap) = .ok u.attachment)
    (hnew : u.edge.number ∉ done.map (·.edge.number)) :
    ∃ pieces' joins' crossings' w g',
      attach settings (Frame.around x.position) ⟨v, role, x.label, x.position⟩ g₁ u.edge.number =
        .ok w g' ∧
      Links settings v x role g start (done ++ [u]) pieces' joins' crossings'
        (connect g' v w role).1 := by
  obtain ⟨e, attachment⟩ := u
  have heffects := h.effects hsound hstart
  -- no edge before it has split this one, so it is attached to as it was planned
  have hwhole : e.number ∉ pieces.map (·.halves.parent.number) :=
    fun hcut => hnew (h.number_of_mem_pieces hcut)
  have hedge : g.edge? e.number = some e := hsound.edge?_eq_some_iff.2 ⟨hlive, rfl⟩
  have hsame : g₁.edge? e.number = g.edge? e.number :=
    (heffects.edge?_eq hlive hwhole).trans hedge.symm
  have hplan' := (plan_congr hsame x.position (Frame.around x.position)
    (Scalar.ofDouble settings.endpointSnap)).trans hplan
  have hx₁ := vertex?_mono heffects.vertices_prefix hx
  cases attachment with
  | endpoint w =>
    have hend : w = e.source ∨ w = e.target := by
      rcases plan_cases hedge x.position (Frame.around x.position)
        (Scalar.ofDouble settings.endpointSnap) with ⟨w', hplan', hend⟩ | ⟨location, hplan'⟩
      · cases hplan.symm.trans hplan'
        exact hend
      · cases hplan.symm.trans hplan'
    obtain ⟨b, hb⟩ := exists_vertex?_of_end hsound hlive hend
    obtain ⟨added, hconnects⟩ :=
      exists_connects hx₁ (vertex?_mono heffects.vertices_prefix hb) role
    exact ⟨_, _, _, w, g₁, attach_of_endpoint hplan',
      h.endpoint hlive hopen hend hb hconnects⟩
  | cut location =>
    obtain ⟨halves, hhalve, rfl⟩ := exists_halve hsound hedge location
    have hh := (halve_congr hsame location).trans hhalve
    obtain ⟨first, second, hcleaves⟩ := cleaves_split heffects.sound hh
    obtain ⟨new, g₂, hfills, hattach⟩ :=
      attach_of_cut ⟨v, role, x.label, x.position⟩ hplan' hh
    have hsplit := heffects.split hsound hlive hopen hwhole hhalve hcleaves hfills
    obtain ⟨added, hconnects⟩ := exists_connects (vertex?_mono hsplit.vertices_prefix hx)
      (hsplit.vertex?_of_mem (List.mem_append_right _ (List.mem_singleton_self _))) role
    exact ⟨_, _, _, _, g₂, hattach,
      h.cut hlive hopen hwhole hhalve hcleaves hfills hconnects⟩

theorem attachAll (h : Links settings v x role g start done pieces joins crossings g₁)
    {rest : List (Use α)}
    (hlive : ∀ u ∈ rest, u.edge ∈ g.edges ∧ u.edge.kind.isLinkable = true)
    (hplans : ∀ u ∈ rest, plan g u.edge.number x.position (Frame.around x.position)
      (Scalar.ofDouble settings.endpointSnap) = .ok u.attachment)
    (hdistinct : ((done ++ rest).map (·.edge.number)).Nodup) :
    ∃ pieces' joins' crossings' g',
      Linking.attachAll settings (Frame.around x.position) ⟨v, role, x.label, x.position⟩ g₁
        (rest.map (·.edge.number)) = .ok () g' ∧
      Links settings v x role g start (done ++ rest) pieces' joins' crossings' g' := by
  induction rest generalizing done pieces joins crossings g₁ with
  | nil => exact ⟨pieces, joins, crossings, g₁, rfl, (List.append_nil done).symm ▸ h⟩
  | cons u rest ih =>
    obtain ⟨hhere, hlater⟩ := List.forall_mem_cons.1 hlive
    obtain ⟨hplan, hplans⟩ := List.forall_mem_cons.1 hplans
    have hnew : u.edge.number ∉ done.map (·.edge.number) := by
      rw [List.map_append, List.map_cons] at hdistinct
      exact fun hmem => (List.nodup_append.1 hdistinct).2.2 _ hmem _ List.mem_cons_self rfl
    obtain ⟨_, _, _, w, g', hattach, hnext⟩ :=
      h.step hsound hstart hx hhere.1 hhere.2 hplan hnew
    rw [List.append_cons] at hdistinct
    obtain ⟨pieces', joins', crossings', g'', hall, hlinks⟩ := ih hnext hlater hplans hdistinct
    rw [← List.append_cons] at hlinks
    refine ⟨pieces', joins', crossings', g'', ?_, hlinks⟩
    rw [List.map_cons, Linking.attachAll, hattach, Outcome.andThen_ok, hall]

end Run

end Links

/-! ## A call of linking -/

def farNotes (settings : Settings) (v : Nat) (x : Vertex α) (role : Role) :
    List (Ranked α (Edge α)) → List Annotation
  | [] => []
  | nearest :: _ =>
    let metres := metresOfDegrees (Scalar.toDouble nearest.distance)
    if role = .stop ∧ settings.warningDistance < metres then
      [.stopLinkedTooFar v x.label metres]
    else []

theorem warnFar_eq (settings : Settings) (v : Nat) (x : Vertex α) (role : Role)
    (first : Ranked α (Edge α)) (rest : List (Ranked α (Edge α))) (g : Streets α) :
    warnFar settings ⟨v, role, x.label, x.position⟩ first.distance g =
      { g with annotations := g.annotations ++ farNotes settings v x role (first :: rest) } := by
  simp only [warnFar, farNotes, Bool.and_eq_true, beq_iff_eq, decide_eq_true_eq]
  split
  · rfl
  · rw [List.append_nil]

namespace Reached

variable {g : Streets α} (hreached : Reached g) (settings : Settings) (position : Point α)
  (mode : Mode)

include hreached

theorem numbers_usesOf : (usesOf settings g position mode).map (·.edge.number) =
    (targets settings g position mode).map (·.item.number) := by
  have hmap := congrArg (List.map (·.number)) (edges_usesOf hreached settings position mode)
  rwa [List.map_map, List.map_map] at hmap

theorem live_of_mem_usesOf {u : Use α} (hu : u ∈ usesOf settings g position mode) :
    u.edge ∈ g.edges ∧ u.edge.kind.isLinkable = true := by
  have hmem := List.mem_map_of_mem (f := (·.edge)) hu
  rw [edges_usesOf hreached] at hmem
  obtain ⟨t, ht, hitem⟩ := List.mem_map.1 hmem
  exact hitem ▸ hreached.live_of_mem_targets settings position mode ht

/-- A vertex that is linked uses the edges that are found for it, in their order and as it is
planned before anything changes, and this never fails. -/
theorem exists_links {v : Nat} {x : Vertex α} (hx : g.vertex? v = some x) {role : Role}
    (hrole : x.kind.role? = some role) :
    let found := targets settings g x.position mode
    ∃ pieces joins crossings g', link settings g v mode = .ok (!found.isEmpty) g' ∧
      Links settings v x role g
        { g with annotations := g.annotations ++ farNotes settings v x role found }
        (usesOf settings g x.position mode) pieces joins crossings g' := by
  intro found
  let start := { g with annotations := g.annotations ++ farNotes settings v x role found }
  let uses := usesOf settings g x.position mode
  have hnumbers : uses.map (·.edge.number) = found.map (·.item.number) :=
    hreached.numbers_usesOf settings x.position mode
  have hdistinct : (uses.map (·.edge.number)).Nodup :=
    hnumbers ▸ hreached.nodup_targets settings x.position mode
  have hstart : Links settings v x role g start [] [] [] [] start := .start
  obtain ⟨pieces, joins, crossings, g', hall, hlinks⟩ :=
    hstart.attachAll hreached.sound rfl hx
      (fun u hu => hreached.live_of_mem_usesOf settings x.position mode hu)
      (fun u hu => plan_of_mem_usesOf hu) hdistinct
  refine ⟨pieces, joins, crossings, g', ?_, hlinks⟩
  rw [hnumbers] at hall
  rw [Linking.link_eq hx hrole, linkEntity]
  unfold start found at hall
  unfold found
  cases htargets : targets settings g x.position mode with
  | nil =>
    simp only [htargets, List.map_nil, farNotes, List.append_nil] at hall
    obtain rfl : g = g' := congrArg Outcome.state hall
    rfl
  | cons first rest =>
    simp only [htargets] at hall ⊢
    rw [warnFar_eq settings v x role first rest, hall]
    rfl

end Reached

end StreetLinking.Linking
