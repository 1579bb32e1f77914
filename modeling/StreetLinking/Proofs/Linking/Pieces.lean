import StreetLinking.Proofs.Linking.AreaRegisters
import StreetLinking.Proofs.Linking.Crossings
/-!
# What linking leaves of the graph

While a vertex is linked, edges are split, areas crossed and connectors added, and the next edge is
split in what this leaves. Main statement: each of these steps leaves a graph that is known piece by
piece, whichever edges share vertices, areas or numbers.
-/

namespace StreetLinking.Linking

open Number Plane Street Streets

variable {α : Type} [Scalar α]

/-! ## Connecting once -/

omit [Scalar α] in
theorem connects_insertEdge_of_ne {g : Streets α} {source target s t : Nat} {data : EdgeData α}
    (hother : (s, t) ≠ (source, target)) (admits : EdgeKind → Bool) :
    (g.insertEdge source target data).1.connects s t admits = g.connects s t admits := by
  rw [connects, outgoing_insertEdge]
  split
  · next hsource =>
    subst hsource
    have htarget : target ≠ t := fun heq => hother (by rw [heq])
    simp [connects, nextEdge, htarget]
  · rfl

omit [Scalar α] in
theorem foldl_connectUnless_of_distinct {admits : EdgeKind → Bool}
    {cs : List (Nat × Nat × EdgeData α)} (hcs : (cs.map fun c => (c.1, c.2.1)).Nodup)
    (s : Added α) :
    (cs.foldl (fun s c => connectUnless admits c.1 c.2.1 c.2.2 s) s).1 =
      (insertAll s.1 (cs.filter fun c => !s.1.connects c.1 c.2.1 admits)).1 := by
  induction cs generalizing s with
  | nil => rfl
  | cons c rest ih =>
    obtain ⟨hnew, hrest⟩ := List.nodup_cons.1 hcs
    rw [List.foldl_cons, ih hrest]
    cases hthere : s.1.connects c.1 c.2.1 admits with
    | true => rw [connectUnless, if_pos hthere, List.filter_cons_of_neg (by simp [hthere])]
    | false =>
      have hsame : ∀ d ∈ rest,
          (s.1.insertEdge c.1 c.2.1 c.2.2).1.connects d.1 d.2.1 admits =
            s.1.connects d.1 d.2.1 admits :=
        fun d hd => connects_insertEdge_of_ne
          (fun heq => hnew (List.mem_map.2 ⟨d, hd, heq⟩)) admits
      rw [connectUnless, if_neg (by simp [hthere]), List.filter_cons_of_pos (by simp [hthere])]
      rw [List.filter_congr fun d hd => congrArg (!·) (hsame d hd)]
      rfl

/-- Connectors with a vertex of a street are put on top of the graph. Unless a vertex is connected
with itself, these are just those along whose way none of the kind leads. -/
structure Connects (entity street : Nat × Vertex α) (role : Role) (new : List (Edge α))
    (g g' : Streets α) : Prop where
  tops : Tops new g g'
  mem : ∀ e ∈ new, e.place ∈ connectors entity street role
  missing : entity.1 ≠ street.1 → new.reverse.map Edge.place =
    (connectors entity street role).filter fun c =>
      !g.connects c.1 c.2.1 (· == .connector role.connector.kind)

theorem nodup_connectors {entity street : Nat × Vertex α} (hne : entity.1 ≠ street.1)
    (role : Role) : ((connectors entity street role).map fun c => (c.1, c.2.1)).Nodup := by
  unfold connectors
  dsimp only
  split <;> split <;> simp [hne]

theorem exists_connects {g : Streets α} {v w : Nat} {a b : Vertex α} (hv : g.vertex? v = some a)
    (hw : g.vertex? w = some b) (role : Role) :
    ∃ new, Connects (v, a) (w, b) role new g (connect g v w role).1 := by
  by_cases hne : v = w
  · obtain ⟨es, hes, hstate⟩ := exists_connectors_of_connect hv hw role
    obtain ⟨new, htops, hplaces⟩ := exists_tops_insertAll g es
    refine ⟨new, hstate ▸ htops, fun e he => hes _ ?_, fun hother => absurd hne hother⟩
    exact hplaces ▸ List.mem_map_of_mem (List.mem_reverse.2 he)
  · obtain ⟨new, htops, hplaces⟩ := exists_tops_insertAll g
      ((connectors (v, a) (w, b) role).filter fun c =>
        !g.connects c.1 c.2.1 (· == .connector role.connector.kind))
    rw [connect_eq hv hw, foldl_connectUnless_of_distinct (nodup_connectors hne role)]
    refine ⟨new, htops, fun e he => ?_, fun _ => hplaces⟩
    have hplace := hplaces ▸ List.mem_map_of_mem (f := Edge.place) (List.mem_reverse.2 he)
    exact (List.mem_filter.1 hplace).1

/-! ## Crossing once -/

/-- Where a stop splits an edge of an area, the area is crossed if the settings ask for it. -/
inductive Fills (settings : Settings) (role : Role) (h : Halves α) (vertex : Nat) :
    List (Edge α) → Streets α → Streets α → Prop
  | skip {g : Streets α}
      (hskip : h.parent.kind.area?.isSome = true →
        ¬ (role = .stop ∧ settings.crossAreas = true)) :
      Fills settings role h vertex [] g g
  | cross {g : Streets α} {area : Nat} {new : List (Edge α)} (hstop : role = .stop)
      (hoption : settings.crossAreas = true) (harea : h.parent.kind = .area area)
      (hcrosses : Crosses vertex area new g (crossArea g vertex area).1) :
      Fills settings role h vertex new g (crossArea g vertex area).1

/-! ## Pieces -/

/-- An edge that is split: its halves, the vertex between them, and the edges in its place. -/
structure Piece (α : Type) where
  halves : Halves α
  vertex : Nat
  first : Edge α
  second : Edge α

/-- A piece of the graph that is linked in: an edge that is open to linking, and its halves. -/
structure IsPiece (g : Streets α) (p : Piece α) : Prop where
  parent_mem : p.halves.parent ∈ g.edges
  isLinkable : p.halves.parent.kind.isLinkable = true
  first_place : p.first.place = (p.halves.parent.source, p.vertex, p.halves.first)
  second_place : p.second.place = (p.vertex, p.halves.parent.target, p.halves.second)
  kinds : p.first.kind = p.halves.parent.kind ∧ p.second.kind = p.halves.parent.kind

/-- The register of an area after edges have been split: it has lost its edges among them and got
their halves, and the vertices between these. -/
def settled (pieces : List (Piece α)) (id : Nat) (a : Area) : Area :=
  let own := pieces.filter (·.halves.parent.kind == .area id)
  { a with
      vertices := a.vertices ++ own.map (·.vertex)
      edges := a.edges.filter (fun n => !(own.map (·.halves.parent.number)).contains n) ++
        own.flatMap fun p => [p.first.number, p.second.number] }

omit [Scalar α] in
@[simp] theorem settled_nil (id : Nat) : settled ([] : List (Piece α)) id = fun a => a := by
  funext a
  simp [settled]

omit [Scalar α] in
theorem settled_concat {pieces : List (Piece α)} {p : Piece α}
    (hother : ∀ q ∈ pieces, q.first.number ≠ p.halves.parent.number ∧
      q.second.number ≠ p.halves.parent.number) (id : Nat) (a : Area) :
    settled (pieces ++ [p]) id a =
      if p.halves.parent.kind = .area id then
        { settled pieces id a with
            vertices := (settled pieces id a).vertices ++ [p.vertex]
            edges := (settled pieces id a).edges.filter (· != p.halves.parent.number) ++
              [p.first.number, p.second.number] }
      else settled pieces id a := by
  by_cases hkind : p.halves.parent.kind = .area id
  · let own := pieces.filter (·.halves.parent.kind == .area id)
    have hown : (pieces ++ [p]).filter (·.halves.parent.kind == .area id) = own ++ [p] := by
      rw [List.filter_append, List.filter_singleton, hkind]
      simp [own]
    have hkept : (own.flatMap fun q => [q.first.number, q.second.number]).filter
        (· != p.halves.parent.number) = own.flatMap fun q => [q.first.number, q.second.number] := by
      refine List.filter_eq_self.2 fun n hn => bne_iff_ne.2 ?_
      obtain ⟨q, hq, hn⟩ := List.mem_flatMap.1 hn
      obtain ⟨hfirst, hsecond⟩ := hother q (List.mem_filter.1 hq).1
      rcases List.mem_pair.1 hn with rfl | rfl
      · exact hfirst
      · exact hsecond
    have hlost : (a.edges.filter fun n => !(own.map (·.halves.parent.number)).contains n).filter
        (· != p.halves.parent.number) =
          a.edges.filter fun n => !((own ++ [p]).map (·.halves.parent.number)).contains n := by
      rw [List.filter_filter]
      refine List.filter_congr fun n _ => ?_
      by_cases hn : n = p.halves.parent.number <;> simp [hn]
    rw [if_pos hkind]
    simp only [settled, hown]
    rw [List.filter_append, hkept, hlost]
    simp [own]
  · rw [if_neg hkind]
    simp [settled, hkind]

/-- An edge that crosses an area, between the vertex at which one of its edges has been split and
another one of its vertices. Only stops get such edges, and only if the settings ask for them. -/
structure IsCrossing (settings : Settings) (role : Role) (pieces : List (Piece α))
    (g : Streets α) (e : Edge α) : Prop where
  stop : role = .stop
  option : settings.crossAreas = true
  kind : e.kind = .street
  ends : ∃ p ∈ pieces, ∃ id a w, p.halves.parent.kind = .area id ∧ g.areas[id]? = some a ∧
    w ∈ a.vertices ∧ w ≠ p.vertex ∧
    (e.source = p.vertex ∧ e.target = w ∨ e.source = w ∧ e.target = p.vertex)

omit [Scalar α] in
theorem IsCrossing.mono {settings : Settings} {role : Role} {pieces pieces' : List (Piece α)}
    {g g' : Streets α} {e : Edge α} (h : IsCrossing settings role pieces g e)
    (hpieces : ∀ p ∈ pieces, p ∈ pieces')
    (hareas : ∀ (id : Nat) (a : Area), g.areas[id]? = some a →
      ∃ a', g'.areas[id]? = some a' ∧ ∀ w ∈ a.vertices, w ∈ a'.vertices) :
    IsCrossing settings role pieces' g' e := by
  obtain ⟨p, hp, id, a, w, hkind, ha, hw, hends⟩ := h.ends
  obtain ⟨a', ha', hgrown⟩ := hareas id a ha
  exact ⟨h.stop, h.option, h.kind, p, hpieces p hp, id, a', w, hkind, ha', hgrown w hw, hends⟩

/-! ## What is left -/

/-- What linking leaves of the graph `g`: edges have been split, with their halves and connectors
and edges across areas on top of the other edges, and all else is as it was. -/
structure Effects (settings : Settings) (role : Role) (notes : List Annotation) (g : Streets α)
    (pieces : List (Piece α)) (joins crossings : List (Edge α)) (g' : Streets α) : Prop where
  sound : Sound g'
  cuts : ∀ p ∈ pieces, IsPiece g p
  numbers : pieces.map (·.vertex) = List.range' g.vertices.size pieces.length
  vertices : g'.vertices.toList = g.vertices.toList ++ pieces.map fun p => splitVertex p.halves
  edges : ∃ new, new.Perm (pieces.flatMap (fun p => [p.first, p.second]) ++ (joins ++ crossings)) ∧
    g'.edges = new ++
      g.edges.filter fun e => !(pieces.map (·.halves.parent.number)).contains e.number
  areas : ∀ id, g'.areas[id]? = g.areas[id]?.map (settled pieces id)
  entries : g'.edgeIndex.items =
    (pieces.reverse.flatMap fun p => [p.second, p.first]).filterMap Edge.entry? ++
      g.edgeIndex.items
  stops : g'.stopIndex = g.stopIndex
  annotations : g'.annotations = g.annotations ++ notes
  joined : ∀ e ∈ joins, e.kind = .connector role.connector.kind
  crossed : ∀ e ∈ crossings, IsCrossing settings role pieces g' e

namespace Effects

variable {settings : Settings} {role : Role} {notes : List Annotation} {g g₁ g₂ : Streets α}
  {pieces : List (Piece α)} {joins crossings : List (Edge α)}

theorem start (hsound : Sound g) (settings : Settings) (role : Role) (notes : List Annotation) :
    Effects settings role notes g [] [] [] { g with annotations := g.annotations ++ notes } where
  sound := hsound.congr rfl rfl rfl rfl (Nat.le_refl _)
  cuts := by simp
  numbers := rfl
  vertices := (List.append_nil _).symm
  edges := ⟨[], .nil, by simp⟩
  areas := fun id => by simp
  entries := rfl
  stops := rfl
  annotations := rfl
  joined := by simp
  crossed := by simp

variable (h : Effects settings role notes g pieces joins crossings g₁)

include h

theorem vertices_size : g₁.vertices.size = g.vertices.size + pieces.length := by
  have hlength := congrArg List.length h.vertices
  simpa using hlength

theorem vertices_prefix : g.vertices.toList <+: g₁.vertices.toList :=
  h.vertices ▸ List.prefix_append _ _

theorem mem_edges_iff {e : Edge α} :
    e ∈ g₁.edges ↔ (∃ p ∈ pieces, e = p.first ∨ e = p.second) ∨ (e ∈ joins ∨ e ∈ crossings) ∨
      e ∈ g.edges ∧ e.number ∉ pieces.map (·.halves.parent.number) := by
  obtain ⟨new, hperm, hedges⟩ := h.edges
  rw [hedges, List.mem_append, hperm.mem_iff, List.mem_append, List.mem_append, List.mem_flatMap,
    List.mem_filter, or_assoc]
  simp

theorem edge?_eq {e : Edge α} (he : e ∈ g.edges)
    (hwhole : e.number ∉ pieces.map (·.halves.parent.number)) : g₁.edge? e.number = some e :=
  h.sound.edge?_eq_some_iff.2 ⟨h.mem_edges_iff.2 (Or.inr (Or.inr ⟨he, hwhole⟩)), rfl⟩

theorem lt_of_mem_pieces {p : Piece α} (hp : p ∈ pieces) :
    g.vertices.size ≤ p.vertex ∧ p.vertex < g₁.vertices.size := by
  have hmem : p.vertex ∈ List.range' g.vertices.size pieces.length :=
    h.numbers ▸ List.mem_map_of_mem hp
  rw [h.vertices_size]
  simpa using hmem

theorem vertex?_of_mem {p : Piece α} (hp : p ∈ pieces) :
    g₁.vertex? p.vertex = some (splitVertex p.halves) := by
  obtain ⟨i, hi, rfl⟩ := List.mem_iff_getElem.1 hp
  have hnumber : pieces[i].vertex = g.vertices.size + i := by
    have hnumbers := congrArg (fun l => l[i]?) h.numbers
    simpa [hi] using hnumbers
  rw [Streets.vertex?, ← Array.getElem?_toList, h.vertices, hnumber,
    List.getElem?_append_right (by simp)]
  simp [hi]

theorem number_ne {p : Piece α} (hp : p ∈ pieces) {e : Edge α} (he : e ∈ g.edges)
    (hwhole : e.number ∉ pieces.map (·.halves.parent.number)) :
    p.first.number ≠ e.number ∧ p.second.number ≠ e.number := by
  obtain ⟨new, hperm, hedges⟩ := h.edges
  have hkept : e ∈ g.edges.filter fun d =>
      !(pieces.map (·.halves.parent.number)).contains d.number :=
    List.mem_filter.2 ⟨he, by simpa using hwhole⟩
  have hmem (d : Edge α) (hd : d ∈ [p.first, p.second]) : d ∈ new :=
    hperm.mem_iff.2 (List.mem_append_left _ (List.mem_flatMap.2 ⟨p, hp, hd⟩))
  exact ⟨h.sound.number_ne_of_append hedges (hmem _ (by simp)) hkept,
    h.sound.number_ne_of_append hedges (hmem _ (by simp)) hkept⟩

theorem cut {c : Change α} {halves : Halves α} {first second : Edge α}
    (hlive : halves.parent ∈ g.edges) (hopen : halves.parent.kind.isLinkable = true)
    (hwhole : halves.parent.number ∉ pieces.map (·.halves.parent.number))
    (hsound : Sound g₂) (hcleaves : Cleaves c halves first second g₁ g₂)
    (hstops : g₂.stopIndex = g₁.stopIndex) (hnotes : g₂.annotations = g₁.annotations) :
    Effects settings role notes g (pieces ++ [⟨halves, g₁.vertices.size, first, second⟩]) joins
      crossings g₂ where
  sound := hsound
  cuts := by
    intro p hp
    rcases List.mem_append.1 hp with hp | hp
    · exact h.cuts p hp
    · rw [List.mem_singleton.1 hp]
      exact ⟨hlive, hopen, hcleaves.first_place, hcleaves.second_place, hcleaves.halves⟩
  numbers := by
    rw [List.map_append, h.numbers, List.length_append, List.length_singleton,
      List.range'_concat, h.vertices_size, Nat.one_mul]
    rfl
  vertices := by
    rw [hcleaves.vertices, Array.toList_push, h.vertices, List.map_append, List.append_assoc]
    rfl
  edges := by
    obtain ⟨new, hperm, hedges⟩ := h.edges
    refine ⟨[second, first] ++ new, ?_, ?_⟩
    · rw [List.flatMap_append, List.flatMap_singleton, List.append_assoc]
      exact ((List.Perm.swap first second []).append hperm).trans (List.perm_append_comm_assoc ..)
    · rw [hcleaves.edges, h.sound.filter_edges hlive hwhole hedges, List.map_append]
      rfl
  areas := by
    intro id
    rw [hcleaves.getElem?_areas, h.areas, Option.map_map]
    congr 1
    funext a
    rw [settled_concat fun q hq => h.number_ne hq hlive hwhole]
    rfl
  entries := by
    rw [hcleaves.entries, h.entries, List.reverse_append, List.reverse_singleton,
      List.singleton_append, List.flatMap_cons, List.filterMap_append, List.append_assoc]
  stops := hstops.trans h.stops
  annotations := hnotes.trans h.annotations
  joined := h.joined
  crossed := by
    refine fun e he => (h.crossed e he).mono (fun p hp => List.mem_append_left _ hp) ?_
    intro id a ha
    refine ⟨_, by rw [hcleaves.getElem?_areas, ha, Option.map_some], fun w hw => ?_⟩
    split
    · exact List.mem_append_left _ hw
    · exact hw

theorem onTop {added joins' crossings' : List (Edge α)} (hsound : Sound g₂)
    (htops : Tops added g₁ g₂) (hperm : (joins' ++ crossings').Perm (added ++ (joins ++ crossings)))
    (hjoined : ∀ e ∈ joins', e.kind = .connector role.connector.kind)
    (hcrossed : ∀ e ∈ crossings', IsCrossing settings role pieces g₁ e) :
    Effects settings role notes g pieces joins' crossings' g₂ := by
  obtain ⟨new, hnew, hedges⟩ := h.edges
  obtain ⟨freed, numbers, nextSerial, rfl⟩ := htops
  refine ⟨hsound, h.cuts, h.numbers, h.vertices, ⟨added ++ new, ?_, ?_⟩, h.areas, h.entries,
    h.stops, h.annotations, hjoined, fun e he => ?_⟩
  · refine (hnew.append_left added).trans ?_
    refine (List.perm_append_comm_assoc ..).trans ?_
    exact hperm.symm.append_left _
  · simp only [hedges, List.append_assoc]
  · exact (hcrossed e he).mono (fun p hp => hp) fun id a ha => ⟨a, ha, fun w hw => hw⟩

theorem connect {v w : Nat} {x b : Vertex α} {added : List (Edge α)}
    (hconnects : Connects (v, x) (w, b) role added g₁ (Linking.connect g₁ v w role).1) :
    Effects settings role notes g pieces (joins ++ added) crossings
      (Linking.connect g₁ v w role).1 := by
  refine h.onTop (Change.sound_apply h.sound (.connect v w role)) hconnects.tops ?_ ?_ h.crossed
  · rw [List.append_assoc]
    exact List.perm_append_comm_assoc ..
  · intro e he
    rcases List.mem_append.1 he with he | he
    · exact h.joined e he
    · exact (kind_of_mem_connectors (hconnects.mem e he)).1

theorem fill {p : Piece α} (hp : p ∈ pieces) {new : List (Edge α)}
    (hfills : Fills settings role p.halves p.vertex new g₁ g₂) :
    Effects settings role notes g pieces joins (crossings ++ new) g₂ := by
  cases hfills with
  | skip hskip => exact (List.append_nil crossings).symm ▸ h
  | cross hstop hoption harea hcrosses =>
    refine h.onTop (Change.sound_apply h.sound (.cross p.vertex _)) hcrosses.tops ?_ h.joined ?_
    · rw [← List.append_assoc]
      exact List.perm_append_comm
    · intro e he
      rcases List.mem_append.1 he with he | he
      · exact h.crossed e he
      · obtain ⟨a, w, ha, hw, hne, hends⟩ := hcrosses.ends e he
        exact ⟨hstop, hoption, hcrosses.kind e he, p, hp, _, a, w, harea, ha, hw, hne, hends⟩

/-- A whole edge is split as it was planned at the start, and its area may be crossed. -/
theorem split (hsound : Sound g) {location : Location α} {halves : Halves α}
    {first second : Edge α} {new : List (Edge α)} (hlive : halves.parent ∈ g.edges)
    (hopen : halves.parent.kind.isLinkable = true)
    (hwhole : halves.parent.number ∉ pieces.map (·.halves.parent.number))
    (hhalve : halve g halves.parent.number location = .ok halves)
    (hcleaves : Cleaves (.split halves.parent.number location) halves first second g₁
      (Linking.split g₁ halves.parent.number location).state)
    (hfills : Fills settings role halves g₁.vertices.size new
      (Linking.split g₁ halves.parent.number location).state g₂) :
    Effects settings role notes g (pieces ++ [⟨halves, g₁.vertices.size, first, second⟩]) joins
      (crossings ++ new) g₂ := by
  have hedge : g.edge? halves.parent.number = some halves.parent :=
    hsound.edge?_eq_some_iff.2 ⟨hlive, rfl⟩
  have hh := (halve_congr ((h.edge?_eq hlive hwhole).trans hedge.symm) location).trans hhalve
  obtain ⟨hsound', _, _, -, hnotes, hstops, -⟩ := exists_splits h.sound hh
  exact (h.cut hlive hopen hwhole hsound' hcleaves hstops hnotes).fill
    (List.mem_append_right _ (List.mem_singleton_self _)) hfills

end Effects

end StreetLinking.Linking
