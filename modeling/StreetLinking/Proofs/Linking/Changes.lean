import StreetLinking.Proofs.Linking.History
import StreetLinking.Proofs.Linking.OpenWays
import StreetLinking.Proofs.Plane.Cutting
import StreetLinking.Proofs.Street.Growth
/-!
# What a change can do

A change makes the graph grow by a batch of edges, or it splits one edge: the edge goes, its two
halves and the vertex between them come. Nothing else happens to the vertices, the edges and the
index. Main statements: each change of a sound graph does one of the two and leaves a sound graph,
and every live edge can be split.
-/

namespace StreetLinking.Linking

open Number Plane Street Streets

variable {α : Type} [Scalar α]

/-! ## Growing -/

theorem Addition.perform_cases (g : Streets α) (a : Addition α) :
    (∃ v stopIndex, a.perform g = { (g.addVertex v).1 with stopIndex }) ∨ a.perform g = g ∨
      ∃ es areas, (∀ c ∈ es, Fits g c ∧ c.2.2.kind.isLinkable = true) ∧
        a.perform g = { insertIndexed g es with areas } := by
  have hbatch (g' : Streets α) (es : List (Nat × Nat × EdgeData α))
      (hes : ∀ c ∈ es, Fits g c ∧ c.2.2.kind.isLinkable = true) (h : g' = insertIndexed g es) :
      ∃ es areas, (∀ c ∈ es, Fits g c ∧ c.2.2.kind.isLinkable = true) ∧
        g' = { insertIndexed g es with areas } := ⟨es, (insertIndexed g es).areas, hes, h⟩
  cases a with
  | intersection position osmId => exact Or.inl ⟨_, _, rfl⟩
  | stop id name position wheelchair => exact Or.inl ⟨_, _, rfl⟩
  | bikeRental id name position => exact Or.inl ⟨_, _, rfl⟩
  | bikePark id name position => exact Or.inl ⟨_, _, rfl⟩
  | street source target line permission name =>
    refine Or.inr ((addStreet_state g source target line permission name).imp_right ?_)
    rintro ⟨line, hline, heq⟩
    refine hbatch _ _ ?_ heq
    simpa [Fits, EdgeData.measured, EdgeKind.isLinkable] using fits_of_streetLine hline
  | twoWayStreet source target line permission name =>
    refine Or.inr ((addTwoWayStreet_state g source target line permission name).imp_right ?_)
    rintro ⟨line, hline, heq⟩
    obtain ⟨hsource, htarget, hlong⟩ := fits_of_streetLine hline
    refine hbatch _ _ ?_ heq
    simp [Fits, EdgeData.measured, EdgeKind.isLinkable, hsource, htarget, hlong]
  | area name ring permission =>
    rcases addArea_cases g name ring permission with ⟨fault, heq⟩ | ⟨corners, hcorners, heq⟩
    · exact Or.inr (Or.inl (congrArg Outcome.state heq))
    · refine Or.inr (Or.inr ⟨_, _, fun c hc => ?_, congrArg Outcome.state heq⟩)
      obtain ⟨hfits, hkind⟩ := fits_of_mem_sideEdges hcorners hc
      exact ⟨hfits, by rw [hkind]; rfl⟩

theorem Addition.sound_and_grows {g : Streets α} (h : Sound g) (a : Addition α) :
    Sound (a.perform g) ∧ ∃ new, Grows true new g (a.perform g) ∧
      ∀ e ∈ new, e.kind.isLinkable = true := by
  rcases a.perform_cases g with ⟨v, stopIndex, heq⟩ | heq | ⟨es, areas, hes, heq⟩
  · obtain ⟨hvertices, hserial, hedges, hfresh, hentries⟩ := grows_addVertex g v true
    rw [heq]
    exact ⟨(h.addVertex v).congr rfl rfl rfl rfl (Nat.le_refl _), [],
      ⟨hvertices, hserial, hedges, hfresh, hentries⟩, by simp⟩
  · rw [heq]
    exact ⟨h, [], Grows.refl true g, by simp⟩
  · have hfits : ∀ c ∈ es, Fits g c := fun c hc => (hes c hc).1
    obtain ⟨new, ⟨hvertices, hserial, hedges, hfresh, hentries⟩, hplaces, -⟩ :=
      h.exists_grows_insertIndexed hfits
    rw [heq]
    refine ⟨(h.insertIndexed hfits).congr rfl rfl rfl rfl (Nat.le_refl _), new,
      ⟨hvertices, hserial, hedges, hfresh, hentries⟩, fun e he => ?_⟩
    have hplace : e.place ∈ es := by
      rw [← hplaces]
      exact List.mem_map_of_mem (List.mem_reverse.2 he)
    exact (hes _ hplace).2

omit [Scalar α] in
theorem foldl_connectUnless (admits : EdgeKind → Bool) (cs : List (Nat × Nat × EdgeData α))
    (s : Added α) :
    ∃ es, (∀ c ∈ es, c ∈ cs) ∧
      (cs.foldl (fun s c => connectUnless admits c.1 c.2.1 c.2.2 s) s).1 =
        (insertAll s.1 es).1 := by
  induction cs generalizing s with
  | nil => exact ⟨[], by simp, rfl⟩
  | cons c rest ih =>
    rw [List.foldl_cons]
    obtain ⟨es, hes, heq⟩ := ih (connectUnless admits c.1 c.2.1 c.2.2 s)
    rw [heq]
    by_cases hthere : s.1.connects c.1 c.2.1 admits = true
    · rw [connectUnless, if_pos hthere]
      exact ⟨es, fun d hd => List.mem_cons_of_mem _ (hes d hd), rfl⟩
    · rw [connectUnless, if_neg hthere]
      refine ⟨c :: es, fun d hd => ?_, rfl⟩
      rcases List.mem_cons.1 hd with rfl | hd
      · exact List.mem_cons_self
      · exact List.mem_cons_of_mem _ (hes d hd)

theorem connect_state (g : Streets α) (entity street : Nat) (role : Role) :
    ∃ es, (∀ c ∈ es, Fits g c) ∧ (connect g entity street role).1 = (insertAll g es).1 := by
  unfold connect
  split
  · next a b ha hb =>
    obtain ⟨es, hes, heq⟩ := foldl_connectUnless (· == .connector role.connector.kind)
      (connectors (entity, a) (street, b) role) (g, 0)
    refine ⟨es, fun c hc => ?_, heq⟩
    have hentity := (Array.getElem?_eq_some_iff.1 ha).1
    have hstreet := (Array.getElem?_eq_some_iff.1 hb).1
    have hmem := hes c hc
    simp only [connectors, List.mem_append] at hmem
    rcases hmem with hmem | hmem
    · split at hmem
      · rw [List.mem_singleton.1 hmem]
        exact ⟨hentity, hstreet, Nat.le_refl 2⟩
      · simp at hmem
    · split at hmem
      · rw [List.mem_singleton.1 hmem]
        exact ⟨hstreet, hentity, Nat.le_refl 2⟩
      · simp at hmem
  · exact ⟨[], by simp, rfl⟩

theorem fits_of_mem_crossings {g : Streets α} {name : String} {vertex : Nat} {position : Point α}
    {others : List Nat} (hvertex : vertex < g.vertices.size) {c : Nat × Nat × EdgeData α}
    (hc : c ∈ crossings g name vertex position others) : Fits g c := by
  obtain ⟨other, -, hc⟩ := mem_crossings_iff.1 hc
  obtain ⟨there, hthere, ⟨-, rfl⟩ | ⟨-, rfl⟩⟩ := mem_crossingsTo_iff.1 hc
  · exact ⟨hvertex, lt_size_of_position? hthere, Nat.le_refl 2⟩
  · exact ⟨lt_size_of_position? hthere, hvertex, Nat.le_refl 2⟩

omit [Scalar α] in
theorem foldl_insertEdge (g : Streets α) (es : List (Nat × Nat × EdgeData α)) :
    es.foldl (fun g c => (g.insertEdge c.1 c.2.1 c.2.2).1) g = (insertAll g es).1 := by
  induction es generalizing g with
  | nil => rfl
  | cons c rest ih => exact ih _

theorem crossArea_state (g : Streets α) (vertex area : Nat) :
    ∃ es, (∀ c ∈ es, Fits g c) ∧ (crossArea g vertex area).1 = (insertAll g es).1 := by
  unfold crossArea
  split
  · next a position _ hposition =>
    exact ⟨_, fun c hc => fits_of_mem_crossings (lt_size_of_position? hposition) hc,
      foldl_insertEdge g _⟩
  · exact ⟨[], by simp, rfl⟩

/-! ## Splitting -/

theorem halve_eq_ok {g : Streets α} {number : Nat} {location : Location α} {h : Halves α}
    (hh : halve g number location = .ok h) :
    g.edge? number = some h.parent ∧
      ∃ first second m n, h.first = partOf h.parent first m ∧ h.second = partOf h.parent second n ∧
        m + n = h.parent.lengthMm ∧ 2 ≤ first.length ∧ 2 ≤ second.length ∧
        Joins h.point first second h.parent.line := by
  unfold halve at hh
  split at hh
  · simp at hh
  · next e hedge =>
    split at hh
    · next first second p hcut hp =>
      rw [Except.ok.injEq] at hh
      subst hh
      exact ⟨hedge, first, second, _, _, rfl, rfl, apportion_sum _ _ _ _,
        Location.joins_of_cut? hcut hp⟩
    · simp at hh

theorem point?_of_halve {g : Streets α} {number : Nat} {location : Location α} {h : Halves α}
    (hh : halve g number location = .ok h) : location.point? h.parent.line = some h.point := by
  unfold halve at hh
  split at hh
  · cases hh
  · split at hh
    · next hp =>
      cases hh
      exact hp
    · cases hh

/-- Every edge of a sound graph can be split everywhere. -/
theorem exists_halve {g : Streets α} (h : Sound g) {number : Nat} {e : Edge α}
    (hedge : g.edge? number = some e) (location : Location α) :
    ∃ halves, halve g number location = .ok halves ∧ halves.parent = e := by
  obtain ⟨hlive, -⟩ := h.edge?_eq_some_iff.1 hedge
  obtain ⟨p, first, second, hp, hcut⟩ := location.exists_cut? (h.lines e hlive)
  unfold halve
  simp only [hedge, hcut, hp]
  exact ⟨_, rfl, rfl⟩

def halfEdges (g : Streets α) (h : Halves α) : List (Nat × Nat × EdgeData α) :=
  [(h.parent.source, g.vertices.size, h.first), (g.vertices.size, h.parent.target, h.second)]

def splitVertex (h : Halves α) : Vertex α :=
  ⟨.split h.parent.serial, splitLabel h.parent, h.point⟩

/-- The effect of splitting an edge: it makes way for its halves, and a new vertex joins them. -/
structure Splits (h : Halves α) (first second : Edge α) (g g' : Streets α) : Prop where
  parent_mem : h.parent ∈ g.edges
  vertices : g'.vertices = g.vertices.push (splitVertex h)
  serial_le : g.nextSerial ≤ g'.nextSerial
  edges : g'.edges = second :: first :: g.edges.filter (·.number != h.parent.number)
  first_place : first.place = (h.parent.source, g.vertices.size, h.first)
  second_place : second.place = (g.vertices.size, h.parent.target, h.second)
  first_fresh : g.nextSerial ≤ first.serial
  second_fresh : g.nextSerial ≤ second.serial
  entries : g'.edgeIndex.items = [second, first].filterMap Edge.entry? ++ g.edgeIndex.items

theorem Splits.parent_not_mem {g g' : Streets α} (hsound : Sound g) {h : Halves α}
    {first second : Edge α} (hsplits : Splits h first second g g') : h.parent ∉ g'.edges := by
  have hold := hsound.serial_lt _ hsplits.parent_mem
  have hfirst := hsplits.first_fresh
  have hsecond := hsplits.second_fresh
  rw [hsplits.edges]
  intro hmem
  rcases List.mem_cons.1 hmem with heq | hmem
  · rw [← heq] at hsecond
    omega
  · rcases List.mem_cons.1 hmem with heq | hkept
    · rw [← heq] at hfirst
      omega
    · simpa using (List.mem_filter.1 hkept).2

theorem split_state_of_error {g : Streets α} {number : Nat} {location : Location α}
    {fault : Fault} (hh : halve g number location = .error fault) :
    (split g number location).state = g := by
  simp only [split, hh, Outcome.fail]

theorem split_state_of_ok {g : Streets α} {number : Nat} {location : Location α} {h : Halves α}
    (hh : halve g number location = .ok h) :
    ∃ areas, (split g number location).state =
      { (insertIndexed (g.addVertex (splitVertex h)).1 (halfEdges g h)).detach number with
          areas } := by
  simp only [split, hh]
  cases h.parent.kind.area? with
  | none => exact ⟨_, rfl⟩
  | some area => exact ⟨_, rfl⟩

theorem fits_halfEdges {g : Streets α} (hsound : Sound g) {number : Nat}
    {location : Location α} {h : Halves α} (hh : halve g number location = .ok h) :
    ∀ c ∈ halfEdges g h, Fits (g.addVertex (splitVertex h)).1 c := by
  obtain ⟨hedge, l₁, l₂, m, n, hfirst, hsecond, -, hlong₁, hlong₂, -⟩ := halve_eq_ok hh
  obtain ⟨hlive, -⟩ := hsound.edge?_eq_some_iff.1 hedge
  obtain ⟨hsource, htarget⟩ := hsound.ends _ hlive
  have hsize : (g.addVertex (splitVertex h)).1.vertices.size = g.vertices.size + 1 :=
    Array.size_push _
  intro c hc
  rcases List.mem_pair.1 hc with rfl | rfl
  · refine ⟨?_, ?_, ?_⟩
    · simp only [hsize]; omega
    · simp only [hsize]; omega
    · simpa only [hfirst, partOf] using hlong₁
  · refine ⟨?_, ?_, ?_⟩
    · simp only [hsize]; omega
    · simp only [hsize]; omega
    · simpa only [hsecond, partOf] using hlong₂

theorem exists_grows_halfEdges {g : Streets α} (hsound : Sound g) {number : Nat}
    {location : Location α} {h : Halves α} (hh : halve g number location = .ok h) :
    ∃ first second,
      Grows true [second, first] (g.addVertex (splitVertex h)).1
        (insertIndexed (g.addVertex (splitVertex h)).1 (halfEdges g h)) ∧
      first.place = (h.parent.source, g.vertices.size, h.first) ∧
      second.place = (g.vertices.size, h.parent.target, h.second) ∧
      (insertAll (g.addVertex (splitVertex h)).1 (halfEdges g h)).2 =
        [first.number, second.number] := by
  obtain ⟨new, hgrows, hplaces, hnumbers⟩ :=
    (hsound.addVertex _).exists_grows_insertIndexed (fits_halfEdges hsound hh)
  obtain ⟨second, first, rfl⟩ : ∃ second first, new = [second, first] := by
    have hlength := congrArg List.length hplaces
    simp only [List.length_map, List.length_reverse, halfEdges, List.length_cons,
      List.length_nil] at hlength
    exact List.length_eq_two.1 hlength
  simp only [List.reverse_cons, List.reverse_nil, List.nil_append, List.cons_append,
    List.map_cons, List.map_nil, halfEdges, List.cons.injEq, and_true] at hplaces
  exact ⟨first, second, hgrows, hplaces.1, hplaces.2, hnumbers.symm⟩

omit [Scalar α] in
theorem areas_replaceInArea {g g' : Streets α} (h : g.areas = g'.areas)
    (area vertex edge first second : Nat) :
    (g.replaceInArea area vertex edge first second).areas =
      (g'.replaceInArea area vertex edge first second).areas := by
  rw [replaceInArea, replaceInArea, h]

theorem frame_split {g : Streets α} {number : Nat} {location : Location α} {h : Halves α}
    (hh : halve g number location = .ok h) {first second : Nat}
    (hnumbers : (insertAll (g.addVertex (splitVertex h)).1 (halfEdges g h)).2 = [first, second]) :
    let g' := (split g number location).state
    g'.annotations = g.annotations ∧ g'.stopIndex = g.stopIndex ∧
      g'.areas = match h.parent.kind.area? with
        | some area => (g.replaceInArea area g.vertices.size number first second).areas
        | none => g.areas := by
  let halved := (insertIndexed (g.addVertex (splitVertex h)).1 (halfEdges g h)).detach number
  obtain ⟨hareas, hnotes, hstops⟩ : halved.areas = g.areas ∧
      halved.annotations = g.annotations ∧ halved.stopIndex = g.stopIndex := by
    obtain ⟨hdetach, hdetach', hdetach''⟩ := frame_detach
      (insertIndexed (g.addVertex (splitVertex h)).1 (halfEdges g h)) number
    obtain ⟨hinsert, hinsert', hinsert''⟩ := frame_insertIndexed
      (g.addVertex (splitVertex h)).1 (halfEdges g h)
    exact ⟨hdetach.trans hinsert, hdetach'.trans hinsert', hdetach''.trans hinsert''⟩
  simp only [insertAll, halfEdges, List.cons.injEq, and_true] at hnumbers
  obtain ⟨rfl, rfl⟩ := hnumbers
  simp only [split, hh]
  cases h.parent.kind.area? with
  | none => exact ⟨hnotes, hstops, hareas⟩
  | some area => exact ⟨hnotes, hstops, areas_replaceInArea hareas area _ _ _ _⟩

theorem exists_splits {g : Streets α} (hsound : Sound g) {number : Nat}
    {location : Location α} {h : Halves α} (hh : halve g number location = .ok h) :
    let g' := (split g number location).state
    Sound g' ∧ ∃ first second, Splits h first second g g' ∧ g'.annotations = g.annotations ∧
      g'.stopIndex = g.stopIndex ∧ g'.areas = match h.parent.kind.area? with
        | some area =>
          (g.replaceInArea area g.vertices.size h.parent.number first.number second.number).areas
        | none => g.areas := by
  intro g'
  obtain ⟨hlive, rfl⟩ := hsound.edge?_eq_some_iff.1 (halve_eq_ok hh).1
  have hsound₂ := (hsound.addVertex _).insertIndexed (fits_halfEdges hsound hh)
  obtain ⟨first, second, hgrows, hfirst, hsecond, hnumbers⟩ := exists_grows_halfEdges hsound hh
  have hframe := frame_split hh hnumbers
  obtain ⟨areas, hstate⟩ := split_state_of_ok hh
  have hvertices := insertIndexed_vertices (g.addVertex (splitVertex h)).1 (halfEdges g h)
  generalize insertIndexed (g.addVertex (splitVertex h)).1 (halfEdges g h) = g₂ at *
  have hlive₂ : h.parent ∈ g₂.edges := by
    rw [hgrows.edges]
    exact List.mem_append_right _ hlive
  have hstays : ∀ d ∈ [second, first], (d.number != h.parent.number) = true := by
    intro d hd
    rw [bne_iff_ne]
    intro hsame
    have hdlive : d ∈ g₂.edges := by
      rw [hgrows.edges]
      exact List.mem_append_left _ hd
    -- a half with the number of the parent would be the parent, which is older
    have hparent := hsound₂.number_inj hdlive hlive₂ hsame
    have hold := hsound.serial_lt _ hlive
    rw [← hparent] at hold
    exact absurd (hgrows.fresh d hd) (Nat.not_le.2 hold)
  refine ⟨?_, first, second, ?_, hframe⟩
  · rw [show g' = _ from hstate]
    exact (hsound₂.detach hlive₂).congr rfl rfl rfl rfl (Nat.le_refl _)
  rw [show g' = _ from hstate, hsound₂.detach_eq hlive₂]
  exact {
    parent_mem := hlive
    vertices := hvertices
    serial_le := hgrows.serial_le
    edges := by
      simp only [hgrows.edges, List.cons_append, List.nil_append, List.filter_cons]
      rw [if_pos (hstays second (by simp)), if_pos (hstays first (by simp))]
      rfl
    first_place := hfirst
    second_place := hsecond
    first_fresh := hgrows.fresh first (by simp)
    second_fresh := hgrows.fresh second (by simp)
    entries := hgrows.entries }

theorem sound_and_splits {g : Streets α} (hsound : Sound g) {number : Nat}
    {location : Location α} {h : Halves α} (hh : halve g number location = .ok h) :
    Sound (split g number location).state ∧
      ∃ first second, Splits h first second g (split g number location).state := by
  obtain ⟨hsound', first, second, hsplits, -⟩ := exists_splits hsound hh
  exact ⟨hsound', first, second, hsplits⟩

/-! ## Any change -/

namespace Change

def indexes : Change α → Bool
  | add _ | split _ _ => true
  | annotate _ | connect _ _ _ | cross _ _ => false

/-- A change of a sound graph adds a batch of edges or splits an edge. -/
theorem apply_cases {g : Streets α} (hsound : Sound g) (c : Change α) :
    (∃ new, Grows c.indexes new g (c.apply g)) ∨
      ∃ number location h first second, c = .split number location ∧
        halve g number location = .ok h ∧ Splits h first second g (c.apply g) := by
  cases c with
  | add addition =>
    obtain ⟨-, new, hgrows, -⟩ := addition.sound_and_grows hsound
    exact Or.inl ⟨new, hgrows⟩
  | annotate annotation =>
    exact Or.inl ⟨[], List.prefix_refl _, Nat.le_refl _, rfl, by simp, rfl⟩
  | split number location =>
    cases hh : halve g number location with
    | error fault =>
      refine Or.inl ⟨[], ?_⟩
      rw [Change.apply, split_state_of_error hh]
      exact Grows.refl _ g
    | ok h =>
      obtain ⟨-, first, second, hsplits⟩ := sound_and_splits hsound hh
      exact Or.inr ⟨number, location, h, first, second, rfl, hh, hsplits⟩
  | connect entity street role =>
    obtain ⟨es, -, heq⟩ := connect_state g entity street role
    obtain ⟨new, hgrows, -⟩ := exists_grows_insertAll g es
    refine Or.inl ⟨new, ?_⟩
    rw [Change.apply, heq]
    exact hgrows
  | cross vertex area =>
    obtain ⟨es, -, heq⟩ := crossArea_state g vertex area
    obtain ⟨new, hgrows, -⟩ := exists_grows_insertAll g es
    refine Or.inl ⟨new, ?_⟩
    rw [Change.apply, heq]
    exact hgrows

theorem sound_apply {g : Streets α} (hsound : Sound g) (c : Change α) : Sound (c.apply g) := by
  cases c with
  | add addition => exact (addition.sound_and_grows hsound).1
  | annotate annotation => exact hsound.congr rfl rfl rfl rfl (Nat.le_refl _)
  | split number location =>
    cases hh : halve g number location with
    | error fault => rwa [Change.apply, split_state_of_error hh]
    | ok h => exact (sound_and_splits hsound hh).1
  | connect entity street role =>
    obtain ⟨es, hes, heq⟩ := connect_state g entity street role
    rw [Change.apply, heq]
    exact hsound.insertAll hes
  | cross vertex area =>
    obtain ⟨es, hes, heq⟩ := crossArea_state g vertex area
    rw [Change.apply, heq]
    exact hsound.insertAll hes

theorem vertices_apply {g : Streets α} (hsound : Sound g) (c : Change α) :
    g.vertices.toList <+: (c.apply g).vertices.toList := by
  rcases c.apply_cases hsound with ⟨new, hgrows⟩ | ⟨-, -, h, first, second, -, -, hsplits⟩
  · exact hgrows.vertices
  · rw [hsplits.vertices, Array.toList_push]
    exact List.prefix_append _ _

end Change

theorem sound_replay {g : Streets α} (hsound : Sound g) (changes : List (Change α)) :
    Sound (replay g changes) := by
  induction changes generalizing g with
  | nil => exact hsound
  | cons c rest ih => exact ih (c.sound_apply hsound)

theorem vertices_replay {g : Streets α} (hsound : Sound g) (changes : List (Change α)) :
    g.vertices.toList <+: (replay g changes).vertices.toList := by
  induction changes generalizing g with
  | nil => exact List.prefix_refl _
  | cons c rest ih => exact (c.vertices_apply hsound).trans (ih (c.sound_apply hsound))

theorem sound_run {g : Streets α} (hsound : Sound g) (events : List (Event α)) :
    Sound (run g events) := by
  rw [← replay_changesOf]
  exact sound_replay hsound _

end StreetLinking.Linking
