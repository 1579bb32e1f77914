import StreetLinking.Proofs.Street.Soundness
/-!
# How street graphs grow

Edges are inserted in batches. A batch keeps what is there, gives fresh serials, and is either
indexed as a whole or not at all. Main statements: every addition to a sound graph is such a growth,
with all new edges indexed, and leads to a sound graph.
-/

namespace StreetLinking.Street

open Number Plane

variable {α : Type}

namespace Streets

/-- An edge to be inserted between vertices that exist, with a line of at least two points. -/
def Fits (g : Streets α) (c : Nat × Nat × EdgeData α) : Prop :=
  c.1 < g.vertices.size ∧ c.2.1 < g.vertices.size ∧ 2 ≤ c.2.2.line.length

def insertAll : Streets α → List (Nat × Nat × EdgeData α) → Streets α × List Nat
  | g, [] => (g, [])
  | g, c :: rest =>
    let inserted := g.insertEdge c.1 c.2.1 c.2.2
    let all := insertAll inserted.1 rest
    (all.1, inserted.2 :: all.2)

/-- The graph `g'` keeps what `g` has, and `new` are the edges on top of it. Their serials are fresh,
and all of them are indexed or none is. -/
structure Grows [Scalar α] (indexed : Bool) (new : List (Edge α)) (g g' : Streets α) : Prop where
  vertices : g.vertices.toList <+: g'.vertices.toList
  serial_le : g.nextSerial ≤ g'.nextSerial
  edges : g'.edges = new ++ g.edges
  fresh : ∀ e ∈ new, g.nextSerial ≤ e.serial
  entries : g'.edgeIndex.items =
    (if indexed then new.filterMap Edge.entry? else []) ++ g.edgeIndex.items

theorem vertex?_mono {g g' : Streets α} (h : g.vertices.toList <+: g'.vertices.toList)
    {v : Nat} {x : Vertex α} (hv : g.vertex? v = some x) : g'.vertex? v = some x := by
  obtain ⟨rest, hrest⟩ := h
  rw [Streets.vertex?, ← Array.getElem?_toList] at hv ⊢
  obtain ⟨hlt, -⟩ := List.getElem?_eq_some_iff.1 hv
  rw [← hrest, List.getElem?_append_left hlt, hv]

variable [Scalar α]

def indexAll (g : Streets α) (numbers : List Nat) : Streets α :=
  numbers.foldl indexEdge g

namespace Grows

variable {indexed : Bool} {new new' : List (Edge α)} {g g' g'' : Streets α}

theorem refl (indexed : Bool) (g : Streets α) : Grows indexed [] g g where
  vertices := List.prefix_refl _
  serial_le := Nat.le_refl _
  edges := rfl
  fresh := by simp
  entries := by cases indexed <;> rfl

theorem trans (h : Grows indexed new g g') (h' : Grows indexed new' g' g'') :
    Grows indexed (new' ++ new) g g'' where
  vertices := h.vertices.trans h'.vertices
  serial_le := Nat.le_trans h.serial_le h'.serial_le
  edges := by rw [h'.edges, h.edges, List.append_assoc]
  fresh := by
    intro e he
    rcases List.mem_append.1 he with he | he
    · exact Nat.le_trans h.serial_le (h'.fresh e he)
    · exact h.fresh e he
  entries := by
    rw [h'.entries, h.entries]
    cases indexed with
    | false => rfl
    | true => simp only [if_true, List.filterMap_append, List.append_assoc]

theorem vertex? (h : Grows indexed new g g') {v : Nat} {x : Vertex α}
    (hv : g.vertex? v = some x) : g'.vertex? v = some x :=
  vertex?_mono h.vertices hv

end Grows

/-! ## Inserting a batch -/

theorem grows_addVertex (g : Streets α) (v : Vertex α) (indexed : Bool) :
    Grows indexed [] g (g.addVertex v).1 where
  vertices := by simp [addVertex]
  serial_le := Nat.le_refl _
  edges := rfl
  fresh := by simp
  entries := by cases indexed <;> rfl

theorem grows_insertEdge (g : Streets α) (source target : Nat) (data : EdgeData α) :
    Grows false [g.nextEdge source target data] g (g.insertEdge source target data).1 where
  vertices := List.prefix_refl _
  serial_le := Nat.le_succ _
  edges := rfl
  fresh := by simp [nextEdge]
  entries := rfl

/-- Inserting a batch puts just its edges on top of the graph, the last one first. -/
theorem exists_grows_insertAll (g : Streets α) (es : List (Nat × Nat × EdgeData α)) :
    ∃ new, Grows false new g (insertAll g es).1 ∧ new.reverse.map Edge.place = es ∧
      new.reverse.map (·.number) = (insertAll g es).2 := by
  induction es generalizing g with
  | nil => exact ⟨[], Grows.refl false g, rfl, rfl⟩
  | cons c rest ih =>
    obtain ⟨new, hgrows, hplaces, hnumbers⟩ := ih (g.insertEdge c.1 c.2.1 c.2.2).1
    refine ⟨new ++ [g.nextEdge c.1 c.2.1 c.2.2], (grows_insertEdge g _ _ _).trans hgrows, ?_, ?_⟩
    · rw [List.reverse_append, List.map_append, hplaces]
      rfl
    · rw [List.reverse_append, List.map_append, hnumbers]
      rfl

omit [Scalar α] in
theorem insertAll_frame (g : Streets α) (es : List (Nat × Nat × EdgeData α)) :
    ∃ edges freed numbers nextSerial,
      (insertAll g es).1 = { g with edges, freed, numbers, nextSerial } := by
  induction es generalizing g with
  | nil => exact ⟨_, _, _, _, rfl⟩
  | cons c rest ih =>
    obtain ⟨edges, freed, numbers, nextSerial, h⟩ := ih (g.insertEdge c.1 c.2.1 c.2.2).1
    exact ⟨edges, freed, numbers, nextSerial, h⟩

omit [Scalar α] in
theorem insertAll_vertices (g : Streets α) (es : List (Nat × Nat × EdgeData α)) :
    (insertAll g es).1.vertices = g.vertices := by
  obtain ⟨_, _, _, _, h⟩ := insertAll_frame g es
  rw [h]

omit [Scalar α] in
theorem Sound.insertAll {g : Streets α} (h : Sound g) {es : List (Nat × Nat × EdgeData α)}
    (hes : ∀ c ∈ es, Fits g c) : Sound (insertAll g es).1 := by
  induction es generalizing g with
  | nil => exact h
  | cons c rest ih =>
    obtain ⟨hsource, htarget, hline⟩ := hes c List.mem_cons_self
    exact ih (h.insertEdge hsource htarget hline) fun d hd => hes d (List.mem_cons_of_mem _ hd)

/-! ## Indexing a batch -/

theorem indexEdge_frame (g : Streets α) (n : Nat) :
    ∃ edgeIndex, g.indexEdge n = { g with edgeIndex } ∧
      edgeIndex.items = ((g.edge? n).bind Edge.entry?).toList ++ g.edgeIndex.items := by
  unfold indexEdge Edge.entry?
  cases hedge : g.edge? n with
  | none => exact ⟨_, rfl, rfl⟩
  | some e =>
    have hnumber : e.number = n := by simpa using List.find?_some hedge
    subst hnumber
    simp only [Option.bind_some]
    cases Box.around? e.line with
    | none => exact ⟨_, rfl, rfl⟩
    | some box => exact ⟨_, rfl, rfl⟩

theorem indexAll_frame (g : Streets α) (numbers : List Nat) :
    ∃ edgeIndex, g.indexAll numbers = { g with edgeIndex } ∧
      edgeIndex.items =
        (numbers.filterMap fun n => (g.edge? n).bind Edge.entry?).reverse ++
          g.edgeIndex.items := by
  induction numbers generalizing g with
  | nil => exact ⟨_, rfl, rfl⟩
  | cons n rest ih =>
    obtain ⟨first, hfirst, hitems⟩ := indexEdge_frame g n
    obtain ⟨last, hlast, hrest⟩ := ih (g.indexEdge n)
    refine ⟨last, ?_, ?_⟩
    · rw [indexAll, List.foldl_cons]
      rw [indexAll] at hlast
      rw [hlast, hfirst]
    · rw [hrest, hfirst, hitems, List.filterMap_cons]
      cases hentry : (g.edge? n).bind Edge.entry? with
      | none => simp [edge?]
      | some entry => simp [edge?]

theorem Sound.indexAll {g : Streets α} (h : Sound g) (numbers : List Nat) :
    Sound (g.indexAll numbers) := by
  obtain ⟨edgeIndex, hframe, -⟩ := indexAll_frame g numbers
  rw [hframe]
  exact h.congr rfl rfl rfl rfl (Nat.le_refl _)

def insertIndexed (g : Streets α) (es : List (Nat × Nat × EdgeData α)) : Streets α :=
  (insertAll g es).1.indexAll (insertAll g es).2

theorem insertIndexed_eq_foldl (g : Streets α) (es : List (Nat × Nat × EdgeData α)) :
    insertIndexed g es = (insertAll g es).2.foldl indexEdge (insertAll g es).1 := rfl

theorem insertIndexed_vertices (g : Streets α) (es : List (Nat × Nat × EdgeData α)) :
    (insertIndexed g es).vertices = g.vertices := by
  obtain ⟨edgeIndex, hframe, -⟩ := indexAll_frame (insertAll g es).1 (insertAll g es).2
  rw [insertIndexed, hframe]
  exact insertAll_vertices g es

theorem frame_insertIndexed (g : Streets α) (es : List (Nat × Nat × EdgeData α)) :
    (insertIndexed g es).areas = g.areas ∧ (insertIndexed g es).annotations = g.annotations ∧
      (insertIndexed g es).stopIndex = g.stopIndex := by
  obtain ⟨_, _, _, _, hinsert⟩ := insertAll_frame g es
  obtain ⟨_, hindex, -⟩ := indexAll_frame (insertAll g es).1 (insertAll g es).2
  rw [insertIndexed, hindex, hinsert]
  exact ⟨rfl, rfl, rfl⟩

theorem Sound.insertIndexed {g : Streets α} (h : Sound g) {es : List (Nat × Nat × EdgeData α)}
    (hes : ∀ c ∈ es, Fits g c) : Sound (insertIndexed g es) :=
  (h.insertAll hes).indexAll _

theorem Sound.exists_grows_insertIndexed {g : Streets α} (h : Sound g)
    {es : List (Nat × Nat × EdgeData α)} (hes : ∀ c ∈ es, Fits g c) :
    ∃ new, Grows true new g (Streets.insertIndexed g es) ∧ new.reverse.map Edge.place = es ∧
      new.reverse.map (·.number) = (Streets.insertAll g es).2 := by
  obtain ⟨new, hgrows, hplaces, hnumbers⟩ := exists_grows_insertAll g es
  obtain ⟨edgeIndex, hframe, hitems⟩ :=
    indexAll_frame (Streets.insertAll g es).1 (Streets.insertAll g es).2
  have hsound := h.insertAll hes
  have hfound : ∀ e ∈ new, ((Streets.insertAll g es).1.edge? e.number).bind Edge.entry? =
      e.entry? := by
    intro e he
    have hlive : e ∈ (Streets.insertAll g es).1.edges := by
      rw [hgrows.edges]
      exact List.mem_append_left _ he
    rw [hsound.edge?_eq_some_iff.2 ⟨hlive, rfl⟩, Option.bind_some]
  refine ⟨new, ⟨?_, ?_, ?_, hgrows.fresh, ?_⟩, hplaces, hnumbers⟩
  · rw [Streets.insertIndexed, hframe]
    exact hgrows.vertices
  · rw [Streets.insertIndexed, hframe]
    exact hgrows.serial_le
  · rw [Streets.insertIndexed, hframe]
    exact hgrows.edges
  · rw [Streets.insertIndexed, hframe]
    simp only [hitems, hgrows.entries, ← hnumbers, List.filterMap_map, if_true, Bool.false_eq_true,
      if_false, List.nil_append]
    rw [List.filterMap_reverse, List.reverse_reverse]
    congr 1
    exact List.filterMap_congr hfound

theorem mem_edges_insertAll {g : Streets α} {es : List (Nat × Nat × EdgeData α)} {e : Edge α}
    (he : e ∈ (insertAll g es).1.edges) : e ∈ g.edges ∨ e.place ∈ es := by
  obtain ⟨new, hgrows, hplaces, -⟩ := exists_grows_insertAll g es
  rw [hgrows.edges] at he
  rcases List.mem_append.1 he with he | he
  · exact Or.inr (hplaces ▸ List.mem_map_of_mem (List.mem_reverse.2 he))
  · exact Or.inl he

theorem mem_edges_insertIndexed {g : Streets α} {es : List (Nat × Nat × EdgeData α)}
    {e : Edge α} (he : e ∈ (insertIndexed g es).edges) : e ∈ g.edges ∨ e.place ∈ es := by
  obtain ⟨edgeIndex, hframe, -⟩ := indexAll_frame (insertAll g es).1 (insertAll g es).2
  rw [insertIndexed, hframe] at he
  exact mem_edges_insertAll he

/-! ## Additions -/

omit [Scalar α] in
theorem lt_size_of_position? {g : Streets α} {v : Nat} {p : Point α} (h : g.position? v = some p) :
    v < g.vertices.size := by
  unfold position? Streets.vertex? at h
  obtain ⟨x, hx, -⟩ := Option.map_eq_some_iff.1 h
  exact (Array.getElem?_eq_some_iff.1 hx).1

omit [Scalar α] in
theorem fits_of_streetLine {g : Streets α} {source target : Nat} {given : Option (Line α)}
    {line : Line α} (h : g.streetLine source target given = .ok line) :
    source < g.vertices.size ∧ target < g.vertices.size ∧ 2 ≤ line.length := by
  unfold streetLine at h
  split at h
  · next a b hsource htarget =>
    refine ⟨lt_size_of_position? hsource, lt_size_of_position? htarget, ?_⟩
    split at h
    · split at h
      · simp at h
      · next hlong =>
        rw [Except.ok.injEq] at h
        subst h
        omega
    · rw [Except.ok.injEq] at h
      subst h
      simp
  · simp at h

theorem addStreet_state (g : Streets α) (source target : Nat) (given : Option (Line α))
    (permission : ModeSet) (name : String) :
    (g.addStreet source target given permission name).state = g ∨
      ∃ line, g.streetLine source target given = .ok line ∧
        (g.addStreet source target given permission name).state =
          insertIndexed g [(source, target, .measured .street line permission name false)] := by
  unfold addStreet
  cases hline : g.streetLine source target given with
  | error fault => exact Or.inl rfl
  | ok line => exact Or.inr ⟨line, rfl, rfl⟩

theorem addTwoWayStreet_state (g : Streets α) (source target : Nat) (given : Option (Line α))
    (permission : ModeSet) (name : String) :
    (g.addTwoWayStreet source target given permission name).state = g ∨
      ∃ line, g.streetLine source target given = .ok line ∧
        (g.addTwoWayStreet source target given permission name).state =
          insertIndexed g [(source, target, .measured .street line permission name false),
            (target, source, .measured .street line.reverse permission name true)] := by
  unfold addTwoWayStreet
  cases hline : g.streetLine source target given with
  | error fault => exact Or.inl rfl
  | ok line => exact Or.inr ⟨line, rfl, rfl⟩

def sideEdges (area : Nat) (permission : ModeSet) (name : String)
    (sides : List ((Nat × Point α) × (Nat × Point α))) : List (Nat × Nat × EdgeData α) :=
  sides.flatMap fun s =>
    [(s.1.1, s.2.1, .measured (.area area) [s.1.2, s.2.2] permission name false),
      (s.2.1, s.1.1, .measured (.area area) [s.1.2, s.2.2].reverse permission name true)]

theorem insertSides_eq (area : Nat) (permission : ModeSet) (name : String) (g : Streets α)
    (sides : List ((Nat × Point α) × (Nat × Point α))) :
    insertSides area permission name g sides =
      insertAll g (sideEdges area permission name sides) := by
  induction sides generalizing g with
  | nil => rfl
  | cons side rest ih =>
    simp only [insertSides, ih]
    rfl

omit [Scalar α] in
theorem position?_of_mem_corners {g : Streets α} {ring : List Nat} {corners : List (Nat × Point α)}
    (h : g.corners? ring = some corners) : ∀ c ∈ corners, g.position? c.1 = some c.2 := by
  unfold corners? at h
  induction ring generalizing corners with
  | nil =>
    simp only [List.mapM_nil, Option.pure_def, Option.some.injEq] at h
    subst h
    simp
  | cons v rest ih =>
    simp only [List.mapM_cons, Option.pure_def, Option.bind_eq_bind, Option.bind_eq_some_iff,
      Option.map_eq_some_iff, Option.some.injEq] at h
    obtain ⟨corner, ⟨p, hp, rfl⟩, others, hothers, rfl⟩ := h
    intro c hc
    rcases List.mem_cons.1 hc with rfl | hc
    · exact hp
    · exact ih hothers c hc

omit [Scalar α] in
theorem map_fst_corners {g : Streets α} {ring : List Nat} {corners : List (Nat × Point α)}
    (h : g.corners? ring = some corners) : corners.map (·.1) = ring := by
  unfold corners? at h
  induction ring generalizing corners with
  | nil =>
    simp only [List.mapM_nil, Option.pure_def, Option.some.injEq] at h
    subst h
    rfl
  | cons v rest ih =>
    simp only [List.mapM_cons, Option.pure_def, Option.bind_eq_bind, Option.bind_eq_some_iff,
      Option.map_eq_some_iff, Option.some.injEq] at h
    obtain ⟨corner, ⟨p, hp, rfl⟩, others, hothers, rfl⟩ := h
    rw [List.map_cons, ih hothers]

theorem mem_of_mem_sides {β : Type} {ring : List β} {s : β × β} (h : s ∈ sides ring) :
    s.1 ∈ ring ∧ s.2 ∈ ring := by
  obtain ⟨hfirst, hsecond⟩ := List.of_mem_zip h
  refine ⟨hfirst, ?_⟩
  rcases List.mem_append.1 hsecond with hmem | hmem
  · exact List.mem_of_mem_tail hmem
  · exact List.mem_of_mem_take hmem

theorem fits_of_mem_sideEdges {g : Streets α} {ring : List Nat} {corners : List (Nat × Point α)}
    (hcorners : g.corners? ring = some corners) {area : Nat} {permission : ModeSet} {name : String}
    {c : Nat × Nat × EdgeData α} (hc : c ∈ sideEdges area permission name (sides corners)) :
    Fits g c ∧ c.2.2.kind = .area area := by
  obtain ⟨s, hs, hc⟩ := List.mem_flatMap.1 hc
  obtain ⟨hfirst, hsecond⟩ := mem_of_mem_sides hs
  have hsource := lt_size_of_position? (position?_of_mem_corners hcorners _ hfirst)
  have htarget := lt_size_of_position? (position?_of_mem_corners hcorners _ hsecond)
  rcases List.mem_pair.1 hc with rfl | rfl
  · exact ⟨⟨hsource, htarget, Nat.le_refl 2⟩, rfl⟩
  · exact ⟨⟨htarget, hsource, Nat.le_refl 2⟩, rfl⟩

theorem ends_of_mem_sideEdges {g : Streets α} {ring : List Nat} {corners : List (Nat × Point α)}
    (hcorners : g.corners? ring = some corners) {area : Nat} {permission : ModeSet} {name : String}
    {c : Nat × Nat × EdgeData α} (hc : c ∈ sideEdges area permission name (sides corners)) :
    c.1 ∈ ring ∧ c.2.1 ∈ ring := by
  obtain ⟨s, hs, hc⟩ := List.mem_flatMap.1 hc
  obtain ⟨hfirst, hsecond⟩ := mem_of_mem_sides hs
  have hring := map_fst_corners hcorners
  have hsource : s.1.1 ∈ ring := hring ▸ List.mem_map_of_mem hfirst
  have htarget : s.2.1 ∈ ring := hring ▸ List.mem_map_of_mem hsecond
  rcases List.mem_pair.1 hc with rfl | rfl
  · exact ⟨hsource, htarget⟩
  · exact ⟨htarget, hsource⟩

theorem addArea_cases (g : Streets α) (name : String) (ring : List Nat) (permission : ModeSet) :
    (∃ fault, g.addArea name ring permission = .fail fault g) ∨
      ∃ corners, g.corners? ring = some corners ∧
        let es := sideEdges g.areas.length permission name (sides corners)
        g.addArea name ring permission = .ok g.areas.length
          { insertIndexed g es with areas := g.areas ++ [⟨name, ring, (insertAll g es).2⟩] } := by
  unfold addArea
  split
  · exact Or.inl ⟨_, rfl⟩
  · cases hcorners : g.corners? ring with
    | none => exact Or.inl ⟨_, rfl⟩
    | some corners =>
      refine Or.inr ⟨corners, rfl, ?_⟩
      obtain ⟨hareas, -⟩ := frame_insertIndexed g
        (sideEdges g.areas.length permission name (sides corners))
      simp only [insertSides_eq]
      rw [← insertIndexed_eq_foldl, hareas]

end Streets

end StreetLinking.Street
