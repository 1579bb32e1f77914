import StreetLinking.Proofs.Linking.GraphSteps
/-!
# What linking leaves in place

Linking an entity splits edges to which others have been attached before. Their connectors stay, the
vertices that these lead to stay on the streets, and a new edge ends at the entity or at a vertex of
a street. Main statement: so it is for every list of edges that an entity is linked to, and the
entity is joined with a street in the end.
-/

namespace StreetLinking.Linking

open Number Plane Street Streets

variable {α : Type} [Scalar α]

/-- The vertex is an end of a street or of an edge of an area. -/
def OnEdge (g : Streets α) (w : Nat) : Prop :=
  ∃ e ∈ g.edges, e.kind.isLinkable = true ∧ (w = e.source ∨ w = e.target)

/-- A connector leads from the vertex to a street, and one leads back. -/
def Joined (g : Streets α) (v : Nat) (kind : ConnectorKind) : Prop :=
  ∃ w, IsStreet g w ∧ OnEdge g w ∧ g.connects v w (· == .connector kind) = true ∧
    g.connects w v (· == .connector kind) = true

/-- What linking the vertices `us` may do to a graph in which streets end at vertices of streets
only, adding the annotations `notes`. -/
structure Advances (us : List Nat) (notes : List Annotation) (g g' : Streets α) : Prop where
  sound : Sound g'
  streets : OnStreets g'
  vertices : g.vertices.toList <+: g'.vertices.toList
  connectors : ∀ e ∈ g.edges, e.kind.isLinkable = false → e ∈ g'.edges
  onEdge : ∀ w, OnEdge g w → OnEdge g' w
  ends : ∀ e ∈ g'.edges, e ∉ g.edges → ∀ w, w = e.source ∨ w = e.target → w ∈ us ∨ IsStreet g' w
  annotations : g'.annotations = g.annotations ++ notes

omit [Scalar α] in
theorem IsStreet.mono {g g' : Streets α} (h : g.vertices.toList <+: g'.vertices.toList)
    {w : Nat} (hw : IsStreet g w) : IsStreet g' w := by
  obtain ⟨b, hb, hstreet⟩ := hw
  exact ⟨b, vertex?_mono h hb, hstreet⟩

namespace Advances

variable {us : List Nat} {notes : List Annotation} {g g' : Streets α}

omit [Scalar α] in
theorem refl (hsound : Sound g) (hstreets : OnStreets g) (us : List Nat) :
    Advances us [] g g where
  sound := hsound
  streets := hstreets
  vertices := List.prefix_refl _
  connectors _ he _ := he
  onEdge _ hw := hw
  ends _ he hnew := absurd he hnew
  annotations := (List.append_nil _).symm

omit [Scalar α] in
theorem trans {notes' : List Annotation} {g'' : Streets α} (h : Advances us notes g g')
    (h' : Advances us notes' g' g'') : Advances us (notes ++ notes') g g'' where
  sound := h'.sound
  streets := h'.streets
  vertices := h.vertices.trans h'.vertices
  connectors e he hconnector := h'.connectors e (h.connectors e he hconnector) hconnector
  onEdge w hw := h'.onEdge w (h.onEdge w hw)
  ends e he hnew w hw := by
    by_cases hmiddle : e ∈ g'.edges
    · exact (h.ends e hmiddle hnew w hw).imp_right (.mono h'.vertices)
    · exact h'.ends e he hmiddle w hw
  annotations := by rw [h'.annotations, h.annotations, List.append_assoc]

omit [Scalar α] in
theorem mono (h : Advances us notes g g') {ws : List Nat} (hsub : us ⊆ ws) :
    Advances ws notes g g' :=
  { h with ends := fun e he hnew w hw => (h.ends e he hnew w hw).imp_left (@hsub w) }

omit [Scalar α] in
theorem connects (h : Advances us notes g g') {source target : Nat} {kind : ConnectorKind}
    (hthere : g.connects source target (· == .connector kind) = true) :
    g'.connects source target (· == .connector kind) = true := by
  simp only [Streets.connects, outgoing, List.any_eq_true, List.mem_filter, Bool.and_eq_true,
    beq_iff_eq] at hthere ⊢
  obtain ⟨e, ⟨he, hsource⟩, htarget, hkind⟩ := hthere
  exact ⟨e, ⟨h.connectors e he (by rw [hkind]; rfl), hsource⟩, htarget, hkind⟩

omit [Scalar α] in
theorem joined (h : Advances us notes g g') {v : Nat} {kind : ConnectorKind}
    (hv : Joined g v kind) : Joined g' v kind := by
  obtain ⟨w, hstreet, hedge, hthere, hback⟩ := hv
  exact ⟨w, hstreet.mono h.vertices, h.onEdge w hedge, h.connects hthere, h.connects hback⟩

end Advances

/-! ## Steps -/

omit [Scalar α] in
theorem advances_of_batch {us : List Nat} {notes : List Annotation} {g g' : Streets α}
    (hsound : Sound g') (hstreets : OnStreets g) (new : List (Edge α))
    (hvertices : g'.vertices = g.vertices) (hareas : g'.areas = g.areas)
    (hedges : g'.edges = new ++ g.edges)
    (hends : ∀ e ∈ new, ∀ w, w = e.source ∨ w = e.target →
      IsStreet g w ∨ w ∈ us ∧ e.kind.isLinkable = false)
    (hnotes : g'.annotations = g.annotations ++ notes) : Advances us notes g g' := by
  have hprefix : g.vertices.toList <+: g'.vertices.toList := by
    simp only [hvertices, List.prefix_refl]
  have hkept : ∀ e ∈ g.edges, e ∈ g'.edges := fun e he => hedges ▸ List.mem_append_right _ he
  have hlinkable {e : Edge α} (he : e ∈ new) (hopen : e.kind.isLinkable = true) {w : Nat}
      (hw : w = e.source ∨ w = e.target) : IsStreet g' w := by
    rcases hends e he w hw with hstreet | ⟨-, hconnector⟩
    · exact hstreet.mono hprefix
    · rw [hopen] at hconnector
      cases hconnector
  refine ⟨hsound, ⟨?_, ?_⟩, hprefix, fun e he _ => hkept e he, ?_, ?_, hnotes⟩
  · intro e he hopen
    rw [hedges] at he
    rcases List.mem_append.1 he with he | he
    · exact ⟨hlinkable he hopen (Or.inl rfl), hlinkable he hopen (Or.inr rfl)⟩
    · obtain ⟨hsource, htarget⟩ := hstreets.edges e he hopen
      exact ⟨hsource.mono hprefix, htarget.mono hprefix⟩
  · rw [hareas]
    exact fun a ha w hw => (hstreets.areas a ha w hw).mono hprefix
  · exact fun w ⟨e, he, hend⟩ => ⟨e, hkept e he, hend⟩
  · intro e he hnew w hw
    rw [hedges] at he
    rcases List.mem_append.1 he with he | he
    · exact (hends e he w hw).elim (fun h => Or.inr (h.mono hprefix)) fun h => Or.inl h.1
    · exact absurd he hnew

omit [Scalar α] in
theorem advances_annotate {g : Streets α} (hsound : Sound g) (hstreets : OnStreets g)
    (us : List Nat) (a : Annotation) : Advances us [a] g (g.annotate a) :=
  advances_of_batch (hsound.congr rfl rfl rfl rfl (Nat.le_refl _)) hstreets [] rfl rfl rfl
    (by simp) rfl

theorem advances_insertAll {us : List Nat} {g : Streets α} (hstreets : OnStreets g)
    {es : List (Nat × Nat × EdgeData α)} (hsound : Sound (insertAll g es).1)
    (hends : ∀ c ∈ es, ∀ w, w = c.1 ∨ w = c.2.1 →
      IsStreet g w ∨ w ∈ us ∧ c.2.2.kind.isLinkable = false) :
    Advances us [] g (insertAll g es).1 := by
  obtain ⟨new, hgrows, hplaces, -⟩ := exists_grows_insertAll g es
  obtain ⟨_, _, _, _, hframe⟩ := insertAll_frame g es
  refine advances_of_batch hsound hstreets new (insertAll_vertices g es) ?_ hgrows.edges ?_ ?_
  · rw [hframe]
  · intro e he w hw
    have hplace : e.place ∈ es := by
      rw [← hplaces]
      exact List.mem_map_of_mem (List.mem_reverse.2 he)
    exact hends e.place hplace w hw
  · rw [hframe, List.append_nil]

theorem advances_connect {g : Streets α} (hsound : Sound g) (hstreets : OnStreets g) {v w : Nat}
    {a : Vertex α} (hv : g.vertex? v = some a) (hw : IsStreet g w) (role : Role) :
    Advances [v] [] g (connect g v w role).1 := by
  obtain ⟨b, hb, -⟩ := id hw
  obtain ⟨es, hes, heq⟩ := exists_connectors_of_connect hv hb role
  have hsound' : Sound (connect g v w role).1 := Change.sound_apply hsound (.connect v w role)
  rw [heq] at hsound' ⊢
  refine advances_insertAll hstreets hsound' fun c hc u hu => ?_
  obtain ⟨hkind, hends⟩ := kind_of_mem_connectors (hes c hc)
  have hend : u = v ∨ u = w := by
    rcases hends with ⟨hsource, htarget⟩ | ⟨hsource, htarget⟩
    · exact hu.imp (·.trans hsource) (·.trans htarget)
    · exact hu.symm.imp (·.trans htarget) (·.trans hsource)
  rcases hend with rfl | rfl
  · exact Or.inr ⟨List.mem_singleton_self u, by rw [hkind]; rfl⟩
  · exact Or.inl hw

theorem connects_connect {g : Streets α} {v w : Nat} {a b : Vertex α} (hv : g.vertex? v = some a)
    (hw : g.vertex? w = some b) {role : Role} (hboth : role.connector.direction = .both) :
    let g' := (connect g v w role).1
    (∀ e ∈ g.edges, e ∈ g'.edges) ∧
      g'.connects v w (· == .connector role.connector.kind) = true ∧
      g'.connects w v (· == .connector role.connector.kind) = true := by
  intro g'
  have hkinds : ∀ c ∈ connectors (v, a) (w, b) role,
      (c.2.2.kind == EdgeKind.connector role.connector.kind) = true :=
    fun c hc => beq_iff_eq.2 (kind_of_mem_connectors hc).1
  obtain ⟨hkept, hthere⟩ := connects_foldl_connectUnless
    (· == .connector role.connector.kind) hkinds (g, 0)
  rw [← connect_eq hv hw] at hkept hthere
  obtain ⟨there, back, hpair⟩ : ∃ there back,
      connectors (v, a) (w, b) role = [(v, w, there), (w, v, back)] := by
    simp [connectors, hboth, Direction.leaves, Direction.arrives]
  rw [hpair] at hthere
  exact ⟨hkept, hthere (v, w, there) (by simp), hthere (w, v, back) (by simp)⟩

theorem crossArea_cases (g : Streets α) (vertex area : Nat) :
    (crossArea g vertex area).1 = g ∨
      ∃ a ∈ g.areas, ∃ es, (crossArea g vertex area).1 = (insertAll g es).1 ∧
        ∀ c ∈ es, c.1 = vertex ∧ c.2.1 ∈ a.vertices ∨ c.2.1 = vertex ∧ c.1 ∈ a.vertices := by
  unfold crossArea
  split
  · next a position harea hposition =>
    refine Or.inr ⟨a, List.mem_of_getElem? harea, _, foldl_insertEdge g _, fun c hc => ?_⟩
    obtain ⟨source, target, data⟩ := c
    obtain ⟨-, hends⟩ := not_connects_of_mem_crossings hc
    exact hends.imp (And.imp_right fun h => (List.mem_filter.1 h).1)
      (And.imp_right fun h => (List.mem_filter.1 h).1)
  · exact Or.inl rfl

theorem edges_crossArea (g : Streets α) (vertex area : Nat) :
    ∃ new, (crossArea g vertex area).1.edges = new ++ g.edges ∧ ∀ e ∈ new, e.kind = .street := by
  unfold crossArea
  split
  · next a position _ _ =>
    dsimp only
    rw [foldl_insertEdge]
    obtain ⟨new, hgrows, hplaces, -⟩ := exists_grows_insertAll g
      (crossings g a.name vertex position (a.vertices.filter (· != vertex)))
    refine ⟨new, hgrows.edges, fun e he => ?_⟩
    have hplace := hplaces ▸ List.mem_map_of_mem (List.mem_reverse.2 he)
    exact kind_of_mem_crossings hplace
  · exact ⟨[], rfl, by simp⟩

theorem mem_edges_crossArea (g : Streets α) (vertex area : Nat) :
    ∀ e ∈ g.edges, e ∈ (crossArea g vertex area).1.edges := by
  obtain ⟨new, hedges, -⟩ := edges_crossArea g vertex area
  intro e he
  rw [hedges]
  exact List.mem_append_right _ he

theorem advances_crossArea {g : Streets α} (hsound : Sound g) (hstreets : OnStreets g)
    (us : List Nat) {w : Nat} (hw : IsStreet g w) (area : Nat) :
    Advances us [] g (crossArea g w area).1 := by
  have hsound' : Sound (crossArea g w area).1 := Change.sound_apply hsound (.cross w area)
  rcases crossArea_cases g w area with heq | ⟨a, ha, es, heq, hes⟩
  · rw [heq]
    exact .refl hsound hstreets us
  · rw [heq] at hsound' ⊢
    refine advances_insertAll hstreets hsound' fun c hc u hu => Or.inl ?_
    have hend : u = w ∨ u ∈ a.vertices := by
      rcases hes c hc with ⟨hsource, htarget⟩ | ⟨htarget, hsource⟩
      · rcases hu with rfl | rfl
        · exact Or.inl hsource
        · exact Or.inr htarget
      · rcases hu with rfl | rfl
        · exact Or.inr hsource
        · exact Or.inl htarget
    rcases hend with rfl | hu
    · exact hw
    · exact hstreets.areas a ha u hu

/-! ## Splitting -/

omit [Scalar α] in
theorem mem_vertices_replaceInArea {g : Streets α} {area vertex edge first second : Nat}
    {a : Area} (ha : a ∈ (g.replaceInArea area vertex edge first second).areas) {w : Nat}
    (hw : w ∈ a.vertices) : w = vertex ∨ ∃ b ∈ g.areas, w ∈ b.vertices := by
  obtain ⟨i, hi⟩ := List.getElem?_of_mem ha
  simp only [replaceInArea, List.getElem?_modify, Option.map_eq_map] at hi
  split at hi
  · obtain ⟨b, hb, rfl⟩ := Option.map_eq_some_iff.1 hi
    rcases List.mem_append.1 hw with hw | hw
    · exact Or.inr ⟨b, List.mem_of_getElem? hb, hw⟩
    · exact Or.inl (List.mem_singleton.1 hw)
  · rw [Option.map_id'] at hi
    exact Or.inr ⟨a, List.mem_of_getElem? hi, hw⟩

theorem areas_split {g : Streets α} (hsound : Sound g) {number : Nat} {location : Location α}
    {h : Halves α} (hh : halve g number location = .ok h) :
    let g' := (split g number location).state
    g'.annotations = g.annotations ∧
      ∀ a ∈ g'.areas, ∀ w ∈ a.vertices, w = g.vertices.size ∨ ∃ b ∈ g.areas, w ∈ b.vertices := by
  intro g'
  obtain ⟨-, first, second, -, hannotations, -, hareas⟩ := exists_splits hsound hh
  refine ⟨hannotations, fun a ha w hw => ?_⟩
  rw [show g'.areas = _ from hareas] at ha
  cases harea : h.parent.kind.area? with
  | none =>
    rw [harea] at ha
    exact Or.inr ⟨a, ha, hw⟩
  | some area =>
    rw [harea] at ha
    exact mem_vertices_replaceInArea ha hw

namespace Splits

variable {g g' : Streets α} {h : Halves α} {first second : Edge α}
  (hsplits : Splits h first second g g')

include hsplits

theorem vertices_grow : g.vertices.toList <+: g'.vertices.toList := by
  rw [hsplits.vertices, Array.toList_push]
  exact List.prefix_append _ _

theorem isStreet_new : IsStreet g' g.vertices.size := by
  refine ⟨splitVertex h, ?_, rfl⟩
  rw [Streets.vertex?, hsplits.vertices, Array.getElem?_push_size]

theorem mem_of_ne {e : Edge α} (he : e ∈ g.edges) (hother : e.number ≠ h.parent.number) :
    e ∈ g'.edges := by
  simp [hsplits.edges, he, hother]

theorem mem_cases {e : Edge α} (he : e ∈ g'.edges) : (e = second ∨ e = first) ∨ e ∈ g.edges := by
  rw [hsplits.edges] at he
  simp only [List.mem_cons, List.mem_filter, ← or_assoc] at he
  exact he.imp_right And.left

theorem halves {number : Nat} {location : Location α} (hh : halve g number location = .ok h) :
    (first ∈ g'.edges ∧ first.kind = h.parent.kind ∧ first.source = h.parent.source ∧
      first.target = g.vertices.size) ∧
    second ∈ g'.edges ∧ second.kind = h.parent.kind ∧ second.source = g.vertices.size ∧
      second.target = h.parent.target := by
  obtain ⟨-, l₁, l₂, m, n, hfirst, hsecond, -⟩ := halve_eq_ok hh
  have hplace₁ := hsplits.first_place
  have hplace₂ := hsplits.second_place
  simp only [Edge.place, Prod.mk.injEq, hfirst] at hplace₁
  simp only [Edge.place, Prod.mk.injEq, hsecond] at hplace₂
  obtain ⟨hsource₁, htarget₁, hdata₁⟩ := hplace₁
  obtain ⟨hsource₂, htarget₂, hdata₂⟩ := hplace₂
  refine ⟨⟨?_, ?_, hsource₁, htarget₁⟩, ?_, ?_, hsource₂, htarget₂⟩
  · simp [hsplits.edges]
  · rw [hdata₁, partOf]
  · simp [hsplits.edges]
  · rw [hdata₂, partOf]

end Splits

theorem advances_split {g : Streets α} (hsound : Sound g) (hstreets : OnStreets g)
    (us : List Nat) {number : Nat} {location : Location α} {h : Halves α}
    (hh : halve g number location = .ok h) (hopen : h.parent.kind.isLinkable = true) :
    let g' := (split g number location).state
    Advances us [] g g' ∧ IsStreet g' g.vertices.size ∧ OnEdge g' g.vertices.size ∧
      ∀ d ∈ g.edges, d.number ≠ number → d ∈ g'.edges := by
  intro g'
  obtain ⟨hlive, rfl⟩ := hsound.edge?_eq_some_iff.1 (halve_eq_ok hh).1
  obtain ⟨hsound', first, second, hsplits⟩ := sound_and_splits hsound hh
  obtain ⟨⟨hmem₁, hkind₁, hsource₁, htarget₁⟩, hmem₂, hkind₂, hsource₂, htarget₂⟩ :=
    hsplits.halves hh
  obtain ⟨hannotations, hareas⟩ := areas_split hsound hh
  have hgrow := hsplits.vertices_grow
  have hnew := hsplits.isStreet_new
  obtain ⟨hsource, htarget⟩ := hstreets.edges _ hlive hopen
  have hhalf : ∀ e, e = second ∨ e = first → IsStreet g' e.source ∧ IsStreet g' e.target := by
    rintro e (rfl | rfl)
    · rw [hsource₂, htarget₂]
      exact ⟨hnew, htarget.mono hgrow⟩
    · rw [hsource₁, htarget₁]
      exact ⟨hsource.mono hgrow, hnew⟩
  refine ⟨⟨hsound', ⟨?_, ?_⟩, hgrow, ?_, ?_, ?_, ?_⟩, hnew, ?_, fun d => hsplits.mem_of_ne⟩
  · intro e he hopen
    rcases hsplits.mem_cases he with he | he
    · exact hhalf e he
    · exact (hstreets.edges e he hopen).imp (·.mono hgrow) (·.mono hgrow)
  · intro a ha w hw
    rcases hareas a ha w hw with rfl | ⟨b, hb, hw⟩
    · exact hnew
    · exact (hstreets.areas b hb w hw).mono hgrow
  · intro e he hconnector
    refine hsplits.mem_of_ne he fun hsame => ?_
    rw [hsound.number_inj he hlive hsame, hopen] at hconnector
    cases hconnector
  · rintro w ⟨e, he, hopen', hw⟩
    by_cases hsame : e.number = h.parent.number
    · obtain rfl := hsound.number_inj he hlive hsame
      rcases hw with rfl | rfl
      · exact ⟨first, hmem₁, hkind₁ ▸ hopen, Or.inl hsource₁.symm⟩
      · exact ⟨second, hmem₂, hkind₂ ▸ hopen, Or.inr htarget₂.symm⟩
    · exact ⟨e, hsplits.mem_of_ne he hsame, hopen', hw⟩
  · intro e he hfresh w hw
    obtain ⟨hsource, htarget⟩ := hhalf e ((hsplits.mem_cases he).resolve_right hfresh)
    rcases hw with rfl | rfl
    · exact Or.inr hsource
    · exact Or.inr htarget
  · rw [hannotations, List.append_nil]
  · exact ⟨first, hmem₁, hkind₁ ▸ hopen, Or.inr htarget₁.symm⟩

/-! ## Linking one entity -/

theorem exists_attach {g : Streets α} (hsound : Sound g) (hstreets : OnStreets g) (us : List Nat)
    {number : Nat} {e : Edge α} (hedge : g.edge? number = some e)
    (hlinkable : e.kind.isLinkable = true) (settings : Settings) (frame : Frame α)
    (entity : Entity α) :
    ∃ w g', attach settings frame entity g number = .ok w g' ∧ Advances us [] g g' ∧
      IsStreet g' w ∧ OnEdge g' w ∧ ∀ d ∈ g.edges, d.number ≠ number → d ∈ g'.edges := by
  obtain ⟨hlive, -⟩ := hsound.edge?_eq_some_iff.1 hedge
  rcases attach_cases hsound hedge settings frame entity with
    ⟨w, -, hw, hattach⟩ | ⟨location, h, -, hh, rfl, hattach⟩
  · refine ⟨w, g, hattach, .refl hsound hstreets us, ?_, ⟨e, hlive, hlinkable, hw⟩,
      fun d hd _ => hd⟩
    obtain ⟨hsource, htarget⟩ := hstreets.edges e hlive hlinkable
    rcases hw with rfl | rfl
    · exact hsource
    · exact htarget
  · obtain ⟨hsplit, hstreet, honEdge, hkept⟩ := advances_split hsound hstreets us hh hlinkable
    rcases hattach with hattach | ⟨-, area, hattach⟩
    · exact ⟨_, _, hattach, hsplit, hstreet, honEdge, hkept⟩
    · have hcross := advances_crossArea hsplit.sound hsplit.streets us hstreet area
      refine ⟨_, _, hattach, hsplit.trans hcross, hstreet.mono hcross.vertices,
        hcross.onEdge _ honEdge, fun d hd hother => ?_⟩
      exact mem_edges_crossArea _ _ _ _ (hkept d hd hother)

theorem exists_attachAll {g : Streets α} (hsound : Sound g) (hstreets : OnStreets g)
    (entity : Entity α) {x : Vertex α} (hx : g.vertex? entity.vertex = some x)
    (hboth : entity.role.connector.direction = .both) (settings : Settings) (frame : Frame α)
    {numbers : List Nat} (hdistinct : numbers.Nodup)
    (hlive : ∀ n ∈ numbers, ∃ e, g.edge? n = some e ∧ e.kind.isLinkable = true) :
    ∃ g', attachAll settings frame entity g numbers = .ok () g' ∧
      Advances [entity.vertex] [] g g' ∧
      (numbers ≠ [] → Joined g' entity.vertex entity.role.connector.kind) := by
  induction numbers generalizing g with
  | nil => exact ⟨g, rfl, .refl hsound hstreets _, fun h => absurd rfl h⟩
  | cons number rest ih =>
    obtain ⟨e, hedge, hlinkable⟩ := hlive number List.mem_cons_self
    obtain ⟨hnew, hdistinct⟩ := List.nodup_cons.1 hdistinct
    obtain ⟨w, g₁, hattach, hadvances, hstreet, honEdge, hkept⟩ :=
      exists_attach hsound hstreets [entity.vertex] hedge hlinkable settings frame entity
    have hx₁ := vertex?_mono hadvances.vertices hx
    obtain ⟨b, hb, -⟩ := id hstreet
    have hconnect := advances_connect hadvances.sound hadvances.streets hx₁ hstreet entity.role
    obtain ⟨hmore, hthere, hback⟩ := connects_connect hx₁ hb hboth
    have hjoined : Joined (connect g₁ entity.vertex w entity.role).1 entity.vertex
        entity.role.connector.kind :=
      ⟨w, hstreet.mono hconnect.vertices, hconnect.onEdge w honEdge, hthere, hback⟩
    have hlater : ∀ n ∈ rest, ∃ e, (connect g₁ entity.vertex w entity.role).1.edge? n = some e ∧
        e.kind.isLinkable = true := by
      intro n hn
      obtain ⟨e, he, hopen⟩ := hlive n (List.mem_cons_of_mem _ hn)
      have hother : n ≠ number := fun hsame => hnew (hsame ▸ hn)
      exact ⟨e, hsound.edge?_of_kept hconnect.sound he
        fun d hd hnumber => hmore d (hkept d hd (hnumber ▸ hother)), hopen⟩
    obtain ⟨g₂, hrest, hall, -⟩ := ih hconnect.sound hconnect.streets
      (vertex?_mono hconnect.vertices hx₁) hdistinct hlater
    refine ⟨g₂, ?_, (hadvances.trans hconnect).trans hall, fun _ => hall.joined hjoined⟩
    rw [attachAll, hattach, Outcome.andThen_ok, hrest]

end StreetLinking.Linking
