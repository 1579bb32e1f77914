import StreetLinking.Proofs.Linking.Changes
import StreetLinking.Proofs.Linking.OverlaySteps
/-!
# What linking in the street graph does with one edge

A vertex is linked to its nearest edges one after the other. With each of them it is connected with
an end of the edge, or the edge is split and it is connected with the vertex between the halves,
which may be connected with the rest of an area before. Main statements: in a sound graph attaching
to a live edge never fails, and connecting adds some of the connectors on top of the graph and
leaves none of them out.
-/

namespace StreetLinking.Linking

open Number Plane Street Streets

variable {α : Type} [Scalar α]

/-! ## Where streets and areas are attached -/

def IsStreet (g : Streets α) (w : Nat) : Prop :=
  ∃ b, g.vertex? w = some b ∧ b.kind.isStreet = true

/-- Streets and areas are attached to vertices of streets only. -/
structure OnStreets (g : Streets α) : Prop where
  edges : ∀ e ∈ g.edges, e.kind.isLinkable = true → IsStreet g e.source ∧ IsStreet g e.target
  areas : ∀ a ∈ g.areas, ∀ w ∈ a.vertices, IsStreet g w

omit [Scalar α] in
theorem not_isStreet {g : Streets α} {v : Nat} {x : Vertex α} (hx : g.vertex? v = some x)
    {role : Role} (hrole : x.kind.role? = some role) : ¬ IsStreet g v := by
  rintro ⟨b, hb, hstreet⟩
  obtain rfl := Option.some.inj (hx.symm.trans hb)
  rw [(VertexKind.role?_eq_none_iff _).2 hstreet] at hrole
  cases hrole

theorem direction_of_role? {k : VertexKind} {role : Role} (h : k.role? = some role) :
    role.connector.direction = .both := by
  cases k <;> cases h <;> rfl

omit [Scalar α] in
theorem OnStreets.apart {g : Streets α} (h : OnStreets g) {v : Nat} (hv : ¬ IsStreet g v)
    {e : Edge α} (he : e ∈ g.edges) (hopen : e.kind.isLinkable = true) :
    e.source ≠ v ∧ e.target ≠ v := by
  obtain ⟨hsource, htarget⟩ := h.edges e he hopen
  exact ⟨fun heq => hv (heq ▸ hsource), fun heq => hv (heq ▸ htarget)⟩

/-! ## Planning looks at one edge -/

theorem plan_congr {g g' : Streets α} {number : Nat} (h : g'.edge? number = g.edge? number)
    (point : Point α) (frame : Frame α) (snap : α) :
    plan g' number point frame snap = plan g number point frame snap := by
  simp only [plan, h]

theorem halve_congr {g g' : Streets α} {number : Nat} (h : g'.edge? number = g.edge? number)
    (location : Location α) : halve g' number location = halve g number location := by
  simp only [halve, h]

/-! ## Attaching -/

theorem split_of_halve {g : Streets α} {number : Nat} {location : Location α} {h : Halves α}
    (hh : halve g number location = .ok h) :
    split g number location = .ok g.vertices.size (split g number location).state := by
  simp only [split, hh, addVertex_number]
  cases h.parent.kind.area? <;> rfl

theorem attach_cases {g : Streets α} (hsound : Sound g) {number : Nat} {e : Edge α}
    (hedge : g.edge? number = some e) (settings : Settings) (frame : Frame α)
    (entity : Entity α) :
    (∃ v, plan g number entity.position frame (Scalar.ofDouble settings.endpointSnap) =
          .ok (.endpoint v) ∧ (v = e.source ∨ v = e.target) ∧
        attach settings frame entity g number = .ok v g) ∨
      ∃ location h, plan g number entity.position frame (Scalar.ofDouble settings.endpointSnap) =
          .ok (.cut location) ∧ halve g number location = .ok h ∧ h.parent = e ∧
        (attach settings frame entity g number =
            .ok g.vertices.size (split g number location).state ∨
          entity.role = .stop ∧ ∃ area,
            attach settings frame entity g number =
              .ok g.vertices.size
                (crossArea (split g number location).state g.vertices.size area).1) := by
  rcases plan_cases hedge entity.position frame (Scalar.ofDouble settings.endpointSnap) with
    ⟨v, hplan, hend⟩ | ⟨location, hplan⟩
  · exact Or.inl ⟨v, hplan, hend, by simp only [attach, hplan]⟩
  · obtain ⟨h, hh, hparent⟩ := exists_halve hsound hedge location
    refine Or.inr ⟨location, h, hplan, hh, hparent, ?_⟩
    simp only [attach, hplan]
    rw [split_of_halve hh, Outcome.andThen_ok]
    cases (g.edge? number).bind (·.kind.area?) with
    | none => exact Or.inl rfl
    | some area =>
      dsimp only
      split
      · next hcross =>
        refine Or.inr ⟨?_, area, rfl⟩
        exact beq_iff_eq.1 (Bool.and_eq_true_iff.1 hcross).1
      · exact Or.inl rfl

theorem link_eq {g : Streets α} {v : Nat} {x : Vertex α} {role : Role}
    (hx : g.vertex? v = some x) (hrole : x.kind.role? = some role) (settings : Settings)
    (mode : Mode) :
    link settings g v mode = linkEntity settings g ⟨v, role, x.label, x.position⟩ mode := by
  simp only [link, hx, hrole]

/-! ## Connecting -/

omit [Scalar α] in
theorem connects_mono {g g' : Streets α} (h : ∀ e ∈ g.edges, e ∈ g'.edges) {source target : Nat}
    {admits : EdgeKind → Bool} (hthere : g.connects source target admits = true) :
    g'.connects source target admits = true := by
  simp only [connects, outgoing, List.any_eq_true, List.mem_filter] at hthere ⊢
  obtain ⟨e, ⟨he, hsource⟩, hmatch⟩ := hthere
  exact ⟨e, ⟨h e he, hsource⟩, hmatch⟩

omit [Scalar α] in
theorem mem_edges_connectUnless (admits : EdgeKind → Bool) (source target : Nat)
    (data : EdgeData α) (s : Added α) :
    ∀ e ∈ s.1.edges, e ∈ (connectUnless admits source target data s).1.edges := by
  intro e he
  unfold connectUnless
  split
  · exact he
  · exact List.mem_cons_of_mem _ he

omit [Scalar α] in
theorem connects_connectUnless {admits : EdgeKind → Bool} {source target : Nat}
    {data : EdgeData α} (hadmits : admits data.kind = true) (s : Added α) :
    (connectUnless admits source target data s).1.connects source target admits = true := by
  unfold connectUnless
  split
  · next hthere => exact hthere
  · simp [connects, outgoing_insertEdge, nextEdge, hadmits]

omit [Scalar α] in
theorem connects_foldl_connectUnless (admits : EdgeKind → Bool)
    {cs : List (Nat × Nat × EdgeData α)} (hcs : ∀ c ∈ cs, admits c.2.2.kind = true)
    (s : Added α) :
    let g := (cs.foldl (fun s c => connectUnless admits c.1 c.2.1 c.2.2 s) s).1
    (∀ e ∈ s.1.edges, e ∈ g.edges) ∧ ∀ c ∈ cs, g.connects c.1 c.2.1 admits = true := by
  induction cs generalizing s with
  | nil => exact ⟨fun e he => he, by simp⟩
  | cons c rest ih =>
    obtain ⟨hkept, hrest⟩ := ih (fun d hd => hcs d (List.mem_cons_of_mem _ hd))
      (connectUnless admits c.1 c.2.1 c.2.2 s)
    refine ⟨fun e he => hkept e (mem_edges_connectUnless admits _ _ _ s e he), fun d hd => ?_⟩
    rcases List.mem_cons.1 hd with rfl | hd
    · exact connects_mono hkept (connects_connectUnless (hcs d List.mem_cons_self) s)
    · exact hrest d hd

section Connect

variable {g : Streets α} {v w : Nat} {a b : Vertex α} (hv : g.vertex? v = some a)
  (hw : g.vertex? w = some b) (role : Role)

include hv hw

theorem connect_eq :
    connect g v w role =
      (connectors (v, a) (w, b) role).foldl
        (fun s c => connectUnless (· == .connector role.connector.kind) c.1 c.2.1 c.2.2 s)
        (g, 0) := by
  simp only [connect, hv, hw]

theorem exists_connectors_of_connect :
    ∃ es, (∀ c ∈ es, c ∈ connectors (v, a) (w, b) role) ∧
      (connect g v w role).1 = (insertAll g es).1 := by
  rw [connect_eq hv hw]
  exact foldl_connectUnless _ _ (g, 0)

end Connect

theorem kind_of_mem_connectors {entity street : Nat × Vertex α} {role : Role}
    {c : Nat × Nat × EdgeData α} (hc : c ∈ connectors entity street role) :
    c.2.2.kind = .connector role.connector.kind ∧
      (c.1 = entity.1 ∧ c.2.1 = street.1 ∨ c.1 = street.1 ∧ c.2.1 = entity.1) := by
  rcases List.mem_append.1 hc with hc | hc
  · split at hc
    · rw [List.mem_singleton.1 hc]
      exact ⟨rfl, Or.inl ⟨rfl, rfl⟩⟩
    · simp at hc
  · split at hc
    · rw [List.mem_singleton.1 hc]
      exact ⟨rfl, Or.inr ⟨rfl, rfl⟩⟩
    · simp at hc

end StreetLinking.Linking
