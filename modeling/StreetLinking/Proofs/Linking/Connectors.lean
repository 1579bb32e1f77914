import StreetLinking.Proofs.Linking.Accounts
import StreetLinking.Proofs.Linking.RegularChanges
/-!
# Connectors

A vertex is connected with the same vertex of a street as often as it is linked to edges that end
there, in one call or in several. Main statement: after any calls of linking on a built graph no two
connectors of a kind lead the same way, each joins a linked vertex with a vertex of a street and has
a partner that leads back, and it stays as it is in all further calls.
-/

namespace StreetLinking.Linking

open Number Plane Street Streets

variable {α : Type} [Scalar α]

/-- The edge leads back the way that the other one leads. -/
structure IsPartner (d e : Edge α) : Prop where
  source : d.source = e.target
  target : d.target = e.source
  kind : d.kind = e.kind
  lengthMm : d.lengthMm = e.lengthMm
  permission : d.permission = e.permission
  line : d.line = e.line.reverse

def IsLinkedBy (g : Streets α) (v : Nat) (kind : ConnectorKind) : Prop :=
  ∃ x role, g.vertex? v = some x ∧ x.kind.role? = some role ∧ role.connector.kind = kind

/-- Connectors lead every way once, between linked vertices and streets, and in pairs. -/
structure Paired (g : Streets α) : Prop where
  alone : ∀ d ∈ g.edges, ∀ e ∈ g.edges, ∀ kind, d.kind = .connector kind →
    e.kind = .connector kind → d.source = e.source → d.target = e.target → d = e
  joins : ∀ e ∈ g.edges, ∀ kind, e.kind = .connector kind →
    IsLinkedBy g e.source kind ∧ IsStreet g e.target ∨
      IsStreet g e.source ∧ IsLinkedBy g e.target kind
  partner : ∀ e ∈ g.edges, ∀ kind, e.kind = .connector kind → ∃ d ∈ g.edges, IsPartner d e

omit [Scalar α] in
theorem IsPartner.symm {d e : Edge α} (h : IsPartner d e) : IsPartner e d where
  source := h.target.symm
  target := h.source.symm
  kind := h.kind.symm
  lengthMm := h.lengthMm.symm
  permission := h.permission.symm
  line := by rw [h.line, List.reverse_reverse]

omit [Scalar α] in
theorem IsLinkedBy.mono {g g' : Streets α} (h : g.vertices.toList <+: g'.vertices.toList) {v : Nat}
    {kind : ConnectorKind} (hv : IsLinkedBy g v kind) : IsLinkedBy g' v kind := by
  obtain ⟨x, role, hx, hrole⟩ := hv
  exact ⟨x, role, vertex?_mono h hx, hrole⟩

namespace Paired

variable {g g' : Streets α}

omit [Scalar α] in
theorem congr (h : Paired g) (hvertices : g.vertices.toList <+: g'.vertices.toList)
    (hsame : ∀ e : Edge α, e.kind.isLinkable = false → (e ∈ g'.edges ↔ e ∈ g.edges)) :
    Paired g' := by
  have hback {e : Edge α} (he : e ∈ g'.edges) {kind : ConnectorKind}
      (hkind : e.kind = .connector kind) : e ∈ g.edges :=
    (hsame e (by rw [hkind]; rfl)).1 he
  refine ⟨fun d hd e he kind hdkind hekind => ?_, fun e he kind hkind => ?_,
    fun e he kind hkind => ?_⟩
  · exact h.alone d (hback hd hdkind) e (hback he hekind) kind hdkind hekind
  · exact (h.joins e (hback he hkind) kind hkind).imp
      (And.imp (·.mono hvertices) (·.mono hvertices))
      (And.imp (·.mono hvertices) (·.mono hvertices))
  · obtain ⟨d, hd, hpartner⟩ := h.partner e (hback he hkind) kind hkind
    exact ⟨d, (hsame d (by rw [hpartner.kind, hkind]; rfl)).2 hd, hpartner⟩

omit [Scalar α] in
theorem connects_back (h : Paired g) {v w : Nat} {kind : ConnectorKind}
    (hthere : g.connects v w (· == .connector kind) = true) :
    g.connects w v (· == .connector kind) = true := by
  simp only [connects, outgoing, List.any_eq_true, List.mem_filter, Bool.and_eq_true,
    beq_iff_eq] at hthere ⊢
  obtain ⟨e, ⟨he, hsource⟩, htarget, hkind⟩ := hthere
  obtain ⟨d, hd, hpartner⟩ := h.partner e he kind hkind
  exact ⟨d, ⟨hd, hpartner.source.trans htarget⟩, hpartner.target.trans hsource,
    hpartner.kind.trans hkind⟩

end Paired

/-! ## Connecting -/

theorem connect_of_not_connects {g : Streets α} {v w : Nat} {a b : Vertex α}
    (hv : g.vertex? v = some a) (hw : g.vertex? w = some b) (hne : v ≠ w) {role : Role}
    (hboth : role.connector.direction = .both)
    (hthere : g.connects v w (· == .connector role.connector.kind) = false)
    (hback : g.connects w v (· == .connector role.connector.kind) = false) :
    ∃ there back, (connect g v w role).1.edges = back :: there :: g.edges ∧
      there.source = v ∧ there.target = w ∧ there.kind = .connector role.connector.kind ∧
      IsPartner back there := by
  let data (line : Line α) (back : Bool) : EdgeData α :=
    ⟨.connector role.connector.kind, a.label, role.connector.permission,
      millimetres (metresBetween a.position b.position), back, line⟩
  have hpair : connectors (v, a) (w, b) role =
      [(v, w, data [a.position, b.position] false), (w, v, data [b.position, a.position] true)] := by
    simp [connectors, hboth, Direction.leaves, Direction.arrives, data]
  let g₁ := (g.insertEdge v w (data [a.position, b.position] false)).1
  have hstill : g₁.connects w v (· == .connector role.connector.kind) = false := by
    rw [connects, outgoing_insertEdge, if_neg hne, List.nil_append]
    exact hback
  refine ⟨g.nextEdge v w (data [a.position, b.position] false),
    g₁.nextEdge w v (data [b.position, a.position] true), ?_, rfl, rfl, rfl,
    ⟨rfl, rfl, rfl, rfl, rfl, rfl⟩⟩
  rw [connect_eq hv hw, hpair]
  simp only [List.foldl_cons, List.foldl_nil, connectUnless, hthere, Bool.false_eq_true, if_false]
  rw [if_neg (by simpa using hstill)]
  rfl

theorem connect_of_connects {g : Streets α} {v w : Nat} {role : Role}
    (hthere : g.connects v w (· == .connector role.connector.kind) = true)
    (hback : g.connects w v (· == .connector role.connector.kind) = true) :
    (connect g v w role).1 = g := by
  unfold connect
  split
  · next a b _ _ =>
    have hcs : ∀ c ∈ connectors (v, a) (w, b) role,
        g.connects c.1 c.2.1 (· == .connector role.connector.kind) = true := by
      intro c hc
      obtain ⟨-, ⟨hsource, htarget⟩ | ⟨hsource, htarget⟩⟩ := kind_of_mem_connectors hc
      · rwa [hsource, htarget]
      · rwa [hsource, htarget]
    generalize connectors (v, a) (w, b) role = cs at hcs
    induction cs with
    | nil => rfl
    | cons c rest ih =>
      obtain ⟨hc, hrest⟩ := List.forall_mem_cons.1 hcs
      rw [List.foldl_cons, connectUnless, if_pos hc]
      exact ih hrest
  · rfl

namespace Paired

variable {g : Streets α} (h : Paired g)

include h

omit [Scalar α] in
theorem add {g' : Streets α} {there back : Edge α} {kind : ConnectorKind}
    (hvertices : g.vertices.toList <+: g'.vertices.toList)
    (hedges : g'.edges = back :: there :: g.edges) (hkind : there.kind = .connector kind)
    (hpartner : IsPartner back there) (hlinked : IsLinkedBy g' there.source kind)
    (hstreet : IsStreet g' there.target) (hne : there.source ≠ there.target)
    (hfree : g.connects there.source there.target (· == .connector kind) = false) :
    Paired g' := by
  have hnot {e : Edge α} (he : e ∈ g.edges) (hekind : e.kind = .connector kind) :
      ¬ (e.source = there.source ∧ e.target = there.target) ∧
        ¬ (e.source = there.target ∧ e.target = there.source) := by
    have hcounts {s t : Nat} (hends : e.source = s ∧ e.target = t) :
        g.connects s t (· == .connector kind) = true := by
      simp only [connects, outgoing, List.any_eq_true, List.mem_filter, Bool.and_eq_true,
        beq_iff_eq]
      exact ⟨e, ⟨he, hends.1⟩, hends.2, hekind⟩
    have hopen := Bool.eq_false_iff.1 hfree
    exact ⟨fun hends => hopen (hcounts hends), fun hends => hopen (h.connects_back (hcounts hends))⟩
  have hbackKind := hpartner.kind.trans hkind
  -- a new connector leads the same way as no other
  have hnew {d e : Edge α} (hd : d = back ∨ d = there) (he : e ∈ g'.edges) {k : ConnectorKind}
      (hdkind : d.kind = .connector k) (hekind : e.kind = .connector k)
      (hsource : d.source = e.source) (htarget : d.target = e.target) : d = e := by
    have hk : k = kind := by
      rcases hd with rfl | rfl
      · simpa [hbackKind, eq_comm] using hdkind
      · simpa [hkind, eq_comm] using hdkind
    subst hk
    rw [hedges, List.mem_cons, List.mem_cons] at he
    have hback := hpartner.source
    have hback' := hpartner.target
    rcases he with rfl | rfl | he
    · rcases hd with rfl | rfl
      · rfl
      · exact absurd (hsource.trans hback) hne
    · rcases hd with rfl | rfl
      · exact absurd (hsource.symm.trans hback) hne
      · rfl
    · obtain ⟨hforth, hreturn⟩ := hnot he hekind
      rcases hd with rfl | rfl
      · exact absurd ⟨hsource.symm.trans hback, htarget.symm.trans hback'⟩ hreturn
      · exact absurd ⟨hsource.symm, htarget.symm⟩ hforth
  refine ⟨fun d hd e he k hdkind hekind hsource htarget => ?_, fun e he k hekind => ?_,
    fun e he k hekind => ?_⟩
  · rw [hedges, List.mem_cons, List.mem_cons, ← or_assoc] at hd
    rcases hd with hd | hd
    · exact hnew hd he hdkind hekind hsource htarget
    · have hcases := he
      rw [hedges, List.mem_cons, List.mem_cons, ← or_assoc] at hcases
      rcases hcases with hcases | hold
      · have hmem : d ∈ g'.edges := by simp [hedges, hd]
        exact (hnew hcases hmem hekind hdkind hsource.symm htarget.symm).symm
      · exact h.alone d hd e hold k hdkind hekind hsource htarget
  · rw [hedges, List.mem_cons, List.mem_cons] at he
    rcases he with rfl | rfl | he
    · obtain rfl : kind = k := by simpa [hbackKind] using hekind
      rw [hpartner.source, hpartner.target]
      exact Or.inr ⟨hstreet, hlinked⟩
    · obtain rfl : kind = k := by simpa [hkind] using hekind
      exact Or.inl ⟨hlinked, hstreet⟩
    · exact (h.joins e he k hekind).imp (And.imp (·.mono hvertices) (·.mono hvertices))
        (And.imp (·.mono hvertices) (·.mono hvertices))
  · rw [hedges, List.mem_cons, List.mem_cons] at he
    rcases he with rfl | rfl | he
    · exact ⟨there, by simp [hedges], hpartner.symm⟩
    · exact ⟨back, by simp [hedges], hpartner⟩
    · obtain ⟨d, hd, hdpartner⟩ := h.partner e he k hekind
      exact ⟨d, by simp [hedges, hd], hdpartner⟩

theorem connect {v w : Nat} {a : Vertex α} (hv : g.vertex? v = some a) {role : Role}
    (hrole : a.kind.role? = some role) (hw : IsStreet g w) : Paired (connect g v w role).1 := by
  obtain ⟨b, hb, -⟩ := id hw
  have hne : v ≠ w := fun heq => not_isStreet hv hrole (heq ▸ hw)
  by_cases hthere : g.connects v w (· == .connector role.connector.kind) = true
  · rwa [connect_of_connects hthere (h.connects_back hthere)]
  · have hback : ¬ g.connects w v (· == .connector role.connector.kind) = true :=
      fun hback => hthere (h.connects_back hback)
    obtain ⟨there, back, hedges, hsource, htarget, hkind, hpartner⟩ := connect_of_not_connects hv hb
      hne (direction_of_role? hrole) (Bool.eq_false_iff.2 hthere) (Bool.eq_false_iff.2 hback)
    have hvertices : g.vertices.toList <+: (Linking.connect g v w role).1.vertices.toList := by
      obtain ⟨es, -, heq⟩ := connect_state g v w role
      simp only [heq, insertAll_vertices, List.prefix_refl]
    have hlinked : IsLinkedBy (Linking.connect g v w role).1 v role.connector.kind :=
      ⟨a, role, vertex?_mono hvertices hv, hrole, rfl⟩
    have hstreet : IsStreet (Linking.connect g v w role).1 w := hw.mono hvertices
    refine h.add hvertices hedges hkind hpartner (hsource ▸ hlinked) (htarget ▸ hstreet) ?_ ?_
    · rwa [hsource, htarget]
    · rw [hsource, htarget]
      exact Bool.eq_false_iff.2 hthere

theorem apply (hsound : Sound g) (hstreets : OnStreets g) {c : Change α} (hc : c.IsRegular g) :
    Paired (c.apply g) := by
  have hvertices := c.vertices_apply hsound
  obtain ⟨_, _, hadvances⟩ := hc.exists_advances hsound hstreets
  have hkept := hadvances.connectors
  cases c with
  | add addition => cases hc
  | annotate note => exact h.congr hvertices fun e _ => Iff.rfl
  | split number location =>
    obtain ⟨e, frame, point, hedge, hopen, -⟩ := hc
    obtain ⟨halves, hh, rfl⟩ := exists_halve hsound hedge location
    obtain ⟨-, first, second, hsplits⟩ := sound_and_splits hsound hh
    obtain ⟨⟨-, hfirst, -⟩, -, hsecond, -⟩ := hsplits.halves hh
    refine h.congr hvertices fun e hconnector => ⟨fun he => ?_, fun he => hkept e he hconnector⟩
    refine (hsplits.mem_cases he).resolve_left ?_
    rintro (rfl | rfl)
    · rw [hsecond, hopen] at hconnector
      cases hconnector
    · rw [hfirst, hopen] at hconnector
      cases hconnector
  | connect entity street role =>
    obtain ⟨⟨x, hx, hrole⟩, hw⟩ := hc
    exact h.connect hx hrole (hw.isStreet hstreets)
  | cross vertex area =>
    refine h.congr hvertices fun e hconnector => ⟨fun he => ?_, fun he => hkept e he hconnector⟩
    obtain ⟨new, hedges, hnew⟩ := edges_crossArea g vertex area
    rw [Change.apply, hedges] at he
    refine (List.mem_append.1 he).resolve_left fun he => ?_
    rw [hnew e he] at hconnector
    cases hconnector

end Paired

/-! ## Calls of linking -/

/-- What calls of linking keep: streets end at vertices of streets, and connectors come in pairs. -/
theorem paired_replay {g : Streets α} (hsound : Sound g) (hstreets : OnStreets g)
    (hpaired : Paired g) {changes : List (Change α)}
    (hregular : Along Change.IsRegular g changes) :
    OnStreets (replay g changes) ∧ Paired (replay g changes) ∧
      ∀ e ∈ g.edges, e.kind.isLinkable = false → e ∈ (replay g changes).edges := by
  induction changes generalizing g with
  | nil => exact ⟨hstreets, hpaired, fun e he _ => he⟩
  | cons c rest ih =>
    obtain ⟨hc, hrest⟩ := hregular
    obtain ⟨_, _, hadvances⟩ := hc.exists_advances hsound hstreets
    obtain ⟨hlater, hpairs, hkept⟩ := ih hadvances.sound hadvances.streets
      (hpaired.apply hsound hstreets hc) hrest
    exact ⟨hlater, hpairs,
      fun e he hconnector => hkept e (hadvances.connectors e he hconnector) hconnector⟩

theorem paired_operateAll {g : Streets α} (hreached : Reached g) (hstreets : OnStreets g)
    (hpaired : Paired g) {calls : List (Operation α)} (hcalls : ∀ c ∈ calls, c.isCall = true) :
    let g' := operateAll g calls
    Reached g' ∧ OnStreets g' ∧ Paired g' ∧
      ∀ e ∈ g.edges, e.kind.isLinkable = false → e ∈ g'.edges := by
  intro g'
  have hreplay : replay g (changesOf g (calls.map .operate)) = g' := replay_changesOf _ _
  have hall := paired_replay hreached.sound hstreets hpaired (along_changesOf hreached hcalls)
  rw [hreplay] at hall
  exact ⟨hreplay ▸ hreached.replay _, hall⟩

theorem paired_build (additions : List (Addition α)) : Paired (build additions) := by
  have hnone {e : Edge α} (he : e ∈ (build additions).edges) (kind : ConnectorKind) :
      e.kind ≠ .connector kind := fun hkind => by
    have hopen := isLinkable_of_mem_build additions e he
    rw [hkind] at hopen
    cases hopen
  exact ⟨fun d hd _ _ kind hkind => absurd hkind (hnone hd kind),
    fun e he kind hkind => absurd hkind (hnone he kind),
    fun e he kind hkind => absurd hkind (hnone he kind)⟩

def connectorsBetween (g : Streets α) (source target : Nat) (kind : ConnectorKind) :
    List (Edge α) :=
  g.edges.filter fun e => e.source == source && e.target == target && e.kind == .connector kind

omit [Scalar α] in
theorem Paired.length_connectorsBetween {g : Streets α} (hsound : Sound g) (h : Paired g)
    (source target : Nat) (kind : ConnectorKind) :
    (connectorsBetween g source target kind).length ≤ 1 := by
  have hmem {e : Edge α} (he : e ∈ connectorsBetween g source target kind) :
      e ∈ g.edges ∧ e.source = source ∧ e.target = target ∧ e.kind = .connector kind := by
    simpa [connectorsBetween, and_assoc] using he
  have hnodup : (connectorsBetween g source target kind).Nodup :=
    hsound.nodup_serials.of_map.filter _
  match hlist : connectorsBetween g source target kind with
  | [] => simp
  | [e] => simp
  | d :: e :: rest =>
    rw [hlist] at hnodup
    obtain ⟨hd, hdsource, hdtarget, hdkind⟩ := hmem (hlist ▸ List.mem_cons_self)
    obtain ⟨he, hesource, hetarget, hekind⟩ :=
      hmem (hlist ▸ List.mem_cons_of_mem _ List.mem_cons_self)
    have hsame := h.alone d hd e he kind hdkind hekind (hdsource.trans hesource.symm)
      (hdtarget.trans hetarget.symm)
    exact absurd hsame (List.ne_of_not_mem_cons (List.nodup_cons.1 hnodup).1)

/-- After any calls of linking on a graph that was built with streets between intersections, no two
connectors of a kind lead the same way, each joins a linked vertex with a vertex of a street and has
a partner that leads back, and none of them is changed by further calls. -/
theorem connectors_settle (additions : List (Addition α)) (hstreets : OnStreets (build additions))
    (calls : List (Operation α)) (hcalls : ∀ c ∈ calls, c.isCall = true) :
    let g := operateAll (build additions) calls
    (∀ source target kind, (connectorsBetween g source target kind).length ≤ 1) ∧
    (∀ e ∈ g.edges, ∀ kind, e.kind = .connector kind →
      (IsLinkedBy g e.source kind ∧ IsStreet g e.target ∨
        IsStreet g e.source ∧ IsLinkedBy g e.target kind) ∧
      ∃ d ∈ g.edges, IsPartner d e) ∧
    ∀ later : List (Operation α), (∀ c ∈ later, c.isCall = true) →
      ∀ e ∈ g.edges, ∀ kind, e.kind = .connector kind →
        (operateAll g later).edge? e.number = some e := by
  intro g
  obtain ⟨hreached, hstreets', hpaired, -⟩ :=
    paired_operateAll (reached_run _) hstreets (paired_build additions) hcalls
  refine ⟨hpaired.length_connectorsBetween hreached.sound,
    fun e he kind hkind => ⟨hpaired.joins e he kind hkind, hpaired.partner e he kind hkind⟩,
    fun later hlater e he kind hkind => ?_⟩
  obtain ⟨hreached', -, -, hkept⟩ := paired_operateAll hreached hstreets' hpaired hlater
  exact hreached'.sound.edge?_eq_some_iff.2 ⟨hkept e he (by rw [hkind]; rfl), rfl⟩

/-- The station halfway along the street is linked twice. -/
theorem connectors_settle_on_the_meridian :
    let calls : List (Operation Float) := [.link onTheSpot 3 .walk]
    let g := operateAll (build meridianAdditions) calls
    OnStreets (build meridianAdditions) ∧ (∀ c ∈ calls, c.isCall = true) ∧
      ∃ e ∈ g.edges, e.source = 3 ∧ e.kind = .connector .bikeRental ∧
        (∃ d ∈ g.edges, IsPartner d e) ∧ (operateAll g calls).edge? e.number = some e := by
  intro calls g
  have hcalls : ∀ c ∈ calls, c.isCall = true := by decide
  let rental : Turn Float :=
    ⟨3, ⟨.bikeRental "B", "Station", ⟨0.0, 0.5⟩⟩, .bikeRental, build meridianAdditions⟩
  have hready : rental.Ready := ⟨reached_run meridian, onStreets_meridian, rfl, rfl⟩
  have hfound : rental.found onTheSpot = [⟨meridianEdge, 0.0⟩] :=
    targets_meridian (Or.inr (Or.inr rfl))
  have hnext : rental.next onTheSpot = g := by
    rw [Turn.next, Turn.isLinked, hfound]
    rfl
  obtain ⟨-, -, w, -, -, hthere, -⟩ := hready.linked onTheSpot (by rw [hfound]; simp)
  rw [hnext] at hthere
  simp only [connects, outgoing, List.any_eq_true, List.mem_filter, Bool.and_eq_true,
    beq_iff_eq] at hthere
  obtain ⟨e, ⟨he, hsource⟩, -, hkind⟩ := hthere
  obtain ⟨-, hpairs, hstay⟩ :=
    connectors_settle meridianAdditions onStreets_meridian calls hcalls
  exact ⟨onStreets_meridian, hcalls, e, he, hsource, hkind, (hpairs e he .bikeRental hkind).2,
    hstay calls hcalls e he .bikeRental hkind⟩

end StreetLinking.Linking
