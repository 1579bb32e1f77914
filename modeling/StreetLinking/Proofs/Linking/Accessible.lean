import StreetLinking.Proofs.Linking.OverlaySteps
import StreetLinking.Proofs.Temporary.Walks
/-!
# What is linked can be reached

A linked point is connected with a vertex of a street, or with the vertex of a cut from which the
halves of the edge that was cut lead on, or straight with a stop. Main statement: if a point is
linked, its overlay holds a walk of one or two edges to the street graph and another one back, as
far as its role has both directions, and parts of streets on it belong to the nearest edges.
-/

namespace StreetLinking.Temporary

variable {α : Type}

theorem Walks.mono {o o' : Overlay α} (h : ∀ e ∈ o.edges, e ∈ o'.edges) {r s : VertexRef}
    {path : List (TempEdge α)} (hwalk : Walks o r path s) : Walks o' r path s := by
  induction hwalk with
  | nil r => exact .nil r
  | cons hedge _ ih => exact .cons (h _ hedge) ih

theorem walks_single {o : Overlay α} {e : TempEdge α} (he : e ∈ o.edges) :
    Walks o e.source [e] e.target :=
  .cons he (.nil _)

theorem walks_pair {o : Overlay α} {first second : TempEdge α} (hfirst : first ∈ o.edges)
    (hsecond : second ∈ o.edges) (hmeet : second.source = first.target) :
    Walks o first.source [first, second] second.target := by
  refine .cons hfirst ?_
  rw [← hmeet]
  exact walks_single hsecond

end StreetLinking.Temporary

namespace StreetLinking.Linking

open Number Plane Street Nearest Temporary

variable {α : Type}

/-- The vertex is at most two edges away from the street graph, in every direction that the role
has. -/
structure Accessible (o : Overlay α) (role : Role) (r : VertexRef) : Prop where
  leaves : role.connector.direction.leaves = true →
    ∃ path v, path.length ≤ 2 ∧ Walks o r path (.permanent v)
  arrives : role.connector.direction.arrives = true →
    ∃ path v, path.length ≤ 2 ∧ Walks o (.permanent v) path r

/-! ## Short ways -/

/-- A way of one or two edges, on which parts of streets belong to edges with given numbers. -/
structure ShortWay (numbers : List Nat) (path : List (TempEdge α)) : Prop where
  nonempty : 1 ≤ path.length
  short : path.length ≤ 2
  parts : ∀ e ∈ path, ∀ n, e.kind = .part n → n ∈ numbers

theorem ShortWay.mono {numbers numbers' : List Nat} (h : numbers ⊆ numbers')
    {path : List (TempEdge α)} (hway : ShortWay numbers path) : ShortWay numbers' path :=
  ⟨hway.nonempty, hway.short, fun e he n hn => h (hway.parts e he n hn)⟩

theorem shortWay_connector {e : TempEdge α} {kind : ConnectorKind} (he : e.kind = .connector kind)
    (numbers : List Nat) : ShortWay numbers [e] := by
  refine ⟨le_rfl, Nat.le_succ 1, fun d hd n hn => ?_⟩
  rw [List.mem_singleton.1 hd, he] at hn
  cases hn

/-- The vertex is a short way from one of the places in the street graph, in every direction that
the role has. -/
structure Routable (o : Overlay α) (role : Role) (numbers : List Nat) (places : Nat → Prop)
    (r : VertexRef) : Prop where
  leaves : role.connector.direction.leaves = true →
    ∃ path v, places v ∧ ShortWay numbers path ∧ Walks o r path (.permanent v)
  arrives : role.connector.direction.arrives = true →
    ∃ path v, places v ∧ ShortWay numbers path ∧ Walks o (.permanent v) path r

namespace Routable

variable {o o' : Overlay α} {role : Role} {numbers numbers' : List Nat}
  {places places' : Nat → Prop} {r : VertexRef}

theorem mono (h : Routable o role numbers places r) (hedges : ∀ e ∈ o.edges, e ∈ o'.edges)
    (hnumbers : numbers ⊆ numbers') (hplaces : ∀ v, places v → places' v) :
    Routable o' role numbers' places' r where
  leaves := by
    intro hrole
    obtain ⟨path, v, hv, hway, hwalk⟩ := h.leaves hrole
    exact ⟨path, v, hplaces v hv, hway.mono hnumbers, hwalk.mono hedges⟩
  arrives := by
    intro hrole
    obtain ⟨path, v, hv, hway, hwalk⟩ := h.arrives hrole
    exact ⟨path, v, hplaces v hv, hway.mono hnumbers, hwalk.mono hedges⟩

theorem accessible (h : Routable o role numbers places r) : Accessible o role r where
  leaves := by
    intro hrole
    obtain ⟨path, v, -, hway, hwalk⟩ := h.leaves hrole
    exact ⟨path, v, hway.short, hwalk⟩
  arrives := by
    intro hrole
    obtain ⟨path, v, -, hway, hwalk⟩ := h.arrives hrole
    exact ⟨path, v, hway.short, hwalk⟩

end Routable

/-! ## Connectors that are there -/

theorem exists_edge_of_hasConnector {o : Overlay α} {source target : VertexRef}
    {kind : ConnectorKind} (h : o.hasConnector source target kind = true) :
    ∃ e ∈ o.edges, e.source = source ∧ e.target = target ∧ e.kind = .connector kind := by
  obtain ⟨e, he, hmatch⟩ := List.any_eq_true.1 h
  obtain ⟨hmem, hsource⟩ := Overlay.mem_of_mem_outgoing he
  obtain ⟨htarget, hkind⟩ := Bool.and_eq_true_iff.1 hmatch
  exact ⟨e, hmem, hsource, beq_iff_eq.1 htarget, beq_iff_eq.1 hkind⟩

theorem exists_edge_foldl_connectOnce {kind : ConnectorKind} {es : List (TempEdge α)}
    (hkind : ∀ e ∈ es, e.kind = .connector kind) {e : TempEdge α} (he : e ∈ es)
    (s : Overlay α × Nat) :
    ∃ d ∈ (es.foldl (connectOnce kind) s).1.edges,
      d.source = e.source ∧ d.target = e.target ∧ d.kind = .connector kind := by
  induction es generalizing s with
  | nil => simp at he
  | cons c rest ih =>
    rw [List.foldl_cons]
    rcases List.mem_cons.1 he with rfl | he
    · have hnow : ∃ d ∈ (connectOnce kind s e).1.edges,
          d.source = e.source ∧ d.target = e.target ∧ d.kind = .connector kind := by
        unfold connectOnce
        split
        · next hthere => exact exists_edge_of_hasConnector hthere
        · exact ⟨e, List.mem_append_right _ List.mem_cons_self, rfl, rfl,
            hkind e List.mem_cons_self⟩
      obtain ⟨d, hd, hends⟩ := hnow
      obtain ⟨added, -, hrest⟩ := foldl_connectOnce_frame kind rest (connectOnce kind s e)
      rw [hrest, Overlay.edges_addEdges]
      exact ⟨d, List.mem_append_left _ hd, hends⟩
    · exact ih (fun d hd => hkind d (List.mem_cons_of_mem _ hd)) he (connectOnce kind s c)

variable [Scalar α]

theorem exists_edge_connectIn (o : Overlay α) {entity street : VertexRef × Point α} {role : Role}
    {e : TempEdge α} (he : e ∈ connectorsIn entity street role) :
    ∃ d ∈ (connectIn o entity street role).1.edges, d.source = e.source ∧ d.target = e.target ∧
      d.kind = .connector role.connector.kind :=
  exists_edge_foldl_connectOnce (fun _ => kind_of_mem_connectorsIn) he (o, 0)

section Connect

variable (guest : Guest α) (street : VertexRef) (position : Point α) (d : Draft α)

theorem edges_connectGuest :
    ∀ e ∈ d.overlay.edges, e ∈ (connectGuest guest street position d).overlay.edges := by
  intro e he
  obtain ⟨added, -, hconnect⟩ := connectIn_frame d.overlay (.temporary guest.vertex, guest.position)
    (street, position) guest.role
  simp only [connectGuest, hconnect, Overlay.edges_addEdges]
  exact List.mem_append_left _ he

theorem exists_leaving_connectGuest (h : guest.role.connector.direction.leaves = true) :
    ∃ e ∈ (connectGuest guest street position d).overlay.edges,
      e.source = .temporary guest.vertex ∧ e.target = street ∧
        e.kind = .connector guest.role.connector.kind := by
  have hmem : ∃ e ∈ connectorsIn (.temporary guest.vertex, guest.position) (street, position)
      guest.role, e.source = .temporary guest.vertex ∧ e.target = street := by
    rw [connectorsIn, if_pos h]
    exact ⟨_, List.mem_append_left _ List.mem_cons_self, rfl, rfl⟩
  obtain ⟨e, he, hsource, htarget⟩ := hmem
  obtain ⟨f, hf, hsource', htarget', hkind⟩ := exists_edge_connectIn d.overlay he
  exact ⟨f, hf, hsource'.trans hsource, htarget'.trans htarget, hkind⟩

theorem exists_arriving_connectGuest (h : guest.role.connector.direction.arrives = true) :
    ∃ e ∈ (connectGuest guest street position d).overlay.edges,
      e.source = street ∧ e.target = .temporary guest.vertex ∧
        e.kind = .connector guest.role.connector.kind := by
  have hmem : ∃ e ∈ connectorsIn (.temporary guest.vertex, guest.position) (street, position)
      guest.role, e.source = street ∧ e.target = .temporary guest.vertex := by
    rw [connectorsIn, if_pos h]
    exact ⟨_, List.mem_append_right _ List.mem_cons_self, rfl, rfl⟩
  obtain ⟨e, he, hsource, htarget⟩ := hmem
  obtain ⟨f, hf, hsource', htarget', hkind⟩ := exists_edge_connectIn d.overlay he
  exact ⟨f, hf, hsource'.trans hsource, htarget'.trans htarget, hkind⟩

theorem routable_connectGuest (v : Nat) :
    Routable (connectGuest guest (.permanent v) position d).overlay guest.role [] (· = v)
      (.temporary guest.vertex) where
  leaves := by
    intro hrole
    obtain ⟨e, he, hsource, htarget, hkind⟩ :=
      exists_leaving_connectGuest guest (.permanent v) position d hrole
    have hwalk := walks_single he
    rw [hsource, htarget] at hwalk
    exact ⟨[e], v, rfl, shortWay_connector hkind [], hwalk⟩
  arrives := by
    intro hrole
    obtain ⟨e, he, hsource, htarget, hkind⟩ :=
      exists_arriving_connectGuest guest (.permanent v) position d hrole
    have hwalk := walks_single he
    rw [hsource, htarget] at hwalk
    exact ⟨[e], v, rfl, shortWay_connector hkind [], hwalk⟩

omit [Scalar α] in
theorem shortWay_pair {first second : TempEdge α} {number : Nat} {kind : ConnectorKind}
    (h : first.kind = .connector kind ∧ second.kind = .part number ∨
      first.kind = .part number ∧ second.kind = .connector kind) :
    ShortWay [number] [first, second] := by
  refine ⟨Nat.le_succ 1, le_rfl, fun e he n hn => ?_⟩
  have hkind : e.kind = .connector kind ∨ e.kind = .part number := by
    rcases List.mem_cons.1 he with rfl | he
    · exact h.imp And.left And.left
    · rw [List.mem_singleton.1 he]
      exact (h.imp And.right And.right).symm
  rcases hkind with hkind | hkind
  · rw [hkind] at hn
    cases hn
  · rw [hkind] at hn
    cases hn
    exact List.mem_singleton_self number

theorem routable_connectGuest_of_halves {halves : Halves α} {v : LocalVertex}
    (hhalves : ∀ e ∈ keptHalves guest.role.side halves v, e ∈ d.overlay.edges) :
    Routable (connectGuest guest (.temporary v) position d).overlay guest.role
      [halves.parent.number] (fun w => w = halves.parent.source ∨ w = halves.parent.target)
      (.temporary guest.vertex) where
  leaves := by
    intro hrole
    obtain ⟨e, he, hsource, htarget, hkind⟩ :=
      exists_leaving_connectGuest guest (.temporary v) position d hrole
    let half := partEdge (.temporary v) (.permanent halves.parent.target) halves.parent
      halves.second
    have hhalf : half ∈ keptHalves guest.role.side halves v := by
      simp [keptHalves, guest.role.side_agrees.1, hrole, half]
    have hthere := edges_connectGuest guest (.temporary v) position d half (hhalves half hhalf)
    have hwalk := walks_pair he hthere htarget.symm
    rw [hsource] at hwalk
    exact ⟨[e, half], halves.parent.target, Or.inr rfl, shortWay_pair (Or.inl ⟨hkind, rfl⟩), hwalk⟩
  arrives := by
    intro hrole
    obtain ⟨e, he, hsource, htarget, hkind⟩ :=
      exists_arriving_connectGuest guest (.temporary v) position d hrole
    let half := partEdge (.permanent halves.parent.source) (.temporary v) halves.parent
      halves.first
    have hhalf : half ∈ keptHalves guest.role.side halves v := by
      simp [keptHalves, guest.role.side_agrees.2, hrole, half]
    have hthere := edges_connectGuest guest (.temporary v) position d half (hhalves half hhalf)
    have hwalk := walks_pair hthere he hsource
    rw [htarget] at hwalk
    exact ⟨[half, e], halves.parent.source, Or.inl rfl, shortWay_pair (Or.inr ⟨rfl, hkind⟩), hwalk⟩

end Connect

/-! ## One edge -/

def IsEndOf (g : Streets α) (numbers : List Nat) (v : Nat) : Prop :=
  ∃ n ∈ numbers, ∃ e, g.edge? n = some e ∧ (v = e.source ∨ v = e.target)

theorem isEndOf_of_plan {g : Streets α} {number : Nat} {point : Point α} {frame : Frame α}
    {snap : α} {v : Nat} (h : plan g number point frame snap = .ok (.endpoint v)) :
    IsEndOf g [number] v := by
  cases hedge : g.edge? number with
  | none => simp [plan, hedge] at h
  | some e =>
    rcases plan_cases hedge point frame snap with ⟨w, hplan, hw⟩ | ⟨location, hplan⟩
    · rw [h] at hplan
      cases hplan
      exact ⟨number, List.mem_singleton_self number, e, hedge, hw⟩
    · rw [h] at hplan
      cases hplan

variable (settings : Settings) (g : Streets α)

/-- If linking to an edge succeeds, the point is connected with an end of the edge, or with the
vertex of a cut that has the halves of the side. -/
theorem exists_connectGuest_of_linkOne {guest : Guest α} {d : Draft α} {number : Nat}
    (h : (linkOne settings g guest d number).answer = .ok ()) :
    ∃ street position d', (linkOne settings g guest d number).state =
        connectGuest guest street position d' ∧
      (∀ e ∈ d.overlay.edges, e ∈ d'.overlay.edges) ∧
      ((∃ v, street = .permanent v ∧ IsEndOf g [number] v) ∨
        ∃ halves v, street = .temporary v ∧ g.edge? number = some halves.parent ∧
          ∀ e ∈ keptHalves guest.role.side halves v, e ∈ d'.overlay.edges) := by
  obtain ⟨street, hattach, hconnect⟩ := Outcome.andThen_answer_eq_ok_iff.1 h
  have hstate : ∃ position, (linkOne settings g guest d number).state =
      connectGuest guest street position (attachIn settings g guest d number).state := by
    rcases hattached : attachIn settings g guest d number with ⟨answer, d'⟩
    rw [hattached] at hattach hconnect
    subst hattach
    rw [linkOne, hattached]
    cases hposition : View.position? ⟨g, [d'.overlay]⟩ street with
    | none => simp [hposition, Outcome.fail] at hconnect
    | some position => exact ⟨position, by simp [Outcome.andThen, hposition, Outcome.ok]⟩
  obtain ⟨position, hstate⟩ := hstate
  refine ⟨street, position, _, hstate, ?_⟩
  unfold attachIn at hattach ⊢
  split at hattach
  · simp [Outcome.fail] at hattach
  · next v hplan =>
    cases hattach
    exact ⟨fun e he => he, Or.inl ⟨v, rfl, isEndOf_of_plan hplan⟩⟩
  · next location _ =>
    rw [Draft.record_eq] at hattach ⊢
    split at hattach
    · simp [Outcome.fail, Outcome.andThen] at hattach
    · next hfree =>
      rw [if_neg hfree]
      cases hhalve : halve g number location with
      | error fault => simp [cutIn, hhalve, Outcome.fail, Except.map] at hattach
      | ok halves =>
        simp only [Outcome.andThen, Draft.noted, cutIn_of_halve hhalve, Outcome.ok,
          Except.map, Except.ok.injEq] at hattach ⊢
        rw [edges_withCut]
        refine ⟨fun e he => List.mem_append_left _ he,
          Or.inr ⟨halves, _, hattach.symm, (halve_eq_ok hhalve).1, ?_⟩⟩
        exact fun e he => List.mem_append_right _ he

theorem edges_linkOne {guest : Guest α} {d : Draft α} {number : Nat}
    (h : (linkOne settings g guest d number).answer = .ok ()) :
    ∀ e ∈ d.overlay.edges, e ∈ (linkOne settings g guest d number).state.overlay.edges := by
  obtain ⟨street, position, d', hstate, hkept, -⟩ := exists_connectGuest_of_linkOne settings g h
  intro e he
  rw [hstate]
  exact edges_connectGuest guest street position d' e (hkept e he)

theorem routable_linkOne {guest : Guest α} {d : Draft α} {number : Nat}
    (h : (linkOne settings g guest d number).answer = .ok ()) :
    Routable (linkOne settings g guest d number).state.overlay guest.role [number]
      (IsEndOf g [number]) (.temporary guest.vertex) := by
  obtain ⟨street, position, d', hstate, -, hstreet⟩ := exists_connectGuest_of_linkOne settings g h
  rw [hstate]
  rcases hstreet with ⟨v, rfl, hv⟩ | ⟨halves, v, rfl, hparent, hhalves⟩
  · refine (routable_connectGuest guest position d' v).mono (fun e he => he) (List.nil_subset _) ?_
    rintro w rfl
    exact hv
  · have hnumber : halves.parent.number = number := by simpa using List.find?_some hparent
    rw [← hnumber] at hparent ⊢
    refine (routable_connectGuest_of_halves guest position d' hhalves).mono (fun e he => he)
      (List.Subset.refl _) fun w hw => ?_
    exact ⟨_, List.mem_singleton_self _, halves.parent, hparent, hw⟩

/-! ## All edges -/

theorem edges_attachAllIn {guest : Guest α} {d : Draft α} {numbers : List Nat}
    (h : (attachAllIn settings g guest d numbers).answer = .ok ()) :
    ∀ e ∈ d.overlay.edges, e ∈ (attachAllIn settings g guest d numbers).state.overlay.edges := by
  induction numbers generalizing d with
  | nil => exact fun e he => he
  | cons number rest ih =>
    rw [attachAllIn_cons] at h ⊢
    obtain ⟨⟨⟩, hone, hrest⟩ := Outcome.andThen_answer_eq_ok_iff.1 h
    intro e he
    have hfirst := edges_linkOne settings g hone e he
    rcases hlinked : linkOne settings g guest d number with ⟨answer, d'⟩
    rw [hlinked] at hone hrest hfirst
    subst hone
    exact ih hrest e hfirst

theorem routable_attachAllIn {guest : Guest α} {d : Draft α} {number : Nat} {rest : List Nat}
    (h : (attachAllIn settings g guest d (number :: rest)).answer = .ok ()) :
    Routable (attachAllIn settings g guest d (number :: rest)).state.overlay guest.role
      (number :: rest) (IsEndOf g (number :: rest)) (.temporary guest.vertex) := by
  rw [attachAllIn_cons] at h ⊢
  obtain ⟨⟨⟩, hone, hrest⟩ := Outcome.andThen_answer_eq_ok_iff.1 h
  have hroutable := routable_linkOne settings g hone
  rcases hlinked : linkOne settings g guest d number with ⟨answer, d'⟩
  rw [hlinked] at hone hrest hroutable
  subst hone
  refine hroutable.mono (edges_attachAllIn settings g hrest) (by simp) fun v hv => ?_
  obtain ⟨n, hn, hend⟩ := hv
  exact ⟨n, List.mem_singleton.1 hn ▸ List.mem_cons_self, hend⟩

/-! ## Stops -/

theorem edges_foldl_connectGuest (guest : Guest α) (stops : List (Ranked α (StopEntry α)))
    (d : Draft α) :
    ∀ e ∈ d.overlay.edges, e ∈ (stops.foldl (fun d r =>
      connectGuest guest (.permanent r.item.vertex) r.item.position d) d).overlay.edges := by
  induction stops generalizing d with
  | nil => exact fun e he => he
  | cons stop rest ih => exact fun e he => ih _ e (edges_connectGuest guest _ _ d e he)

def stopTargets (position : Point α) : List (Ranked α (StopEntry α)) :=
  nearestStops g (Search.around position settings) (Scalar.ofDouble settings.duplicateWayDegrees)

theorem routable_attachToStops {guest : Guest α} {d : Draft α}
    (h : (attachToStops settings g guest d).2 = true) :
    Routable (attachToStops settings g guest d).1.overlay guest.role []
      (fun v => ∃ t ∈ stopTargets settings g guest.position, t.item.vertex = v)
      (.temporary guest.vertex) := by
  simp only [attachToStops] at h ⊢
  unfold stopTargets
  generalize nearestStops g _ _ = stops at h ⊢
  cases stops with
  | nil => simp at h
  | cons stop rest =>
    refine (routable_connectGuest guest stop.item.position d stop.item.vertex).mono
      (edges_foldl_connectGuest guest rest _) (List.Subset.refl _) ?_
    rintro v rfl
    exact ⟨stop, List.mem_cons_self, rfl⟩

theorem attachToStops_of_unlinked {guest : Guest α} {d : Draft α}
    (h : (attachToStops settings g guest d).2 = false) :
    stopTargets settings g guest.position = [] ∧ (attachToStops settings g guest d).1 = d := by
  simp only [attachToStops] at h ⊢
  unfold stopTargets
  generalize nearestStops g _ _ = stops at h ⊢
  cases stops with
  | nil => exact ⟨rfl, rfl⟩
  | cons stop rest => simp at h

/-! ## Linking a point -/

/-- A point is linked only if it can be reached. -/
theorem routable_linkGuest {guest : Guest α} {mode : Mode} {d : Draft α}
    (h : (linkGuest settings g guest mode d).answer = .ok true) :
    Routable (linkGuest settings g guest mode d).state.overlay guest.role
      ((targets settings g guest.position mode).map (·.item.number))
      (fun v => IsEndOf g ((targets settings g guest.position mode).map (·.item.number)) v ∨
        ∃ t ∈ stopTargets settings g guest.position, t.item.vertex = v)
      (.temporary guest.vertex) := by
  unfold linkGuest at h ⊢
  unfold targets
  generalize nearestEdges g (Search.around guest.position settings) mode
    (Scalar.ofDouble settings.duplicateWayDegrees) = nearest at h ⊢
  cases nearest with
  | nil =>
    simp only at h ⊢
    split at h
    · next hend =>
      rw [if_pos hend]
      have hstops : (attachToStops settings g guest d).2 = true := Except.ok.inj h
      exact (routable_attachToStops settings g hstops).mono (fun e he => he) (List.nil_subset _)
        fun v => Or.inr
    · cases h
  | cons first rest =>
    obtain ⟨⟨⟩, hall, -⟩ := Outcome.andThen_answer_eq_ok_iff.1 h
    simp only [Outcome.andThen_ok_state]
    exact (routable_attachAllIn settings g hall).mono (fun e he => he) (List.Subset.refl _)
      fun v => Or.inl

theorem accessible_linkGuest {guest : Guest α} {mode : Mode} {d : Draft α}
    (h : (linkGuest settings g guest mode d).answer = .ok true) :
    Accessible (linkGuest settings g guest mode d).state.overlay guest.role
      (.temporary guest.vertex) :=
  (routable_linkGuest settings g h).accessible

theorem linkGuest_of_unlinked {guest : Guest α} {mode : Mode} {d : Draft α}
    (h : (linkGuest settings g guest mode d).answer = .ok false) :
    targets settings g guest.position mode = [] ∧
      (guest.role.isSearchEnd = true → stopTargets settings g guest.position = []) ∧
      (linkGuest settings g guest mode d).state = d := by
  unfold linkGuest at h ⊢
  unfold targets stopTargets
  split at h
  · next hnone =>
    split at h
    · next hend =>
      obtain ⟨hstops, hstate⟩ := attachToStops_of_unlinked settings g (Except.ok.inj h)
      rw [if_pos hend]
      exact ⟨hnone, fun _ => hstops, hstate⟩
    · next hend => exact ⟨hnone, fun hend' => absurd hend' hend, by rw [if_neg hend]; rfl⟩
  · obtain ⟨-, -, h⟩ := Outcome.andThen_answer_eq_ok_iff.1 h
    cases h

end StreetLinking.Linking
