import StreetLinking.Linking.Request
import StreetLinking.Proofs.Linking.OverlaySteps
/-!
# Linking registers what it adds

An edge that is added to an overlay is listed only at those of its ends that have lists, and nothing
tells if one has not. Main statement: whatever is linked, also if linking fails half way, edges are
only added between vertices that have lists, so that none is missing from them.
-/

namespace StreetLinking.Linking

open Number Plane Street Nearest Temporary Overlay

variable {α : Type}

theorem grows_connectOnce (kind : ConnectorKind) {s : Overlay α × Nat} {e : TempEdge α}
    (hsource : s.1.lists e.source = true) (htarget : s.1.lists e.target = true) :
    s.1.Grows (connectOnce kind s e).1 := by
  unfold connectOnce
  split
  · exact .refl
  · exact .addEdge .refl hsource htarget

theorem grows_foldl_connectOnce (kind : ConnectorKind) {es : List (TempEdge α)}
    {s : Overlay α × Nat}
    (hes : ∀ e ∈ es, s.1.lists e.source = true ∧ s.1.lists e.target = true) :
    s.1.Grows (es.foldl (connectOnce kind) s).1 := by
  induction es generalizing s with
  | nil => exact .refl
  | cons e rest ih =>
    obtain ⟨⟨hsource, htarget⟩, hrest⟩ := List.forall_mem_cons.1 hes
    have hone := grows_connectOnce kind hsource htarget
    exact hone.trans (ih fun d hd => ⟨hone.lists (hrest d hd).1, hone.lists (hrest d hd).2⟩)

theorem lists_nextVertex (o : Overlay α) (x : TempVertex α) :
    (o.addVertex x).1.lists (.temporary (nextVertex o)) = true := by
  simp [Overlay.lists, owns, Overlay.addVertex, nextVertex]

variable [Scalar α]

theorem ends_of_mem_connectorsIn {entity street : VertexRef × Point α} {role : Role}
    {e : TempEdge α} (he : e ∈ connectorsIn entity street role) :
    e.source = entity.1 ∧ e.target = street.1 ∨ e.source = street.1 ∧ e.target = entity.1 := by
  rcases List.mem_append.1 he with he | he
  · split at he
    · rw [List.mem_singleton.1 he]
      exact Or.inl ⟨rfl, rfl⟩
    · cases he
  · split at he
    · rw [List.mem_singleton.1 he]
      exact Or.inr ⟨rfl, rfl⟩
    · cases he

theorem grows_connectIn {o : Overlay α} {entity street : VertexRef × Point α}
    (hentity : o.lists entity.1 = true) (hstreet : o.lists street.1 = true) (role : Role) :
    o.Grows (connectIn o entity street role).1 := by
  refine grows_foldl_connectOnce role.connector.kind (s := (o, 0)) fun e he => ?_
  rcases ends_of_mem_connectorsIn he with ⟨hsource, htarget⟩ | ⟨hsource, htarget⟩
  · rw [hsource, htarget]
    exact ⟨hentity, hstreet⟩
  · rw [hsource, htarget]
    exact ⟨hstreet, hentity⟩

omit [Scalar α] in
theorem grows_withCut (o : Overlay α) (side : Side) (h : Halves α) :
    o.Grows (withCut o side h) := by
  have hvertex : o.Grows (o.addVertex (cutVertex side h)).1 := .addVertex .refl _
  have hnext := lists_nextVertex o (cutVertex side h)
  cases side with
  | inbound => exact .addEdge hvertex rfl hnext
  | outbound => exact .addEdge hvertex hnext rfl
  | both =>
    refine .addEdge (.addEdge hvertex rfl hnext) ?_ rfl
    exact (lists_addEdges _ [_] _).trans hnext

omit [Scalar α] in
theorem lists_nextVertex_withCut (o : Overlay α) (side : Side) (h : Halves α) :
    (withCut o side h).lists (.temporary (nextVertex o)) = true :=
  (lists_addEdges _ _ _).trans (lists_nextVertex o _)

variable (settings : Settings) (g : Streets α) (guest : Guest α)

theorem grows_attachIn (d : Draft α) (number : Nat) :
    let r := attachIn settings g guest d number
    d.overlay.Grows r.state.overlay ∧
      ∀ street, r.answer = .ok street → r.state.overlay.lists street = true := by
  unfold attachIn
  cases plan g number guest.position (Frame.around guest.position)
      (Scalar.ofDouble settings.endpointSnap) with
  | error fault => exact ⟨.refl, by simp [Outcome.fail]⟩
  | ok attachment =>
    cases attachment with
    | endpoint v =>
      refine ⟨.refl, fun street hstreet => ?_⟩
      cases hstreet
      rfl
    | cut location =>
      have hoverlay := d.record_overlay number
      dsimp only
      generalize d.record number = recorded at hoverlay
      rcases recorded with ⟨_ | _, d'⟩
      · exact ⟨hoverlay ▸ .refl, by simp [Outcome.andThen]⟩
      · simp only at hoverlay
        simp only [Outcome.andThen, hoverlay]
        cases hh : halve g number location with
        | error fault =>
          rw [cutIn, hh]
          exact ⟨.refl, by simp [Outcome.fail, Except.map]⟩
        | ok halves =>
          rw [cutIn_of_halve hh]
          refine ⟨grows_withCut _ _ _, fun street hstreet => ?_⟩
          cases hstreet
          exact lists_nextVertex_withCut _ _ _

variable {guest}

theorem grows_connectGuest {d : Draft α}
    (hguest : d.overlay.lists (.temporary guest.vertex) = true) {street : VertexRef}
    (hstreet : d.overlay.lists street = true) (position : Point α) :
    d.overlay.Grows (connectGuest guest street position d).overlay :=
  grows_connectIn hguest hstreet guest.role

theorem grows_attachAllIn (numbers : List Nat) {d : Draft α}
    (hguest : d.overlay.lists (.temporary guest.vertex) = true) :
    d.overlay.Grows (attachAllIn settings g guest d numbers).state.overlay := by
  induction numbers generalizing d with
  | nil => exact .refl
  | cons number rest ih =>
    obtain ⟨hattach, hlists⟩ := grows_attachIn settings g guest d number
    rw [attachAllIn]
    generalize attachIn settings g guest d number = attached at hattach hlists
    rcases attached with ⟨_ | street, d'⟩
    · exact hattach
    · simp only [Outcome.andThen]
      split
      · exact hattach
      · next position _ =>
        have hconnect := grows_connectGuest (hattach.lists hguest) (hlists street rfl) position
        exact hattach.trans (hconnect.trans (ih (hconnect.lists (hattach.lists hguest))))

theorem grows_attachToStops {d : Draft α}
    (hguest : d.overlay.lists (.temporary guest.vertex) = true) :
    d.overlay.Grows (attachToStops settings g guest d).1.overlay := by
  simp only [attachToStops]
  generalize nearestStops g _ _ = stops
  induction stops generalizing d with
  | nil => exact .refl
  | cons stop rest ih =>
    have hlists : d.overlay.lists (.permanent stop.item.vertex) = true := rfl
    have hconnect := grows_connectGuest hguest hlists stop.item.position
    exact hconnect.trans (ih (hconnect.lists hguest))

/-- Linking a guest adds edges between vertices that have lists. -/
theorem grows_linkGuest (guest : Guest α) (mode : Mode) {d : Draft α}
    (hguest : d.overlay.lists (.temporary guest.vertex) = true) :
    d.overlay.Grows (linkGuest settings g guest mode d).state.overlay := by
  unfold linkGuest
  split
  · split
    · exact grows_attachToStops settings g hguest
    · exact .refl
  · rw [Outcome.andThen_ok_state]
    exact grows_attachAllIn settings g _ hguest

theorem grows_linkEnd (r : Request α) (position : Point α) (isDestination : Bool) :
    r.overlay.Grows (r.linkEnd settings g position isDestination).state.overlay := by
  have hvertex : r.overlay.Grows (r.overlay.addVertex ⟨.searchEnd isDestination,
    Request.endLabel isDestination, position⟩).1 := .addVertex .refl _
  exact hvertex.trans (grows_linkGuest settings g _ _ (d := ⟨_, some r.gate⟩)
    (lists_nextVertex r.overlay _))

end StreetLinking.Linking
