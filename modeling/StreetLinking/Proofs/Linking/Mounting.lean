import StreetLinking.Linking.Permanent
import StreetLinking.Proofs.Linking.Registering
/-!
# Linking on top of an overlay

A point is linked in an overlay beside whatever the overlay holds already. Its own vertices come
after those that are there and its connectors end at one of its own, so what is there decides
nothing but the names. Main statement: linking a guest and putting the result on top of an overlay
commute, unless the gate has recorded an edge that the guest cuts.
-/

namespace StreetLinking.Temporary

open Street

variable {α : Type}

/-! ## Whose vertices edges join -/

def VertexRef.Within (id : OverlayId) (r : VertexRef) : Prop :=
  ∀ v, r = .temporary v → v.overlay = id

theorem Overlay.within_of_lists {o : Overlay α} {r : VertexRef} (h : o.lists r = true) :
    r.Within o.id := by
  rintro v rfl
  exact beq_iff_eq.1 (Bool.and_eq_true_iff.1 h).1

/-! ## Adding a vertex before or after an edge -/

theorem Incidence.addVertex_register (i : Incidence) {r : VertexRef} {e : LocalEdge}
    (h : r ≠ .temporary ⟨e.overlay, i.own.length⟩) :
    (i.register r e).addVertex = i.addVertex.register r e := by
  cases r with
  | permanent v => rfl
  | temporary v =>
    simp only [register, addVertex]
    split
    · next hv =>
      have hold : v.position ≠ i.own.length := by
        rintro hposition
        obtain ⟨_, _⟩ := v
        exact h (by simp_all)
      rw [Incidence.mk.injEq]
      refine ⟨List.ext_getElem? fun n => ?_, rfl⟩
      rcases Nat.lt_trichotomy n i.own.length with hlt | rfl | hgt
      · rw [List.getElem?_append_left (by simpa using hlt), List.getElem?_modify,
          List.getElem?_modify, List.getElem?_append_left hlt]
      · simp [hold]
      · rw [List.getElem?_eq_none (by simp; omega), List.getElem?_eq_none (by simp; omega)]
    · rfl

namespace Overlay

theorem addVertex_addEdge {o : Overlay α} {x : TempVertex α} {e : TempEdge α}
    (hsource : e.source ≠ .temporary (o.addVertex x).2)
    (htarget : e.target ≠ .temporary (o.addVertex x).2) :
    ((o.addEdge e).addVertex x).1 = (o.addVertex x).1.addEdge e := by
  refine Overlay.ext rfl rfl rfl ?_ ?_
  · exact o.leaving.addVertex_register (by rw [o.leaving_faithful.own_length]; exact hsource)
  · exact o.entering.addVertex_register (by rw [o.entering_faithful.own_length]; exact htarget)

theorem addVertex_addEdges {o : Overlay α} {x : TempVertex α} {es : List (TempEdge α)}
    (h : ∀ e ∈ es, e.source ≠ .temporary (o.addVertex x).2 ∧
      e.target ≠ .temporary (o.addVertex x).2) :
    ((o.addEdges es).addVertex x).1 = (o.addVertex x).1.addEdges es := by
  induction es generalizing o with
  | nil => rfl
  | cons e rest ih =>
    obtain ⟨⟨hsource, htarget⟩, hrest⟩ := List.forall_mem_cons.1 h
    rw [addEdges_cons, addEdges_cons, ← addVertex_addEdge hsource htarget]
    exact ih (o := o.addEdge e) hrest

end Overlay

/-! ## One overlay on top of another -/

def LocalVertex.on (base : Overlay α) (v : LocalVertex) : LocalVertex :=
  ⟨base.id, base.vertices.length + v.position⟩

def VertexRef.on (base : Overlay α) : VertexRef → VertexRef
  | .permanent v => .permanent v
  | .temporary v => .temporary (v.on base)

def TempEdge.on (base : Overlay α) (e : TempEdge α) : TempEdge α :=
  { e with source := e.source.on base, target := e.target.on base }

def Overlay.addVertices (o : Overlay α) (xs : List (TempVertex α)) : Overlay α :=
  xs.foldl (fun o x => (o.addVertex x).1) o

def Overlay.on (o base : Overlay α) : Overlay α :=
  (base.addVertices o.vertices).addEdges (o.edges.map (·.on base))

theorem LocalVertex.eq_of_on {id : OverlayId} {v w : LocalVertex} (hv : v.overlay = id)
    (hw : w.overlay = id) {base : Overlay α} (h : v.on base = w.on base) : v = w := by
  obtain ⟨_, position⟩ := v
  obtain ⟨_, position'⟩ := w
  simp only [LocalVertex.on, mk.injEq, true_and, Nat.add_left_cancel_iff] at h hv hw
  rw [hv, hw, h]

theorem VertexRef.on_beq {id : OverlayId} {r s : VertexRef} (hr : r.Within id)
    (hs : s.Within id) (base : Overlay α) : (r.on base == s.on base) = (r == s) := by
  rw [Bool.eq_iff_iff, beq_iff_eq, beq_iff_eq]
  constructor
  · intro h
    cases r with
    | permanent v =>
      cases s with
      | permanent w => exact h
      | temporary w => cases h
    | temporary v =>
      cases s with
      | permanent w => cases h
      | temporary w =>
        rw [VertexRef.on, VertexRef.on, temporary.injEq] at h
        rw [LocalVertex.eq_of_on (hr v rfl) (hs w rfl) h]
  · exact fun h => congrArg _ h

theorem VertexRef.on_ne_of_lists {base : Overlay α} {r : VertexRef} (hr : base.lists r = true)
    (v : LocalVertex) : (r == (temporary v).on base) = false := by
  cases r with
  | permanent w => rfl
  | temporary w =>
    rw [beq_eq_false_iff_ne]
    intro hsame
    rw [VertexRef.on, temporary.injEq] at hsame
    subst hsame
    have hlt := of_decide_eq_true (Bool.and_eq_true_iff.1 hr).2
    simp only [LocalVertex.on] at hlt
    omega

namespace Overlay

@[simp]
theorem id_addVertices (o : Overlay α) (xs : List (TempVertex α)) :
    (o.addVertices xs).id = o.id := by
  induction xs generalizing o with
  | nil => rfl
  | cons x rest ih => exact ih (o.addVertex x).1

@[simp]
theorem vertices_addVertices (o : Overlay α) (xs : List (TempVertex α)) :
    (o.addVertices xs).vertices = o.vertices ++ xs := by
  induction xs generalizing o with
  | nil => exact (List.append_nil _).symm
  | cons x rest ih =>
    refine (ih (o.addVertex x).1).trans ?_
    simp [addVertex]

@[simp]
theorem edges_addVertices (o : Overlay α) (xs : List (TempVertex α)) :
    (o.addVertices xs).edges = o.edges := by
  induction xs generalizing o with
  | nil => rfl
  | cons x rest ih => exact ih (o.addVertex x).1

theorem grows_addVertices (o : Overlay α) (xs : List (TempVertex α)) :
    o.Grows (o.addVertices xs) := by
  induction xs generalizing o with
  | nil => exact .refl
  | cons x rest ih => exact (Grows.addVertex .refl x).trans (ih _)

theorem grows_addEdges {o : Overlay α} {es : List (TempEdge α)}
    (h : ∀ e ∈ es, o.lists e.source = true ∧ o.lists e.target = true) :
    o.Grows (o.addEdges es) := by
  induction es generalizing o with
  | nil => exact .refl
  | cons e rest ih =>
    obtain ⟨⟨hsource, htarget⟩, hrest⟩ := List.forall_mem_cons.1 h
    have hone : o.Grows (o.addEdge e) := .addEdge .refl hsource htarget
    exact hone.trans (ih fun d hd => ⟨hone.lists (hrest d hd).1, hone.lists (hrest d hd).2⟩)

variable (base : Overlay α) {o : Overlay α}

@[simp]
theorem id_on (o : Overlay α) : (o.on base).id = base.id := by
  simp [Overlay.on]

@[simp]
theorem vertices_on (o : Overlay α) : (o.on base).vertices = base.vertices ++ o.vertices := by
  simp [Overlay.on]

@[simp]
theorem edges_on (o : Overlay α) : (o.on base).edges = base.edges ++ o.edges.map (·.on base) := by
  simp [Overlay.on]

theorem lists_on {r : VertexRef} (hr : r.Within o.id) :
    (o.on base).lists (r.on base) = o.lists r := by
  cases r with
  | permanent v => rfl
  | temporary v => simp [VertexRef.on, lists, owns, LocalVertex.on, hr v rfl]

theorem vertex?_on {v : LocalVertex} (hv : v.overlay = o.id) :
    (o.on base).vertex? (v.on base) = o.vertex? v := by
  simp only [vertex?, LocalVertex.on, id_on, vertices_on, hv, if_true]
  rw [List.getElem?_append_right (Nat.le_add_right _ _), Nat.add_sub_cancel_left]

theorem addEdges_on (o : Overlay α) (es : List (TempEdge α)) :
    (o.on base).addEdges (es.map (·.on base)) = (o.addEdges es).on base := by
  simp only [Overlay.on, edges_addEdges, vertices_addEdges, List.map_append, addEdges_append]

theorem addVertex_on (h : o.Registered) (x : TempVertex α) :
    (o.on base).addVertex x = ((o.addVertex x).1.on base, (o.addVertex x).2.on base) := by
  have hfresh : ∀ e ∈ o.edges.map (·.on base),
      e.source ≠ .temporary ((base.addVertices o.vertices).addVertex x).2 ∧
        e.target ≠ .temporary ((base.addVertices o.vertices).addVertex x).2 := by
    have hown {r : VertexRef} (hr : o.lists r = true) :
        r.on base ≠ .temporary ((base.addVertices o.vertices).addVertex x).2 := by
      cases r with
      | permanent v => exact nofun
      | temporary v =>
        have hlt := of_decide_eq_true (Bool.and_eq_true_iff.1 hr).2
        simp only [VertexRef.on, LocalVertex.on, addVertex, vertices_addVertices, id_addVertices,
          List.length_append, ne_eq, VertexRef.temporary.injEq, LocalVertex.mk.injEq, true_and]
        omega
    intro e he
    obtain ⟨d, hd, rfl⟩ := List.mem_map.1 he
    exact ⟨hown (h.lists_ends hd).1, hown (h.lists_ends hd).2⟩
  have hvertices : base.addVertices (o.vertices ++ [x]) =
      ((base.addVertices o.vertices).addVertex x).1 := List.foldl_concat _ _ _ _
  refine Prod.ext ?_ ?_
  · exact (addVertex_addEdges hfresh).trans (by simp only [Overlay.on, addVertex, hvertices])
  · simp [addVertex, LocalVertex.on]

variable {base}

theorem registered_on (hbase : base.Registered) (h : o.Registered) : (o.on base).Registered := by
  have hvertices := grows_addVertices base o.vertices
  refine (hvertices.trans (grows_addEdges fun e he => ?_)).registered hbase
  obtain ⟨d, hd, rfl⟩ := List.mem_map.1 he
  have hends := h.lists_ends hd
  have hlists {r : VertexRef} (hr : o.lists r = true) :
      (base.addVertices o.vertices).lists (r.on base) = true := by
    have hon := (lists_on base (within_of_lists hr)).trans hr
    rwa [Overlay.on, lists_addEdges] at hon
  exact ⟨hlists hends.1, hlists hends.2⟩

theorem hasConnector_on (hbase : base.Registered) (h : o.Registered) {source target : VertexRef}
    (hsource : source.Within o.id) (htarget : target.Within o.id)
    (hown : ∃ v, source = .temporary v ∨ target = .temporary v) (kind : ConnectorKind) :
    (o.on base).hasConnector (source.on base) (target.on base) kind =
      o.hasConnector source target kind := by
  have hnone : ∀ e ∈ base.edges,
      (e.source == source.on base && (e.target == target.on base)) = false := by
    intro e he
    obtain ⟨hlow, hlow'⟩ := hbase.lists_ends he
    obtain ⟨v, rfl | rfl⟩ := hown
    · rw [VertexRef.on_ne_of_lists hlow, Bool.false_and]
    · rw [VertexRef.on_ne_of_lists hlow', Bool.and_false]
  have hsame : ∀ e ∈ o.edges,
      ((e.on base).source == source.on base && ((e.on base).target == target.on base)) =
        (e.source == source && e.target == target) := by
    intro e he
    obtain ⟨hesource, hetarget⟩ := h.lists_ends he
    have hleft : ((e.on base).source == source.on base) = _ :=
      VertexRef.on_beq (within_of_lists hesource) hsource base
    have hright : ((e.on base).target == target.on base) = _ :=
      VertexRef.on_beq (within_of_lists hetarget) htarget base
    rw [hleft, hright]
  have hempty : (base.edges.any fun e => e.source == source.on base &&
      (e.target == target.on base && e.kind == .connector kind)) = false := by
    refine List.any_eq_false.2 fun e he => ?_
    rw [← Bool.and_assoc, hnone e he, Bool.false_and]
    exact Bool.false_ne_true
  rw [hasConnector, hasConnector, (registered_on hbase h).outgoing_eq_filter, h.outgoing_eq_filter]
  simp only [edges_on, List.any_filter, List.any_append, List.any_map]
  rw [hempty, Bool.false_or, Bool.eq_iff_iff, List.any_eq_true, List.any_eq_true]
  refine exists_congr fun e => and_congr_right fun he => ?_
  have hkind : (e.on base).kind = e.kind := rfl
  rw [Function.comp_apply, ← Bool.and_assoc, ← Bool.and_assoc, hsame e he, hkind]

end Overlay

end StreetLinking.Temporary

namespace StreetLinking.Linking

open Number Plane Street Nearest Temporary

variable {α : Type} [Scalar α]

/-! ## Cutting and connecting -/

variable (base : Overlay α)

omit [Scalar α] in
theorem withCut_on {o : Overlay α} (h : o.Registered) (side : Side) (halves : Halves α) :
    withCut (o.on base) side halves = (withCut o side halves).on base := by
  have hadded := Overlay.addVertex_on base h (cutVertex side halves)
  have hname : nextVertex (o.on base) = (nextVertex o).on base := congrArg Prod.snd hadded
  have hhalves : keptHalves side halves ((nextVertex o).on base) =
      (keptHalves side halves (nextVertex o)).map (·.on base) := by
    cases side <;> rfl
  rw [withCut, hadded, hname, hhalves, Overlay.addEdges_on]
  rfl

theorem cutIn_on (g : Streets α) {o : Overlay α} (h : o.Registered) (number : Nat)
    (location : Location α) (side : Side) :
    cutIn g (o.on base) number location side =
      ⟨(cutIn g o number location side).answer.map (·.on base),
        (cutIn g o number location side).state.on base⟩ := by
  cases hh : halve g number location with
  | error fault => simp only [cutIn, hh, Outcome.fail, Except.map]
  | ok halves =>
    have hname : nextVertex (o.on base) = (nextVertex o).on base :=
      congrArg Prod.snd (Overlay.addVertex_on base h (cutVertex side halves))
    rw [cutIn_of_halve hh, cutIn_of_halve hh, withCut_on base h, hname]
    rfl

def Touches (o : Overlay α) (e : TempEdge α) : Prop :=
  o.lists e.source = true ∧ o.lists e.target = true ∧
    ∃ v, e.source = .temporary v ∨ e.target = .temporary v

variable {base}

omit [Scalar α] in
theorem connectOnce_on (hbase : base.Registered) (kind : ConnectorKind) {o : Overlay α}
    (h : o.Registered) (n : Nat) {e : TempEdge α} (he : Touches o e) :
    connectOnce kind (o.on base, n) (e.on base) =
      ((connectOnce kind (o, n) e).1.on base, (connectOnce kind (o, n) e).2) := by
  obtain ⟨hsource, htarget, hown⟩ := he
  have hthere : (o.on base).hasConnector (e.on base).source (e.on base).target kind =
      o.hasConnector e.source e.target kind :=
    Overlay.hasConnector_on hbase h (Overlay.within_of_lists hsource)
      (Overlay.within_of_lists htarget) hown kind
  by_cases hlinked : o.hasConnector e.source e.target kind = true
  · have hold : connectOnce kind (o, n) e = (o, n) := if_pos hlinked
    rw [hold]
    exact if_pos (hthere.trans hlinked)
  · have hnew : connectOnce kind (o, n) e = (o.addEdge e, n + 1) := if_neg hlinked
    have hlinked' := hlinked
    rw [← hthere] at hlinked'
    rw [hnew]
    exact (if_neg hlinked').trans (congrArg (·, n + 1) (Overlay.addEdges_on base o [e]))

omit [Scalar α] in
theorem foldl_connectOnce_on (hbase : base.Registered) (kind : ConnectorKind) {o : Overlay α}
    (h : o.Registered) (n : Nat) {es : List (TempEdge α)} (hes : ∀ e ∈ es, Touches o e) :
    (es.map (·.on base)).foldl (connectOnce kind) (o.on base, n) =
      ((es.foldl (connectOnce kind) (o, n)).1.on base,
        (es.foldl (connectOnce kind) (o, n)).2) := by
  induction es generalizing o n with
  | nil => rfl
  | cons e rest ih =>
    obtain ⟨htouches, hrest⟩ := List.forall_mem_cons.1 hes
    have hgrows : o.Grows (connectOnce kind (o, n) e).1 :=
      grows_connectOnce kind (s := (o, n)) htouches.1 htouches.2.1
    rw [List.map_cons, List.foldl_cons, List.foldl_cons, connectOnce_on hbase kind h n htouches]
    exact ih (hgrows.registered h) _ fun d hd =>
      ⟨hgrows.lists (hrest d hd).1, hgrows.lists (hrest d hd).2.1, (hrest d hd).2.2⟩

theorem connectIn_on (hbase : base.Registered) {o : Overlay α} (h : o.Registered) {v : LocalVertex}
    (hv : o.lists (.temporary v) = true) (position : Point α) (street : VertexRef × Point α)
    (hstreet : o.lists street.1 = true) (role : Role) :
    connectIn (o.on base) (.temporary (v.on base), position) (street.1.on base, street.2) role =
      ((connectIn o (.temporary v, position) street role).1.on base,
        (connectIn o (.temporary v, position) street role).2) := by
  have hes : ∀ e ∈ connectorsIn (.temporary v, position) street role, Touches o e := by
    intro e he
    rcases ends_of_mem_connectorsIn he with ⟨hsource, htarget⟩ | ⟨hsource, htarget⟩
    · exact ⟨hsource ▸ hv, htarget ▸ hstreet, v, Or.inl hsource⟩
    · exact ⟨hsource ▸ hstreet, htarget ▸ hv, v, Or.inr htarget⟩
  have hmap : connectorsIn (.temporary (v.on base), position) (street.1.on base, street.2) role =
      (connectorsIn (.temporary v, position) street role).map (·.on base) := by
    cases role <;> rfl
  unfold connectIn
  rw [hmap]
  exact foldl_connectOnce_on hbase role.connector.kind h 0 hes

/-! ## Linking a guest -/

/-- A draft on top of an overlay, whose gate has recorded the edges `held` before. -/
def Draft.on (d : Draft α) (base : Overlay α) (held : List Nat) : Draft α :=
  ⟨d.overlay.on base, d.gate.map fun gate => ⟨gate.cuts ++ held⟩⟩

def Guest.on (guest : Guest α) (base : Overlay α) : Guest α :=
  { guest with vertex := guest.vertex.on base }

variable {held : List Nat}

omit [Scalar α] in
theorem record_on (d : Draft α) {number : Nat} (hfree : number ∉ held) :
    (d.on base held).record number =
      ⟨(d.record number).answer, (d.record number).state.on base held⟩ := by
  have hcut : (d.on base held).isCut number = d.isCut number := by
    obtain ⟨overlay, _ | gate⟩ := d
    · rfl
    · simp [Draft.on, Draft.isCut, Gate.isCut, hfree]
  rw [Draft.record_eq, Draft.record_eq, hcut]
  split
  · rfl
  · obtain ⟨overlay, _ | gate⟩ := d
    · rfl
    · rfl

variable (base) in
omit [Scalar α] in
theorem position?_on (g : Streets α) {o : Overlay α} {r : VertexRef} (hr : r.Within o.id) :
    View.position? ⟨g, [o.on base]⟩ (r.on base) = View.position? ⟨g, [o]⟩ r := by
  cases r with
  | permanent v => rfl
  | temporary v =>
    simp only [VertexRef.on, View.position?, List.findSome?_cons, List.findSome?_nil]
    rw [Overlay.vertex?_on base (hr v rfl)]

variable (settings : Settings) (g : Streets α)

variable (base) in
theorem attachIn_on (guest : Guest α) {d : Draft α} (h : d.overlay.Registered) {number : Nat}
    (hfree : cuts settings g guest.position number = true → number ∉ held) :
    attachIn settings g (guest.on base) (d.on base held) number =
      ⟨(attachIn settings g guest d number).answer.map (·.on base),
        (attachIn settings g guest d number).state.on base held⟩ := by
  unfold attachIn
  simp only [Guest.on]
  cases hplan : plan g number guest.position (Frame.around guest.position)
      (Scalar.ofDouble settings.endpointSnap) with
  | error fault => rfl
  | ok attachment =>
    cases attachment with
    | endpoint v => rfl
    | cut location =>
      have hoverlay := d.record_overlay number
      simp only [record_on d (hfree (by simp only [cuts, hplan]))]
      generalize d.record number = recorded at hoverlay
      rcases recorded with ⟨fault | _, d'⟩
      · rfl
      · have hcut := cutIn_on base g h number location guest.role.side
        simp only at hoverlay
        simp only [Outcome.andThen, Draft.on, hoverlay, hcut]
        rcases cutIn g d.overlay number location guest.role.side with ⟨fault | v, o⟩ <;> rfl

variable (held) in
theorem connectGuest_on (hbase : base.Registered) {guest : Guest α} {d : Draft α}
    (h : d.overlay.Registered) (hguest : d.overlay.lists (.temporary guest.vertex) = true)
    {street : VertexRef} (hstreet : d.overlay.lists street = true) (position : Point α) :
    connectGuest (guest.on base) (street.on base) position (d.on base held) =
      (connectGuest guest street position d).on base held := by
  have hon := connectIn_on hbase h hguest guest.position (street, position) hstreet guest.role
  simp only [connectGuest, Draft.on]
  exact congrArg (fun r : Overlay α × Nat =>
    (⟨r.1, d.gate.map fun gate => ⟨gate.cuts ++ held⟩⟩ : Draft α)) hon

theorem attachAllIn_on (hbase : base.Registered) {guest : Guest α} {numbers : List Nat}
    (hfree : ∀ n ∈ numbers, cuts settings g guest.position n = true → n ∉ held) {d : Draft α}
    (h : d.overlay.Registered) (hguest : d.overlay.lists (.temporary guest.vertex) = true) :
    attachAllIn settings g (guest.on base) (d.on base held) numbers =
      ⟨(attachAllIn settings g guest d numbers).answer,
        (attachAllIn settings g guest d numbers).state.on base held⟩ := by
  induction numbers generalizing d with
  | nil => rfl
  | cons number rest ih =>
    have hattach := attachIn_on base settings g guest h (hfree number List.mem_cons_self)
    obtain ⟨hgrows, hnames⟩ := grows_attachIn settings g guest d number
    simp only [attachAllIn, hattach]
    generalize attachIn settings g guest d number = attached at hgrows hnames
    rcases attached with ⟨fault | street, d'⟩
    · rfl
    · have hguest' : d'.overlay.lists (.temporary guest.vertex) = true := hgrows.lists hguest
      have hstreet : d'.overlay.lists street = true := hnames street rfl
      have h' : d'.overlay.Registered := hgrows.registered h
      have hposition := position?_on base g (Overlay.within_of_lists hstreet)
      simp only [Except.map, Outcome.andThen, Draft.on] at hposition ⊢
      rw [hposition]
      cases View.position? ⟨g, [d'.overlay]⟩ street with
      | none => rfl
      | some position =>
        have hconnect := connectGuest_on held hbase h' hguest' hstreet position
        have hgrows' := grows_connectGuest hguest' hstreet position
        have hrest := ih (fun n hn => hfree n (List.mem_cons_of_mem _ hn))
          (hgrows'.registered h') (hgrows'.lists hguest')
        rw [← hconnect] at hrest
        exact hrest

theorem attachToStops_on (hbase : base.Registered) {guest : Guest α} {d : Draft α}
    (h : d.overlay.Registered) (hguest : d.overlay.lists (.temporary guest.vertex) = true) :
    attachToStops settings g (guest.on base) (d.on base held) =
      ((attachToStops settings g guest d).1.on base held,
        (attachToStops settings g guest d).2) := by
  simp only [attachToStops]
  have hposition : (guest.on base).position = guest.position := rfl
  rw [hposition]
  generalize nearestStops g _ _ = stops
  rw [Prod.mk.injEq]
  refine ⟨?_, rfl⟩
  induction stops generalizing d with
  | nil => rfl
  | cons stop rest ih =>
    have hlists : d.overlay.lists (.permanent stop.item.vertex) = true := rfl
    have hconnect := connectGuest_on held hbase h hguest hlists stop.item.position
    have hgrows := grows_connectGuest hguest hlists stop.item.position
    have hrest := ih (hgrows.registered h) (hgrows.lists hguest)
    rw [← hconnect] at hrest
    exact hrest

/-- A guest is linked on top of another overlay as it would be on its own. -/
theorem linkGuest_on (hbase : base.Registered) (guest : Guest α) (mode : Mode)
    (hfree : ∀ n ∈ (targets settings g guest.position mode).map (·.item.number),
      cuts settings g guest.position n = true → n ∉ held) {d : Draft α}
    (h : d.overlay.Registered) (hguest : d.overlay.lists (.temporary guest.vertex) = true) :
    linkGuest settings g (guest.on base) mode (d.on base held) =
      ⟨(linkGuest settings g guest mode d).answer,
        (linkGuest settings g guest mode d).state.on base held⟩ := by
  have hposition : (guest.on base).position = guest.position := rfl
  have hrole : (guest.on base).role = guest.role := rfl
  have hall := attachAllIn_on settings g hbase hfree h hguest
  unfold linkGuest
  unfold targets at hall
  rw [hposition, hrole]
  split
  · split
    · rw [attachToStops_on settings g hbase h hguest]
      rfl
    · rfl
  · simp only [hall]
    generalize attachAllIn settings g guest d _ = attached
    rcases attached with ⟨fault | _, d'⟩
    · rfl
    · rfl

end StreetLinking.Linking
