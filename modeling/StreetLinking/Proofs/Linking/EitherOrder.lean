import StreetLinking.Proofs.Linking.Mounting
import StreetLinking.Proofs.Linking.TrivialPaths
/-!
# Either end first

A request may link its origin and its destination in either order. The end that is linked last finds
a gate and an overlay that the other one has filled, and only the gate matters to it. Main
statement: the two orders fail together, just if both ends alone cut a common edge, and otherwise
they give the same overlay up to the numbers of its vertices and the order of its edges.
-/

namespace StreetLinking.Temporary

variable {α : Type}

/-! ## Renumbering -/

def LocalVertex.renumbered (σ : Nat → Nat) (v : LocalVertex) : LocalVertex :=
  { v with position := σ v.position }

def VertexRef.renumbered (σ : Nat → Nat) : VertexRef → VertexRef
  | .permanent v => .permanent v
  | .temporary v => .temporary (v.renumbered σ)

def TempEdge.renumbered (σ : Nat → Nat) (e : TempEdge α) : TempEdge α :=
  { e with source := e.source.renumbered σ, target := e.target.renumbered σ }

def KeepsApart (σ : Nat → Nat) (o : Overlay α) : Prop :=
  ∀ i j, i < o.vertices.length → j < o.vertices.length → σ i = σ j → i = j

/-- An overlay has the vertices of another one under other numbers, and its edges in some order. So
it lists the same edges at every vertex. -/
structure Renumbers (σ : Nat → Nat) (o o' : Overlay α) : Prop where
  id : o'.id = o.id
  size : o'.vertices.length = o.vertices.length
  injective : KeepsApart σ o
  vertices : ∀ i, i < o.vertices.length → o'.vertices[σ i]? = o.vertices[i]?
  edges : o'.edges.Perm (o.edges.map (·.renumbered σ))
  outgoing : ∀ r, o.lists r = true →
    (o'.outgoing (r.renumbered σ)).Perm ((o.outgoing r).map (·.renumbered σ))
  incoming : ∀ r, o.lists r = true →
    (o'.incoming (r.renumbered σ)).Perm ((o.incoming r).map (·.renumbered σ))

theorem KeepsApart.renumbered_beq {σ : Nat → Nat} {o : Overlay α} (h : KeepsApart σ o)
    {r s : VertexRef} (hr : o.lists r = true) (hs : o.lists s = true) :
    (r.renumbered σ == s.renumbered σ) = (r == s) := by
  rw [Bool.eq_iff_iff, beq_iff_eq, beq_iff_eq]
  refine ⟨fun hsame => ?_, fun hsame => congrArg _ hsame⟩
  rcases r with a | ⟨id, i⟩ <;> rcases s with b | ⟨id', j⟩
  · exact hsame
  · cases hsame
  · cases hsame
  · obtain ⟨hown, hi⟩ := Bool.and_eq_true_iff.1 hr
    obtain ⟨hown', hj⟩ := Bool.and_eq_true_iff.1 hs
    obtain rfl : id = id' := (beq_iff_eq.1 hown).trans (beq_iff_eq.1 hown').symm
    have hposition : σ i = σ j := congrArg LocalVertex.position (VertexRef.temporary.inj hsame)
    rw [h i j (of_decide_eq_true hi) (of_decide_eq_true hj) hposition]

theorem KeepsApart.perm_filter {σ : Nat → Nat} {o : Overlay α} (h : KeepsApart σ o)
    {es : List (TempEdge α)} (hperm : es.Perm (o.edges.map (·.renumbered σ)))
    (ends : TempEdge α → VertexRef)
    (hends : ∀ e, ends (e.renumbered σ) = (ends e).renumbered σ)
    (hlists : ∀ e ∈ o.edges, o.lists (ends e) = true) {r : VertexRef} (hr : o.lists r = true) :
    (es.filter (ends · == r.renumbered σ)).Perm
      ((o.edges.filter (ends · == r)).map (·.renumbered σ)) := by
  refine (hperm.filter _).trans (List.Perm.of_eq ?_)
  rw [List.filter_map]
  refine congrArg _ (List.filter_congr fun e he => ?_)
  rw [Function.comp_apply, hends, h.renumbered_beq (hlists e he) hr]

/-- Moves the first `m` of `m + n` numbers behind the others. -/
def rotated (m n : Nat) (i : Nat) : Nat :=
  if i < m then n + i else i - m

theorem VertexRef.renumbered_of_lists {o other : Overlay α} (hid : other.id = o.id)
    {r : VertexRef} (hr : o.lists r = true) :
    r.renumbered (rotated o.vertices.length other.vertices.length) = r.on other := by
  cases r with
  | permanent v => rfl
  | temporary v =>
    obtain ⟨overlay, position⟩ := v
    obtain ⟨hown, hlt⟩ := Bool.and_eq_true_iff.1 hr
    have hown : overlay = o.id := beq_iff_eq.1 hown
    have hlt : position < o.vertices.length := of_decide_eq_true hlt
    simp only [renumbered, LocalVertex.renumbered, rotated, if_pos hlt, VertexRef.on,
      LocalVertex.on, hid, hown]

theorem VertexRef.renumbered_on {o other : Overlay α} (hid : other.id = o.id) {r : VertexRef}
    (hr : other.lists r = true) :
    (r.on o).renumbered (rotated o.vertices.length other.vertices.length) = r := by
  cases r with
  | permanent v => rfl
  | temporary v =>
    obtain ⟨overlay, position⟩ := v
    have hown : overlay = other.id := Overlay.within_of_lists hr _ rfl
    have hnot : ¬ o.vertices.length + position < o.vertices.length := by omega
    simp only [VertexRef.on, LocalVertex.on, renumbered, LocalVertex.renumbered, rotated,
      if_neg hnot, Nat.add_sub_cancel_left, hown, hid]

theorem keepsApart_rotated (o other : Overlay α) :
    KeepsApart (rotated o.vertices.length other.vertices.length) (other.on o) := by
  intro i j hi hj hsame
  rw [Overlay.vertices_on, List.length_append] at hi hj
  simp only [rotated] at hsame
  split at hsame <;> split at hsame <;> omega

theorem perm_edges_on {o other : Overlay α} (hid : other.id = o.id) (h : o.Registered)
    (hother : other.Registered) :
    (o.on other).edges.Perm ((other.on o).edges.map
      (·.renumbered (rotated o.vertices.length other.vertices.length))) := by
  have hlow : o.edges.map (·.renumbered (rotated o.vertices.length other.vertices.length)) =
      o.edges.map (·.on other) := by
    refine List.map_congr_left fun e he => ?_
    obtain ⟨hsource, htarget⟩ := h.lists_ends he
    simp only [TempEdge.renumbered, TempEdge.on, VertexRef.renumbered_of_lists hid hsource,
      VertexRef.renumbered_of_lists hid htarget]
  have hhigh : (other.edges.map (·.on o)).map
      (·.renumbered (rotated o.vertices.length other.vertices.length)) = other.edges := by
    rw [List.map_map]
    refine (List.map_congr_left fun e he => ?_).trans (List.map_id _)
    obtain ⟨hsource, htarget⟩ := hother.lists_ends he
    simp only [Function.comp_apply, TempEdge.renumbered, TempEdge.on,
      VertexRef.renumbered_on hid hsource, VertexRef.renumbered_on hid htarget, id_eq]
  simp only [Overlay.edges_on, List.map_append, hlow, hhigh]
  exact List.perm_append_comm

/-- Which of two overlays is on top of the other is a matter of numbers and order. -/
theorem renumbers_on {o other : Overlay α} (hid : other.id = o.id) (h : o.Registered)
    (hother : other.Registered) :
    Renumbers (rotated o.vertices.length other.vertices.length) (other.on o) (o.on other) := by
  have hinjective := keepsApart_rotated o other
  have hperm := perm_edges_on hid h hother
  have hback := Overlay.registered_on h hother
  have hforth := Overlay.registered_on hother h
  refine ⟨by rw [Overlay.id_on, Overlay.id_on, hid], ?_, hinjective, ?_, hperm, ?_, ?_⟩
  · simp only [Overlay.vertices_on, List.length_append, Nat.add_comm]
  · intro i hi
    rw [Overlay.vertices_on, List.length_append] at hi
    rw [Overlay.vertices_on, Overlay.vertices_on]
    simp only [rotated]
    split
    · next hlow =>
      rw [List.getElem?_append_right (Nat.le_add_right _ _), Nat.add_sub_cancel_left,
        List.getElem?_append_left hlow]
    · next hhigh =>
      rw [List.getElem?_append_left (by omega), List.getElem?_append_right (by omega)]
  · intro r hr
    rw [hforth.outgoing_eq_filter, hback.outgoing_eq_filter]
    exact hinjective.perm_filter hperm (·.source) (fun _ => rfl)
      (fun e he => (hback.lists_ends he).1) hr
  · intro r hr
    rw [hforth.incoming_eq_filter, hback.incoming_eq_filter]
    exact hinjective.perm_filter hperm (·.target) (fun _ => rfl)
      (fun e he => (hback.lists_ends he).2) hr

end StreetLinking.Temporary

namespace StreetLinking.Linking

open Number Plane Street Nearest Temporary

variable {α : Type} [Scalar α]

/-! ## The end that is linked last -/

def LinkedEnd.on (base : Overlay α) (e : LinkedEnd) : LinkedEnd :=
  { e with vertex := e.vertex.on base }

/-- An end that cuts nothing recorded is linked on top of what the request holds as it is linked
alone. -/
theorem linkEnd_on (settings : Settings) (g : Streets α) {r : Request α}
    {id : OverlayId} (hid : r.overlay.id = id) (hregistered : r.overlay.Registered)
    (position : Point α) (isDestination : Bool)
    (hfree : ∀ n ∈ (targets settings g position (r.modes.linkingMode isDestination)).map
      (·.item.number), cuts settings g position n = true → n ∉ r.gate.cuts) :
    let alone := (Request.start r.modes id).linkEnd settings g position isDestination
    r.linkEnd settings g position isDestination =
      ⟨alone.answer.map (·.on r.overlay),
        { r with
            overlay := alone.state.overlay.on r.overlay
            gate := ⟨alone.state.gate.cuts ++ r.gate.cuts⟩ }⟩ := by
  intro alone
  subst hid
  let start : Request α := .start r.modes r.overlay.id
  let draft : Draft α := { start.draft with
    overlay := (start.overlay.addVertex (Request.endVertex position isDestination)).1 }
  have hon := linkGuest_on settings g hregistered (start.endGuest position isDestination)
    (r.modes.linkingMode isDestination) hfree (d := draft)
    ((Overlay.registered_empty _).addVertex _) (lists_nextVertex start.overlay _)
  have hguest : (start.endGuest position isDestination).on r.overlay =
      r.endGuest position isDestination := rfl
  have hdraft : draft.on r.overlay r.gate.cuts = { r.draft with
      overlay := (r.overlay.addVertex (Request.endVertex position isDestination)).1 } := by
    rfl
  rw [hguest, hdraft] at hon
  have hlinked : r.linkedEnd settings g position isDestination =
      ⟨(start.linkedEnd settings g position isDestination).answer,
        (start.linkedEnd settings g position isDestination).state.on r.overlay r.gate.cuts⟩ := hon
  have halone : alone = _ := Request.linkEnd_eq settings g start position isDestination
  rw [Request.linkEnd_eq, hlinked, halone]
  generalize start.linkedEnd settings g position isDestination = linked
  obtain ⟨answer, overlay, gate⟩ := linked
  cases answer <;> cases gate <;> rfl

theorem refused_iff {g : Streets α} (hreached : Reached g) (settings : Settings) (r : Request α)
    (id : OverlayId) (position : Point α) (isDestination : Bool) :
    (∃ n, (r.linkEnd settings g position isDestination).answer = .error (.trivialPath n)) ↔
      ∃ n, r.gate.isCut n = true ∧
        ((Request.start r.modes id : Request α).linkEnd settings g position
          isDestination).state.gate.isCut n = true := by
  simp only [answer_linkEnd_eq_error_iff hreached, isCut_linkEnd_start hreached]
  constructor
  · rintro ⟨_, n, hn, -⟩
    obtain ⟨m, hm, hcut, hrecorded⟩ := (exists_refusal?_iff settings g position _ _).1 ⟨n, hn⟩
    exact ⟨m, hrecorded, hm, hcut⟩
  · rintro ⟨m, hrecorded, hm, hcut⟩
    obtain ⟨n, hn⟩ := (exists_refusal?_iff settings g position r.draft _).2
      ⟨m, hm, hcut, hrecorded⟩
    exact ⟨n, n, hn, rfl⟩

theorem vertex_of_answer_linkEnd {settings : Settings} {g : Streets α} {r : Request α}
    {position : Point α} {isDestination : Bool} {linked : LinkedEnd}
    (hok : (r.linkEnd settings g position isDestination).answer = .ok linked) :
    linked.vertex = nextVertex r.overlay := by
  rw [Request.linkEnd_eq] at hok
  dsimp only at hok
  cases hanswer : (r.linkedEnd settings g position isDestination).answer with
  | error fault =>
    rw [hanswer] at hok
    cases hok
  | ok flag =>
    rw [hanswer] at hok
    cases hok
    rfl

theorem lists_of_answer_linkEnd {settings : Settings} {g : Streets α} {r : Request α}
    {position : Point α} {isDestination : Bool} {linked : LinkedEnd}
    (hok : (r.linkEnd settings g position isDestination).answer = .ok linked) :
    (r.linkEnd settings g position isDestination).state.overlay.lists (.temporary linked.vertex) =
      true := by
  have hvertex := lists_nextVertex r.overlay (Request.endVertex position isDestination)
  have hgrows := grows_linkGuest settings g (r.endGuest position isDestination)
    (r.modes.linkingMode isDestination) (d := ⟨_, some r.gate⟩) hvertex
  rw [vertex_of_answer_linkEnd hok]
  exact hgrows.lists hvertex

section Start

variable (settings : Settings) (g : Streets α) (modes : RequestModes) (id : OverlayId)
  (position : Point α) (isDestination : Bool)

theorem id_linkEnd_start :
    ((Request.start modes id : Request α).linkEnd settings g position
      isDestination).state.overlay.id = id :=
  (grows_linkEnd settings g (.start modes id) position isDestination).id

theorem registered_linkEnd_start :
    ((Request.start modes id : Request α).linkEnd settings g position
      isDestination).state.overlay.Registered :=
  (grows_linkEnd settings g (.start modes id) position isDestination).registered
    (Overlay.registered_empty id)

end Start

/-! ## Both ends -/

theorem linkEnd_second {g : Streets α} (hreached : Reached g) (settings : Settings)
    (modes : RequestModes) (id : OverlayId) (p q : Point α) (isDestination : Bool) :
    let start : Request α := .start modes id
    let first := start.linkEnd settings g p !isDestination
    let alone := start.linkEnd settings g q isDestination
    (∀ n, first.state.gate.isCut n = true → ¬ alone.state.gate.isCut n = true) →
    first.state.linkEnd settings g q isDestination =
      ⟨alone.answer.map (·.on first.state.overlay),
        { first.state with
            overlay := alone.state.overlay.on first.state.overlay
            gate := ⟨alone.state.gate.cuts ++ first.state.gate.cuts⟩ }⟩ := by
  intro start first alone hdisjoint
  refine linkEnd_on settings g (id_linkEnd_start settings g modes id p _)
    (registered_linkEnd_start settings g modes id p _) q isDestination fun n hn hcut hheld => ?_
  exact hdisjoint n (List.contains_iff_mem.2 hheld)
    ((isCut_linkEnd_start hreached settings modes id q isDestination n).2 ⟨hn, hcut⟩)

/-- Linking the origin first or the destination first fails alike, just if alone both of them cut a
common edge. Otherwise both orders link the same ends, record the same edges and give the same
overlay up to the numbers of its vertices and the order of its edges. -/
theorem either_order (events : List (Event α)) (settings : Settings) (modes : RequestModes)
    (id : OverlayId) (p q : Point α) :
    let g := run .empty events
    let start : Request α := .start modes id
    let origin := start.linkEnd settings g p false
    let destination := start.linkEnd settings g q true
    let forth := origin.state.linkEnd settings g q true
    let back := destination.state.linkEnd settings g p false
    let common := ∃ n, origin.state.gate.isCut n = true ∧ destination.state.gate.isCut n = true
    (∃ a, origin.answer = .ok a) ∧ (∃ c, destination.answer = .ok c) ∧
    ((∃ n, forth.answer = .error (.trivialPath n)) ↔ common) ∧
    ((∃ n, back.answer = .error (.trivialPath n)) ↔ common) ∧
    ∀ a b c d, origin.answer = .ok a → forth.answer = .ok b → destination.answer = .ok c →
      back.answer = .ok d →
      a.linked = d.linked ∧ b.linked = c.linked ∧
      (∀ n, forth.state.gate.isCut n = back.state.gate.isCut n) ∧
      ∃ σ, Renumbers σ forth.state.overlay back.state.overlay ∧
        a.vertex.renumbered σ = d.vertex ∧ b.vertex.renumbered σ = c.vertex := by
  intro g start origin destination forth back common
  have hreached : Reached g := reached_run events
  have hforth : (∃ n, forth.answer = .error (.trivialPath n)) ↔ common :=
    refused_iff hreached settings origin.state id q true
  have hback : (∃ n, back.answer = .error (.trivialPath n)) ↔ common :=
    (refused_iff hreached settings destination.state id p false).trans
      (exists_congr fun n => and_comm)
  refine ⟨exists_answer_linkEnd_start hreached settings modes id p false,
    exists_answer_linkEnd_start hreached settings modes id q true, hforth, hback, ?_⟩
  intro a b c d ha hb hc hd
  have hdisjoint : ∀ n, origin.state.gate.isCut n = true →
      ¬ destination.state.gate.isCut n = true := by
    intro n hn hn'
    obtain ⟨m, hm⟩ := hforth.2 ⟨n, hn, hn'⟩
    rw [hb] at hm
    cases hm
  -- each order puts the second end, as it is linked alone, on top of the first one
  have hforthEq : forth = _ := linkEnd_second hreached settings modes id p q true hdisjoint
  have hbackEq : back = _ := linkEnd_second hreached settings modes id q p false
    fun n hn hn' => hdisjoint n hn' hn
  have hid : destination.state.overlay.id = origin.state.overlay.id :=
    (id_linkEnd_start settings g modes id q true).trans
      (id_linkEnd_start settings g modes id p false).symm
  have horigin : origin.state.overlay.Registered :=
    registered_linkEnd_start settings g modes id p false
  have hdestination : destination.state.overlay.Registered :=
    registered_linkEnd_start settings g modes id q true
  have hlistsOrigin := lists_of_answer_linkEnd ha
  have hlistsDestination := lists_of_answer_linkEnd hc
  have hb' : b = c.on origin.state.overlay := by
    rw [hforthEq] at hb
    change destination.answer.map _ = _ at hb
    rw [hc] at hb
    exact (Except.ok.inj hb).symm
  have hd' : d = a.on destination.state.overlay := by
    rw [hbackEq] at hd
    change origin.answer.map _ = _ at hd
    rw [ha] at hd
    exact (Except.ok.inj hd).symm
  rw [hforthEq, hbackEq, hb', hd']
  refine ⟨rfl, rfl, fun n => ?_, rotated origin.state.overlay.vertices.length
    destination.state.overlay.vertices.length, ?_, ?_, ?_⟩
  · simp only [Gate.isCut, List.contains_eq_mem, List.mem_append, Or.comm]
    rfl
  · exact renumbers_on hid horigin hdestination
  · exact VertexRef.temporary.inj (VertexRef.renumbered_of_lists hid hlistsOrigin)
  · exact VertexRef.temporary.inj (VertexRef.renumbered_on hid hlistsDestination)

/-- An origin half-way along a street, and a destination at the start of it or further on. -/
theorem either_order_on_the_meridian :
    let g := run .empty meridian
    let start : Request Float := .start (.only .walk) ⟨0, 0⟩
    let origin := start.linkEnd onTheSpot g ⟨0.0, 0.5⟩ false
    let destination := start.linkEnd onTheSpot g ⟨0.0, 0.0⟩ true
    let forth := origin.state.linkEnd onTheSpot g ⟨0.0, 0.0⟩ true
    let back := destination.state.linkEnd onTheSpot g ⟨0.0, 0.5⟩ false
    (∃ n, (origin.state.linkEnd onTheSpot g ⟨0.0, 0.25⟩ true).answer =
      .error (.trivialPath n)) ∧
    ∃ a b c d, origin.answer = .ok a ∧ forth.answer = .ok b ∧ destination.answer = .ok c ∧
      back.answer = .ok d ∧ a.linked = d.linked ∧ b.linked = c.linked ∧
      ∃ σ, Renumbers σ forth.state.overlay back.state.overlay := by
  intro g start origin destination forth back
  have hreached : Reached g := reached_run meridian
  have horigin : origin.state.gate.isCut 0 = true :=
    (isCut_linkEnd_meridian (Or.inr (Or.inr rfl)) false 0).2 ⟨rfl, by decide⟩
  have hfurther : (start.linkEnd onTheSpot g ⟨0.0, 0.25⟩ true).state.gate.isCut 0 = true :=
    (isCut_linkEnd_meridian (Or.inr (Or.inl rfl)) true 0).2 ⟨rfl, by decide⟩
  have hnone : ¬ ∃ n, origin.state.gate.isCut n = true ∧
      destination.state.gate.isCut n = true := by
    rintro ⟨n, -, hn⟩
    exact ((isCut_linkEnd_meridian (Or.inl rfl) true n).1 hn).2 rfl
  have hanswers (r : Request Float) (p : Point Float) (isDestination : Bool)
      (h : ¬ ∃ n, (r.linkEnd onTheSpot g p isDestination).answer = .error (.trivialPath n)) :
      ∃ b, (r.linkEnd onTheSpot g p isDestination).answer = .ok b := by
    cases hanswer : (r.linkEnd onTheSpot g p isDestination).answer with
    | ok b => exact ⟨b, rfl⟩
    | error fault =>
      obtain ⟨n, -, rfl⟩ := (answer_linkEnd_eq_error_iff hreached _ r p _ fault).1 hanswer
      exact absurd ⟨n, hanswer⟩ h
  obtain ⟨-, -, hmeet, -, -⟩ :=
    either_order meridian onTheSpot (.only .walk) ⟨0, 0⟩ ⟨0.0, 0.5⟩ ⟨0.0, 0.25⟩
  obtain ⟨⟨a, ha⟩, ⟨c, hc⟩, hforth, hback, hsame⟩ :=
    either_order meridian onTheSpot (.only .walk) ⟨0, 0⟩ ⟨0.0, 0.5⟩ ⟨0.0, 0.0⟩
  obtain ⟨b, hb⟩ := hanswers _ _ _ fun h => hnone (hforth.1 h)
  obtain ⟨d, hd⟩ := hanswers _ _ _ fun h => hnone (hback.1 h)
  obtain ⟨hfirst, hsecond, -, σ, hσ, -⟩ := hsame a b c d ha hb hc hd
  exact ⟨hmeet.2 ⟨0, horigin, hfurther⟩, a, b, c, d, ha, hb, hc, hd, hfirst, hsecond, σ, hσ⟩

end StreetLinking.Linking
