import Mathlib.Data.List.Find
import StreetLinking.Proofs.Linking.OneWay
import StreetLinking.Proofs.Linking.OverlaySteps
import StreetLinking.Proofs.Linking.Reached
/-!
# Trivial paths

A request refuses to cut an edge twice, since both of its ends would then lie on that edge. The gate
and the overlay are written at different places and must tell the same story, even after a call that
stops half-way. Main statement: a call fails if and only if one of its nearest edges would be cut
again, with the first such edge, and after every call the gate has recorded just the edges that the
overlay cuts, each of them once and with one part.
-/

namespace StreetLinking.Temporary

def TempVertexKind.splitParent? : TempVertexKind → Option Nat
  | split parent _ => some parent
  | searchEnd _ | entity _ _ => none

def TempEdgeKind.part? : TempEdgeKind → Option Nat
  | part parent => some parent
  | connector _ => none

namespace Overlay

variable {α : Type}

/-- The serials of the edges that the overlay cuts, one for each vertex of a cut. -/
def cutSerials (o : Overlay α) : List Nat :=
  o.vertices.filterMap (·.kind.splitParent?)

/-- The numbers of the edges of which the overlay has parts, one for each part. -/
def partNumbers (o : Overlay α) : List Nat :=
  o.edges.filterMap (·.kind.part?)

end Overlay

end StreetLinking.Temporary

namespace StreetLinking.Linking

open Number Plane Street Streets Nearest Temporary

variable {α : Type} [Scalar α]

/-! ## When linking is refused -/

/-- The first edge of a list that a point would cut although the gate has recorded it. -/
def refusal? (settings : Settings) (g : Streets α) (position : Point α) (d : Draft α)
    (numbers : List Nat) : Option Nat :=
  numbers.find? fun n => cuts settings g position n && d.isCut n

theorem exists_refusal?_iff (settings : Settings) (g : Streets α) (position : Point α)
    (d : Draft α) (numbers : List Nat) :
    (∃ n, refusal? settings g position d numbers = some n) ↔
      ∃ n ∈ numbers, cuts settings g position n = true ∧ d.isCut n = true := by
  rw [refusal?, ← Option.isSome_iff_exists, List.find?_isSome]
  simp only [Bool.and_eq_true]

/-- The only fault is that of the gate, with the first edge that it refuses. -/
theorem answer_attachAllIn {g : Streets α} (hsound : Sound g) (settings : Settings)
    (guest : Guest α) {numbers : List Nat} (hlive : ∀ n ∈ numbers, ∃ e, g.edge? n = some e)
    (hdistinct : numbers.Nodup) (d : Draft α) :
    (attachAllIn settings g guest d numbers).answer =
      match refusal? settings g guest.position d numbers with
      | some n => .error (.trivialPath n)
      | none => .ok () := by
  induction numbers generalizing d with
  | nil => rfl
  | cons number rest ih =>
    obtain ⟨e, hedge⟩ := hlive number List.mem_cons_self
    obtain ⟨hnew, hdistinct⟩ := List.nodup_cons.1 hdistinct
    have hrest := ih (fun n hn => hlive n (List.mem_cons_of_mem _ hn)) hdistinct
    -- what the step records does not concern the edges after it
    have hskip (d' : Draft α) (hcut : ∀ n ∈ rest, d'.isCut n = d.isCut n) :
        refusal? settings g guest.position d' rest =
          refusal? settings g guest.position d rest :=
      List.find?_congr fun n hn => by rw [hcut n hn]
    rw [attachAllIn_cons, refusal?, List.find?_cons]
    rcases linkOne_cases hsound hedge settings guest d with
      ⟨v, x, hplan, -, -, hstep⟩ | ⟨location, h, hplan, -, -, hstep⟩
    · have hcuts : cuts settings g guest.position number = false := by simp only [cuts, hplan]
      have hsame := hskip (connectGuest guest (.permanent v) x.position d) fun _ _ => rfl
      rw [hstep, Outcome.andThen_ok, hrest, hsame, hcuts]
      rfl
    · have hcuts : cuts settings g guest.position number = true := by simp only [cuts, hplan]
      rw [hstep, hcuts, Bool.true_and]
      by_cases hcut : d.isCut number = true
      · rw [if_pos hcut, hcut]
        rfl
      · rw [if_neg hcut, Outcome.andThen_ok, hrest, Bool.eq_false_iff.2 hcut, hskip]
        · rfl
        · intro n hn
          have hother : (n == number) = false := by
            simpa using fun hsame : n = number => hnew (hsame ▸ hn)
          change (d.noted number).isCut n = _
          rw [d.isCut_noted, hother, Bool.and_false, Bool.false_or]

theorem answer_linkGuest {g : Streets α} (hreached : Reached g) (settings : Settings)
    {guest : Guest α} (hend : guest.role.isSearchEnd = true) (mode : Mode) (d : Draft α)
    (fault : Fault) :
    (linkGuest settings g guest mode d).answer = .error fault ↔
      ∃ n, refusal? settings g guest.position d
          ((targets settings g guest.position mode).map (·.item.number)) = some n ∧
        fault = .trivialPath n := by
  have hanswer := answer_attachAllIn hreached.sound settings guest
    (fun _ hn => hreached.exists_edge?_of_mem_targets settings guest.position mode hn)
    (hreached.nodup_targets settings guest.position mode) d
  unfold linkGuest
  unfold targets at hanswer ⊢
  split
  · next hnone =>
    rw [if_pos hend, hnone]
    simp [refusal?, Outcome.ok]
  · rw [Outcome.andThen_answer_eq_error_iff, hanswer]
    split
    · next n hn => simp [hn, eq_comm, Outcome.ok]
    · next hn => simp [hn, Outcome.ok]

theorem gate_attachAllIn {g : Streets α} (hsound : Sound g) (settings : Settings)
    (guest : Guest α) {numbers : List Nat} (hlive : ∀ n ∈ numbers, ∃ e, g.edge? n = some e)
    {d : Draft α} (hok : (attachAllIn settings g guest d numbers).answer = .ok ()) :
    (attachAllIn settings g guest d numbers).state.gate =
      d.gate.map fun gate =>
        ⟨(numbers.filter (cuts settings g guest.position)).reverse ++ gate.cuts⟩ := by
  induction numbers generalizing d with
  | nil =>
    cases hgate : d.gate <;> simp [attachAllIn, Outcome.ok, hgate]
  | cons number rest ih =>
    obtain ⟨e, hedge⟩ := hlive number List.mem_cons_self
    have hrest (d' : Draft α) := ih (d := d') fun n hn => hlive n (List.mem_cons_of_mem _ hn)
    rw [attachAllIn_cons] at hok ⊢
    rcases linkOne_cases hsound hedge settings guest d with
      ⟨v, x, hplan, -, -, hstep⟩ | ⟨location, h, hplan, -, -, hstep⟩
    · have hcuts : cuts settings g guest.position number = false := by simp only [cuts, hplan]
      rw [hstep, Outcome.andThen_ok] at hok ⊢
      rw [hrest _ hok, List.filter_cons, hcuts]
      rfl
    · have hcuts : cuts settings g guest.position number = true := by simp only [cuts, hplan]
      rw [hstep] at hok ⊢
      split at hok
      · cases hok
      · next hcut =>
        rw [if_neg hcut]
        rw [Outcome.andThen_ok] at hok ⊢
        rw [hrest _ hok, List.filter_cons, hcuts]
        have hnoted : (cutAndConnect guest number h d).gate = (d.noted number).gate := rfl
        rw [hnoted, Draft.noted]
        cases d.gate <;> simp

theorem gate_attachToStops (settings : Settings) (g : Streets α) (guest : Guest α)
    (d : Draft α) : (attachToStops settings g guest d).1.gate = d.gate := by
  simp only [attachToStops]
  generalize nearestStops g _ _ = stops
  induction stops generalizing d with
  | nil => rfl
  | cons stop rest ih => exact ih _

theorem gate_linkGuest {g : Streets α} (hreached : Reached g) (settings : Settings)
    (guest : Guest α) (mode : Mode) {d : Draft α} {linked : Bool}
    (hok : (linkGuest settings g guest mode d).answer = .ok linked) :
    (linkGuest settings g guest mode d).state.gate =
      d.gate.map fun gate =>
        ⟨(((targets settings g guest.position mode).map (·.item.number)).filter
          (cuts settings g guest.position)).reverse ++ gate.cuts⟩ := by
  have hall := gate_attachAllIn hreached.sound settings guest (d := d)
    fun _ hn => hreached.exists_edge?_of_mem_targets settings guest.position mode hn
  unfold linkGuest at hok ⊢
  unfold targets at hall ⊢
  split at hok
  · next hnone =>
    rw [hnone]
    split
    · simp only [Outcome.ok, gate_attachToStops]
      cases d.gate <;> rfl
    · simp only [Outcome.ok]
      cases d.gate <;> rfl
  · rw [Outcome.andThen_answer_eq_ok_iff] at hok
    obtain ⟨_, hok, -⟩ := hok
    rw [Outcome.andThen_ok_state]
    exact hall hok

/-! ## What the gate records -/

/-- The gate has recorded edges of the graph, each once, and the overlay has a vertex and a part of
each of them, in the order of the cuts. -/
structure Records (g : Streets α) (d : Draft α) (es : List (Edge α)) : Prop where
  live : ∀ e ∈ es, e ∈ g.edges
  distinct : (es.map (·.number)).Nodup
  gate : d.gate = some ⟨(es.map (·.number)).reverse⟩
  splits : d.overlay.cutSerials = es.map (·.serial)
  parts : d.overlay.partNumbers = es.map (·.number)

namespace Records

variable {g : Streets α} {d : Draft α} {es : List (Edge α)}

omit [Scalar α] in
theorem isCut_iff (h : Records g d es) (n : Nat) :
    d.isCut n = true ↔ ∃ e ∈ es, e.number = n := by
  rw [Draft.isCut, h.gate]
  simp [Gate.isCut]

omit [Scalar α] in
theorem addVertex (h : Records g d es) {v : TempVertex α} (hv : v.kind.splitParent? = none) :
    Records g { d with overlay := (d.overlay.addVertex v).1 } es where
  live := h.live
  distinct := h.distinct
  gate := h.gate
  splits := by
    have hsplits := h.splits
    simp only [Overlay.cutSerials, Overlay.addVertex, List.filterMap_append,
      List.filterMap_cons, hv, List.filterMap_nil, List.append_nil] at hsplits ⊢
    exact hsplits
  parts := h.parts

theorem connectGuest (h : Records g d es) (guest : Guest α) (street : VertexRef)
    (position : Point α) : Records g (connectGuest guest street position d) es := by
  obtain ⟨added, hsub, hframe⟩ := connectIn_frame d.overlay
    (.temporary guest.vertex, guest.position) (street, position) guest.role
  have hnone : added.filterMap (·.kind.part?) = [] := by
    refine List.filterMap_eq_nil_iff.2 fun e he => ?_
    rw [kind_of_mem_connectorsIn (hsub.subset he)]
    rfl
  have hoverlay : (Linking.connectGuest guest street position d).overlay =
      d.overlay.addEdges added := hframe
  refine ⟨h.live, h.distinct, h.gate, ?_, ?_⟩
  · rw [hoverlay, Overlay.cutSerials, Overlay.vertices_addEdges]
    exact h.splits
  · have hparts := h.parts
    simp only [hoverlay, Overlay.partNumbers, Overlay.edges_addEdges, List.filterMap_append, hnone,
      List.append_nil] at hparts ⊢
    exact hparts

theorem cutAndConnect (h : Records g d es) {guest : Guest α}
    (hend : guest.role.isSearchEnd = true) {halves : Halves α} (hparent : halves.parent ∈ g.edges)
    (hcut : ¬ d.isCut halves.parent.number = true) :
    Records g (cutAndConnect guest halves.parent.number halves d) (es ++ [halves.parent]) := by
  have hhalf : ∀ v, (keptHalves guest.role.side halves v).filterMap (·.kind.part?) =
      [halves.parent.number] := by
    intro v
    cases hrole : guest.role with
    | origin => rfl
    | destination => rfl
    | stop | bikeRental | bikePark | vehicle | bikeStation =>
      rw [hrole] at hend
      exact absurd hend Bool.false_ne_true
  have hcutIn : Records g { d.noted halves.parent.number with
      overlay := withCut d.overlay guest.role.side halves } (es ++ [halves.parent]) := by
    refine ⟨?_, ?_, ?_, ?_, ?_⟩
    · intro e he
      rcases List.mem_append.1 he with he | he
      · exact h.live e he
      · rw [List.mem_singleton.1 he]
        exact hparent
    · rw [List.map_append, List.map_singleton, ← List.concat_eq_append, List.nodup_concat]
      refine ⟨fun hmem => hcut ?_, h.distinct⟩
      exact (h.isCut_iff _).2 (List.mem_map.1 hmem)
    · simp [Draft.noted, h.gate]
    · have hsplits := h.splits
      simp only [Overlay.cutSerials, vertices_withCut, List.filterMap_append,
        List.map_append] at hsplits ⊢
      rw [hsplits]
      rfl
    · have hparts := h.parts
      simp only [Overlay.partNumbers, edges_withCut, List.filterMap_append, List.map_append,
        hhalf] at hparts ⊢
      rw [hparts]
      rfl
  exact hcutIn.connectGuest guest _ _

theorem linkOne (h : Records g d es) (hsound : Sound g) (settings : Settings) {guest : Guest α}
    (hend : guest.role.isSearchEnd = true) {number : Nat} {e : Edge α}
    (hedge : g.edge? number = some e) :
    ∃ es', Records g (linkOne settings g guest d number).state es' := by
  rcases linkOne_cases hsound hedge settings guest d with
    ⟨v, x, -, -, -, hstep⟩ | ⟨location, halves, -, -, rfl, hstep⟩
  · rw [hstep]
    exact ⟨es, h.connectGuest guest _ _⟩
  · obtain ⟨hlive, rfl⟩ := hsound.edge?_eq_some_iff.1 hedge
    rw [hstep]
    split
    · exact ⟨es, h⟩
    · next hcut => exact ⟨_, h.cutAndConnect hend hlive hcut⟩

theorem attachAllIn (hsound : Sound g) (settings : Settings) {guest : Guest α}
    (hend : guest.role.isSearchEnd = true) {numbers : List Nat}
    (hlive : ∀ n ∈ numbers, ∃ e, g.edge? n = some e) (h : Records g d es) :
    ∃ es', Records g (attachAllIn settings g guest d numbers).state es' := by
  induction numbers generalizing d es with
  | nil => exact ⟨es, h⟩
  | cons number rest ih =>
    obtain ⟨e, hedge⟩ := hlive number List.mem_cons_self
    obtain ⟨es', hstep⟩ := h.linkOne hsound settings hend hedge
    rw [attachAllIn_cons]
    generalize Linking.linkOne settings g guest d number = outcome at hstep
    rcases outcome with ⟨_ | _, d'⟩
    · exact ⟨es', hstep⟩
    · exact ih (fun n hn => hlive n (List.mem_cons_of_mem _ hn)) hstep

theorem attachToStops (h : Records g d es) (settings : Settings) (guest : Guest α) :
    Records g (attachToStops settings g guest d).1 es := by
  simp only [Linking.attachToStops]
  generalize nearestStops g _ _ = stops
  induction stops generalizing d with
  | nil => exact h
  | cons stop rest ih => exact ih (h.connectGuest guest _ _)

theorem linkGuest (h : Records g d es) (hreached : Reached g) (settings : Settings)
    {guest : Guest α} (hend : guest.role.isSearchEnd = true) (mode : Mode) :
    ∃ es', Records g (linkGuest settings g guest mode d).state es' := by
  have hall := h.attachAllIn hreached.sound settings hend
    fun _ hn => hreached.exists_edge?_of_mem_targets settings guest.position mode hn
  unfold Linking.linkGuest
  unfold targets at hall
  split
  · rw [if_pos hend]
    exact ⟨es, h.attachToStops settings guest⟩
  · rw [Outcome.andThen_ok_state]
    exact hall

omit [Scalar α] in
theorem count_eq (h : Records g d es) (hsound : Sound g) {e : Edge α} (he : e ∈ g.edges) :
    d.overlay.cutSerials.count e.serial = (if d.isCut e.number then 1 else 0) ∧
      d.overlay.partNumbers.count e.number = if d.isCut e.number then 1 else 0 := by
  have hserials : (es.map (·.serial)).Nodup := by
    refine List.Nodup.map_on (fun a ha b hb hsame => ?_) (h.distinct.of_map _)
    exact hsound.serial_inj (h.live a ha) (h.live b hb) hsame
  have hmem {f : Edge α → Nat} (hinj : ∀ a ∈ es, f a = f e → a = e) :
      f e ∈ es.map f ↔ d.isCut e.number = true := by
    rw [h.isCut_iff, List.mem_map]
    constructor
    · rintro ⟨a, ha, hsame⟩
      exact ⟨a, ha, congrArg _ (hinj a ha hsame)⟩
    · rintro ⟨a, ha, hsame⟩
      exact ⟨a, ha, congrArg f (hsound.number_inj (h.live a ha) he hsame)⟩
  rw [h.splits, h.parts, hserials.count, h.distinct.count]
  constructor
  · exact if_congr (hmem fun a ha hsame => hsound.serial_inj (h.live a ha) he hsame) rfl rfl
  · exact if_congr (hmem fun a ha hsame => hsound.number_inj (h.live a ha) he hsame) rfl rfl

omit [Scalar α] in
theorem isCut_iff_cutSerials (h : Records g d es) (hsound : Sound g) (n : Nat) :
    d.isCut n = true ↔ ∃ e ∈ g.edges, e.number = n ∧ e.serial ∈ d.overlay.cutSerials := by
  rw [h.isCut_iff, h.splits]
  constructor
  · rintro ⟨e, he, hnumber⟩
    exact ⟨e, h.live e he, hnumber, List.mem_map_of_mem he⟩
  · rintro ⟨e, he, hnumber, hmem⟩
    obtain ⟨a, ha, hsame⟩ := List.mem_map.1 hmem
    obtain rfl := hsound.serial_inj (h.live a ha) he hsame
    exact ⟨a, ha, hnumber⟩

end Records

/-! ## Requests -/

namespace Request

def draft (r : Request α) : Draft α :=
  ⟨r.overlay, some r.gate⟩

def endVertex (position : Point α) (isDestination : Bool) : TempVertex α :=
  ⟨.searchEnd isDestination, endLabel isDestination, position⟩

def endGuest (r : Request α) (position : Point α) (isDestination : Bool) : Guest α :=
  ⟨nextVertex r.overlay, endRole isDestination, position⟩

omit [Scalar α] in
theorem isSearchEnd_endGuest (r : Request α) (position : Point α) (isDestination : Bool) :
    (r.endGuest position isDestination).role.isSearchEnd = true := by
  cases isDestination <;> rfl

def linkedEnd (settings : Settings) (g : Streets α) (r : Request α) (position : Point α)
    (isDestination : Bool) : Outcome (Draft α) Bool :=
  linkGuest settings g (r.endGuest position isDestination) (r.modes.linkingMode isDestination)
    { r.draft with overlay := (r.overlay.addVertex (endVertex position isDestination)).1 }

theorem linkEnd_eq (settings : Settings) (g : Streets α) (r : Request α) (position : Point α)
    (isDestination : Bool) :
    r.linkEnd settings g position isDestination =
      let linked := r.linkedEnd settings g position isDestination
      ⟨linked.answer.map (⟨nextVertex r.overlay, ·⟩),
        { r with overlay := linked.state.overlay, gate := linked.state.gate.getD r.gate }⟩ := rfl

end Request

/-- A call fails with the first of its nearest edges that it would cut although it is recorded. -/
theorem answer_linkEnd_eq_error_iff {g : Streets α} (hreached : Reached g) (settings : Settings)
    (r : Request α) (position : Point α) (isDestination : Bool) (fault : Fault) :
    (r.linkEnd settings g position isDestination).answer = .error fault ↔
      ∃ n, refusal? settings g position r.draft
          ((targets settings g position (r.modes.linkingMode isDestination)).map
            (·.item.number)) = some n ∧
        fault = .trivialPath n := by
  have hanswer := answer_linkGuest hreached settings
    (r.isSearchEnd_endGuest position isDestination) (r.modes.linkingMode isDestination)
    { r.draft with overlay := (r.overlay.addVertex (Request.endVertex position isDestination)).1 }
    fault
  refine Iff.trans ?_ hanswer
  change _ ↔ (r.linkedEnd settings g position isDestination).answer = .error fault
  rw [Request.linkEnd_eq]
  dsimp only
  generalize (r.linkedEnd settings g position isDestination).answer = answer
  cases answer <;> simp [Except.map]

theorem cuts_linkEnd {g : Streets α} (hreached : Reached g) (settings : Settings) (r : Request α)
    (position : Point α) (isDestination : Bool) {linked : LinkedEnd}
    (hok : (r.linkEnd settings g position isDestination).answer = .ok linked) :
    (r.linkEnd settings g position isDestination).state.gate.cuts =
      (((targets settings g position (r.modes.linkingMode isDestination)).map
        (·.item.number)).filter (cuts settings g position)).reverse ++ r.gate.cuts := by
  rw [Request.linkEnd_eq] at hok
  dsimp only at hok
  obtain ⟨flag, hflag⟩ : ∃ flag,
      (r.linkedEnd settings g position isDestination).answer = .ok flag := by
    cases hanswer : (r.linkedEnd settings g position isDestination).answer with
    | error fault =>
      rw [hanswer] at hok
      cases hok
    | ok flag => exact ⟨flag, rfl⟩
  have hgate := gate_linkGuest hreached settings (r.endGuest position isDestination)
    (r.modes.linkingMode isDestination) hflag
  exact congrArg (fun gate => (Option.getD gate r.gate).cuts) hgate

section Start

variable {g : Streets α} (hreached : Reached g) (settings : Settings) (modes : RequestModes)
  (id : OverlayId) (position : Point α) (isDestination : Bool)

include hreached

theorem exists_answer_linkEnd_start :
    ∃ linked, ((Request.start modes id : Request α).linkEnd settings g position
      isDestination).answer = .ok linked := by
  cases hanswer : ((Request.start modes id : Request α).linkEnd settings g position
      isDestination).answer with
  | ok linked => exact ⟨linked, rfl⟩
  | error fault =>
    obtain ⟨n, hn, -⟩ := (answer_linkEnd_eq_error_iff hreached settings _ position
      isDestination fault).1 hanswer
    obtain ⟨_, -, -, hcut⟩ := (exists_refusal?_iff settings g position _ _).1 ⟨n, hn⟩
    cases hcut

theorem isCut_linkEnd_start (n : Nat) :
    ((Request.start modes id : Request α).linkEnd settings g position
        isDestination).state.gate.isCut n = true ↔
      n ∈ (targets settings g position (modes.linkingMode isDestination)).map
        (·.item.number) ∧ cuts settings g position n = true := by
  obtain ⟨linked, hok⟩ :=
    exists_answer_linkEnd_start hreached settings modes id position isDestination
  have hcuts := cuts_linkEnd hreached settings _ position isDestination hok
  have hempty : (Request.start modes id : Request α).gate.cuts = [] := rfl
  rw [hempty, List.append_nil] at hcuts
  rw [Gate.isCut, hcuts, List.contains_iff_mem, List.mem_reverse, List.mem_filter]
  rfl

end Start

theorem exists_records_linkEnd {g : Streets α} (hreached : Reached g) {r : Request α}
    {es : List (Edge α)} (h : Records g r.draft es) (settings : Settings) (position : Point α)
    (isDestination : Bool) :
    ∃ es', Records g (r.linkEnd settings g position isDestination).state.draft es' := by
  obtain ⟨es', hlinked⟩ := (h.addVertex
    (rfl : (Request.endVertex position isDestination).kind.splitParent? = none)).linkGuest hreached
      settings (r.isSearchEnd_endGuest position isDestination) (r.modes.linkingMode isDestination)
  refine ⟨es', hlinked.live, hlinked.distinct, ?_, hlinked.splits, hlinked.parts⟩
  have hgate := congrArg (Option.getD · r.gate) hlinked.gate
  exact congrArg some hgate

theorem exists_records_linkEnds {g : Streets α} (hreached : Reached g) {r : Request α}
    {es : List (Edge α)} (h : Records g r.draft es) (calls : List (EndCall α)) :
    ∃ es', Records g (linkEnds g r calls).draft es' := by
  induction calls generalizing r es with
  | nil => exact ⟨es, h⟩
  | cons c rest ih =>
    obtain ⟨es', hnext⟩ := exists_records_linkEnd hreached h c.settings c.position c.isDestination
    exact ih hnext

omit [Scalar α] in
theorem records_start (g : Streets α) (modes : RequestModes) (id : OverlayId) :
    Records g (Request.start modes id : Request α).draft [] :=
  ⟨by simp, List.nodup_nil, rfl, rfl, rfl⟩

/-- After any calls, whether they failed or not, a further call fails just if one of its nearest
edges would be cut although the gate has recorded it, with the first such edge. The gate has then
recorded just the edges that the overlay cuts, each with one vertex and one part. -/
theorem refuses_exactly (events : List (Event α)) (modes : RequestModes) (id : OverlayId)
    (calls : List (EndCall α)) (call : EndCall α) :
    let g := run .empty events
    let r := linkEnds g (.start modes id) calls
    let linked := r.linkEnd call.settings g call.position call.isDestination
    let wanted := targets call.settings g call.position (r.modes.linkingMode call.isDestination)
    let refused := fun n => cuts call.settings g call.position n && r.gate.isCut n
    (∀ fault, linked.answer = .error fault ↔
      ∃ n, (wanted.map (·.item.number)).find? refused = some n ∧ fault = .trivialPath n) ∧
    (∀ n, linked.state.gate.isCut n = true ↔
      ∃ e ∈ g.edges, e.number = n ∧ e.serial ∈ linked.state.overlay.cutSerials) ∧
    ∀ e ∈ g.edges,
      let times := if linked.state.gate.isCut e.number then 1 else 0
      linked.state.overlay.cutSerials.count e.serial = times ∧
        linked.state.overlay.partNumbers.count e.number = times := by
  intro g r linked wanted refused
  have hreached : Reached g := reached_run events
  obtain ⟨es, hrecords⟩ := exists_records_linkEnds hreached (records_start g modes id) calls
  obtain ⟨es', hlinked⟩ := exists_records_linkEnd hreached hrecords call.settings call.position
    call.isDestination
  exact ⟨answer_linkEnd_eq_error_iff hreached call.settings r call.position call.isDestination,
    hlinked.isCut_iff_cutSerials hreached.sound,
    fun e he => hlinked.count_eq hreached.sound he⟩

/-! ## Two ends on one street -/

/-- A street along the meridian of zero, a rental station half way along it, and a stop beyond its
end. -/
def meridianAdditions : List (Addition Float) :=
  [.intersection ⟨0.0, 0.0⟩ none, .intersection ⟨0.0, 1.0⟩ none,
    .street 0 1 none .all "Meridian", .stop "A" "Stop" ⟨0.0, 3.0⟩ false,
    .bikeRental "B" "Station" ⟨0.0, 0.5⟩]

def meridian : List (Event Float) :=
  meridianAdditions.map .add

def meridianEdge : Edge Float :=
  { EdgeData.measured .street [⟨0.0, 0.0⟩, ⟨0.0, 1.0⟩] .all "Meridian" false with
      number := 0, serial := 1, source := 0, target := 1 }

theorem edge?_meridian : (run .empty meridian).edge? 0 = some meridianEdge := rfl

def OnMeridian (p : Point Float) : Prop :=
  p = ⟨0.0, 0.0⟩ ∨ p = ⟨0.0, 0.25⟩ ∨ p = ⟨0.0, 0.5⟩

theorem candidates_meridian {p : Point Float} (hp : OnMeridian p) (frame : Frame Float) :
    candidates (run .empty meridian)
      { Search.within p ⟨1.0⟩ 0.0 with frame := frame } .walk = [meridianEdge] := by
  have hentries : (run .empty meridian).entriesIn (Search.within p ⟨1.0⟩ 0.0).box =
      [⟨0, 1, ⟨0.0, 0.0, 0.0, 1.0⟩⟩] := by
    rcases hp with rfl | rfl | rfl <;> decide
  rw [candidates, hentries, attachedTo_eq]
  rfl

/-- Seen from the street, all of it lies on the meridian, so the scale of longitudes does not
matter. -/
theorem place_meridian {p : Point Float} (hp : OnMeridian p) :
    (Frame.around p).distanceToLine p meridianEdge.line = 0.0 ∧
      (Frame.around p).locate p meridianEdge.line = ⟨0, p.y⟩ := by
  have hline : meridianEdge.line = [⟨0.0, 0.0⟩, ⟨0.0, 1.0⟩] := rfl
  have hx : p.x = 0.0 := by rcases hp with rfl | rfl | rfl <;> rfl
  rw [hline]
  simp only [Frame.distanceToLine, Frame.segmentDistances, Frame.locate, segments_cons_cons,
    segments_singleton, List.map_cons, List.map_nil, project_around_of_meridian, hx]
  rcases hp with rfl | rfl | rfl <;> decide +kernel

theorem targets_meridian {p : Point Float} (hp : OnMeridian p) :
    targets onTheSpot (run .empty meridian) p .walk = [⟨meridianEdge, 0.0⟩] := by
  have hdefined : Scalar.isUndefined (0.0 : Float) = false := by decide
  have hwithin : (0.0 : Float) ≤ 0.0 := by decide
  rw [targets, nearestEdges, search_onTheSpot, candidates_meridian hp]
  simp only [Search.within, nearest, rank, measured, List.map_cons, List.map_nil,
    (place_meridian hp).1]
  simp [hdefined, hwithin, chain, chainAfter, withinRadius]

theorem targets_beyond_meridian :
    targets onTheSpot (run .empty meridian) ⟨0.0, 3.0⟩ .walk = [] := by
  have hentries :
      (run .empty meridian).entriesIn (Search.within ⟨0.0, 3.0⟩ ⟨1.0⟩ 0.0).box = [] := by decide
  have hcandidates (frame : Frame Float) : candidates (run .empty meridian)
      { Search.within ⟨0.0, 3.0⟩ ⟨1.0⟩ 0.0 with frame := frame } .walk = [] := by
    rw [candidates, hentries]
    rfl
  rw [targets, nearestEdges, search_onTheSpot, hcandidates]
  simp [nearest, rank, measured, withinRadius]

theorem cuts_meridian {p : Point Float} (hp : OnMeridian p) :
    cuts onTheSpot (run .empty meridian) p 0 = decide (p ≠ ⟨0.0, 0.0⟩) := by
  simp only [cuts, plan, edge?_meridian, (place_meridian hp).2]
  rcases hp with rfl | rfl | rfl
  · rw [if_pos (by decide)]
    decide
  · rw [if_neg (by decide), if_neg (by decide)]
    decide
  · rw [if_neg (by decide), if_neg (by decide)]
    decide

theorem isCut_linkEnd_meridian {p : Point Float} (hp : OnMeridian p) (isDestination : Bool)
    (n : Nat) :
    ((Request.start (.only .walk) ⟨0, 0⟩ : Request Float).linkEnd onTheSpot (run .empty meridian) p
      isDestination).state.gate.isCut n = true ↔ n = 0 ∧ p ≠ ⟨0.0, 0.0⟩ := by
  have hmode : (RequestModes.only .walk).linkingMode isDestination = .walk := by
    cases isDestination <;> rfl
  rw [isCut_linkEnd_start (reached_run meridian), hmode, targets_meridian hp]
  have hnumber : n ∈ [(⟨meridianEdge, 0.0⟩ : Ranked Float (Edge Float))].map (·.item.number) ↔
      n = 0 := List.mem_singleton
  rw [hnumber]
  refine and_congr_right fun hn => ?_
  rw [hn, cuts_meridian hp, decide_eq_true_iff]

def onMeridian (position : Point Float) (isDestination : Bool) : EndCall Float :=
  ⟨onTheSpot, position, isDestination⟩

theorem refuses_exactly_on_the_meridian :
    let g := run .empty meridian
    let r := linkEnds g (.start (.only .walk) ⟨0, 0⟩) [onMeridian ⟨0.0, 0.5⟩ false]
    (meridianEdge ∈ g.edges ∧ r.gate.isCut 0 = true ∧
      r.overlay.cutSerials.count 1 = 1 ∧ r.overlay.partNumbers.count 0 = 1) ∧
    (r.linkEnd onTheSpot g ⟨0.0, 0.25⟩ true).answer = .error (.trivialPath 0) := by
  intro g r
  have hreached : Reached g := reached_run meridian
  have hmem : meridianEdge ∈ g.edges := (hreached.sound.edge?_eq_some_iff.1 edge?_meridian).1
  obtain ⟨-, -, hcount⟩ := refuses_exactly meridian (.only .walk) ⟨0, 0⟩ []
    (onMeridian ⟨0.0, 0.5⟩ false)
  obtain ⟨hsecond, -, -⟩ := refuses_exactly meridian (.only .walk) ⟨0, 0⟩
    [onMeridian ⟨0.0, 0.5⟩ false] (onMeridian ⟨0.0, 0.25⟩ true)
  have hcut : r.gate.isCut 0 = true :=
    (isCut_linkEnd_meridian (Or.inr (Or.inr rfl)) false 0).2 ⟨rfl, by decide⟩
  have hcounts : r.overlay.cutSerials.count 1 = (if r.gate.isCut 0 = true then 1 else 0) ∧
      r.overlay.partNumbers.count 0 = (if r.gate.isCut 0 = true then 1 else 0) :=
    hcount meridianEdge hmem
  rw [if_pos hcut] at hcounts
  have htargets : targets onTheSpot g ⟨0.0, 0.25⟩ (r.modes.linkingMode true) =
      [⟨meridianEdge, 0.0⟩] := targets_meridian (Or.inr (Or.inl rfl))
  have hcutsEdge : cuts onTheSpot g ⟨0.0, 0.25⟩ 0 = true :=
    (cuts_meridian (Or.inr (Or.inl rfl))).trans (by decide)
  have hrefused : ((targets onTheSpot g ⟨0.0, 0.25⟩ (r.modes.linkingMode true)).map
      (·.item.number)).find? (fun n => cuts onTheSpot g ⟨0.0, 0.25⟩ n && r.gate.isCut n) =
        some 0 := by
    rw [htargets]
    exact List.find?_cons_of_pos (Bool.and_eq_true_iff.2 ⟨hcutsEdge, hcut⟩)
  exact ⟨⟨hmem, hcut, hcounts⟩, (hsecond _).2 ⟨0, hrefused, rfl⟩⟩

end StreetLinking.Linking
