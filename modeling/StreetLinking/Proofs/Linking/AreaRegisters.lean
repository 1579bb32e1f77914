import Mathlib.Data.List.Induction
import StreetLinking.Proofs.Linking.GraphSteps
/-!
# Area registers

An area lists the vertices on its border and the numbers of its edges, and numbers are given again
once their edges are gone. Main statement: after any history an area lists each of its live edges
once and nothing else, its edges end at vertices that it lists, and these are the corners of its ring
followed by the vertices at which its edges have been split, in that order.
-/

namespace StreetLinking.Linking

open Number Plane Street Streets

variable {α : Type} [Scalar α]

/-! ## Splits of an area -/

def areaSplit (id : Nat) (g : Streets α) : Change α → List Nat
  | .split number location =>
    match (split g number location).answer, (g.edge? number).bind (·.kind.area?) with
    | .ok v, some area => if area = id then [v] else []
    | _, _ => []
  | _ => []

/-- The vertices at which changes split edges of an area, in the order in which they are made. -/
def areaSplits (id : Nat) : Streets α → List (Change α) → List Nat
  | _, [] => []
  | g, c :: rest => areaSplit id g c ++ areaSplits id (c.apply g) rest

theorem areaSplits_concat (id : Nat) (g : Streets α) (changes : List (Change α)) (c : Change α) :
    areaSplits id g (changes ++ [c]) =
      areaSplits id g changes ++ areaSplit id (replay g changes) c := by
  induction changes generalizing g with
  | nil => simp [areaSplits]
  | cons d rest ih => simp only [List.cons_append, areaSplits, ih, replay_cons, List.append_assoc]

theorem areaSplit_of_halve {g : Streets α} {number : Nat} {location : Location α} {h : Halves α}
    (hh : halve g number location = .ok h) (id : Nat) :
    areaSplit id g (.split number location) =
      if h.parent.kind = .area id then [g.vertices.size] else [] := by
  have hedge := (halve_eq_ok hh).1
  have hanswer : (split g number location).answer = .ok g.vertices.size :=
    congrArg Outcome.answer (split_of_halve hh)
  simp only [areaSplit, hanswer, hedge, Option.bind_some]
  cases h.parent.kind <;> simp [EdgeKind.area?]

/-! ## What a change does to the areas -/

def areaNumbers (id : Nat) (edges : List (Edge α)) : List Nat :=
  (edges.filter (·.kind == .area id)).map (·.number)

structure Spares (c : Change α) (g g' : Streets α) : Prop where
  areas : g'.areas = g.areas
  edges : ∃ new, g'.edges = new ++ g.edges ∧ ∀ e ∈ new, e.kind.area? = none
  splits : ∀ id, areaSplit id g c = []

structure Opens (name : String) (ring : List Nat) (new : List (Edge α)) (g g' : Streets α) :
    Prop where
  areas : g'.areas = g.areas ++ [⟨name, ring, new.reverse.map (·.number)⟩]
  edges : g'.edges = new ++ g.edges
  kind : ∀ e ∈ new, e.kind = .area g.areas.length
  ends : ∀ e ∈ new, e.source ∈ ring ∧ e.target ∈ ring

structure Cleaves (c : Change α) (h : Halves α) (first second : Edge α) (g g' : Streets α) : Prop
    extends Splits h first second g g' where
  areas : g'.areas = match h.parent.kind.area? with
    | some area =>
      (g.replaceInArea area g.vertices.size h.parent.number first.number second.number).areas
    | none => g.areas
  halves : first.kind = h.parent.kind ∧ second.kind = h.parent.kind
  splits : ∀ id, areaSplit id g c = if h.parent.kind = .area id then [g.vertices.size] else []

theorem spares_of_frame {c : Change α} {g g' : Streets α} (hareas : g'.areas = g.areas)
    (hedges : g'.edges = g.edges) (hsplits : ∀ id, areaSplit id g c = []) : Spares c g g' :=
  ⟨hareas, ⟨[], by rw [hedges]; rfl, by simp⟩, hsplits⟩

theorem spares_of_insertAll {c : Change α} {g : Streets α} {es : List (Nat × Nat × EdgeData α)}
    (hes : ∀ e ∈ es, e.2.2.kind.area? = none) (hsplits : ∀ id, areaSplit id g c = []) :
    Spares c g (insertAll g es).1 := by
  obtain ⟨new, hgrows, hplaces, -⟩ := exists_grows_insertAll g es
  obtain ⟨_, _, _, _, hframe⟩ := insertAll_frame g es
  refine ⟨by rw [hframe], ⟨new, hgrows.edges, fun e he => ?_⟩, hsplits⟩
  have hplace : e.place ∈ es := hplaces ▸ List.mem_map_of_mem (List.mem_reverse.2 he)
  exact hes _ hplace

theorem spares_of_insertIndexed {c : Change α} {g : Streets α}
    {es : List (Nat × Nat × EdgeData α)} (hes : ∀ e ∈ es, e.2.2.kind.area? = none)
    (hsplits : ∀ id, areaSplit id g c = []) : Spares c g (insertIndexed g es) := by
  obtain ⟨hareas, hedges, -⟩ := spares_of_insertAll hes hsplits
  obtain ⟨_, hindex, -⟩ := indexAll_frame (insertAll g es).1 (insertAll g es).2
  rw [insertIndexed, hindex]
  exact ⟨hareas, hedges, hsplits⟩

theorem Addition.spares_or_opens {g : Streets α} (hsound : Sound g) (a : Addition α) :
    Spares (.add a) g (a.perform g) ∨ ∃ name ring permission new,
      a = .area name ring permission ∧
        (g.addArea name ring permission).answer = .ok g.areas.length ∧
        Opens name ring new g (a.perform g) := by
  have hnone (id : Nat) : areaSplit id g (.add a) = [] := rfl
  have hsame : a.perform g = g → Spares (.add a) g (a.perform g) := fun heq =>
    heq.symm ▸ spares_of_frame rfl rfl hnone
  cases a with
  | intersection position osmId => exact Or.inl (spares_of_frame rfl rfl hnone)
  | stop id name position wheelchair => exact Or.inl (spares_of_frame rfl rfl hnone)
  | bikeRental id name position => exact Or.inl (spares_of_frame rfl rfl hnone)
  | bikePark id name position => exact Or.inl (spares_of_frame rfl rfl hnone)
  | street source target line permission name =>
    refine Or.inl ?_
    rcases addStreet_state g source target line permission name with heq | ⟨line, -, heq⟩
    · exact hsame heq
    · rw [Addition.perform, heq]
      exact spares_of_insertIndexed (by simp [EdgeData.measured, EdgeKind.area?]) hnone
  | twoWayStreet source target line permission name =>
    refine Or.inl ?_
    rcases addTwoWayStreet_state g source target line permission name with heq | ⟨line, -, heq⟩
    · exact hsame heq
    · rw [Addition.perform, heq]
      exact spares_of_insertIndexed (by simp [EdgeData.measured, EdgeKind.area?]) hnone
  | area name ring permission =>
    rcases addArea_cases g name ring permission with ⟨fault, heq⟩ | ⟨corners, hcorners, heq⟩
    · exact Or.inl (hsame (congrArg Outcome.state heq))
    · have hfits : ∀ c ∈ sideEdges g.areas.length permission name (sides corners), Fits g c :=
        fun c hc => (fits_of_mem_sideEdges hcorners hc).1
      obtain ⟨new, hgrows, hplaces, hnumbers⟩ := hsound.exists_grows_insertIndexed hfits
      refine Or.inr ⟨name, ring, permission, new, rfl, by rw [heq]; rfl, ?_⟩
      rw [Addition.perform, heq]
      have hplace (e : Edge α) (he : e ∈ new) :
          e.place ∈ sideEdges g.areas.length permission name (sides corners) :=
        hplaces ▸ List.mem_map_of_mem (List.mem_reverse.2 he)
      refine ⟨by rw [hnumbers]; rfl, hgrows.edges, fun e he => ?_, fun e he => ?_⟩
      · exact (fits_of_mem_sideEdges hcorners (hplace e he)).2
      · exact ends_of_mem_sideEdges hcorners (hplace e he)

theorem cleaves_split {g : Streets α} (hsound : Sound g) {number : Nat} {location : Location α}
    {h : Halves α} (hh : halve g number location = .ok h) :
    ∃ first second, Cleaves (.split number location) h first second g
      (split g number location).state := by
  obtain ⟨-, first, second, hsplits, -, -, hareas⟩ := exists_splits hsound hh
  obtain ⟨-, l₁, l₂, m, n, hfirst, hsecond, -⟩ := halve_eq_ok hh
  refine ⟨first, second, hsplits, hareas, ⟨?_, ?_⟩, areaSplit_of_halve hh⟩
  · have hplace := congrArg (fun c => c.2.2.kind) hsplits.first_place
    rwa [hfirst] at hplace
  · have hplace := congrArg (fun c => c.2.2.kind) hsplits.second_place
    rwa [hsecond] at hplace

theorem spares_connect (g : Streets α) (entity street : Nat) (role : Role) :
    Spares (.connect entity street role) g (connect g entity street role).1 := by
  unfold connect
  split
  · next a b _ _ =>
    obtain ⟨es, hes, heq⟩ := foldl_connectUnless (· == .connector role.connector.kind)
      (connectors (entity, a) (street, b) role) (g, 0)
    rw [heq]
    refine spares_of_insertAll (fun c hc => ?_) fun _ => rfl
    rw [(kind_of_mem_connectors (hes c hc)).1]
    rfl
  · exact spares_of_frame rfl rfl fun _ => rfl

theorem spares_cross (g : Streets α) (vertex area : Nat) :
    Spares (.cross vertex area) g (crossArea g vertex area).1 := by
  unfold crossArea
  split
  · dsimp only
    rw [foldl_insertEdge]
    refine spares_of_insertAll (fun c hc => ?_) fun _ => rfl
    rw [kind_of_mem_crossings hc]
    rfl
  · exact spares_of_frame rfl rfl fun _ => rfl

theorem Change.area_cases {g : Streets α} (hsound : Sound g) (c : Change α) :
    Spares c g (c.apply g) ∨
      (∃ name ring permission new, c = .add (.area name ring permission) ∧
        (g.addArea name ring permission).answer = .ok g.areas.length ∧
        Opens name ring new g (c.apply g)) ∨
      ∃ h first second, Cleaves c h first second g (c.apply g) := by
  cases c with
  | add addition =>
    refine (addition.spares_or_opens hsound).imp_right fun ⟨name, ring, permission, new, h⟩ => ?_
    obtain ⟨rfl, hanswer, hopens⟩ := h
    exact Or.inl ⟨name, ring, permission, new, rfl, hanswer, hopens⟩
  | annotate note => exact Or.inl (spares_of_frame rfl rfl fun _ => rfl)
  | split number location =>
    cases hh : halve g number location with
    | error fault =>
      refine Or.inl (spares_of_frame ?_ ?_ fun id => ?_)
      · rw [Change.apply, split_state_of_error hh]
      · rw [Change.apply, split_state_of_error hh]
      · simp only [areaSplit, Linking.split, hh, Outcome.fail]
    | ok h =>
      obtain ⟨first, second, hcleaves⟩ := cleaves_split hsound hh
      exact Or.inr (Or.inr ⟨h, first, second, hcleaves⟩)
  | connect entity street role => exact Or.inl (spares_connect g entity street role)
  | cross vertex area => exact Or.inl (spares_cross g vertex area)

/-! ## Exact registers -/

/-- Every area lists its live edges once each, and the ends of its edges. -/
structure Registered (g : Streets α) : Prop where
  edges : ∀ (id : Nat) (a : Area), g.areas[id]? = some a → a.edges.Perm (areaNumbers id g.edges)
  ends : ∀ e ∈ g.edges, ∀ id, e.kind = .area id →
    ∃ a, g.areas[id]? = some a ∧ e.source ∈ a.vertices ∧ e.target ∈ a.vertices

omit [Scalar α] in
theorem areaNumbers_append (id : Nat) (new edges : List (Edge α)) :
    areaNumbers id (new ++ edges) = areaNumbers id new ++ areaNumbers id edges := by
  simp only [areaNumbers, List.filter_append, List.map_append]

omit [Scalar α] in
theorem areaNumbers_eq_nil {id : Nat} {edges : List (Edge α)}
    (h : ∀ e ∈ edges, e.kind ≠ .area id) : areaNumbers id edges = [] := by
  simpa [areaNumbers, List.filter_eq_nil_iff] using h

omit [Scalar α] in
theorem areaNumbers_eq_map {id : Nat} {edges : List (Edge α)}
    (h : ∀ e ∈ edges, e.kind = .area id) : areaNumbers id edges = edges.map (·.number) := by
  rw [areaNumbers, List.filter_eq_self.2 fun e he => by simp [h e he]]

omit [Scalar α] in
theorem areaNumbers_filter (id n : Nat) (edges : List (Edge α)) :
    areaNumbers id (edges.filter (·.number != n)) = (areaNumbers id edges).filter (· != n) := by
  simp only [areaNumbers, List.filter_map, List.filter_filter, Function.comp_def]
  congr 2
  funext e
  exact Bool.and_comm _ _

theorem Cleaves.getElem?_areas {c : Change α} {h : Halves α} {first second : Edge α}
    {g g' : Streets α} (hc : Cleaves c h first second g g') (id : Nat) :
    g'.areas[id]? = g.areas[id]?.map fun a =>
      if h.parent.kind = .area id then
        { a with
            vertices := a.vertices ++ [g.vertices.size]
            edges := a.edges.filter (· != h.parent.number) ++ [first.number, second.number] }
      else a := by
  rw [hc.areas]
  cases hkind : h.parent.kind with
  | street => simp [EdgeKind.area?]
  | connector kind => simp [EdgeKind.area?]
  | area i =>
    simp only [EdgeKind.area?, replaceInArea, List.getElem?_modify, EdgeKind.area.injEq,
      Option.map_eq_map]

namespace Registered

variable {g g' : Streets α}

theorem spare (h : Registered g) {c : Change α} (hs : Spares c g g') : Registered g' := by
  obtain ⟨new, hedges, hnew⟩ := hs.edges
  constructor
  · intro id a ha
    rw [hs.areas] at ha
    rw [hedges, areaNumbers_append, areaNumbers_eq_nil, List.nil_append]
    · exact h.edges id a ha
    · intro e he hkind
      have hnone := hnew e he
      rw [hkind] at hnone
      cases hnone
  · intro e he id hkind
    rw [hs.areas]
    rw [hedges] at he
    rcases List.mem_append.1 he with he | he
    · have hnone := hnew e he
      rw [hkind] at hnone
      cases hnone
    · exact h.ends e he id hkind

omit [Scalar α] in
theorem lt_of_kind (h : Registered g) {e : Edge α} (he : e ∈ g.edges) {id : Nat}
    (hkind : e.kind = .area id) : id < g.areas.length := by
  obtain ⟨a, ha, -⟩ := h.ends e he id hkind
  exact (List.getElem?_eq_some_iff.1 ha).1

omit [Scalar α] in
theorem opened (h : Registered g) {name : String} {ring : List Nat} {new : List (Edge α)}
    (hopens : Opens name ring new g g') : Registered g' := by
  constructor
  · intro id a ha
    rw [hopens.areas] at ha
    rw [hopens.edges, areaNumbers_append]
    by_cases hlt : id < g.areas.length
    · rw [List.getElem?_append_left hlt] at ha
      rw [areaNumbers_eq_nil, List.nil_append]
      · exact h.edges id a ha
      · intro e he hkind
        rw [hopens.kind e he, EdgeKind.area.injEq] at hkind
        omega
    · rw [List.getElem?_append_right (Nat.not_lt.1 hlt)] at ha
      obtain ⟨hid, rfl⟩ : id = g.areas.length ∧ ⟨name, ring, new.reverse.map (·.number)⟩ = a := by
        rw [List.getElem?_singleton] at ha
        split at ha
        · exact ⟨by omega, Option.some.inj ha⟩
        · cases ha
      subst hid
      rw [areaNumbers_eq_map hopens.kind, areaNumbers_eq_nil, List.append_nil]
      · exact new.reverse_perm.map _
      · exact fun e he hkind => Nat.lt_irrefl _ (h.lt_of_kind he hkind)
  · intro e he id hkind
    rw [hopens.areas]
    rw [hopens.edges] at he
    rcases List.mem_append.1 he with he | he
    · have hid : id = g.areas.length := by simpa [hkind] using hopens.kind e he
      subst hid
      exact ⟨_, List.getElem?_concat_length, hopens.ends e he⟩
    · obtain ⟨a, ha, hends⟩ := h.ends e he id hkind
      exact ⟨a, (List.getElem?_append_left (h.lt_of_kind he hkind)).trans ha, hends⟩

theorem cleaved (hsound : Sound g) (h : Registered g) {c : Change α} {halves : Halves α}
    {first second : Edge α} (hc : Cleaves c halves first second g g') : Registered g' := by
  obtain ⟨hfirst, hsecond⟩ := hc.halves
  constructor
  · intro id a' ha'
    rw [hc.getElem?_areas, Option.map_eq_some_iff] at ha'
    obtain ⟨a, ha, rfl⟩ := ha'
    have hlisted := h.edges id a ha
    have hnumbers : areaNumbers id g'.edges = areaNumbers id [second, first] ++
        (areaNumbers id g.edges).filter (· != halves.parent.number) := by
      rw [hc.edges, ← areaNumbers_filter]
      exact areaNumbers_append id [second, first] _
    rw [hnumbers]
    by_cases hkind : halves.parent.kind = .area id
    · rw [if_pos hkind, areaNumbers_eq_map (by simp [hfirst, hsecond, hkind])]
      have hkept := hlisted.filter (· != halves.parent.number)
      have hnew := List.Perm.swap second.number first.number []
      exact List.perm_append_comm.trans (hnew.append hkept)
    · -- no edge of another area has the number of the one that is split
      have hother : ∀ n ∈ areaNumbers id g.edges, (n != halves.parent.number) = true := by
        intro n hn
        obtain ⟨e, he, rfl⟩ := List.mem_map.1 hn
        obtain ⟨he, hekind⟩ := List.mem_filter.1 he
        refine bne_iff_ne.2 fun hsame => hkind ?_
        rw [← hsound.number_inj he hc.parent_mem hsame]
        exact beq_iff_eq.1 hekind
      rw [if_neg hkind, areaNumbers_eq_nil (by simp [hfirst, hsecond, hkind]), List.nil_append,
        List.filter_eq_self.2 hother]
      exact hlisted
  · intro e he id hkind
    -- registers only gain vertices, and that of the edge gains the new one
    have hgrown : ∀ a, g.areas[id]? = some a → ∃ a', g'.areas[id]? = some a' ∧
        (∀ v ∈ a.vertices, v ∈ a'.vertices) ∧
        (halves.parent.kind = .area id → g.vertices.size ∈ a'.vertices) := by
      intro a ha
      refine ⟨_, by rw [hc.getElem?_areas, ha, Option.map_some], ?_⟩
      split
      · next hparent => simpa [hparent] using fun v hv => Or.inl hv
      · next hparent => exact ⟨fun v hv => hv, fun habs => absurd habs hparent⟩
    have hplace₁ := hc.first_place
    have hplace₂ := hc.second_place
    simp only [Edge.place, Prod.mk.injEq] at hplace₁ hplace₂
    rw [hc.edges] at he
    rcases List.mem_cons.1 he with rfl | he
    · have hparent := hsecond.symm.trans hkind
      obtain ⟨a, ha, -, htarget⟩ := h.ends _ hc.parent_mem id hparent
      obtain ⟨a', ha', hkept, hnew⟩ := hgrown a ha
      exact ⟨a', ha', hplace₂.1 ▸ hnew hparent, hplace₂.2.1 ▸ hkept _ htarget⟩
    · rcases List.mem_cons.1 he with rfl | he
      · have hparent := hfirst.symm.trans hkind
        obtain ⟨a, ha, hsource, -⟩ := h.ends _ hc.parent_mem id hparent
        obtain ⟨a', ha', hkept, hnew⟩ := hgrown a ha
        exact ⟨a', ha', hplace₁.1 ▸ hkept _ hsource, hplace₁.2.1 ▸ hnew hparent⟩
      · obtain ⟨a, ha, hsource, htarget⟩ := h.ends e (List.mem_filter.1 he).1 id hkind
        obtain ⟨a', ha', hkept, -⟩ := hgrown a ha
        exact ⟨a', ha', hkept _ hsource, hkept _ htarget⟩

theorem apply (hsound : Sound g) (h : Registered g) (c : Change α) : Registered (c.apply g) := by
  rcases c.area_cases hsound with hs | ⟨_, _, _, _, -, -, hopens⟩ | ⟨_, _, _, hc⟩
  · exact h.spare hs
  · exact h.opened hopens
  · exact h.cleaved hsound hc

theorem replay (hsound : Sound g) (h : Registered g) (changes : List (Change α)) :
    Registered (replay g changes) := by
  induction changes generalizing g with
  | nil => exact h
  | cons c rest ih => exact ih (c.sound_apply hsound) (h.apply hsound c)

end Registered

omit [Scalar α] in
theorem registered_empty : Registered (.empty : Streets α) :=
  ⟨fun id a ha => by simp [Streets.empty] at ha, fun e he => by simp [Streets.empty] at he⟩

/-! ## Where the vertices of an area come from -/

/-- A change adds to the vertices of an area those at which it splits an edge of it; or it opens the
area with the corners of its ring. -/
theorem vertices_of_apply {g : Streets α} (hsound : Sound g) (c : Change α) {id : Nat} {a : Area}
    (ha : (c.apply g).areas[id]? = some a) :
    (∃ b, g.areas[id]? = some b ∧ a.name = b.name ∧
        a.vertices = b.vertices ++ areaSplit id g c) ∨
      ∃ permission, c = .add (.area a.name a.vertices permission) ∧
        (g.addArea a.name a.vertices permission).answer = .ok id ∧ id = g.areas.length := by
  rcases c.area_cases hsound with hs | ⟨name, ring, permission, new, rfl, hanswer, hopens⟩ |
    ⟨h, first, second, hc⟩
  · rw [hs.areas] at ha
    exact Or.inl ⟨a, ha, rfl, by rw [hs.splits, List.append_nil]⟩
  · rw [hopens.areas] at ha
    by_cases hlt : id < g.areas.length
    · rw [List.getElem?_append_left hlt] at ha
      exact Or.inl ⟨a, ha, rfl, (List.append_nil _).symm⟩
    · rw [List.getElem?_append_right (Nat.not_lt.1 hlt), List.getElem?_singleton] at ha
      split at ha
      · obtain rfl := Option.some.inj ha
        obtain rfl : id = g.areas.length := by omega
        exact Or.inr ⟨permission, rfl, hanswer, rfl⟩
      · cases ha
  · rw [hc.getElem?_areas, Option.map_eq_some_iff] at ha
    obtain ⟨b, hb, rfl⟩ := ha
    refine Or.inl ⟨b, hb, ?_⟩
    rw [hc.splits]
    split
    · exact ⟨rfl, rfl⟩
    · exact ⟨rfl, (List.append_nil _).symm⟩

theorem areaSplit_eq_nil {g : Streets α} (hsound : Sound g) (h : Registered g) (c : Change α)
    {id : Nat} (hid : g.areas.length ≤ id) : areaSplit id g c = [] := by
  rcases c.area_cases hsound with hs | ⟨_, _, _, _, rfl, -, -⟩ | ⟨halves, _, _, hc⟩
  · exact hs.splits id
  · rfl
  · rw [hc.splits, if_neg]
    intro hkind
    have hlt := h.lt_of_kind hc.parent_mem hkind
    omega

theorem length_areas_le {g : Streets α} (hsound : Sound g) (c : Change α) :
    g.areas.length ≤ (c.apply g).areas.length := by
  rcases c.area_cases hsound with hs | ⟨_, _, _, _, -, -, hopens⟩ | ⟨halves, _, _, hc⟩
  · exact Nat.le_of_eq (by rw [hs.areas])
  · simp [hopens.areas]
  · rw [hc.areas]
    cases halves.parent.kind.area? <;> simp [replaceInArea]

theorem areaSplits_eq_nil (changes : List (Change α)) {id : Nat}
    (hid : (replay .empty changes).areas.length ≤ id) :
    areaSplits id (.empty : Streets α) changes = [] := by
  induction changes using List.reverseRecOn with
  | nil => rfl
  | append_singleton before c ih =>
    have hsound := sound_replay (α := α) sound_empty before
    rw [replay_append, replay_cons, replay_nil] at hid
    have hbefore := Nat.le_trans (length_areas_le hsound c) hid
    rw [areaSplits_concat, ih hbefore,
      areaSplit_eq_nil hsound (registered_empty.replay sound_empty before) c hbefore,
      List.append_nil]

/-- The vertices of an area are the corners that it was opened with, and then those at which its
edges have been split. -/
theorem exists_ring (changes : List (Change α)) {id : Nat} {a : Area}
    (ha : (replay .empty changes).areas[id]? = some a) :
    ∃ before after ring permission,
      changes = before ++ .add (.area a.name ring permission) :: after ∧
        ((replay .empty before).addArea a.name ring permission).answer = .ok id ∧
        a.vertices = ring ++ areaSplits id .empty changes := by
  induction changes using List.reverseRecOn generalizing a with
  | nil => simp [Streets.empty] at ha
  | append_singleton before c ih =>
    have hsound := sound_replay (α := α) sound_empty before
    rw [replay_append, replay_cons, replay_nil] at ha
    rw [areaSplits_concat]
    rcases vertices_of_apply hsound c ha with ⟨b, hb, hname, hvertices⟩ |
      ⟨permission, rfl, hanswer, hid⟩
    · obtain ⟨earlier, after, ring, permission, rfl, hanswer, hring⟩ := ih hb
      refine ⟨earlier, after ++ [c], ring, permission, ?_, by rwa [hname], ?_⟩
      · rw [hname, List.append_assoc, List.cons_append]
      · rw [hvertices, hring, List.append_assoc]
    · refine ⟨before, [], a.vertices, permission, rfl, hanswer, ?_⟩
      rw [areaSplits_eq_nil before (Nat.le_of_eq hid.symm)]
      exact (List.append_nil _).symm

theorem split_of_mem_areaSplits {g : Streets α} (hsound : Sound g) (changes : List (Change α))
    {id v : Nat} (hv : v ∈ areaSplits id g changes) :
    ∃ x parent, (replay g changes).vertex? v = some x ∧ x.kind = .split parent := by
  induction changes generalizing g with
  | nil => cases hv
  | cons c rest ih =>
    rcases List.mem_append.1 hv with hv | hv
    · rcases c.area_cases hsound with hs | ⟨_, _, _, _, rfl, -, -⟩ | ⟨h, _, _, hc⟩
      · rw [hs.splits] at hv
        cases hv
      · cases hv
      · rw [hc.splits] at hv
        split at hv
        · obtain rfl := List.mem_singleton.1 hv
          have hnew : (c.apply g).vertex? g.vertices.size = some (splitVertex h) := by
            rw [Streets.vertex?, hc.vertices, Array.getElem?_push_size]
          exact ⟨_, _, vertex?_mono (vertices_replay (c.sound_apply hsound) rest) hnew, rfl⟩
        · cases hv
    · exact ih (c.sound_apply hsound) hv

/-- After any history every area lists each of its live edges once and no other number, and first
the corners of its ring and then the vertices at which its edges have been split, in the order of
their splits. Every edge of an area ends at vertices that the area lists. -/
theorem area_registers_exact (events : List (Event α)) :
    let g := run (.empty : Streets α) events
    let changes := changesOf (.empty : Streets α) events
    (∀ e ∈ g.edges, ∀ id, e.kind = .area id →
      ∃ a, g.areas[id]? = some a ∧ e.source ∈ a.vertices ∧ e.target ∈ a.vertices) ∧
    ∀ (id : Nat) (a : Area), g.areas[id]? = some a →
      a.edges.Nodup ∧
      (∀ n, n ∈ a.edges ↔ ∃ e, g.edge? n = some e ∧ e.kind = .area id) ∧
      (∃ before after ring permission,
        changes = before ++ .add (.area a.name ring permission) :: after ∧
          ((replay .empty before).addArea a.name ring permission).answer = .ok id ∧
          a.vertices = ring ++ areaSplits id .empty changes) ∧
      ∀ v ∈ areaSplits id .empty changes, ∃ x parent, g.vertex? v = some x ∧
        x.kind = .split parent := by
  intro g changes
  have hsound : Sound g := sound_run sound_empty events
  have hreplay : replay .empty changes = g := replay_changesOf _ events
  have hregistered : Registered g := hreplay ▸ registered_empty.replay sound_empty changes
  refine ⟨hregistered.ends, fun id a ha => ?_⟩
  have hlisted := hregistered.edges id a ha
  refine ⟨?_, fun n => ?_, exists_ring changes (hreplay ▸ ha), fun v hv => ?_⟩
  · have hnumbers := (List.nodup_append.1 hsound.numbers).1
    exact hlisted.nodup_iff.2 (hnumbers.sublist (List.filter_sublist.map _))
  · simp only [hlisted.mem_iff, areaNumbers, List.mem_map, List.mem_filter, beq_iff_eq,
      hsound.edge?_eq_some_iff]
    exact ⟨fun ⟨e, ⟨he, hkind⟩, hn⟩ => ⟨e, ⟨he, hn⟩, hkind⟩,
      fun ⟨e, ⟨he, hn⟩, hkind⟩ => ⟨e, ⟨he, hkind⟩, hn⟩⟩
  · rw [← hreplay]
    exact split_of_mem_areaSplits sound_empty changes hv

end StreetLinking.Linking
