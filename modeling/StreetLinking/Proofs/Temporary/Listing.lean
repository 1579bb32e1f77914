import Mathlib.Data.List.Nodup
import StreetLinking.Temporary.View
/-!
# Edges are listed at their ends

An overlay reads what leaves or enters a vertex from lists that were filled as edges were added. An
edge that is added between vertices which have lists is entered in both, and later additions leave
the lists of other edges alone. Main statement: an overlay that has grown in this way lists at every
vertex just the edges with an end there, in the order in which they were added.
-/

namespace StreetLinking.Temporary

open Street

variable {α : Type}

theorem Incidence.filterMap_namesAt {β : Type} (id : OverlayId) (edges : List β)
    (ends : β → VertexRef) (r : VertexRef) {edge? : LocalEdge → Option β}
    (hedge : ∀ n, edge? ⟨id, n⟩ = edges[n]?) :
    (namesAt id (edges.map ends) r).filterMap edge? = edges.filter (ends · == r) := by
  have hplaces : ∀ e ∈ edges.zipIdx.filter fun e => ends e.1 == r, edge? ⟨id, e.2⟩ = some e.1 := by
    intro e he
    rw [hedge, List.mem_zipIdx_iff_getElem?.1 (List.mem_filter.1 he).1]
  rw [namesAt, List.zipIdx_map, List.filter_map, List.map_map, List.filterMap_map]
  calc (edges.zipIdx.filter fun e => ends e.1 == r).filterMap (fun e => edge? ⟨id, e.2⟩)
    _ = (edges.zipIdx.filter fun e => ends e.1 == r).filterMap (some ∘ Prod.fst) :=
      List.filterMap_congr hplaces
    _ = (edges.zipIdx.map Prod.fst).filter (ends · == r) := by
      rw [List.filterMap_eq_map, List.filter_map]
      rfl
    _ = edges.filter (ends · == r) := by rw [List.zipIdx_map_fst]

theorem Incidence.mem_namesAt {id : OverlayId} {ends : List VertexRef} {r : VertexRef}
    {n : LocalEdge} : n ∈ namesAt id ends r ↔ n.overlay = id ∧ ends[n.position]? = some r := by
  simp only [namesAt, List.mem_map, List.mem_filter, beq_iff_eq, Prod.exists,
    List.mem_zipIdx_iff_getElem?]
  constructor
  · rintro ⟨s, i, ⟨hs, rfl⟩, rfl⟩
    exact ⟨rfl, hs⟩
  · rintro ⟨rfl, hn⟩
    exact ⟨r, n.position, ⟨hn, rfl⟩, rfl⟩

namespace Overlay

/-- Whether a vertex has lists in the overlay, or will have them with its first edge. -/
def lists (o : Overlay α) : VertexRef → Bool
  | .permanent _ => true
  | .temporary v => o.owns v

theorem lists_leaving (o : Overlay α) (r : VertexRef) : o.leaving.lists o.id r = o.lists r := by
  cases r with
  | permanent v => rfl
  | temporary v => simp only [Incidence.lists, o.leaving_faithful.own_length, lists, owns]

theorem lists_entering (o : Overlay α) (r : VertexRef) :
    o.entering.lists o.id r = o.lists r := by
  cases r with
  | permanent v => rfl
  | temporary v => simp only [Incidence.lists, o.entering_faithful.own_length, lists, owns]

theorem edge?_name (o : Overlay α) (n : Nat) : o.edge? ⟨o.id, n⟩ = o.edges[n]? :=
  if_pos rfl

/-! ## What is listed is right -/

theorem outgoing_sublist (o : Overlay α) (r : VertexRef) :
    (o.outgoing r).Sublist (o.edges.filter (·.source == r)) := by
  rw [← Incidence.filterMap_namesAt o.id o.edges _ r o.edge?_name]
  exact (o.leaving_faithful.sublist r).filterMap _

theorem mem_of_mem_outgoing {o : Overlay α} {r : VertexRef} {e : TempEdge α}
    (he : e ∈ o.outgoing r) : e ∈ o.edges ∧ e.source = r := by
  obtain ⟨hmem, hsource⟩ := List.mem_filter.1 ((o.outgoing_sublist r).subset he)
  exact ⟨hmem, eq_of_beq hsource⟩

theorem outgoing_eq_nil {o : Overlay α} {v : LocalVertex} (h : v.overlay ≠ o.id) :
    o.outgoing (.temporary v) = [] := by
  rw [outgoing, Incidence.incident, if_neg h, List.filterMap_nil]

theorem incoming_eq_nil {o : Overlay α} {v : LocalVertex} (h : v.overlay ≠ o.id) :
    o.incoming (.temporary v) = [] := by
  rw [incoming, Incidence.incident, if_neg h, List.filterMap_nil]

/-! ## Nothing is missing -/

/-- All edges are listed at both of their ends. -/
structure Registered (o : Overlay α) : Prop where
  leaving : ∀ r, o.leaving.incident o.id r = Incidence.namesAt o.id (o.edges.map (·.source)) r
  entering : ∀ r, o.entering.incident o.id r = Incidence.namesAt o.id (o.edges.map (·.target)) r

theorem registered_empty (id : OverlayId) : ({ id } : Overlay α).Registered where
  leaving r := by
    cases r with
    | permanent v => rfl
    | temporary v => simp [Incidence.incident, Incidence.namesAt]
  entering r := by
    cases r with
    | permanent v => rfl
    | temporary v => simp [Incidence.incident, Incidence.namesAt]

namespace Registered

variable {o : Overlay α} (h : o.Registered)

include h

theorem addVertex (x : TempVertex α) : (o.addVertex x).1.Registered where
  leaving r := (o.leaving.incident_addVertex o.id r).trans (h.leaving r)
  entering r := (o.entering.incident_addVertex o.id r).trans (h.entering r)

theorem addEdge {e : TempEdge α} (hsource : o.lists e.source = true)
    (htarget : o.lists e.target = true) : (o.addEdge e).Registered where
  leaving r := by
    have hentered := o.leaving.incident_register e.source r ⟨o.id, o.edges.length⟩
    rw [h.leaving, o.lists_leaving, hsource] at hentered
    have hnames := Incidence.namesAt_concat o.id (o.edges.map (·.source)) e.source r
    rw [List.length_map] at hnames
    simpa [Overlay.addEdge, hnames] using hentered
  entering r := by
    have hentered := o.entering.incident_register e.target r ⟨o.id, o.edges.length⟩
    rw [h.entering, o.lists_entering, htarget] at hentered
    have hnames := Incidence.namesAt_concat o.id (o.edges.map (·.target)) e.target r
    rw [List.length_map] at hnames
    simpa [Overlay.addEdge, hnames] using hentered

theorem outgoing_eq_filter (r : VertexRef) : o.outgoing r = o.edges.filter (·.source == r) := by
  rw [outgoing, h.leaving, Incidence.filterMap_namesAt o.id o.edges _ r o.edge?_name]

theorem incoming_eq_filter (r : VertexRef) : o.incoming r = o.edges.filter (·.target == r) := by
  rw [incoming, h.entering, Incidence.filterMap_namesAt o.id o.edges _ r o.edge?_name]

theorem mem_leaving_iff (r : VertexRef) (n : LocalEdge) :
    n ∈ o.leaving.incident o.id r ↔ ∃ e, o.edge? n = some e ∧ e.source = r := by
  rw [h.leaving, Incidence.mem_namesAt, List.getElem?_map, Option.map_eq_some_iff, edge?]
  split <;> simp [*]

theorem mem_entering_iff (r : VertexRef) (n : LocalEdge) :
    n ∈ o.entering.incident o.id r ↔ ∃ e, o.edge? n = some e ∧ e.target = r := by
  rw [h.entering, Incidence.mem_namesAt, List.getElem?_map, Option.map_eq_some_iff, edge?]
  split <;> simp [*]

theorem lists_ends {e : TempEdge α} (he : e ∈ o.edges) :
    o.lists e.source = true ∧ o.lists e.target = true := by
  have hout : e ∈ o.outgoing e.source := by
    rw [h.outgoing_eq_filter]
    exact List.mem_filter.2 ⟨he, beq_self_eq_true _⟩
  have hin : e ∈ o.incoming e.target := by
    rw [h.incoming_eq_filter]
    exact List.mem_filter.2 ⟨he, beq_self_eq_true _⟩
  constructor
  · by_contra hunlisted
    rw [← lists_leaving, Bool.not_eq_true] at hunlisted
    rw [outgoing, Incidence.incident_eq_nil hunlisted] at hout
    cases hout
  · by_contra hunlisted
    rw [← lists_entering, Bool.not_eq_true] at hunlisted
    rw [incoming, Incidence.incident_eq_nil hunlisted] at hin
    cases hin

end Registered

/-! ## Street vertices -/

def Meets (o : Overlay α) (v : Nat) : Prop :=
  ∃ e ∈ o.edges, e.source = .permanent v ∨ e.target = .permanent v

theorem pairwise_insertOnce (n : Nat) {sorted : List Nat} (h : sorted.Pairwise (· < ·)) :
    (insertOnce n sorted).Pairwise (· < ·) := by
  induction sorted with
  | nil => exact List.pairwise_singleton _ n
  | cons m rest ih =>
    obtain ⟨hm, hrest⟩ := List.pairwise_cons.1 h
    unfold insertOnce
    split
    · next hlt =>
      refine List.pairwise_cons.2 ⟨fun k hk => ?_, h⟩
      rcases List.mem_cons.1 hk with rfl | hk
      · exact hlt
      · exact Nat.lt_trans hlt (hm k hk)
    · split
      · exact h
      · refine List.pairwise_cons.2 ⟨fun k hk => ?_, ih hrest⟩
        rcases (mem_insertOnce n k rest).1 hk with rfl | hk
        · omega
        · exact hm k hk

theorem pairwise_streetVertices (o : Overlay α) : o.streetVertices.Pairwise (· < ·) := by
  unfold streetVertices
  generalize o.leaving.permanent.keys ++ o.entering.permanent.keys = keys
  induction keys with
  | nil => exact List.Pairwise.nil
  | cons v rest ih => exact pairwise_insertOnce v ih

theorem mem_streetVertices {o : Overlay α} {v : Nat} : v ∈ o.streetVertices ↔ o.Meets v := by
  have hinserted (keys : List Nat) : v ∈ keys.foldr insertOnce [] ↔ v ∈ keys := by
    induction keys with
    | nil => rfl
    | cons w rest ih => rw [List.foldr_cons, mem_insertOnce, ih, List.mem_cons]
  rw [streetVertices, hinserted, List.mem_append, o.leaving_faithful.keys, o.entering_faithful.keys,
    List.mem_map, List.mem_map, ← exists_or]
  simp only [Meets, ← and_or_left]

theorem streetVertices_congr {o o' : Overlay α} (h : ∀ v, o.Meets v ↔ o'.Meets v) :
    o.streetVertices = o'.streetVertices := by
  have hperm : o.streetVertices.Perm o'.streetVertices := by
    refine (List.perm_ext_iff_of_nodup ?_ ?_).2 fun v => ?_
    · exact o.pairwise_streetVertices.imp Nat.ne_of_lt
    · exact o'.pairwise_streetVertices.imp Nat.ne_of_lt
    · rw [mem_streetVertices, mem_streetVertices, h]
  exact hperm.eq_of_pairwise (fun a b _ _ hlt hgt => absurd hlt (Nat.lt_asymm hgt))
    o.pairwise_streetVertices o'.pairwise_streetVertices

/-! ## Overlays that grow -/

def addEdges (o : Overlay α) (es : List (TempEdge α)) : Overlay α :=
  es.foldl addEdge o

@[simp]
theorem addEdges_nil (o : Overlay α) : o.addEdges [] = o := rfl

@[simp]
theorem addEdges_cons (o : Overlay α) (e : TempEdge α) (es : List (TempEdge α)) :
    o.addEdges (e :: es) = (o.addEdge e).addEdges es := rfl

theorem addEdges_append (o : Overlay α) (es es' : List (TempEdge α)) :
    o.addEdges (es ++ es') = (o.addEdges es).addEdges es' :=
  List.foldl_append

@[simp]
theorem id_addEdges (o : Overlay α) (es : List (TempEdge α)) : (o.addEdges es).id = o.id := by
  induction es generalizing o with
  | nil => rfl
  | cons e rest ih => exact ih (o.addEdge e)

@[simp]
theorem vertices_addEdges (o : Overlay α) (es : List (TempEdge α)) :
    (o.addEdges es).vertices = o.vertices := by
  induction es generalizing o with
  | nil => rfl
  | cons e rest ih => exact ih (o.addEdge e)

@[simp]
theorem edges_addEdges (o : Overlay α) (es : List (TempEdge α)) :
    (o.addEdges es).edges = o.edges ++ es := by
  induction es generalizing o with
  | nil => simp
  | cons e rest ih => simp [ih, addEdge]

@[simp]
theorem vertex?_addEdges (o : Overlay α) (es : List (TempEdge α)) (v : LocalVertex) :
    (o.addEdges es).vertex? v = o.vertex? v := by
  simp [vertex?]

@[simp]
theorem lists_addEdges (o : Overlay α) (es : List (TempEdge α)) (r : VertexRef) :
    (o.addEdges es).lists r = o.lists r := by
  cases r <;> simp [lists, owns]

/-- What an overlay becomes by adding vertices, and edges between vertices that have lists. -/
inductive Grows (o : Overlay α) : Overlay α → Prop
  | refl : Grows o o
  | addVertex {o' : Overlay α} (h : Grows o o') (x : TempVertex α) : Grows o (o'.addVertex x).1
  | addEdge {o' : Overlay α} (h : Grows o o') {e : TempEdge α} (hsource : o'.lists e.source = true)
      (htarget : o'.lists e.target = true) : Grows o (o'.addEdge e)

namespace Grows

variable {o o' o'' : Overlay α}

theorem trans (h : Grows o o') (h' : Grows o' o'') : Grows o o'' := by
  induction h' with
  | refl => exact h
  | addVertex _ x ih => exact ih.addVertex x
  | addEdge _ hsource htarget ih => exact ih.addEdge hsource htarget

theorem id (h : Grows o o') : o'.id = o.id := by
  induction h with
  | refl => rfl
  | addVertex _ x ih => exact ih
  | addEdge _ _ _ ih => exact ih

theorem vertices (h : Grows o o') : o.vertices <+: o'.vertices := by
  induction h with
  | refl => exact List.prefix_refl _
  | addVertex _ x ih => exact ih.trans (List.prefix_append _ _)
  | addEdge _ _ _ ih => exact ih

theorem registered (h : Grows o o') (ho : o.Registered) : o'.Registered := by
  induction h with
  | refl => exact ho
  | addVertex _ x ih => exact ih.addVertex x
  | addEdge _ hsource htarget ih => exact ih.addEdge hsource htarget

theorem lists (h : Grows o o') {r : VertexRef} (hr : o.lists r = true) : o'.lists r = true := by
  cases r with
  | permanent v => rfl
  | temporary v =>
    obtain ⟨hown, hlt⟩ := Bool.and_eq_true_iff.1 hr
    have hlength := h.vertices.length_le
    refine Bool.and_eq_true_iff.2 ⟨h.id.symm ▸ hown, decide_eq_true ?_⟩
    exact Nat.lt_of_lt_of_le (of_decide_eq_true hlt) hlength

end Grows

end Overlay

end StreetLinking.Temporary
