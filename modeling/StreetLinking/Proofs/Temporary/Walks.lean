import Mathlib.Algebra.Ring.Nat
import StreetLinking.Proofs.Temporary.Listing
/-!
# Walks through overlays

The vertices of a request's overlay lie on the side of the origin or on that of the destination. If
every edge leads away from the side of the origin or towards that of the destination, nobody can
walk through the overlay from one place in the street graph to another. Main statements: such an
overlay adds no walk between permanent vertices to the view, and a walk from the one side to the
other passes a permanent vertex.
-/

namespace StreetLinking.Temporary

open Street

variable {α : Type}

/-! ## Walks -/

inductive Walks (o : Overlay α) : VertexRef → List (TempEdge α) → VertexRef → Prop
  | nil (r : VertexRef) : Walks o r [] r
  | cons {e : TempEdge α} {rest : List (TempEdge α)} {last : VertexRef} (hedge : e ∈ o.edges)
      (hrest : Walks o e.target rest last) : Walks o e.source (e :: rest) last

/-- A walk as a path search sees it. -/
inductive ViewWalks (w : View α) : VertexRef → List (ViewEdge α) → VertexRef → Prop
  | nil (r : VertexRef) : ViewWalks w r [] r
  | cons {r last : VertexRef} {e : ViewEdge α} {rest : List (ViewEdge α)}
      (hedge : e ∈ w.outgoing r) (hrest : ViewWalks w e.target rest last) :
      ViewWalks w r (e :: rest) last

def walkLength (path : List (ViewEdge α)) : Nat :=
  (path.map (·.lengthMm)).sum

def IsShortest (w : View α) (r s : VertexRef) (n : Nat) : Prop :=
  (∃ path, ViewWalks w r path s ∧ walkLength path = n) ∧
    ∀ path, ViewWalks w r path s → n ≤ walkLength path

/-! ## Sides -/

namespace TempVertexKind

/-- The side of a request that a vertex lies on: that of its destination, or else that of its
origin. -/
def side? : TempVertexKind → Option Bool
  | searchEnd isDestination => some isDestination
  | split _ .inbound => some true
  | split _ .outbound => some false
  | split _ .both => none
  | entity _ _ => none

end TempVertexKind

def LiesOn (o : Overlay α) (side : Bool) (r : VertexRef) : Prop :=
  ∃ v x, r = .temporary v ∧ o.vertex? v = some x ∧ x.kind.side? = some side

theorem LiesOn.side_eq {o : Overlay α} {side side' : Bool} {r : VertexRef}
    (h : LiesOn o side r) (h' : LiesOn o side' r) : side = side' := by
  obtain ⟨v, x, rfl, hx, hside⟩ := h
  obtain ⟨v', x', heq, hx', hside'⟩ := h'
  cases heq
  rw [hx, Option.some.injEq] at hx'
  subst hx'
  rw [hside, Option.some.injEq] at hside'
  exact hside'

theorem not_liesOn_permanent {o : Overlay α} {side : Bool} {v : Nat} :
    ¬ LiesOn o side (.permanent v) := by
  rintro ⟨v', x, heq, -⟩
  cases heq

def Borders (o : Overlay α) (side : Bool) (r : VertexRef) : Prop :=
  (∃ v, r = .permanent v) ∨ LiesOn o side r

/-- The edge serves a side: it leads away from that of the origin, or towards that of the
destination. -/
def Serves (o : Overlay α) : Bool → TempEdge α → Prop
  | false, e => LiesOn o false e.source ∧ Borders o false e.target
  | true, e => LiesOn o true e.target ∧ Borders o true e.source

def OneWay (o : Overlay α) : Prop :=
  ∀ e ∈ o.edges, ∃ side, Serves o side e

/-! ## Where walks can lead -/

theorem OneWay.target_of_borders {o : Overlay α} (h : OneWay o) {e : TempEdge α}
    (he : e ∈ o.edges) (hsource : Borders o true e.source) : LiesOn o true e.target := by
  obtain ⟨side, hserves⟩ := h e he
  cases side with
  | true => exact hserves.1
  | false =>
    rcases hsource with ⟨v, hv⟩ | hside
    · exact absurd (hv ▸ hserves.1) not_liesOn_permanent
    · cases hside.side_eq hserves.1

theorem OneWay.walks_of_liesOn {o : Overlay α} (h : OneWay o) {r s : VertexRef}
    {path : List (TempEdge α)} (hwalk : Walks o r path s) (hr : LiesOn o true r) :
    LiesOn o true s := by
  induction hwalk with
  | nil r => exact hr
  | cons hedge _ ih => exact ih (h.target_of_borders hedge (Or.inr hr))

/-- No walk through the overlay leads from the street graph back to it. -/
theorem OneWay.not_walks_permanent {o : Overlay α} (h : OneWay o) {u v : Nat}
    {path : List (TempEdge α)} (hpath : path ≠ []) :
    ¬ Walks o (.permanent u) path (.permanent v) := by
  intro hwalk
  generalize hr : VertexRef.permanent u = r at hwalk
  cases hwalk with
  | nil => exact hpath rfl
  | cons hedge hrest =>
    have htarget := h.target_of_borders hedge (Or.inl ⟨u, hr.symm⟩)
    exact not_liesOn_permanent (h.walks_of_liesOn hrest htarget)

theorem OneWay.walks_from_origin {o : Overlay α} (h : OneWay o) {r s : VertexRef}
    {path : List (TempEdge α)} (hwalk : Walks o r path s) (hr : LiesOn o false r) :
    LiesOn o false s ∨ ∃ before v after, path = before ++ after ∧
      Walks o r before (.permanent v) ∧ Walks o (.permanent v) after s := by
  induction hwalk with
  | nil r => exact Or.inl hr
  | @cons e rest last hedge hrest ih =>
    have htarget : Borders o false e.target := by
      obtain ⟨side, hserves⟩ := h e hedge
      cases side with
      | false => exact hserves.2
      | true =>
        rcases hserves.2 with ⟨v, hv⟩ | hside
        · exact absurd (hv ▸ hr) not_liesOn_permanent
        · cases hr.side_eq hside
    rcases htarget with ⟨v, hv⟩ | hside
    · refine Or.inr ⟨[e], v, rest, rfl, ?_, hv ▸ hrest⟩
      exact .cons hedge (hv ▸ .nil _)
    · rcases ih hside with hlast | ⟨before, v, after, rfl, hbefore, hafter⟩
      · exact Or.inl hlast
      · exact Or.inr ⟨e :: before, v, after, rfl, .cons hedge hbefore, hafter⟩

/-! ## The view -/

theorem mem_outgoing_view {g : Streets α} {o : Overlay α} {r : VertexRef} {e : ViewEdge α}
    (h : e ∈ (⟨g, [o]⟩ : View α).outgoing r) :
    (∃ v d, r = .permanent v ∧ e = .permanent d ∧ d ∈ g.outgoing v) ∨
      ∃ d ∈ o.edges, e = .temporary d ∧ d.source = r := by
  simp only [View.outgoing, List.flatMap_cons, List.flatMap_nil, List.append_nil] at h
  rcases List.mem_append.1 h with h | h
  · cases r with
    | permanent v =>
      obtain ⟨d, hd, rfl⟩ := List.mem_map.1 h
      exact Or.inl ⟨v, d, rfl, rfl, hd⟩
    | temporary v => simp at h
  · obtain ⟨d, hd, rfl⟩ := List.mem_map.1 h
    obtain ⟨hmem, hsource⟩ := Overlay.mem_of_mem_outgoing hd
    exact Or.inr ⟨d, hmem, rfl, hsource⟩

theorem OneWay.viewWalks_of_liesOn {g : Streets α} {o : Overlay α} (h : OneWay o)
    {r s : VertexRef} {path : List (ViewEdge α)} (hwalk : ViewWalks ⟨g, [o]⟩ r path s)
    (hr : LiesOn o true r) : LiesOn o true s := by
  induction hwalk with
  | nil r => exact hr
  | cons hedge _ ih =>
    rcases mem_outgoing_view hedge with ⟨v, d, rfl, -, -⟩ | ⟨d, hd, rfl, rfl⟩
    · exact absurd hr not_liesOn_permanent
    · exact ih (h.target_of_borders hd (Or.inr hr))

/-- Between permanent vertices the view has just the walks of the street graph. -/
theorem OneWay.viewWalks_iff {g : Streets α} {o : Overlay α} (h : OneWay o) {u v : Nat}
    {path : List (ViewEdge α)} :
    ViewWalks ⟨g, [o]⟩ (.permanent u) path (.permanent v) ↔
      ViewWalks ⟨g, []⟩ (.permanent u) path (.permanent v) := by
  constructor
  · intro hwalk
    induction path generalizing u with
    | nil => cases hwalk; exact .nil _
    | cons e rest ih =>
      cases hwalk with
      | cons hedge hrest =>
        rcases mem_outgoing_view hedge with ⟨u', d, heq, rfl, hd⟩ | ⟨d, hd, rfl, hsource⟩
        · cases heq
          exact .cons (List.mem_append_left _ (List.mem_map_of_mem hd)) (ih hrest)
        · have htarget := h.target_of_borders hd (Or.inl ⟨u, hsource⟩)
          exact absurd (h.viewWalks_of_liesOn hrest htarget) not_liesOn_permanent
  · intro hwalk
    induction path generalizing u with
    | nil => cases hwalk; exact .nil _
    | cons e rest ih =>
      cases hwalk with
      | cons hedge hrest =>
        simp only [View.outgoing, List.flatMap_nil, List.append_nil] at hedge
        obtain ⟨d, hd, rfl⟩ := List.mem_map.1 hedge
        exact .cons (List.mem_append_left _ (List.mem_map_of_mem hd)) (ih hrest)

theorem OneWay.isShortest_iff {g : Streets α} {o : Overlay α} (h : OneWay o) {u v n : Nat} :
    IsShortest ⟨g, [o]⟩ (.permanent u) (.permanent v) n ↔
      IsShortest ⟨g, []⟩ (.permanent u) (.permanent v) n := by
  simp only [IsShortest, h.viewWalks_iff]

end StreetLinking.Temporary
