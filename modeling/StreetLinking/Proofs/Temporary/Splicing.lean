import StreetLinking.Proofs.Temporary.Walks
/-!
# Walks past cut edges

An overlay that cuts an edge leaves it whole, and holds two parts of it that meet at a vertex of the
overlay. A walk along streets that takes the one part has nothing to go on with but the other one,
and might have taken the edge. Main statement: along streets and their parts, a shortest walk
through the street graph and any such overlays is as long as one through the street graph alone.
-/

namespace StreetLinking.Temporary

open Street

variable {α : Type}

def TempEdge.isPart (e : TempEdge α) : Bool :=
  match e.kind with
  | .part _ => true
  | .connector _ => false

namespace ViewEdge

def isPart : ViewEdge α → Bool
  | permanent _ => false
  | temporary e => e.isPart

def isOfStreets : ViewEdge α → Bool
  | permanent _ => true
  | temporary e => e.isPart

def permits (mode : Mode) (e : ViewEdge α) : Bool :=
  e.permission.contains mode

end ViewEdge

/-- The length of a shortest walk along edges that may be used. -/
def IsShortestAlong (usable : ViewEdge α → Bool) (w : View α) (r s : VertexRef) (n : Nat) : Prop :=
  (∃ path, ViewWalks w r path s ∧ (∀ e ∈ path, usable e = true) ∧ walkLength path = n) ∧
    ∀ path, ViewWalks w r path s → (∀ e ∈ path, usable e = true) → n ≤ walkLength path

/-- One part, and after it the other one, lead where the edge leads. -/
structure MakeUp (first second : TempEdge α) (e : Edge α) : Prop where
  target : second.target = .permanent e.target
  permission : first.permission = e.permission
  length : first.lengthMm + second.lengthMm = e.lengthMm

/-- A part that leaves the street graph leads to a vertex at which it can only be followed by one
that makes it up to an edge. -/
def Splices (w : View α) : Prop :=
  ∀ u first, .temporary first ∈ w.outgoing (.permanent u) → first.isPart = true →
    ∃ v, first.target = .temporary v ∧
      ∃ e ∈ w.streets.outgoing u, ∀ second, .temporary second ∈ w.outgoing (.temporary v) →
        second.isPart = true → MakeUp first second e

theorem mem_outgoing_permanent {w : View α} {u : Nat} {d : ViewEdge α}
    (hd : d ∈ w.outgoing (.permanent u)) :
    (∃ e ∈ w.streets.edges, d = .permanent e ∧ e.source = u) ∨ ∃ e, d = .temporary e := by
  rcases List.mem_append.1 hd with hd | hd
  · obtain ⟨e, he, rfl⟩ := List.mem_map.1 hd
    obtain ⟨he, hsource⟩ := List.mem_filter.1 he
    exact Or.inl ⟨e, he, rfl, by simpa using hsource⟩
  · obtain ⟨o, -, hd⟩ := List.mem_flatMap.1 hd
    obtain ⟨e, -, rfl⟩ := List.mem_map.1 hd
    exact Or.inr ⟨e, rfl⟩

theorem permanent_mem_outgoing {w : View α} {e : Edge α} (he : e ∈ w.streets.edges) :
    .permanent e ∈ w.outgoing (.permanent e.source) := by
  refine List.mem_append_left _ (List.mem_map_of_mem ?_)
  exact List.mem_filter.2 ⟨he, beq_self_eq_true _⟩

theorem not_permanent_mem_outgoing {w : View α} {v : LocalVertex} {d : ViewEdge α}
    (hd : d ∈ w.outgoing (.temporary v)) : ∃ e, d = .temporary e := by
  rcases List.mem_append.1 hd with hd | hd
  · cases hd
  · obtain ⟨o, -, hd⟩ := List.mem_flatMap.1 hd
    obtain ⟨e, -, rfl⟩ := List.mem_map.1 hd
    exact ⟨e, rfl⟩

theorem walks_of_streets {g : Streets α} (overlays : List (Overlay α)) {r s : VertexRef}
    {path : List (ViewEdge α)} (hwalk : ViewWalks ⟨g, []⟩ r path s) :
    ViewWalks ⟨g, overlays⟩ r path s ∧ ∀ e ∈ path, e.isOfStreets = true := by
  induction hwalk with
  | nil r => exact ⟨.nil r, by simp⟩
  | @cons r last e rest hedge hrest ih =>
    have hpermanent : e ∈ (⟨g, overlays⟩ : View α).outgoing r ∧ e.isOfStreets = true := by
      simp only [View.outgoing, List.flatMap_nil, List.append_nil] at hedge ⊢
      refine ⟨List.mem_append_left _ hedge, ?_⟩
      cases r with
      | permanent u =>
        obtain ⟨d, -, rfl⟩ := List.mem_map.1 hedge
        rfl
      | temporary v => cases hedge
    exact ⟨.cons hpermanent.1 ih.1, List.forall_mem_cons.2 ⟨hpermanent.2, ih.2⟩⟩

namespace Splices

variable {w : View α} (h : Splices w)

include h

/-- A walk along streets and their parts can be made along streets alone, as long as it is. -/
theorem exists_walk {mode : Mode} {path : List (ViewEdge α)} {u v : Nat}
    (hwalk : ViewWalks w (.permanent u) path (.permanent v))
    (husable : ∀ e ∈ path, (e.permits mode && e.isOfStreets) = true) :
    ∃ path', ViewWalks ⟨w.streets, []⟩ (.permanent u) path' (.permanent v) ∧
      (∀ e ∈ path', e.permits mode = true) ∧ walkLength path' = walkLength path := by
  -- on the length of the walk, as two parts at once make way for an edge
  induction hlength : path.length using Nat.strong_induction_on generalizing path u with
  | _ n ih =>
  subst hlength
  cases hwalk with
  | nil => exact ⟨[], .nil _, by simp, rfl⟩
  | @cons _ _ d rest hedge hrest =>
    obtain ⟨hd, hrestUsable⟩ := List.forall_mem_cons.1 husable
    obtain ⟨hpermits, hstreet⟩ := Bool.and_eq_true_iff.1 hd
    rcases mem_outgoing_permanent hedge with ⟨e, he, rfl, rfl⟩ | ⟨first, rfl⟩
    · obtain ⟨path', hwalk', hpath', hsame⟩ := ih _ (Nat.lt_succ_self _) hrest hrestUsable rfl
      refine ⟨.permanent e :: path', .cons (permanent_mem_outgoing he) hwalk',
        List.forall_mem_cons.2 ⟨hpermits, hpath'⟩, ?_⟩
      simp only [walkLength, List.map_cons, List.sum_cons] at hsame ⊢
      rw [hsame]
    · -- the part is followed by the other one, and the edge may be taken instead
      obtain ⟨x, htarget, e, he, hnext⟩ := h u first hedge hstreet
      have hrest : ViewWalks w (.temporary x) rest (.permanent v) := htarget ▸ hrest
      cases hrest with
      | @cons _ _ d' rest' hedge' hrest' =>
        obtain ⟨hd', hrestUsable'⟩ := List.forall_mem_cons.1 hrestUsable
        obtain ⟨-, hstreet'⟩ := Bool.and_eq_true_iff.1 hd'
        obtain ⟨second, rfl⟩ := not_permanent_mem_outgoing hedge'
        obtain ⟨htarget', hpermission, hsum⟩ := hnext second hedge' hstreet'
        obtain ⟨hlive, hsource⟩ := List.mem_filter.1 he
        obtain rfl := beq_iff_eq.1 hsource
        have hrest' : ViewWalks w (.permanent e.target) rest' (.permanent v) := htarget' ▸ hrest'
        obtain ⟨path', hwalk', hpath', hsame⟩ :=
          ih rest'.length (by simp only [List.length_cons]; omega) hrest' hrestUsable' rfl
        refine ⟨.permanent e :: path', .cons (permanent_mem_outgoing hlive) hwalk',
          List.forall_mem_cons.2 ⟨?_, hpath'⟩, ?_⟩
        · rw [ViewEdge.permits, ViewEdge.permission, ← hpermission]
          exact hpermits
        · simp only [walkLength, List.map_cons, List.sum_cons, ViewEdge.lengthMm] at hsame ⊢
          rw [hsame, ← hsum, Nat.add_assoc]

theorem isShortestAlong_iff (mode : Mode) (u v n : Nat) :
    IsShortestAlong (fun e => e.permits mode && e.isOfStreets) w (.permanent u) (.permanent v) n ↔
      IsShortestAlong (·.permits mode) ⟨w.streets, []⟩ (.permanent u) (.permanent v) n := by
  have hthere {path : List (ViewEdge α)}
      (hwalk : ViewWalks ⟨w.streets, []⟩ (.permanent u) path (.permanent v))
      (hpath : ∀ e ∈ path, e.permits mode = true) :
      ViewWalks w (.permanent u) path (.permanent v) ∧
        ∀ e ∈ path, (e.permits mode && e.isOfStreets) = true := by
    obtain ⟨hwalk', hstreets⟩ := walks_of_streets w.overlays hwalk
    exact ⟨hwalk', fun e he => Bool.and_eq_true_iff.2 ⟨hpath e he, hstreets e he⟩⟩
  constructor
  · rintro ⟨⟨path, hwalk, hpath, hlength⟩, hleast⟩
    refine ⟨?_, fun other hother husable => ?_⟩
    · obtain ⟨path', hwalk', hpath', hsame⟩ := h.exists_walk hwalk hpath
      exact ⟨path', hwalk', hpath', hsame.trans hlength⟩
    · obtain ⟨hother', husable'⟩ := hthere hother husable
      exact hleast other hother' husable'
  · rintro ⟨⟨path, hwalk, hpath, hlength⟩, hleast⟩
    refine ⟨?_, fun other hother husable => ?_⟩
    · obtain ⟨hwalk', hpath'⟩ := hthere hwalk hpath
      exact ⟨path, hwalk', hpath', hlength⟩
    · obtain ⟨other', hother', husable', hsame⟩ := h.exists_walk hother husable
      exact hsame ▸ hleast other' hother' husable'

end Splices

end StreetLinking.Temporary
