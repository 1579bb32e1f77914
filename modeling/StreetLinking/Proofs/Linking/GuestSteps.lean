import Mathlib.Logic.Relation
import StreetLinking.Proofs.Linking.OverlaySteps
import StreetLinking.Proofs.Linking.Reached
import StreetLinking.Proofs.Linking.StopIndex
/-!
# Linking a guest step by step

Whatever a point is linked to, its overlay changes in two ways only: an edge of the street graph is
cut, or the point is connected with a vertex that the overlay or the street graph knows. Main
statement: linking a guest is a sequence of such steps, so that what a step keeps is kept by
linking.
-/

namespace StreetLinking.Linking

open Number Plane Street Streets Nearest Temporary

variable {α : Type} [Scalar α]

/-- A vertex of the street graph, or one at which the overlay cuts an edge. -/
def IsJoint (o : Overlay α) (r : VertexRef) : Prop :=
  ∀ v, r = .temporary v → ∃ x parent side, o.vertex? v = some x ∧ x.kind = .split parent side

omit [Scalar α] in
theorem isJoint_permanent (o : Overlay α) (v : Nat) : IsJoint o (.permanent v) := by
  intro w hw
  cases hw

/-- What linking a guest does to its overlay at a time. -/
inductive GuestStep (g : Streets α) (guest : Guest α) : Overlay α → Overlay α → Prop
  | connect {o : Overlay α} {street : VertexRef} {position : Point α}
      (hstreet : View.position? ⟨g, [o]⟩ street = some position) (hjoint : IsJoint o street) :
      GuestStep g guest o
        (connectIn o (.temporary guest.vertex, guest.position) (street, position) guest.role).1
  | cut {o : Overlay α} {number : Nat} {location : Location α} {h : Halves α}
      (hh : halve g number location = .ok h)
      (hlocation : ∃ frame, location = Frame.locate frame guest.position h.parent.line) :
      GuestStep g guest o (withCut o guest.role.side h)

def GuestSteps (g : Streets α) (guest : Guest α) : Overlay α → Overlay α → Prop :=
  Relation.ReflTransGen (GuestStep g guest)

theorem GuestSteps.preserve {g : Streets α} {guest : Guest α} {o o' : Overlay α}
    {P : Overlay α → Prop} (hsteps : GuestSteps g guest o o')
    (hstep : ∀ o o', GuestStep g guest o o' → P o → P o') (h : P o) : P o' := by
  induction hsteps with
  | refl => exact h
  | tail _ hlast ih => exact hstep _ _ hlast ih

theorem GuestSteps.id_eq {g : Streets α} {guest : Guest α} {o o' : Overlay α}
    (hsteps : GuestSteps g guest o o') : o'.id = o.id := by
  refine hsteps.preserve (P := fun o' => o'.id = o.id) (fun first second hstep hid => ?_) rfl
  cases hstep with
  | connect hstreet =>
    obtain ⟨added, -, hframe⟩ := connectIn_frame first (.temporary guest.vertex, guest.position)
      (_, _) guest.role
    rw [hframe, Overlay.id_addEdges]
    exact hid
  | cut hh hlocation => rw [id_withCut, hid]

/-! ## Stops are where their vertices are -/

def StopsPlaced (g : Streets α) : Prop :=
  ∀ s ∈ g.stopIndex.items, g.position? s.vertex = some s.position

theorem stopsPlaced_run (events : List (Event α)) : StopsPlaced (run (.empty : Streets α) events) := by
  intro s hs
  rw [stopsIndexed_run events, List.mem_reverse, mem_stopEntries] at hs
  obtain ⟨x, hx, -, hposition⟩ := hs
  rw [Streets.position?, hx, Option.map_some, hposition]

/-! ## Linking is a sequence of steps -/

section Steps

variable {g : Streets α} (settings : Settings) (guest : Guest α)

theorem steps_linkOne (hsound : Sound g) (d : Draft α) (number : Nat) :
    GuestSteps g guest d.overlay (linkOne settings g guest d number).state.overlay := by
  cases hedge : g.edge? number with
  | none =>
    simp only [linkOne, attachIn, plan, hedge]
    exact .refl
  | some e =>
    rcases linkOne_cases hsound hedge settings guest d with
      ⟨v, x, -, -, hx, hstep⟩ | ⟨location, h, hplan, hh, rfl, hstep⟩
    · rw [hstep]
      refine .single (.connect ?_ (isJoint_permanent _ v))
      simp only [View.position?, Streets.position?, hx, Option.map_some]
    · rw [hstep]
      split
      · exact .refl
      · have hcut : GuestStep g guest d.overlay (withCut d.overlay guest.role.side h) :=
          .cut hh ⟨_, plan_eq_cut hedge hplan⟩
        refine .tail (.single hcut) (.connect (position?_withCut g d.overlay _ h) fun v hv => ?_)
        cases hv
        exact ⟨_, _, _, vertex?_withCut d.overlay _ h, rfl⟩

theorem steps_attachAllIn (hsound : Sound g) (d : Draft α) (numbers : List Nat) :
    GuestSteps g guest d.overlay (attachAllIn settings g guest d numbers).state.overlay := by
  induction numbers generalizing d with
  | nil => exact .refl
  | cons number rest ih =>
    have hfirst := steps_linkOne settings guest hsound d number
    rw [attachAllIn_cons]
    generalize linkOne settings g guest d number = outcome at hfirst
    rcases outcome with ⟨_ | _, d'⟩
    · exact hfirst
    · exact hfirst.trans (ih d')

theorem mem_items_of_mem_nearestStops {search : Search α} {gap : α}
    {r : Ranked α (StopEntry α)} (hr : r ∈ nearestStops g search gap) :
    r.item ∈ g.stopIndex.items := by
  have hnearest := subperm_items_nearest
    (fun s : StopEntry α => search.frame.distance search.point s.position) (·.vertex) gap
    (g.stopsIn search.box)
  have hfound := (((withinRadius_sublist search.radius _).map _).subperm.trans hnearest).subset
    (List.mem_map_of_mem hr)
  exact (BoxIndex.meets_of_mem_search hfound).1

theorem steps_attachToStops (hstops : StopsPlaced g) (d : Draft α) :
    GuestSteps g guest d.overlay (attachToStops settings g guest d).1.overlay := by
  simp only [attachToStops]
  have hplaced : ∀ r ∈ nearestStops g (Search.around guest.position settings)
      (Scalar.ofDouble settings.duplicateWayDegrees),
      g.position? r.item.vertex = some r.item.position :=
    fun r hr => hstops _ (mem_items_of_mem_nearestStops hr)
  generalize nearestStops g (Search.around guest.position settings) _ = stops at hplaced
  induction stops generalizing d with
  | nil => exact .refl
  | cons r rest ih =>
    obtain ⟨hfirst, hrest⟩ := List.forall_mem_cons.1 hplaced
    have hplace : View.position? ⟨g, [d.overlay]⟩ (.permanent r.item.vertex) =
        some r.item.position := hfirst
    have hlater := ih (connectGuest guest (.permanent r.item.vertex) r.item.position d) hrest
    exact .head (.connect hplace (isJoint_permanent _ _)) hlater

/-- Linking a guest changes its overlay step by step. -/
theorem steps_linkGuest (hsound : Sound g) (hstops : StopsPlaced g) (mode : Mode) (d : Draft α) :
    GuestSteps g guest d.overlay (linkGuest settings g guest mode d).state.overlay := by
  unfold linkGuest
  split
  · split
    · exact steps_attachToStops settings guest hstops d
    · exact .refl
  · rw [Outcome.andThen_ok_state]
    exact steps_attachAllIn settings guest hsound d _

end Steps

end StreetLinking.Linking
