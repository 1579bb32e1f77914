import StreetLinking.Temporary.Overlay
/-!
# The combined view

A path search walks the street graph and any number of overlays at once, without merging them: at a
vertex it finds the edges of the street graph first and then those of each overlay in turn.
-/
namespace StreetLinking.Temporary

open Plane Street

inductive ViewEdge (α : Type) where
  | permanent (edge : Edge α)
  | temporary (edge : TempEdge α)

namespace ViewEdge

variable {α : Type}

def source : ViewEdge α → VertexRef
  | permanent e => .permanent e.source
  | temporary e => e.source

def target : ViewEdge α → VertexRef
  | permanent e => .permanent e.target
  | temporary e => e.target

def lengthMm : ViewEdge α → Nat
  | permanent e => e.lengthMm
  | temporary e => e.lengthMm

def permission : ViewEdge α → ModeSet
  | permanent e => e.permission
  | temporary e => e.permission

def line : ViewEdge α → Line α
  | permanent e => e.line
  | temporary e => e.line

def number? : ViewEdge α → Option Nat
  | permanent e => some e.number
  | temporary _ => none

end ViewEdge

structure View (α : Type) where
  streets : Streets α
  overlays : List (Overlay α)

namespace View

variable {α : Type}

def position? (w : View α) : VertexRef → Option (Point α)
  | .permanent v => w.streets.position? v
  | .temporary v => (w.overlays.findSome? (·.vertex? v)).map (·.position)

def outgoing (w : View α) (r : VertexRef) : List (ViewEdge α) :=
  let permanent := match r with
    | .permanent v => (w.streets.outgoing v).map .permanent
    | .temporary _ => []
  permanent ++ w.overlays.flatMap fun o => (o.outgoing r).map .temporary

def incoming (w : View α) (r : VertexRef) : List (ViewEdge α) :=
  let permanent := match r with
    | .permanent v => (w.streets.incoming v).map .permanent
    | .temporary _ => []
  permanent ++ w.overlays.flatMap fun o => (o.incoming r).map .temporary

end View

end StreetLinking.Temporary
