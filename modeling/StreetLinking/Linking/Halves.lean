import StreetLinking.Outcome
import StreetLinking.Street.Graph
/-!
# Where a point attaches to an edge, and cutting the edge there

A point attaches to an end of an edge if it is near enough to it, and otherwise cuts the edge in two
halves. The halves share the point of the cut, and their lengths in millimetres add up to that of
the edge. On a back edge the second half is the one that is rounded, so both directions of a street
are apportioned alike.
-/
namespace StreetLinking.Linking

open Number Plane Street

variable {α : Type} [Scalar α]

inductive Attachment (α : Type) where
  | endpoint (vertex : Nat)
  | cut (location : Location α)
deriving DecidableEq

/-- Decides whether a point snaps to an end of an edge or cuts it. -/
def plan (g : Streets α) (number : Nat) (point : Point α) (frame : Frame α) (snap : α) :
    Except Fault (Attachment α) :=
  match g.edge? number with
  | none => .error .unknownEdge
  | some e =>
    let location := frame.locate point e.line
    if location.nearStart snap then .ok (.endpoint e.source)
    else if location.nearEnd e.line.length snap then .ok (.endpoint e.target)
    else .ok (.cut location)

/-- The whole part of `total * part / sum`, but no more than `total`. -/
def share (total : Nat) (part sum : Float) : Nat :=
  min (truncate (Float.ofNat total * part / sum)) total

/-- Apportions a length to two halves by their own lengths; the back edge of a street rounds its
second half. A line without length gives everything to the second half. -/
def apportion (total : Nat) (first second : Float) (back : Bool) : Nat × Nat :=
  let sum := first + second
  if sum.isNaN || decide (sum ≤ 0.0) then (0, total)
  else if back then
    let part := share total second sum
    (total - part, part)
  else
    let part := share total first sum
    (part, total - part)

theorem share_le (total : Nat) (part sum : Float) : share total part sum ≤ total :=
  Nat.min_le_right _ _

theorem apportion_sum (total : Nat) (first second : Float) (back : Bool) :
    (apportion total first second back).1 + (apportion total first second back).2 = total := by
  have h1 := share_le total first (first + second)
  have h2 := share_le total second (first + second)
  unfold apportion
  dsimp only
  split
  · simp
  · split
    · simp only
      omega
    · simp only
      omega

structure Halves (α : Type) where
  parent : Edge α
  point : Point α
  first : EdgeData α
  second : EdgeData α

def partOf (e : Edge α) (line : Line α) (lengthMm : Nat) : EdgeData α :=
  { e.toEdgeData with line, lengthMm }

def halve (g : Streets α) (number : Nat) (location : Location α) : Except Fault (Halves α) :=
  match g.edge? number with
  | none => .error .unknownEdge
  | some e =>
    match location.cut? e.line, location.point? e.line with
    | some (first, second), some point =>
      let lengths := apportion e.lengthMm (lineMetres first) (lineMetres second) e.back
      .ok ⟨e, point, partOf e first lengths.1, partOf e second lengths.2⟩
    | _, _ => .error (.shape (.edgeTooShort number))

def splitLabel (e : Edge α) : String :=
  "split of " ++ e.name

/-- Replaces an edge by its halves and a new vertex between them. Both halves are indexed, and an
area that the edge belonged to takes the halves and the vertex in its place. -/
def split (g : Streets α) (number : Nat) (location : Location α) : Outcome (Streets α) Nat :=
  match halve g number location with
  | .error fault => .fail fault g
  | .ok h =>
    let (g, vertex) := g.addVertex ⟨.split h.parent.serial, splitLabel h.parent, h.point⟩
    let (g, first) := g.insertEdge h.parent.source vertex h.first
    let (g, second) := g.insertEdge vertex h.parent.target h.second
    let g := ((g.indexEdge first).indexEdge second).detach number
    match h.parent.kind.area? with
    | some area => .ok vertex (g.replaceInArea area vertex number first second)
    | none => .ok vertex g

end StreetLinking.Linking
