import StreetLinking.Plane.Turn
/-!
# Points outside a convex hull

The hull of some sites is a ring of corners, which may shrink to a segment or a point. A point is
outside when no side of the ring passes through it and the ring does not wind around it.

From four sites on the ring is found by cutting off, again and again, the farthest site on one side
of a way between two corners. Distances are rounded, so near ties the ring depends on the order in
which sites are looked at; that order is part of the rule.
-/
namespace StreetLinking.Plane

open Number

/-! ## Lists that are taken apart in place -/

/-- Takes out the item at a place; the first item moves there. -/
def takeAt? {β : Type} (place : Nat) : List β → Option (β × List β)
  | [] => none
  | first :: rest =>
    match place with
    | 0 => some (first, rest)
    | place + 1 => rest[place]?.map fun item => (item, rest.set place first)

def bestPlace {β : Type} (beats : β → β → Bool) : List β → Nat
  | [] => 0
  | first :: rest =>
    ((rest.zipIdx 1).foldl (fun best next => if beats next.1 best.1 then next else best)
      (first, 0)).2

def exchange {β : Type} (p : β → Bool) : List β → List β → List β
  | [], _ => []
  | a :: rest, [] => a :: rest
  | a :: rest, other :: others =>
    if p a then other :: exchange p rest others else a :: exchange p rest (other :: others)

/-- The items that have a property and those that have not. Those that are on the wrong side change
places, the first one of the front with the last one of the back and so on; the others stay. -/
def parted {β : Type} (p : β → Bool) (items : List β) : List β × List β :=
  let (front, back) := items.splitAt (items.countP p)
  (exchange (fun a => !p a) front (back.filter p).reverse,
    (exchange p back.reverse (front.filter fun a => !p a)).reverse)

/-! ## The ring around the sites -/

def comesBefore (p q : Point Float) : Bool :=
  p.x < q.x || (p.x == q.x && p.y < q.y)

/-- How far a point lies to the left of the way from `a` to `b`, as a multiple that depends on the
way alone. -/
def leftward (a b p : Point Float) : Float :=
  (a.y - b.y) * (p.x - a.x) + (b.x - a.x) * (p.y - a.y)

/-- The corners around points that lie to the left of the way from `a` to `b`, in the order from `b`
back to `a`, and the points in the order in which they are left; `fuel` bounds how many points there
are. -/
def cornersBeyond : Nat → Point Float → Point Float → List (Point Float) →
    List (Point Float) × List (Point Float)
  | 0, _, _, points => ([], points)
  | _ + 1, _, _, [] => ([], [])
  | _ + 1, _, _, [p] => ([p], [p])
  | fuel + 1, a, b, points =>
    let farthest := bestPlace (fun p best => leftward a b best ≤ leftward a b p) points
    match takeAt? farthest points with
    | none => ([], points)
    | some (far, rest) =>
      let (beyond, others) := parted (fun p => turn far b p = .left) rest
      let (after, beyond) := cornersBeyond fuel far b beyond
      let (beyond, others) := parted (fun p => turn a far p = .left) (beyond ++ others)
      let (before, beyond) := cornersBeyond fuel a far beyond
      (after ++ far :: before, far :: (beyond ++ others))

/-- The corners of the convex hull of four or more sites, beginning beside the greatest site and
ending with the least one. -/
def cornersAround (sites : List (Point Float)) : List (Point Float) :=
  let least := bestPlace comesBefore sites
  let greatest := bestPlace (fun p best => comesBefore best p) sites
  match takeAt? least sites with
  | none => []
  | some (low, rest) =>
    match takeAt? ((if greatest = 0 then least else greatest) - 1) rest with
    | none => [low]
    | some (high, rest) =>
      let beyond (a b : Point Float) (points : List (Point Float)) :
          List (Point Float) × List (Point Float) :=
        let (inside, others) := parted (fun p => turn a b p = .left) points
        let (corners, inside) := cornersBeyond points.length a b inside
        (corners, inside ++ others)
      let (above, rest) := beyond high low rest
      let (below, _) := beyond low high rest
      above ++ high :: (below ++ [low])

/-- The corners of the convex hull of the sites, in order. Up to three sites are corners all, unless
one of three lies straight between the others. -/
def hullRing (sites : List (Point Float)) : List (Point Float) :=
  if 3 < sites.length then cornersAround sites
  else
    match sites.mergeSort fun p q => !comesBefore q p with
    | [p, q, r] =>
      if turn p q r = .straight then [p, r]
      else if turn r p q = .right then [p, r, q]
      else [p, q, r]
    | sites => sites

/-! ## Points and the ring -/

def isBetween (x a b : Float) : Bool :=
  if a < b then a ≤ x && x ≤ b else b ≤ x && x ≤ a

/-- What the side from `a` to `b` adds to the number of times that a ring winds around a point: one
if it passes upward on the right, minus one if it passes downward there. A side through the point
has no answer. -/
def winding? (p : Point Float) (side : Point Float × Point Float) : Option Int :=
  let (a, b) := side
  let passing (inward : Turn) (count : Int) : Option Int :=
    match turn a b p with
    | .straight => if isBetween p.x a.x b.x then none else some 0
    | t => some (if t = inward then count else 0)
  if a.y ≤ p.y then
    if p.y ≤ b.y then passing .left (if b.y == p.y then 0 else 1) else some 0
  else if b.y ≤ p.y then passing .right (-1)
  else some 0

def outsideRing (ring : List (Point Float)) (p : Point Float) : Bool :=
  match (segments (ring ++ ring.take 1)).mapM (winding? p) with
  | some counts => counts.foldl (fun total count => total + count) 0 == 0
  | none => false

end StreetLinking.Plane
