import StreetLinking.Street.Construction
/-!
# Connectors in the street graph

Connectors join a linked vertex with a vertex of a street, and a cut in the edge of an area with the
other vertices of the area. An edge that is there already is not added again, and connectors are not
indexed.
-/
namespace StreetLinking.Linking

open Number Plane Street

variable {α : Type} [Scalar α]

/-- A number of added edges after a further attempt. -/
abbrev Added (α : Type) := Streets α × Nat

/-- Adds an edge unless one of an admitted kind leads the same way. -/
def connectUnless (admits : EdgeKind → Bool) (source target : Nat) (data : EdgeData α)
    (s : Added α) : Added α :=
  if s.1.connects source target admits then s
  else ((s.1.insertEdge source target data).1, s.2 + 1)

/-- The connectors between a linked vertex and a vertex of a street, as source, target and edge. -/
def connectors (entity street : Nat × Vertex α) (role : Role) : List (Nat × Nat × EdgeData α) :=
  let rule := role.connector
  let a := entity.2.position
  let b := street.2.position
  let length := millimetres (metresBetween a b)
  let data (line : Line α) (back : Bool) : EdgeData α :=
    ⟨.connector rule.kind, entity.2.label, rule.permission, length, back, line⟩
  (if rule.direction.leaves then [(entity.1, street.1, data [a, b] false)] else []) ++
    (if rule.direction.arrives then [(street.1, entity.1, data [b, a] (rule.direction == .both))]
      else [])

def connect (g : Streets α) (entity street : Nat) (role : Role) : Added α :=
  match g.vertex? entity, g.vertex? street with
  | some a, some b =>
    (connectors (entity, a) (street, b) role).foldl
      (fun s c => connectUnless (· == .connector role.connector.kind) c.1 c.2.1 c.2.2 s) (g, 0)
  | _, _ => (g, 0)

/-- The edges that a vertex lacks to and from other vertices of an area, as source, target and edge.
An edge of any kind that is there already counts. -/
def crossings (g : Streets α) (name : String) (vertex : Nat) (position : Point α)
    (others : List Nat) : List (Nat × Nat × EdgeData α) :=
  let targets := (g.outgoing vertex).map (·.target)
  let sources := (g.incoming vertex).map (·.source)
  let data (line : Line α) (back : Bool) : EdgeData α :=
    .measured .street line .unmotorised name back
  others.eraseDups.flatMap fun other =>
    match g.position? other with
    | none => []
    | some there =>
      (if targets.contains other then [] else [(vertex, other, data [position, there] false)]) ++
        (if sources.contains other then [] else [(other, vertex, data [there, position] true)])

theorem not_connects_of_mem_crossings {g : Streets α} {name : String} {vertex : Nat}
    {position : Point α} {others : List Nat} {source target : Nat} {data : EdgeData α}
    (h : (source, target, data) ∈ crossings g name vertex position others) :
    g.connects source target (fun _ => true) = false ∧
      (source = vertex ∧ target ∈ others ∨ target = vertex ∧ source ∈ others) := by
  simp only [crossings, List.mem_flatMap, List.mem_eraseDups] at h
  obtain ⟨other, hother, h⟩ := h
  split at h
  · simp at h
  · simp only [List.mem_append] at h
    rcases h with h | h
    · split at h
      · simp at h
      · next hfree =>
        simp only [List.mem_singleton, Prod.mk.injEq] at h
        obtain ⟨rfl, rfl, -⟩ := h
        exact ⟨by simpa [Streets.connects] using hfree, .inl ⟨rfl, hother⟩⟩
    · split at h
      · simp at h
      · next hfree =>
        simp only [List.mem_singleton, Prod.mk.injEq] at h
        obtain ⟨rfl, rfl, -⟩ := h
        refine ⟨?_, .inr ⟨rfl, hother⟩⟩
        simp only [Streets.incoming, List.contains_eq_mem, List.mem_map, List.mem_filter,
          beq_iff_eq, decide_eq_true_eq] at hfree
        simp only [Streets.connects, Streets.outgoing, List.any_eq_false, List.mem_filter,
          beq_iff_eq, Bool.and_true]
        exact fun e he ht => hfree ⟨e, ⟨he.1, ht⟩, he.2⟩

/-- Connects a vertex with every other vertex of an area, and counts the added edges. -/
def crossArea (g : Streets α) (vertex area : Nat) : Added α :=
  match g.areas[area]?, g.position? vertex with
  | some a, some position =>
    let missing := crossings g a.name vertex position (a.vertices.filter (· != vertex))
    (missing.foldl (fun g c => (g.insertEdge c.1 c.2.1 c.2.2).1) g, missing.length)
  | _, _ => (g, 0)

end StreetLinking.Linking
