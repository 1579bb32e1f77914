/-!
# Tables by vertex

A table has a list for each of some vertices. A vertex gets its entry with the first item.
-/
namespace StreetLinking.Street

abbrev VertexTable (β : Type) := List (Nat × List β)

namespace VertexTable

variable {β : Type}

def get (t : VertexTable β) (vertex : Nat) : List β :=
  (t.lookup vertex).getD []

def push (item : β) (vertex : Nat) : VertexTable β → VertexTable β
  | [] => [(vertex, [item])]
  | (v, items) :: rest =>
    if v = vertex then (v, items ++ [item]) :: rest else (v, items) :: push item vertex rest

def keys (t : VertexTable β) : List Nat :=
  t.map (·.1)

theorem get_cons (v : Nat) (items : List β) (rest : VertexTable β) (w : Nat) :
    get ((v, items) :: rest) w = if w = v then items else rest.get w := by
  unfold get
  rw [List.lookup_cons]
  by_cases hsame : w = v
  · rw [if_pos hsame, beq_iff_eq.2 hsame]
    rfl
  · rw [if_neg hsame, beq_eq_false_iff_ne.2 hsame]

theorem get_push (item : β) (v w : Nat) (t : VertexTable β) :
    (t.push item v).get w = t.get w ++ if w = v then [item] else [] := by
  induction t with
  | nil => exact get_cons v [item] [] w
  | cons entry rest ih =>
    obtain ⟨u, items⟩ := entry
    rw [push, get_cons]
    split
    · next hu =>
      subst hu
      rw [get_cons]
      split <;> simp
    · next hu =>
      rw [get_cons, ih]
      by_cases hsame : w = u
      · simp [hsame, hu]
      · simp [hsame]

theorem mem_keys_push (item : β) (v w : Nat) (t : VertexTable β) :
    w ∈ (t.push item v).keys ↔ w = v ∨ w ∈ t.keys := by
  induction t with
  | nil => simp [push, keys]
  | cons entry rest ih =>
    obtain ⟨u, items⟩ := entry
    unfold keys at ih ⊢
    rw [push]
    split
    · next hu => simp [hu]
    · simp [ih, or_left_comm]

end VertexTable

end StreetLinking.Street
