/-!
# Travel modes

A street may be used by some of three modes. The same sets of modes say who may travel along an edge
and for whom an edge is looked for.
-/
namespace StreetLinking.Street

inductive Mode where
  | walk
  | bicycle
  | car
deriving DecidableEq

namespace Mode

def ofName? : String → Option Mode
  | "walk" => some walk
  | "bicycle" => some bicycle
  | "car" => some car
  | _ => none

def name : Mode → String
  | walk => "walk"
  | bicycle => "bicycle"
  | car => "car"

theorem ofName?_eq_some_iff (s : String) (mode : Mode) : ofName? s = some mode ↔ s = mode.name := by
  constructor
  · intro h
    unfold ofName? at h
    split at h <;> simp_all [name] <;> simp [← h]
  · rintro rfl
    cases mode <;> rfl

end Mode

structure ModeSet where
  walk : Bool
  bicycle : Bool
  car : Bool
deriving DecidableEq

namespace ModeSet

def empty : ModeSet := ⟨false, false, false⟩

def all : ModeSet := ⟨true, true, true⟩

def unmotorised : ModeSet := ⟨true, true, false⟩

def single : Mode → ModeSet
  | .walk => ⟨true, false, false⟩
  | .bicycle => ⟨false, true, false⟩
  | .car => ⟨false, false, true⟩

/-- The modes of the edges that may be linked to for `mode`; cyclists may get off and walk. -/
def forLinking : Mode → ModeSet
  | .bicycle => unmotorised
  | mode => single mode

def contains (s : ModeSet) : Mode → Bool
  | .walk => s.walk
  | .bicycle => s.bicycle
  | .car => s.car

def meets (s t : ModeSet) : Bool :=
  s.walk && t.walk || s.bicycle && t.bicycle || s.car && t.car

def union (s t : ModeSet) : ModeSet :=
  ⟨s.walk || t.walk, s.bicycle || t.bicycle, s.car || t.car⟩

theorem meets_eq_true_iff (s t : ModeSet) :
    s.meets t = true ↔ ∃ mode, s.contains mode = true ∧ t.contains mode = true := by
  constructor
  · intro h
    simp only [meets, Bool.or_eq_true, Bool.and_eq_true] at h
    rcases h with (h | h) | h
    · exact ⟨.walk, h⟩
    · exact ⟨.bicycle, h⟩
    · exact ⟨.car, h⟩
  · rintro ⟨mode, hs, ht⟩
    cases mode <;> simp_all [meets, contains]

theorem contains_union (s t : ModeSet) (mode : Mode) :
    (s.union t).contains mode = (s.contains mode || t.contains mode) := by
  cases mode <;> rfl

end ModeSet

end StreetLinking.Street
