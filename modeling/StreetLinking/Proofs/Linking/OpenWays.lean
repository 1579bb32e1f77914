import Mathlib.Data.List.Nodup
import StreetLinking.Linking.Connect
/-!
# Ways that are open

An area is crossed from one vertex along the ways to and from other vertices that no edge takes yet.
Main statement: the edges that are missing are just those along open ways, one for each.
-/

namespace StreetLinking.Linking

open Number Plane Street Streets

variable {α : Type} [Scalar α]

/-! ## Ways that are taken -/

def HasEdge (g : Streets α) (source target : Nat) : Prop :=
  ∃ e ∈ g.edges, e.source = source ∧ e.target = target

omit [Scalar α] in
theorem connects_iff_hasEdge {g : Streets α} {source target : Nat} :
    g.connects source target (fun _ => true) = true ↔ HasEdge g source target := by
  simp [connects, outgoing, HasEdge]

omit [Scalar α] in
theorem HasEdge.mono {g g' : Streets α} (h : ∀ e ∈ g.edges, e ∈ g'.edges) {source target : Nat}
    (hthere : HasEdge g source target) : HasEdge g' source target := by
  obtain ⟨e, he, hends⟩ := hthere
  exact ⟨e, h e he, hends⟩

/-! ## The ways that are open -/

def crossingsTo (g : Streets α) (name : String) (vertex : Nat) (position : Point α) (other : Nat) :
    List (Nat × Nat × EdgeData α) :=
  match g.position? other with
  | none => []
  | some there =>
    (if g.connects vertex other fun _ => true then [] else
      [(vertex, other, .measured .street [position, there] .unmotorised name false)]) ++
    (if g.connects other vertex fun _ => true then [] else
      [(other, vertex, .measured .street [there, position] .unmotorised name true)])

theorem crossings_eq (g : Streets α) (name : String) (vertex : Nat) (position : Point α)
    (others : List Nat) :
    crossings g name vertex position others =
      others.eraseDups.flatMap (crossingsTo g name vertex position) := by
  have hleaves (other : Nat) : ((g.outgoing vertex).map (·.target)).contains other =
      g.connects vertex other fun _ => true := by
    rw [Bool.eq_iff_iff]
    simp [connects]
  have harrives (other : Nat) : ((g.incoming vertex).map (·.source)).contains other =
      g.connects other vertex fun _ => true := by
    rw [Bool.eq_iff_iff, connects_iff_hasEdge]
    simp [incoming, HasEdge, and_assoc, and_comm]
  simp only [crossings, hleaves, harrives]
  rfl

theorem mem_crossingsTo_iff {g : Streets α} {name : String} {vertex : Nat} {position : Point α}
    {other : Nat} {c : Nat × Nat × EdgeData α} :
    c ∈ crossingsTo g name vertex position other ↔
      ∃ there, g.position? other = some there ∧
        (¬ HasEdge g vertex other ∧
            c = (vertex, other, .measured .street [position, there] .unmotorised name false) ∨
          ¬ HasEdge g other vertex ∧
            c = (other, vertex, .measured .street [there, position] .unmotorised name true)) := by
  unfold crossingsTo
  cases g.position? other with
  | none => simp
  | some there =>
    simp only [← connects_iff_hasEdge, List.mem_append, Option.some.injEq, exists_eq_left']
    cases g.connects vertex other fun _ => true <;>
      cases g.connects other vertex fun _ => true <;> simp

theorem mem_crossings_iff {g : Streets α} {name : String} {vertex : Nat} {position : Point α}
    {others : List Nat} {c : Nat × Nat × EdgeData α} :
    c ∈ crossings g name vertex position others ↔
      ∃ other ∈ others, c ∈ crossingsTo g name vertex position other := by
  simp only [crossings_eq, List.mem_flatMap, List.mem_eraseDups]

theorem ends_of_mem_crossingsTo {g : Streets α} {name : String} {vertex : Nat} {position : Point α}
    {other : Nat} {c : Nat × Nat × EdgeData α}
    (hc : c ∈ crossingsTo g name vertex position other) :
    (c.1, c.2.1) = (vertex, other) ∨ (c.1, c.2.1) = (other, vertex) := by
  obtain ⟨there, -, ⟨-, rfl⟩ | ⟨-, rfl⟩⟩ := mem_crossingsTo_iff.1 hc
  · exact Or.inl rfl
  · exact Or.inr rfl

theorem kind_of_mem_crossings {g : Streets α} {name : String} {vertex : Nat} {position : Point α}
    {others : List Nat} {c : Nat × Nat × EdgeData α}
    (hc : c ∈ crossings g name vertex position others) : c.2.2.kind = .street := by
  obtain ⟨other, -, hc⟩ := mem_crossings_iff.1 hc
  obtain ⟨there, -, ⟨-, rfl⟩ | ⟨-, rfl⟩⟩ := mem_crossingsTo_iff.1 hc
  · rfl
  · rfl

theorem nodup_eraseDups {β : Type} [BEq β] [LawfulBEq β] (l : List β) : l.eraseDups.Nodup := by
  cases l with
  | nil => simp
  | cons b rest =>
    rw [List.eraseDups_cons, List.nodup_cons]
    exact ⟨by simp [List.mem_eraseDups], nodup_eraseDups (rest.filter fun c => !c == b)⟩
termination_by l.length
decreasing_by exact Nat.lt_succ_of_le (List.length_filter_le _ _)

theorem nodup_crossings (g : Streets α) (name : String) {vertex : Nat} (position : Point α)
    {others : List Nat} (hothers : vertex ∉ others) :
    ((crossings g name vertex position others).map fun c => (c.1, c.2.1)).Nodup := by
  have hne {other : Nat} (hother : other ∈ others.eraseDups) : other ≠ vertex :=
    fun heq => hothers (heq ▸ List.mem_eraseDups.1 hother)
  rw [crossings_eq, List.map_flatMap, List.nodup_flatMap]
  refine ⟨fun other hother => ?_, ?_⟩
  · have hswap := hne hother
    unfold crossingsTo
    split
    · simp
    · split <;> split <;> simp [hswap]
  · refine (nodup_eraseDups others).imp_of_mem fun {a b} ha hb hab c hca hcb => ?_
    obtain ⟨there, hthere, rfl⟩ := List.mem_map.1 hca
    obtain ⟨back, hback, hsame⟩ := List.mem_map.1 hcb
    have hends := ends_of_mem_crossingsTo hthere
    have hends' := ends_of_mem_crossingsTo hback
    rw [hsame] at hends'
    rcases hends with hends | hends <;> rw [hends] at hends' <;>
      simp [hab, hne ha, (hne hb).symm] at hends'

end StreetLinking.Linking
