import Mathlib.Order.Compare
import StreetLinking.Nearest.Search
import StreetLinking.Proofs.Nearest.RankLists
import StreetLinking.Proofs.Plane.ExactNumbers
/-!
# What lies within a limit

Over exact numbers distances are totally ordered, so items with keys of their own have one rank
list, and in it what lies within a limit comes first. Main statement: the nearest items that lie
within a limit are the nearest of the items that lie within it. So nothing beyond the limit has a
say in them.
-/

namespace StreetLinking.Nearest

open Number

variable {K β : Type} [Field K] [LinearOrder K] [ExactNumbers K]

/-! ## The order of ranks -/

instance transExact : Std.TransCmp (Scalar.order : K → K → Ordering) :=
  inferInstanceAs (Std.TransOrd K)

theorem notAfter_iff {key : β → Nat} {a b : Ranked K β} :
    notAfter key a b = true ↔
      a.distance < b.distance ∨ a.distance = b.distance ∧ key a.item ≤ key b.item := by
  show ((compare a.distance b.distance).then (compare (key a.item) (key b.item))).isLE = true ↔ _
  rcases lt_trichotomy a.distance b.distance with hlt | heq | hgt
  · rw [compare_lt_iff_lt.2 hlt]
    exact iff_of_true rfl (Or.inl hlt)
  · rw [compare_eq_iff_eq.2 heq]
    simp [heq, Nat.isLE_compare]
  · rw [compare_gt_iff_gt.2 hgt]
    refine iff_of_false Bool.false_ne_true ?_
    rintro (hlt | ⟨heq, -⟩)
    · exact hgt.not_gt hlt
    · exact hgt.ne' heq

theorem measured_eq_map (distance : β → K) (items : List β) :
    measured distance items = items.map fun item => ⟨item, distance item⟩ := by
  rw [measured, List.filter_eq_self]
  intro r _
  simp [Scalar.isUndefined]

theorem pairwise_distance_rank (distance : β → K) (key : β → Nat) (items : List β) :
    (rank distance key items).Pairwise fun a b => a.distance ≤ b.distance := by
  refine (pairwise_rank distance key items).imp fun h => ?_
  rcases notAfter_iff.1 h with hlt | ⟨heq, -⟩
  · exact hlt.le
  · exact heq.le

theorem filter_rank {distance : β → K} {key : β → Nat} {items : List β} (limit : K)
    (hinj : ∀ a ∈ items, ∀ b ∈ items, key a = key b → a = b) :
    (rank distance key items).filter (fun r => decide (r.distance ≤ limit)) =
      rank distance key (items.filter fun item => decide (distance item ≤ limit)) := by
  refine eq_rank (fun a ha b hb => ?_) ?_ ((pairwise_rank _ _ _).filter _)
  · exact hinj a (List.mem_filter.1 ha).1 b (List.mem_filter.1 hb).1
  · have hmeasured : (measured distance items).filter (fun r => decide (r.distance ≤ limit)) =
        measured distance (items.filter fun item => decide (distance item ≤ limit)) := by
      rw [measured_eq_map, measured_eq_map, List.filter_map]
      rfl
    rw [← hmeasured]
    exact (rank_perm distance key items).filter _

/-! ## Chains within a limit -/

section Chains

variable {gap limit : K} {rs : List (Ranked K β)}

theorem filter_eq_nil_of_lt {r : Ranked K β} {rest : List (Ranked K β)}
    (hordered : (r :: rest).Pairwise fun a b => a.distance ≤ b.distance)
    (hr : limit < r.distance) : rest.filter (fun r => decide (r.distance ≤ limit)) = [] := by
  rw [List.filter_eq_nil_iff]
  intro s hs
  have hle := (List.pairwise_cons.1 hordered).1 s hs
  simpa using hr.trans_le hle

theorem filter_chainAfter (gap limit last : K)
    (hordered : rs.Pairwise fun a b => a.distance ≤ b.distance) :
    (chainAfter gap last rs).filter (fun r => decide (r.distance ≤ limit)) =
      chainAfter gap last (rs.filter fun r => decide (r.distance ≤ limit)) := by
  induction rs generalizing last with
  | nil => rfl
  | cons r rest ih =>
    have hrest := ih r.distance (List.pairwise_cons.1 hordered).2
    by_cases hr : r.distance ≤ limit
    · rw [List.filter_cons_of_pos (by simpa using hr), chainAfter, chainAfter]
      split
      · rfl
      · rw [List.filter_cons_of_pos (by simpa using hr), hrest]
    · have hnone := filter_eq_nil_of_lt hordered (not_le.1 hr)
      rw [hnone] at hrest
      rw [List.filter_cons_of_neg (by simpa using hr), hnone, chainAfter, chainAfter]
      split
      · rfl
      · rw [List.filter_cons_of_neg (by simpa using hr), hrest]
        rfl

theorem filter_chain (hordered : rs.Pairwise fun a b => a.distance ≤ b.distance) :
    (chain gap rs).filter (fun r => decide (r.distance ≤ limit)) =
      chain gap (rs.filter fun r => decide (r.distance ≤ limit)) := by
  cases rs with
  | nil => rfl
  | cons r rest =>
    have hrest := filter_chainAfter gap limit r.distance (List.pairwise_cons.1 hordered).2
    rw [chain]
    by_cases hr : r.distance ≤ limit
    · rw [List.filter_cons_of_pos (by simpa using hr), List.filter_cons_of_pos (by simpa using hr),
        hrest]
      rfl
    · rw [List.filter_cons_of_neg (by simpa using hr), List.filter_cons_of_neg (by simpa using hr),
        hrest, filter_eq_nil_of_lt hordered (not_le.1 hr)]
      rfl

end Chains

theorem filter_nearest {distance : β → K} {key : β → Nat} {items : List β} (gap limit : K)
    (hinj : ∀ a ∈ items, ∀ b ∈ items, key a = key b → a = b) :
    (nearest distance key gap items).filter (fun r => decide (r.distance ≤ limit)) =
      nearest distance key gap (items.filter fun item => decide (distance item ≤ limit)) := by
  rw [nearest, filter_chain (pairwise_distance_rank distance key items), filter_rank limit hinj]
  rfl

theorem filter_withinRadius {limit : K} {rs : List (Ranked K β)}
    (hordered : rs.Pairwise fun a b => a.distance ≤ b.distance) :
    (withinRadius limit rs).filter (fun r => decide (r.distance ≤ limit)) =
      rs.filter fun r => decide (r.distance ≤ limit) := by
  cases rs with
  | nil => rfl
  | cons r rest =>
    rw [withinRadius]
    split
    · rfl
    · next hr =>
      rw [List.filter_cons_of_neg (by simpa using hr),
        filter_eq_nil_of_lt hordered (not_le.1 hr)]
      rfl

theorem pairwise_distance_nearest (distance : β → K) (key : β → Nat) (gap : K) (items : List β) :
    (nearest distance key gap items).Pairwise fun a b => a.distance ≤ b.distance :=
  (pairwise_distance_rank distance key items).sublist ( chain_prefix gap _).sublist

theorem withinRadius_eq_nil_iff {limit : K} {rs : List (Ranked K β)}
    (hordered : rs.Pairwise fun a b => a.distance ≤ b.distance) :
    withinRadius limit rs = [] ↔ rs.filter (fun r => decide (r.distance ≤ limit)) = [] := by
  rw [← filter_withinRadius hordered]
  cases rs with
  | nil => simp [withinRadius]
  | cons r rest =>
    rw [withinRadius]
    split
    · next hr => simp [hr]
    · simp

/-- Two searches that find the same items within a limit have the same nearest items within it, and
the first of them finds nothing exactly if there is no such item. -/
theorem withinRadius_nearest {distance : β → K} {key : β → Nat} {gap limit : K} {found all : List β}
    (hinj : ∀ a ∈ all, ∀ b ∈ all, key a = key b → a = b) (hfound : found ⊆ all)
    (hnear : (found.filter fun item => decide (distance item ≤ limit)).Perm
      (all.filter fun item => decide (distance item ≤ limit))) :
    let result := withinRadius limit (nearest distance key gap found)
    result.filter (fun r => decide (r.distance ≤ limit)) =
      (nearest distance key gap all).filter (fun r => decide (r.distance ≤ limit)) ∧
    (result = [] ↔ ∀ item ∈ all, limit < distance item) := by
  intro result
  have hinj' : ∀ a ∈ found, ∀ b ∈ found, key a = key b → a = b :=
    fun a ha b hb => hinj a (hfound ha) b (hfound hb)
  have hordered := pairwise_distance_nearest distance key gap found
  have hsame : (nearest distance key gap found).filter (fun r => decide (r.distance ≤ limit)) =
      (nearest distance key gap all).filter (fun r => decide (r.distance ≤ limit)) := by
    rw [filter_nearest gap limit hinj', filter_nearest gap limit hinj, nearest, nearest,
      rank_congr hnear fun a ha b hb => ?_]
    exact hinj a (List.mem_filter.1 ha).1 b (List.mem_filter.1 hb).1
  refine ⟨(filter_withinRadius hordered).trans hsame, ?_⟩
  have hempty : rank distance key (all.filter fun item => decide (distance item ≤ limit)) = [] ↔
      all.filter (fun item => decide (distance item ≤ limit)) = [] := by
    rw [← List.length_eq_zero_iff, (rank_perm _ _ _).length_eq, measured_eq_map, List.length_map,
      List.length_eq_zero_iff]
  rw [withinRadius_eq_nil_iff hordered, hsame, filter_nearest gap limit hinj, nearest,
    chain_eq_nil_iff, hempty, List.filter_eq_nil_iff]
  simp

end StreetLinking.Nearest
