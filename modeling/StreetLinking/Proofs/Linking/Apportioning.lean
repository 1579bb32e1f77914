import StreetLinking.Linking.Halves
import StreetLinking.Proofs.Number.Sums
/-!
# Apportioning lengths

A length is apportioned to two parts of a line by what they measure, and one of the parts gets the
rest. The two edges of a street see the parts in opposite orders and round the same one. Main
statement: nothing of a length is lost, and both edges give the same lengths to the same parts just
if there is no length to apportion or the parts measure more than nothing together. Otherwise both
edges give everything to the part that each of them sees second.
-/

namespace StreetLinking.Linking

open Number

section Parts

variable {total : Nat} {a b : Float} (back : Bool)

theorem apportion_of_pos (h : 0.0 < a + b) :
    apportion total a b back =
      if back then (total - share total b (a + b), share total b (a + b))
      else (share total a (a + b), total - share total a (a + b)) := by
  obtain ⟨-, hdefined, hplaces⟩ := floatLT_iff.1 h
  have hlarge : ¬ a + b ≤ 0.0 := fun hle => (floatLE_iff.1 hle).2.2.not_gt hplaces
  simp only [apportion, hdefined, hlarge, decide_false, Bool.or_self, Bool.false_eq_true, if_false]

theorem apportion_of_not_pos (h : ¬ 0.0 < a + b) : apportion total a b back = (0, total) := by
  have hnothing : ((a + b).isNaN || decide (a + b ≤ 0.0)) = true := by
    by_contra hmeasured
    rw [Bool.not_eq_true, Bool.or_eq_false_iff, decide_eq_false_iff_not] at hmeasured
    exact h (floatLT_of_not_le (by decide) hmeasured.1 hmeasured.2)
  simp only [apportion, hnothing, if_true]

/-- The other edge of a street sees the parts in the opposite order, and gives the same lengths to
them unless they measure nothing. -/
theorem apportion_swap_iff :
    apportion total b a (!back) = (apportion total a b back).swap ↔ total = 0 ∨ 0.0 < a + b := by
  by_cases h : 0.0 < a + b
  · have hswapped : 0.0 < b + a := floatAdd_comm a b ▸ h
    rw [apportion_of_pos _ h, apportion_of_pos _ hswapped, floatAdd_comm b a]
    refine iff_of_true ?_ (Or.inr h)
    cases back <;> rfl
  · have hswapped : ¬ 0.0 < b + a := floatAdd_comm a b ▸ h
    rw [apportion_of_not_pos _ h, apportion_of_not_pos _ hswapped, or_iff_left h]
    simp [eq_comm]

end Parts

/-- Nothing of a length is lost in apportioning it, so no difference is cut off at zero, and what
fits a count goes on fitting it. The two edges of a street, which see the parts in opposite orders,
give the same lengths to the same parts just if there is no length, or what one part measures
exceeds the negative of what the other does, whatever the sum is rounded to. Otherwise both give
everything to the part that they see second. -/
theorem apportioned_alike_just_if_measured (total : Nat) (a b : Float) (back : Bool) :
    (apportion total a b back).1 + (apportion total a b back).2 = total ∧
      (apportion total b a (!back) = (apportion total a b back).swap ↔ total = 0 ∨ -b < a) ∧
      (-b < a ∨
        apportion total a b back = (0, total) ∧ apportion total b a (!back) = (0, total)) := by
  refine ⟨apportion_sum total a b back, ?_, ?_⟩
  · rw [← floatAdd_pos_iff]
    exact apportion_swap_iff back
  · rw [← floatAdd_pos_iff]
    refine or_iff_not_imp_left.2 fun h =>
      ⟨apportion_of_not_pos back h, apportion_of_not_pos (!back) ?_⟩
    rwa [floatAdd_comm]

/-- Half a metre of parts that measure nothing, and of parts that measure nothing defined, is all
given to the second part by both edges of a street. -/
theorem apportioned_apart :
    apportion 500 0.0 0.0 false = (0, 500) ∧
      apportion 500 0.0 0.0 true ≠ (apportion 500 0.0 0.0 false).swap ∧
      apportion 500 1.0 (0.0 / 0.0) true ≠ (apportion 500 (0.0 / 0.0) 1.0 false).swap := by
  decide

end StreetLinking.Linking
