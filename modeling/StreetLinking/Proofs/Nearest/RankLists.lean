import Mathlib.Data.List.Nodup
import Mathlib.Data.List.Perm.Basic
import StreetLinking.Nearest.Ranking
/-!
# Rank lists

Items are ranked by distance and then by key. If the order of the distances is transitive, items
with keys of their own have one rank list only. Main statements: it is the one ordered list of the
items that have a defined distance, it is strictly increasing, and the order in which the items are
given does not matter.
-/

namespace StreetLinking.Nearest

open Number

variable {α β κ : Type} [Scalar α] [Ord κ]

def rankOrder (key : β → κ) : Ranked α β → Ranked α β → Ordering :=
  compareLex (fun a b => Scalar.order a.distance b.distance) (compareOn fun r => key r.item)

theorem notAfter_eq (key : β → κ) (a b : Ranked α β) :
    notAfter key a b = (rankOrder key a b).isLE :=
  rfl

theorem mem_rank {distance : β → α} {key : β → κ} {items : List β} {r : Ranked α β} :
    r ∈ rank distance key items ↔
      r.item ∈ items ∧ distance r.item = r.distance ∧ Scalar.isUndefined r.distance = false := by
  rw [(rank_perm distance key items).mem_iff, measured, List.mem_filter, List.mem_map,
    Bool.not_eq_true']
  constructor
  · rintro ⟨⟨item, hitem, rfl⟩, hdefined⟩
    exact ⟨hitem, rfl, hdefined⟩
  · rintro ⟨hitem, hdistance, hdefined⟩
    exact ⟨⟨r.item, hitem, by rw [hdistance]⟩, hdefined⟩

theorem measured_perm {xs ys : List β} (distance : β → α) (hperm : xs.Perm ys) :
    (measured distance xs).Perm (measured distance ys) :=
  (hperm.map _).filter _

theorem nodup_keys_rank (distance : β → α) {key : β → κ} {items : List β}
    (hkeys : (items.map key).Nodup) :
    ((rank distance key items).map fun r => key r.item).Nodup := by
  have hall : (items.map fun item => (⟨item, distance item⟩ : Ranked α β)).map
      (fun r => key r.item) = items.map key := List.map_map
  have hsub := (List.filter_sublist (p := fun r => !Scalar.isUndefined r.distance)
    (l := items.map fun item => (⟨item, distance item⟩ : Ranked α β))).map fun r => key r.item
  rw [hall] at hsub
  exact ((rank_perm distance key items).map _).nodup_iff.2 (hkeys.sublist hsub)

omit [Ord κ] in
theorem chain_eq_nil_iff {gap : α} {rs : List (Ranked α β)} : chain gap rs = [] ↔ rs = [] := by
  cases rs <;> simp [chain]

section Laws

variable [Std.TransCmp (Scalar.order : α → α → Ordering)] [Std.TransOrd κ]

instance transDistance :
    Std.TransCmp fun a b : Ranked α β => Scalar.order a.distance b.distance where
  eq_swap := Std.OrientedCmp.eq_swap
  isLE_trans := Std.TransCmp.isLE_trans

instance transRank (key : β → κ) :
    Std.TransCmp (rankOrder key : Ranked α β → Ranked α β → Ordering) :=
  inferInstanceAs (Std.TransCmp (compareLex _ _))

theorem pairwise_rank (distance : β → α) (key : β → κ) (items : List β) :
    (rank distance key items).Pairwise fun a b => notAfter key a b = true := by
  refine List.pairwise_mergeSort (fun a b c hab hbc => ?_) (fun a b => ?_) _
  · rw [notAfter_eq] at hab hbc ⊢
    exact Std.TransCmp.isLE_trans hab hbc
  · have hswap : rankOrder key b a = (rankOrder key a b).swap := Std.OrientedCmp.eq_swap
    rw [notAfter_eq, notAfter_eq, hswap]
    cases rankOrder key a b <;> rfl

variable [Std.LawfulEqOrd κ]

theorem eq_rank {distance : β → α} {key : β → κ} {items : List β} {rs : List (Ranked α β)}
    (hinj : ∀ a ∈ items, ∀ b ∈ items, key a = key b → a = b)
    (hperm : rs.Perm (measured distance items))
    (hordered : rs.Pairwise fun a b => notAfter key a b = true) :
    rs = rank distance key items := by
  have hperm' := hperm.trans (rank_perm distance key items).symm
  refine hperm'.eq_of_pairwise (fun a b ha hb hab hba => ?_) hordered (pairwise_rank _ _ _)
  obtain ⟨ha, hda, -⟩ := mem_rank.1 (hperm'.mem_iff.1 ha)
  obtain ⟨hb, hdb, -⟩ := mem_rank.1 hb
  have htie : rankOrder key a b = .eq := Std.OrientedCmp.isLE_antisymm hab hba
  have hkey := Std.LawfulEqOrd.eq_of_compare (Ordering.then_eq_eq.1 htie).2
  have hitem := hinj _ ha _ hb hkey
  cases a
  cases b
  obtain rfl := hitem
  obtain rfl := hda.symm.trans hdb
  rfl

theorem rank_congr {distance : β → α} {key : β → κ} {xs ys : List β} (hperm : xs.Perm ys)
    (hinj : ∀ a ∈ ys, ∀ b ∈ ys, key a = key b → a = b) :
    rank distance key xs = rank distance key ys :=
  eq_rank hinj ((rank_perm distance key xs).trans (measured_perm distance hperm))
    (pairwise_rank distance key xs)

theorem increasing_rank {distance : β → α} {key : β → κ} {items : List β}
    (hkeys : (items.map key).Nodup) :
    (rank distance key items).Pairwise fun a b => rankOrder key a b = .lt := by
  have hapart := List.pairwise_map.1 (nodup_keys_rank distance hkeys)
  refine (pairwise_rank distance key items).imp₂ (fun a b hle hne => ?_) hapart
  rw [notAfter_eq] at hle
  cases horder : rankOrder key a b with
  | lt => rfl
  | eq => exact absurd (Std.LawfulEqOrd.eq_of_compare (Ordering.then_eq_eq.1 horder).2) hne
  | gt => simp [horder] at hle

end Laws

end StreetLinking.Nearest
