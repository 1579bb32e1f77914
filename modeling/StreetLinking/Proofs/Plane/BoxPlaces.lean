import Mathlib.Data.List.Count
import Mathlib.Data.List.Nodup
import StreetLinking.Plane.BoxIndex
/-!
# A search finds nothing twice

Entries of a tree of boxes move when nodes overflow: they are sorted, taken out and entered again,
or a node is cut in two. However they move, a place never occurs more often than it was entered.
Main statement: an index that was filled entry by entry finds each of its items at most once,
whatever its boxes are.
-/

namespace StreetLinking.Plane

open Number

variable {α : Type} [Scalar α]

namespace BoxTree

/-! ## How often a place occurs -/

mutual

def occurrences (place : Nat) : BoxTree α → Nat
  | entry _ own => if own = place then 1 else 0
  | node _ children => occurrencesInAll place children

def occurrencesInAll (place : Nat) : List (BoxTree α) → Nat
  | [] => 0
  | t :: rest => occurrences place t + occurrencesInAll place rest

end

namespace Growth

def occurrences (place : Nat) : Growth α → Nat
  | settled => 0
  | halved second => BoxTree.occurrences place second
  | loosened entries => occurrencesInAll place entries

end Growth

omit [Scalar α] in
theorem occurrencesInAll_append (place : Nat) (trees others : List (BoxTree α)) :
    occurrencesInAll place (trees ++ others) =
      occurrencesInAll place trees + occurrencesInAll place others := by
  induction trees with
  | nil => simp [occurrencesInAll]
  | cons t rest ih =>
    rw [List.cons_append, occurrencesInAll, occurrencesInAll, ih]
    omega

omit [Scalar α] in
theorem occurrencesInAll_perm (place : Nat) {trees others : List (BoxTree α)}
    (h : trees.Perm others) : occurrencesInAll place trees = occurrencesInAll place others := by
  induction h with
  | nil => rfl
  | cons t _ ih => rw [occurrencesInAll, occurrencesInAll, ih]
  | swap t u rest =>
    simp only [occurrencesInAll]
    omega
  | trans _ _ ih ih' => exact ih.trans ih'

theorem occurrences_ofChildren (place : Nat) (children : List (BoxTree α)) :
    occurrences place (ofChildren children) = occurrencesInAll place children := by
  rw [ofChildren, occurrences]

/-! ## Nodes that overflow keep their entries -/

theorem cut_append (children : List (BoxTree α)) :
    (cut children).1 ++ (cut children).2 = children := by
  simp only [cut, List.splitAt_eq, List.take_append_drop]

theorem halves_perm (children : List (BoxTree α)) :
    ((halves children).1 ++ (halves children).2).Perm children := by
  have hleft (p : BoxTree α → BoxTree α → Bool) (trees : List (BoxTree α))
      (h : trees.Perm children) : (trees.mergeSort p).Perm children :=
    (List.mergeSort_perm trees p).trans h
  unfold halves
  dsimp only
  split
  · rw [cut_append]
    exact hleft _ _ (hleft _ _ (hleft _ _ (.refl children)))
  · rw [cut_append]
    exact hleft _ _ (hleft _ _ (.refl children))

/-- Settling a node neither loses nor repeats an entry. -/
def Settles (settle : Box α → List (BoxTree α) → BoxTree α × Growth α) : Prop :=
  ∀ place box children, occurrences place (settle box children).1 +
    (settle box children).2.occurrences place = occurrencesInAll place children

theorem settles_loosen : Settles (loosen : Box α → List (BoxTree α) → BoxTree α × Growth α) := by
  intro place box children
  unfold loosen
  split
  · dsimp only
    generalize hsorted : children.mergeSort
      (fun a b => decide (box.offCenter a.box ≤ box.offCenter b.box)) = sorted
    have hperm : sorted.Perm children := hsorted ▸ List.mergeSort_perm children _
    have hboth := occurrencesInAll_append place (sorted.take (children.length - takenOut))
      (sorted.drop (children.length - takenOut))
    rw [List.take_append_drop, occurrencesInAll_perm place hperm] at hboth
    rw [occurrences_ofChildren, Growth.occurrences,
      occurrencesInAll_perm place (List.reverse_perm _)]
    exact hboth.symm
  · rfl

theorem settles_halve : Settles (halve : Box α → List (BoxTree α) → BoxTree α × Growth α) := by
  intro place box children
  unfold halve
  split
  · have hboth := occurrencesInAll_perm place (halves_perm children)
    rw [occurrencesInAll_append] at hboth
    rw [occurrences_ofChildren, Growth.occurrences, occurrences_ofChildren]
    exact hboth
  · rfl

/-! ## Entering -/

mutual

/-- A tree and what it leaves to be done hold no more than the tree before and the new entry. -/
theorem occurrences_add_le {settle : Box α → List (BoxTree α) → BoxTree α × Growth α}
    (hsettle : Settles settle) (place : Nat) (e : BoxTree α) (t : BoxTree α) :
    occurrences place (add settle e t).1 + (add settle e t).2.occurrences place ≤
      occurrences place t + occurrences place e := by
  cases t with
  | entry box own =>
    simp only [add, Growth.occurrences]
    omega
  | node box children =>
    rw [add, occurrences]
    split
    · rw [hsettle, occurrencesInAll_append]
      simp [occurrencesInAll]
    · have hall := occurrencesInAll_addAt_le hsettle place e children (chosen e.box children)
      split
      · next heq =>
        rw [heq] at hall
        exact hall
      · next second heq =>
        rw [heq] at hall
        rw [hsettle, occurrencesInAll_append]
        exact hall
      · next entries heq =>
        rw [heq] at hall
        rw [occurrences_ofChildren]
        exact hall

theorem occurrencesInAll_addAt_le {settle : Box α → List (BoxTree α) → BoxTree α × Growth α}
    (hsettle : Settles settle) (place : Nat) (e : BoxTree α) (trees : List (BoxTree α))
    (child : Nat) :
    occurrencesInAll place (addAt settle e trees child).1 +
      (addAt settle e trees child).2.occurrences place ≤
        occurrencesInAll place trees + occurrences place e := by
  cases trees with
  | nil =>
    simp only [addAt, Growth.occurrences]
    omega
  | cons t rest =>
    cases child with
    | zero =>
      have hfirst := occurrences_add_le hsettle place e t
      rw [addAt]
      simp only [occurrencesInAll]
      omega
    | succ child =>
      have hrest := occurrencesInAll_addAt_le hsettle place e rest child
      rw [addAt]
      simp only [occurrencesInAll]
      omega

end

theorem occurrences_enterAgain_le (place : Nat) (root e : BoxTree α) :
    occurrences place (enterAgain root e) ≤ occurrences place root + occurrences place e := by
  have hadd := occurrences_add_le settles_halve place e root
  unfold enterAgain
  split
  · next heq =>
    rw [heq] at hadd
    simp only [occurrences, occurrencesInAll, Growth.occurrences] at hadd ⊢
    omega
  · next heq =>
    rw [heq] at hadd
    exact Nat.le_trans (Nat.le_add_right _ _) hadd

theorem occurrences_foldl_enterAgain_le (place : Nat) (entries : List (BoxTree α))
    (root : BoxTree α) :
    occurrences place (entries.foldl enterAgain root) ≤
      occurrences place root + occurrencesInAll place entries := by
  induction entries generalizing root with
  | nil => exact Nat.le_refl _
  | cons e rest ih =>
    have hfirst := occurrences_enterAgain_le place root e
    have hrest := ih (enterAgain root e)
    rw [List.foldl_cons, occurrencesInAll]
    omega

theorem occurrences_enter_le (place : Nat) (root : BoxTree α) (box : Box α) (own : Nat) :
    occurrences place (root.enter box own) ≤
      occurrences place root + if own = place then 1 else 0 := by
  have hadd := occurrences_add_le settles_loosen place (entry box own) root
  rw [occurrences.eq_1 place box own] at hadd
  unfold enter
  split
  · next entries heq =>
    rw [heq] at hadd
    exact Nat.le_trans (occurrences_foldl_enterAgain_le place entries _) hadd
  · next heq =>
    rw [heq] at hadd
    exact Nat.le_trans (Nat.le_add_right _ _) hadd

theorem occurrences_ofBoxes_le (place : Nat) (boxes : List (Box α)) :
    occurrences place (ofBoxes boxes) ≤ if place < boxes.length then 1 else 0 := by
  have hfold (more : List (Box α)) (first : Nat) (root : BoxTree α) :
      occurrences place ((more.zipIdx first).foldl (fun root b => root.enter b.1 b.2) root) ≤
        occurrences place root +
          if first ≤ place ∧ place < first + more.length then 1 else 0 := by
    induction more generalizing first root with
    | nil => simp
    | cons box rest ih =>
      have hfirst := occurrences_enter_le place root box first
      have hrest := ih (first + 1) (root.enter box first)
      simp only [List.zipIdx_cons, List.foldl_cons, List.length_cons]
      by_cases hplace : first = place
      · subst hplace
        simp only [if_true] at hfirst
        rw [if_neg (by omega)] at hrest
        rw [if_pos (by omega)]
        omega
      · rw [if_neg hplace] at hfirst
        by_cases hin : first + 1 ≤ place ∧ place < first + 1 + rest.length
        · rw [if_pos hin] at hrest
          rw [if_pos (by omega)]
          omega
        · rw [if_neg hin] at hrest
          rw [if_neg (by omega)]
          omega
  have hroot : occurrences place (node Box.nothing [] : BoxTree α) = 0 := rfl
  have hall := hfold boxes 0 (node Box.nothing [])
  rw [hroot] at hall
  simpa [ofBoxes] using hall

/-! ## Finding -/

mutual

theorem count_places_le (box : Box α) (place : Nat) (t : BoxTree α) :
    (places box t).count place ≤ occurrences place t := by
  cases t with
  | entry own stored =>
    rw [places, occurrences]
    split
    · by_cases hplace : stored = place <;> simp [hplace]
    · exact Nat.zero_le _
  | node own children =>
    rw [places, occurrences]
    split
    · exact count_placesOfAll_le box place children
    · exact Nat.zero_le _

theorem count_placesOfAll_le (box : Box α) (place : Nat) (trees : List (BoxTree α)) :
    (placesOfAll box trees).count place ≤ occurrencesInAll place trees := by
  cases trees with
  | nil => exact Nat.le_refl 0
  | cons t rest =>
    have hfirst := count_places_le box place t
    have hrest := count_placesOfAll_le box place rest
    rw [placesOfAll, occurrencesInAll, List.count_append]
    omega

end

end BoxTree

namespace BoxIndex

variable {β : Type}

/-- The tree of the index, if there is one, has no place twice and none that stands for no item. -/
def HasPlaces (index : BoxIndex α β) : Prop :=
  ∀ tree, index.tree? = some tree → ∀ place,
    tree.occurrences place ≤ if place < index.items.length then 1 else 0

omit [Scalar α] in
theorem hasPlaces_empty : HasPlaces ({} : BoxIndex α β) := by
  intro tree htree
  cases htree

theorem HasPlaces.insert {index : BoxIndex α β} (h : HasPlaces index) (boxOf : β → Box α)
    (item : β) : HasPlaces (index.insert boxOf item) := by
  intro tree htree place
  rw [items_insert, List.length_cons]
  unfold BoxIndex.insert at htree
  cases hold : index.tree? with
  | some old =>
    simp only [hold, Option.some.injEq] at htree
    have henter := old.occurrences_enter_le place (boxOf item) index.items.length
    have hbefore := h old hold place
    rw [htree] at henter
    by_cases hplace : index.items.length = place
    · rw [if_pos hplace] at henter
      rw [if_neg (by omega)] at hbefore
      rw [if_pos (by omega)]
      omega
    · rw [if_neg hplace] at henter
      split at hbefore
      · rw [if_pos (by omega)]
        omega
      · rw [if_neg (by omega)]
        omega
  | none =>
    simp only [hold] at htree
    split at htree
    · cases htree
    · rw [Option.some.injEq] at htree
      have hall := BoxTree.occurrences_ofBoxes_le place ((item :: index.items).reverse.map boxOf)
      rw [htree, List.length_map, List.length_reverse, List.length_cons] at hall
      exact hall

omit [Scalar α] in
theorem nodup_itemsAt {index : BoxIndex α β} (hitems : index.items.Nodup) {places : List Nat}
    (hplaces : places.Nodup) : (index.itemsAt places).Nodup := by
  refine hplaces.filterMap fun place place' item hitem hitem' => ?_
  rw [List.getElem?_toArray, Option.mem_def] at hitem hitem'
  exact (List.getElem?_inj (List.getElem?_eq_some_iff.1 hitem).1
    (List.nodup_reverse.2 hitems)).1 (hitem.trans hitem'.symm)

theorem nodup_search {index : BoxIndex α β} (h : HasPlaces index) (hitems : index.items.Nodup)
    (boxOf : β → Box α) (box : Box α) : (index.search boxOf box).Nodup := by
  unfold search
  refine List.Nodup.filter _ ?_
  split
  · exact hitems
  · next tree htree =>
    split
    · exact hitems
    · refine nodup_itemsAt hitems (List.nodup_iff_count_le_one.2 fun place => ?_)
      have hcount := tree.count_places_le box place
      have honce := h tree htree place
      split at honce <;> omega

end BoxIndex

end StreetLinking.Plane
