import StreetLinking.Proofs.Nearest.RankLists
import StreetLinking.Proofs.Number.Ordering
/-!
# The chain of the nearest items

The nearest items are the longest head of the rank list in which no item is a gap or more farther
away than the one before it. Main statement: over doubles, whatever the distances are, this chain
does not depend on the order of the items, takes items at the same finite distance all or none, and
only grows with the gap.
-/

namespace StreetLinking.Nearest

open Number

/-! ## The longest head without a gap -/

section Heads

variable {α β : Type} [Scalar α]

/-- The second item is not a gap or more farther away than the first. -/
def IsNear (gap : α) (a b : Ranked α β) : Prop :=
  ¬ gap ≤ b.distance - a.distance

theorem prefix_chainAfter_iff {gap : α} (r : Ranked α β) {front rs : List (Ranked α β)} :
    front <+: chainAfter gap r.distance rs ↔ front <+: rs ∧ (r :: front).IsChain (IsNear gap) := by
  induction rs generalizing r front with
  | nil =>
    rw [chainAfter, List.prefix_nil]
    constructor
    · rintro rfl
      exact ⟨rfl, .singleton r⟩
    · exact And.left
  | cons s rest ih =>
    cases front with
    | nil => simp
    | cons f front =>
      rw [chainAfter, List.isChain_cons_cons]
      split
      · next hfar =>
        refine iff_of_false (by simp) ?_
        rintro ⟨hfront, hnear, -⟩
        obtain ⟨rfl, -⟩ := List.cons_prefix_cons.1 hfront
        exact hnear hfar
      · next hnear =>
        rw [List.cons_prefix_cons, List.cons_prefix_cons]
        constructor
        · rintro ⟨rfl, hfront⟩
          obtain ⟨hrest, hchain⟩ := (ih f).1 hfront
          exact ⟨⟨rfl, hrest⟩, hnear, hchain⟩
        · rintro ⟨⟨rfl, hrest⟩, -, hchain⟩
          exact ⟨rfl, (ih f).2 ⟨hrest, hchain⟩⟩

theorem prefix_chain_iff {gap : α} {front rs : List (Ranked α β)} :
    front <+: chain gap rs ↔ front <+: rs ∧ front.IsChain (IsNear gap) := by
  cases rs with
  | nil =>
    rw [chain, List.prefix_nil]
    constructor
    · rintro rfl
      exact ⟨rfl, .nil⟩
    · exact And.left
  | cons r rest =>
    cases front with
    | nil => simp
    | cons f front =>
      rw [chain, List.cons_prefix_cons, List.cons_prefix_cons]
      constructor
      · rintro ⟨rfl, hfront⟩
        obtain ⟨hrest, hchain⟩ := (prefix_chainAfter_iff f).1 hfront
        exact ⟨⟨rfl, hrest⟩, hchain⟩
      · rintro ⟨⟨rfl, hrest⟩, hchain⟩
        exact ⟨rfl, (prefix_chainAfter_iff f).2 ⟨hrest, hchain⟩⟩

theorem chain_prefix_chain {gap gap' : α} (h : ∀ d : α, gap' ≤ d → gap ≤ d)
    (rs : List (Ranked α β)) : chain gap rs <+: chain gap' rs := by
  obtain ⟨hfront, hchain⟩ := prefix_chain_iff.1 (List.prefix_refl (chain gap rs))
  exact prefix_chain_iff.2 ⟨hfront, hchain.imp fun a b hnear hfar => hnear (h _ hfar)⟩

theorem mem_chain_iff {gap : α} {rs before after : List (Ranked α β)} {r : Ranked α β}
    (hnodup : rs.Nodup) (hsplit : rs = before ++ r :: after) :
    r ∈ chain gap rs ↔ (before ++ [r]).IsChain (IsNear gap) := by
  subst hsplit
  have hhead : before ++ [r] <+: before ++ r :: after := ⟨after, by simp⟩
  constructor
  · intro hr
    obtain ⟨front, back, hsplit⟩ := List.append_of_mem hr
    have hfront : front ++ [r] <+: chain gap (before ++ r :: after) := ⟨back, by simp [hsplit]⟩
    obtain ⟨⟨rest, hrest⟩, hchain⟩ := prefix_chain_iff.1 hfront
    -- the item stands in the list only once, so what comes before it is the same
    rw [List.append_assoc, List.singleton_append] at hrest
    have hfresh : r ∉ before ++ after := (List.nodup_cons.1 (List.nodup_middle.1 hnodup)).1
    rw [List.mem_append, not_or] at hfresh
    obtain ⟨rfl, -⟩ := (List.append_cons_inj_of_notMem hfresh.1 hfresh.2).1 hrest.symm
    exact hchain
  · intro hchain
    exact (prefix_chain_iff.2 ⟨hhead, hchain⟩).subset (by simp)

end Heads

/-! ## Equal distances -/

section Ties

variable {β κ : Type} [Ord κ] {key : β → κ} {gap : Float} {rs : List (Ranked Float β)}

theorem isLE_order {a b : Ranked Float β} (h : rankOrder key a b = .lt) :
    (Scalar.order a.distance b.distance).isLE = true := by
  rcases Ordering.then_eq_lt.1 h with hlt | ⟨heq, -⟩
  · exact congrArg Ordering.isLE hlt
  · exact congrArg Ordering.isLE heq

theorem standing_of_between {before mid after : List (Ranked Float β)} {a b r : Ranked Float β}
    (hincreasing : rs.Pairwise fun a b => rankOrder key a b = .lt)
    (hsplit : rs = before ++ a :: (mid ++ b :: after)) (hsame : (a.distance == b.distance) = true)
    (hr : r ∈ a :: (mid ++ [b])) : standing r.distance = standing a.distance := by
  subst hsplit
  obtain ⟨hafter, hmid⟩ := List.pairwise_cons.1 (List.pairwise_append.1 hincreasing).2.1
  have hbefore := (List.pairwise_append.1 hmid).2.2
  have hends := standing_eq_of_beq hsame
  rcases List.mem_cons.1 hr with rfl | hr
  · rfl
  · rcases List.mem_append.1 hr with hr | hr
    · have hlow := isLE_order (hafter r (List.mem_append_left _ hr))
      have hhigh := isLE_order (hbefore r hr b List.mem_cons_self)
      rcases eq_or_eq_of_between hsame hlow hhigh with heq | heq
      · rw [heq]
      · rw [heq, hends]
    · rw [List.mem_singleton.1 hr, hends]

variable [Std.TransOrd κ]

theorem nodup_of_increasing (hincreasing : rs.Pairwise fun a b => rankOrder key a b = .lt) :
    rs.Nodup := by
  refine hincreasing.imp fun {a b} hlt heq => ?_
  have hlevel : rankOrder key b b = .eq := Std.ReflCmp.compare_self
  rw [heq, hlevel] at hlt
  cases hlt

theorem mem_chain_iff_of_beq {before mid after : List (Ranked Float β)} {a b : Ranked Float β}
    (hgap : 0 < gap) (hincreasing : rs.Pairwise fun a b => rankOrder key a b = .lt)
    (hsplit : rs = before ++ a :: (mid ++ b :: after))
    (hfinite : a.distance.isFinite = true) (hsame : (a.distance == b.distance) = true) :
    a ∈ chain gap rs ↔ b ∈ chain gap rs := by
  have hnodup := nodup_of_increasing hincreasing
  have hstanding {r : Ranked Float β} (hr : r ∈ a :: (mid ++ [b])) :=
    standing_of_between hincreasing hsplit hsame hr
  have hbetween : (a :: (mid ++ [b])).IsChain (IsNear gap) := by
    refine (List.pairwise_of_forall_mem_list fun r hr s hs => ?_).isChain
    have hfinite' : r.distance.isFinite = true :=
      isFinite_of_standing hfinite (hstanding hr).symm
    exact not_le_sub hgap hfinite' ((hstanding hr).trans (hstanding hs).symm)
  have hsplit' : rs = (before ++ a :: mid) ++ b :: after := by simp [hsplit]
  rw [mem_chain_iff hnodup hsplit, mem_chain_iff hnodup hsplit', List.append_assoc,
    List.cons_append]
  exact ⟨fun h => List.isChain_split.2 ⟨h, hbetween⟩, fun h => (List.isChain_split.1 h).1⟩

theorem mem_chain_iff_of_mem {a b : Ranked Float β} (hgap : 0 < gap)
    (hincreasing : rs.Pairwise fun a b => rankOrder key a b = .lt) (ha : a ∈ rs) (hb : b ∈ rs)
    (hfinite : a.distance.isFinite = true) (hsame : (a.distance == b.distance) = true) :
    a ∈ chain gap rs ↔ b ∈ chain gap rs := by
  obtain ⟨before, after, hsplit⟩ := List.append_of_mem ha
  rw [hsplit] at hb
  rcases List.mem_append.1 hb with hbefore | hafter
  · obtain ⟨front, mid, rfl⟩ := List.append_of_mem hbefore
    have hfinite' := isFinite_of_standing hfinite (standing_eq_of_beq hsame)
    have hsplit' : rs = front ++ b :: (mid ++ a :: after) := by simp [hsplit]
    exact (mem_chain_iff_of_beq hgap hincreasing hsplit' hfinite' (BEq.symm hsame)).symm
  · rcases List.mem_cons.1 hafter with rfl | hafter
    · rfl
    · obtain ⟨mid, back, rfl⟩ := List.append_of_mem hafter
      exact mem_chain_iff_of_beq hgap hincreasing hsplit hfinite hsame

end Ties

/-! ## The items selected -/

section Selected

variable {β κ : Type} [Ord κ] [Std.TransOrd κ] [Std.LawfulEqOrd κ]

/-- What the nearest items are. They are the same for every order of the items; they come in the
order of distance and key, and none at an undefined distance; there is one as soon as any distance
is defined; an item is among them just if no two neighbours up to it are a gap apart, so that items
at the same finite distance are all among them or none; and a larger gap only adds items at the
end. -/
theorem nearest_selects_one_chain {distance : β → Float} {key : β → κ} {items : List β}
    {gap : Float} (hkeys : (items.map key).Nodup) (hgap : 0 < gap) :
    let sorted := rank distance key items
    let selected := nearest distance key gap items
    (∀ others : List β, others.Perm items → nearest distance key gap others = selected) ∧
    (sorted.Pairwise fun a b => rankOrder key a b = .lt) ∧
    (∀ r, r ∈ sorted ↔
      r.item ∈ items ∧ distance r.item = r.distance ∧ r.distance.isNaN = false) ∧
    selected <+: sorted ∧
    (selected.Pairwise fun a b => rankOrder key a b = .lt) ∧
    (∀ r ∈ selected, r.distance.isNaN = false) ∧
    (selected = [] → ∀ item ∈ items, (distance item).isNaN = true) ∧
    (∀ item ∈ items, (distance item).isNaN = false →
      ∃ before after, sorted = before ++ ⟨item, distance item⟩ :: after ∧
        (⟨item, distance item⟩ ∈ selected ↔
          (before ++ [⟨item, distance item⟩]).IsChain
            fun a b => ¬ gap ≤ b.distance - a.distance)) ∧
    (∀ a ∈ items, ∀ b ∈ items, (distance a).isFinite = true → (distance a == distance b) = true →
      (⟨a, distance a⟩ ∈ selected ↔ ⟨b, distance b⟩ ∈ selected)) ∧
    ∀ gap', gap ≤ gap' → selected <+: nearest distance key gap' items := by
  intro sorted selected
  have hinj : ∀ a ∈ items, ∀ b ∈ items, key a = key b → a = b := fun a ha b hb h =>
    List.inj_on_of_nodup_map hkeys ha hb h
  have hincreasing : sorted.Pairwise fun a b => rankOrder key a b = .lt := increasing_rank hkeys
  have hmem {r : Ranked Float β} :
      r ∈ sorted ↔ r.item ∈ items ∧ distance r.item = r.distance ∧ r.distance.isNaN = false := by
    rw [← isUndefined_eq]
    exact mem_rank
  have hhead : selected <+: sorted := chain_prefix gap sorted
  refine ⟨fun others hperm => ?_, hincreasing, fun r => hmem, hhead,
    hincreasing.sublist hhead.sublist, fun r hr => (hmem.1 (hhead.subset hr)).2.2,
    fun hnone item hitem => ?_, fun item hitem hdefined => ?_,
    fun a ha b hb hfinite hsame => ?_, fun gap' hle => ?_⟩
  · show chain gap (rank distance key others) = _
    rw [rank_congr hperm hinj]
    rfl
  · by_contra hdefined
    have hsorted : (⟨item, distance item⟩ : Ranked Float β) ∈ sorted :=
      hmem.2 ⟨hitem, rfl, by simpa using hdefined⟩
    exact List.ne_nil_of_mem hsorted (chain_eq_nil_iff.1 hnone)
  · have hsorted : (⟨item, distance item⟩ : Ranked Float β) ∈ sorted :=
      hmem.2 ⟨hitem, rfl, hdefined⟩
    obtain ⟨before, after, hsplit⟩ := List.append_of_mem hsorted
    exact ⟨before, after, hsplit, mem_chain_iff (nodup_of_increasing hincreasing) hsplit⟩
  · obtain ⟨hadefined, hbdefined⟩ := isNaN_of_beq hsame
    exact mem_chain_iff_of_mem hgap hincreasing (hmem.2 ⟨ha, rfl, hadefined⟩)
      (hmem.2 ⟨hb, rfl, hbdefined⟩) hfinite hsame
  · exact chain_prefix_chain (fun d hd => floatLE_trans hle hd) sorted

/-- In whatever order the items come, the two at the zeros are selected, and neither the one beyond
the gap nor the one at an undefined distance. -/
theorem nearest_selects_both_zeros :
    let items : List (ℕ × Float) := [(3, 1), (1, 0), (4, 0 / 0), (2, -0)]
    (items.map Prod.fst).Nodup ∧ (0 : Float) < 0.5 ∧
      ∀ others : List (ℕ × Float), others.Perm items →
        nearest Prod.snd Prod.fst 0.5 others = [⟨(2, -0), -0⟩, ⟨(1, 0), 0⟩] := by
  intro items
  have hkeys : (items.map Prod.fst).Nodup := by decide
  have hgap : (0 : Float) < 0.5 := by decide
  have hsorted : [⟨(2, -0), -0⟩, ⟨(1, 0), 0⟩, ⟨(3, 1), 1⟩] = rank Prod.snd Prod.fst items :=
    eq_rank (by decide) (by decide) (by decide)
  refine ⟨hkeys, hgap, fun others hperm => ?_⟩
  rw [(nearest_selects_one_chain hkeys hgap).1 others hperm, nearest, ← hsorted]
  decide

end Selected

end StreetLinking.Nearest
