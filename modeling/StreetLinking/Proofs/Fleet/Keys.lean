import Mathlib.Data.List.Nodup
import Mathlib.Data.List.Perm.Basic
import StreetLinking.Fleet.Roster
/-!
# Lists of keys and descriptors

Keys are totally ordered, so a list of descriptors with distinct keys has just one order of keys.
Of a feed only the first descriptor of each key counts. Main statement: two feeds with the same
first descriptors give the same list when these are put in order.
-/

namespace StreetLinking.Fleet

/-! ## The order of keys -/

namespace Key

theorem notAfter_iff {a b : Key} :
    a.notAfter b = true ↔ a.provider < b.provider ∨ a.provider = b.provider ∧ a.id ≤ b.id := by
  simp only [notAfter, Bool.or_eq_true, Bool.and_eq_true, decide_eq_true_eq, beq_iff_eq]

theorem notAfter_trans (a b c : Key) (hab : a.notAfter b = true) (hbc : b.notAfter c = true) :
    a.notAfter c = true := by
  rw [notAfter_iff] at hab hbc ⊢
  rcases hab with hab | ⟨hab, hid⟩
  · rcases hbc with hbc | ⟨hbc, -⟩
    · exact Or.inl (String.lt_trans hab hbc)
    · exact Or.inl (hbc ▸ hab)
  · rcases hbc with hbc | ⟨hbc, hid'⟩
    · exact Or.inl (hab ▸ hbc)
    · exact Or.inr ⟨hab.trans hbc, String.le_trans hid hid'⟩

theorem notAfter_total (a b : Key) : (a.notAfter b || b.notAfter a) = true := by
  rw [Bool.or_eq_true, notAfter_iff, notAfter_iff]
  by_cases hab : a.provider < b.provider
  · exact Or.inl (Or.inl hab)
  · by_cases hba : b.provider < a.provider
    · exact Or.inr (Or.inl hba)
    · have heq : a.provider = b.provider :=
        String.le_antisymm (String.not_lt.1 hba) (String.not_lt.1 hab)
      rcases String.le_total a.id b.id with hid | hid
      · exact Or.inl (Or.inr ⟨heq, hid⟩)
      · exact Or.inr (Or.inr ⟨heq.symm, hid⟩)

theorem notAfter_antisymm {a b : Key} (hab : a.notAfter b = true) (hba : b.notAfter a = true) :
    a = b := by
  rw [notAfter_iff] at hab hba
  obtain ⟨provider, id⟩ := a
  obtain ⟨provider', id'⟩ := b
  rcases hab with hab | ⟨hab, hid⟩
  · rcases hba with hba | ⟨hba, -⟩
    · exact absurd hba (String.lt_asymm hab)
    · exact absurd (hba ▸ hab) (String.lt_irrefl _)
  · rcases hba with hba | ⟨-, hid'⟩
    · exact absurd (hab ▸ hba) (String.lt_irrefl _)
    · exact congr (congrArg Key.mk hab) (String.le_antisymm hid hid')

end Key

def Increasing (keys : List Key) : Prop :=
  keys.Pairwise fun a b => a.notAfter b = true ∧ a ≠ b

theorem Increasing.nodup {keys : List Key} (h : Increasing keys) : keys.Nodup :=
  h.imp fun hab => hab.2

theorem increasing_mergeSort {β : Type} (key : β → Key) {items : List β}
    (h : (items.map key).Nodup) :
    Increasing ((items.mergeSort fun a b => (key a).notAfter (key b)).map key) := by
  have htrans (a b c : β) := Key.notAfter_trans (key a) (key b) (key c)
  have htotal (a b : β) := Key.notAfter_total (key a) (key b)
  have hsorted := List.pairwise_mergeSort htrans htotal items
  have hperm := (List.mergeSort_perm items fun a b => (key a).notAfter (key b)).map key
  exact (List.pairwise_map.2 hsorted).and (hperm.nodup_iff.2 h)

theorem eq_of_increasing {β : Type} (key : β → Key) {items items' : List β}
    (h : Increasing (items.map key)) (h' : Increasing (items'.map key))
    (hmem : ∀ x, x ∈ items ↔ x ∈ items') : items = items' := by
  have hperm : items.Perm items' :=
    (List.perm_ext_iff_of_nodup (h.nodup.of_map key) (h'.nodup.of_map key)).2 hmem
  refine List.Perm.eq_of_pairwise (fun a b ha hb hab hba => ?_) (List.pairwise_map.1 h)
    (List.pairwise_map.1 h') hperm
  exact absurd (Key.notAfter_antisymm hab.1 hba.1) hab.2

/-! ## The first descriptors of a feed -/

def firstOf? (feed : List Descriptor) (key : Key) : Option Descriptor :=
  feed.find? (·.key == key)

def Reports (feed : List Descriptor) (key : Key) : Prop :=
  key ∈ feed.map (·.key)

theorem reports_iff {feed : List Descriptor} {key : Key} :
    Reports feed key ↔ ∃ d, firstOf? feed key = some d := by
  rw [Reports, firstOf?, List.mem_map, ← Option.isSome_iff_exists, List.find?_isSome]
  simp only [beq_iff_eq]

theorem key_of_firstOf? {feed : List Descriptor} {key : Key} {d : Descriptor}
    (h : firstOf? feed key = some d) : d.key = key := by
  simpa using List.find?_some h

theorem any_key_iff {feed : List Descriptor} {key : Key} :
    feed.any (·.key == key) = true ↔ Reports feed key := by
  simp [Reports]

theorem mem_firstUnseen {seen : List Key} {feed : List Descriptor} {d : Descriptor} :
    d ∈ firstUnseen seen feed ↔ d.key ∉ seen ∧ firstOf? feed d.key = some d := by
  induction feed generalizing seen with
  | nil => simp [firstUnseen, firstOf?]
  | cons c rest ih =>
    rw [firstUnseen, firstOf?, List.find?_cons]
    by_cases hsame : c.key = d.key
    · simp only [hsame, beq_self_eq_true, Option.some.injEq]
      split
      · next hseen =>
        rw [ih]
        constructor
        · exact fun h => absurd hseen h.1
        · exact fun h => absurd hseen h.1
      · next hseen =>
        rw [List.mem_cons, ih]
        constructor
        · rintro (rfl | ⟨hnew, -⟩)
          · exact ⟨hseen, rfl⟩
          · exact absurd List.mem_cons_self hnew
        · rintro ⟨-, rfl⟩
          exact Or.inl rfl
    · have hne : (c.key == d.key) = false := by simpa using hsame
      have hother : d ≠ c := fun heq => hsame (congrArg _ heq.symm)
      rw [hne]
      simp only
      split
      · rw [ih]
        rfl
      · rw [List.mem_cons, ih, List.mem_cons, not_or]
        constructor
        · rintro (heq | ⟨⟨-, hseen⟩, hfirst⟩)
          · exact absurd heq hother
          · exact ⟨hseen, hfirst⟩
        · rintro ⟨hseen, hfirst⟩
          exact Or.inr ⟨⟨Ne.symm hsame, hseen⟩, hfirst⟩

theorem nodup_keys_firstUnseen (seen : List Key) (feed : List Descriptor) :
    ((firstUnseen seen feed).map (·.key)).Nodup := by
  induction feed generalizing seen with
  | nil => exact List.nodup_nil
  | cons c rest ih =>
    rw [firstUnseen]
    split
    · exact ih seen
    · rw [List.map_cons, List.nodup_cons]
      refine ⟨fun hmem => ?_, ih _⟩
      obtain ⟨d, hd, hsame⟩ := List.mem_map.1 hmem
      have hnew := (mem_firstUnseen.1 hd).1
      rw [hsame] at hnew
      exact hnew List.mem_cons_self

theorem mem_firstOfEach {feed : List Descriptor} {d : Descriptor} :
    d ∈ firstOfEach feed ↔ firstOf? feed d.key = some d := by
  rw [firstOfEach, mem_firstUnseen]
  simp

end StreetLinking.Fleet
