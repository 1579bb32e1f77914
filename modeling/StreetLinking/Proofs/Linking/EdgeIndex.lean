import StreetLinking.Nearest.Search
import StreetLinking.Proofs.Linking.Changes
/-!
# The index and the graph stay in step

The index is never cleaned and numbers of removed edges are given again, so what an entry stands for
is decided by serials alone. Main statement: after every history, an edge that was added or split
off has exactly one entry, a connector or a crossing has none, the entry of an edge that was split
stands for nothing any more, and a search finds each live edge with an entry that meets its box
exactly once.
-/

namespace StreetLinking.Linking

open Number Plane Street Streets Nearest

variable {α : Type} [Scalar α]

/-! ## What a change enters into the index -/

omit [Scalar α] in
theorem attached?_eq_some_iff {g : Streets α} (h : Sound g) {n s : Nat} {e : Edge α} :
    g.attached? n s = some e ↔ e ∈ g.edges ∧ e.number = n ∧ e.serial = s := by
  rw [attached?, Option.filter_eq_some_iff, h.edge?_eq_some_iff, beq_iff_eq, and_assoc]

theorem entry?_eq_some_iff {e : Edge α} {entry : EdgeEntry α} :
    e.entry? = some entry ↔
      Box.around? e.line = some entry.box ∧ entry.number = e.number ∧ entry.serial = e.serial := by
  obtain ⟨number, serial, box⟩ := entry
  simp only [Edge.entry?, Option.map_eq_some_iff, EdgeEntry.mk.injEq]
  constructor
  · rintro ⟨b, hb, rfl, rfl, rfl⟩
    exact ⟨hb, rfl, rfl⟩
  · rintro ⟨hb, rfl, rfl⟩
    exact ⟨box, hb, rfl, rfl, rfl⟩

theorem exists_entry? {e : Edge α} (h : 2 ≤ e.line.length) : ∃ entry, e.entry? = some entry := by
  unfold Edge.entry?
  cases hline : e.line with
  | nil => simp [hline] at h
  | cons p rest => exact ⟨_, rfl⟩

/-- From `g` to `g'` the edges `entered` are entered into the index. What comes with `g'` has fresh
serials. -/
structure Enters (entered : List (Edge α)) (g g' : Streets α) : Prop where
  serial_le : g.nextSerial ≤ g'.nextSerial
  edges : ∀ e ∈ g'.edges, e ∈ g.edges ∨ g.nextSerial ≤ e.serial
  live : ∀ e ∈ entered, e ∈ g'.edges
  fresh : ∀ e ∈ entered, g.nextSerial ≤ e.serial
  distinct : (entered.map (·.serial)).Nodup
  entries : g'.edgeIndex.items = entered.filterMap Edge.entry? ++ g.edgeIndex.items

omit [Scalar α] in
theorem live_and_fresh_of_append {new old edges : List (Edge α)} {bound : Nat}
    (hedges : edges = new ++ old) (hfresh : ∀ e ∈ new, bound ≤ e.serial) :
    (∀ e ∈ edges, e ∈ old ∨ e ∈ new) ∧ (∀ e ∈ edges, e ∈ old ∨ bound ≤ e.serial) ∧
      ∀ e ∈ new, e ∈ edges := by
  subst hedges
  have hmem : ∀ e ∈ new ++ old, e ∈ old ∨ e ∈ new := fun e he => (List.mem_append.1 he).symm
  exact ⟨hmem, fun e he => (hmem e he).imp_right (hfresh e), fun e he => List.mem_append_left _ he⟩

theorem enters_of_grows {g g' : Streets α} {indexed : Bool} {new : List (Edge α)}
    (hsound : Sound g') (h : Grows indexed new g g') :
    Enters (if indexed then new else []) g g' := by
  obtain ⟨-, hedges, hlive⟩ := live_and_fresh_of_append h.edges h.fresh
  have hserials := hsound.nodup_serials
  rw [h.edges, List.map_append] at hserials
  cases indexed with
  | true =>
    exact ⟨h.serial_le, hedges, hlive, h.fresh, (List.nodup_append.1 hserials).1, h.entries⟩
  | false => exact ⟨h.serial_le, hedges, by simp, by simp, List.nodup_nil, h.entries⟩

theorem enters_of_splits {g g' : Streets α} {halves : Halves α} {first second : Edge α}
    (hsound : Sound g') (h : Splits halves first second g g') :
    Enters [second, first] g g' ∧ ∀ e ∈ g'.edges, e ∈ g.edges ∨ e ∈ [second, first] := by
  have hedges : g'.edges =
      [second, first] ++ g.edges.filter (·.number != halves.parent.number) := h.edges
  have hfresh : ∀ e ∈ [second, first], g.nextSerial ≤ e.serial := by
    intro e he
    rcases List.mem_pair.1 he with rfl | rfl
    · exact h.second_fresh
    · exact h.first_fresh
  obtain ⟨hmem, hfar, hlive⟩ := live_and_fresh_of_append hedges hfresh
  have hserials := hsound.nodup_serials
  rw [hedges, List.map_append] at hserials
  refine ⟨⟨h.serial_le, ?_, hlive, hfresh, (List.nodup_append.1 hserials).1, h.entries⟩, ?_⟩
  · exact fun e he => (hfar e he).imp_left fun hkept => (List.mem_filter.1 hkept).1
  · exact fun e he => (hmem e he).imp_left fun hkept => (List.mem_filter.1 hkept).1

theorem Change.exists_enters {g : Streets α} (hsound : Sound g) (c : Change α) :
    ∃ entered, Enters entered g (c.apply g) ∧
      (c.indexes = true → ∀ e ∈ (c.apply g).edges, e ∈ g.edges ∨ e ∈ entered) ∧
      (c.indexes = false → entered = []) := by
  have hsound' := c.sound_apply hsound
  rcases c.apply_cases hsound with
    ⟨new, hgrows⟩ | ⟨number, location, h, first, second, rfl, -, hsplits⟩
  · obtain ⟨hmem, -, -⟩ := live_and_fresh_of_append hgrows.edges hgrows.fresh
    refine ⟨_, enters_of_grows hsound' hgrows, fun hindexes => ?_, fun hindexes => ?_⟩
    · rw [if_pos hindexes]
      exact hmem
    · rw [hindexes]
      rfl
  · obtain ⟨henters, hmem⟩ := enters_of_splits hsound' hsplits
    exact ⟨_, henters, fun _ => hmem, fun hindexes => by simp [Change.indexes] at hindexes⟩

/-! ## What holds of the index after every change -/

/-- Entries have serials of their own, and the entry with the serial of a live edge is what the edge
would be entered as. -/
structure Indexed (g : Streets α) : Prop where
  serial_lt : ∀ entry ∈ g.edgeIndex.items, entry.serial < g.nextSerial
  serials : (g.edgeIndex.items.map (·.serial)).Nodup
  agrees : ∀ entry ∈ g.edgeIndex.items, ∀ e ∈ g.edges, entry.serial = e.serial →
    e.entry? = some entry

theorem indexed_empty : Indexed (empty : Streets α) where
  serial_lt := by simp [empty]
  serials := by simp [empty]
  agrees := by simp [empty]

theorem serials_filterMap_entry?_sublist (edges : List (Edge α)) :
    ((edges.filterMap Edge.entry?).map (·.serial)).Sublist (edges.map (·.serial)) := by
  induction edges with
  | nil => exact List.Sublist.refl _
  | cons e rest ih =>
    rw [List.filterMap_cons]
    split
    · exact ih.cons _
    · next entry hentry =>
      rw [List.map_cons, List.map_cons, (entry?_eq_some_iff.1 hentry).2.2]
      exact ih.cons_cons _

theorem exists_of_mem_entered {entered : List (Edge α)} {entry : EdgeEntry α}
    (h : entry ∈ entered.filterMap Edge.entry?) :
    ∃ e ∈ entered, e.entry? = some entry ∧ e.serial = entry.serial := by
  obtain ⟨e, he, hentry⟩ := List.mem_filterMap.1 h
  exact ⟨e, he, hentry, (entry?_eq_some_iff.1 hentry).2.2.symm⟩

theorem Indexed.of_enters {g g' : Streets α} {entered : List (Edge α)} (h : Indexed g)
    (hsound' : Sound g') (henters : Enters entered g g') : Indexed g' where
  serial_lt := by
    rw [henters.entries]
    intro entry hmem
    rcases List.mem_append.1 hmem with hmem | hmem
    · obtain ⟨e, he, -, hserial⟩ := exists_of_mem_entered hmem
      rw [← hserial]
      exact hsound'.serial_lt e (henters.live e he)
    · exact Nat.lt_of_lt_of_le (h.serial_lt entry hmem) henters.serial_le
  serials := by
    rw [henters.entries, List.map_append, List.nodup_append]
    refine ⟨henters.distinct.sublist (serials_filterMap_entry?_sublist _), h.serials, ?_⟩
    -- old entries have serials below those that the change gives
    intro s hs t ht
    obtain ⟨entry, hentry, rfl⟩ := List.mem_map.1 hs
    obtain ⟨old, hold, rfl⟩ := List.mem_map.1 ht
    obtain ⟨e, he, -, hserial⟩ := exists_of_mem_entered hentry
    have hfresh := henters.fresh e he
    have hlt := h.serial_lt old hold
    omega
  agrees := by
    rw [henters.entries]
    intro entry hmem d hd hserial
    rcases List.mem_append.1 hmem with hmem | hmem
    · obtain ⟨e, he, hentry, hsame⟩ := exists_of_mem_entered hmem
      have heq := hsound'.serial_inj hd (henters.live e he) (by omega)
      rwa [heq]
    · have hlt := h.serial_lt entry hmem
      rcases henters.edges d hd with hold | hfresh
      · exact h.agrees entry hmem d hold hserial
      · omega

/-- `g'` comes after `g`: what it has beyond `g` has serials that `g` has not given. -/
structure Follows (g g' : Streets α) : Prop where
  serial_le : g.nextSerial ≤ g'.nextSerial
  edges : ∀ e ∈ g'.edges, e ∈ g.edges ∨ g.nextSerial ≤ e.serial
  entries : ∃ new, g'.edgeIndex.items = new ++ g.edgeIndex.items ∧
    ∀ entry ∈ new, g.nextSerial ≤ entry.serial

omit [Scalar α] in
theorem Follows.refl (g : Streets α) : Follows g g :=
  ⟨Nat.le_refl _, fun _ he => Or.inl he, [], rfl, by simp⟩

omit [Scalar α] in
theorem Follows.trans {g g' g'' : Streets α} (h : Follows g g') (h' : Follows g' g'') :
    Follows g g'' where
  serial_le := Nat.le_trans h.serial_le h'.serial_le
  edges := by
    intro e he
    rcases h'.edges e he with he | hfresh
    · exact h.edges e he
    · exact Or.inr (Nat.le_trans h.serial_le hfresh)
  entries := by
    obtain ⟨new, hitems, hfresh⟩ := h.entries
    obtain ⟨new', hitems', hfresh'⟩ := h'.entries
    refine ⟨new' ++ new, by rw [hitems', hitems, List.append_assoc], fun entry hmem => ?_⟩
    rcases List.mem_append.1 hmem with hmem | hmem
    · exact Nat.le_trans h.serial_le (hfresh' entry hmem)
    · exact hfresh entry hmem

theorem Enters.follows {g g' : Streets α} {entered : List (Edge α)}
    (h : Enters entered g g') : Follows g g' where
  serial_le := h.serial_le
  edges := h.edges
  entries := by
    refine ⟨_, h.entries, fun entry hmem => ?_⟩
    obtain ⟨e, he, -, hserial⟩ := exists_of_mem_entered hmem
    rw [← hserial]
    exact h.fresh e he

theorem follows_replay {g : Streets α} (hsound : Sound g) (changes : List (Change α)) :
    Follows g (replay g changes) := by
  induction changes generalizing g with
  | nil => exact Follows.refl g
  | cons c rest ih =>
    obtain ⟨entered, henters, -, -⟩ := c.exists_enters hsound
    exact henters.follows.trans (ih (c.sound_apply hsound))

theorem Indexed.replay {g : Streets α} (h : Indexed g) (hsound : Sound g)
    (changes : List (Change α)) : Indexed (replay g changes) := by
  induction changes generalizing g with
  | nil => exact h
  | cons c rest ih =>
    obtain ⟨entered, henters, -, -⟩ := c.exists_enters hsound
    exact ih (h.of_enters (c.sound_apply hsound) henters) (c.sound_apply hsound)

/-! ## The entries of one edge -/

def entriesOf (g : Streets α) (serial : Nat) : List (EdgeEntry α) :=
  g.edgeIndex.items.filter (·.serial == serial)

omit [Scalar α] in
theorem Follows.entriesOf_eq {g g' : Streets α} (h : Follows g g') {serial : Nat}
    (hserial : serial < g.nextSerial) : entriesOf g' serial = entriesOf g serial := by
  obtain ⟨new, hitems, hfresh⟩ := h.entries
  have hnone : new.filter (·.serial == serial) = [] := by
    rw [List.filter_eq_nil_iff]
    intro entry hmem hsame
    have hle := hfresh entry hmem
    rw [beq_iff_eq.1 hsame] at hle
    omega
  rw [entriesOf, hitems, List.filter_append, hnone, List.nil_append, entriesOf]

theorem Indexed.entriesOf_eq_nil {g : Streets α} (h : Indexed g) {serial : Nat}
    (hserial : g.nextSerial ≤ serial) : entriesOf g serial = [] := by
  rw [entriesOf, List.filter_eq_nil_iff]
  intro entry hmem hsame
  have hlt := h.serial_lt entry hmem
  rw [beq_iff_eq.1 hsame] at hlt
  omega

theorem filter_entered {entered : List (Edge α)} (hdistinct : (entered.map (·.serial)).Nodup)
    {e : Edge α} (he : e ∈ entered) {entry : EdgeEntry α} (hentry : e.entry? = some entry) :
    (entered.filterMap Edge.entry?).filter (·.serial == e.serial) = [entry] := by
  have hserial := (entry?_eq_some_iff.1 hentry).2.2
  have hnodup := hdistinct.sublist (serials_filterMap_entry?_sublist entered)
  have hmem : entry ∈ entered.filterMap Edge.entry? := List.mem_filterMap.2 ⟨e, he, hentry⟩
  generalize entered.filterMap Edge.entry? = entries at hnodup hmem
  obtain ⟨before, after, rfl⟩ := List.append_of_mem hmem
  rw [List.map_append, List.map_cons, List.nodup_middle, List.nodup_cons, List.mem_append,
    not_or] at hnodup
  obtain ⟨⟨hbefore, hafter⟩, -⟩ := hnodup
  have hnone (rest : List (EdgeEntry α)) (hrest : entry.serial ∉ rest.map (·.serial)) :
      rest.filter (·.serial == e.serial) = [] := by
    rw [List.filter_eq_nil_iff]
    intro other hother hsame
    rw [beq_iff_eq, ← hserial] at hsame
    exact hrest (List.mem_map.2 ⟨other, hother, hsame⟩)
  rw [List.filter_append, List.filter_cons, if_pos (by simpa using hserial), hnone before hbefore,
    hnone after hafter, List.nil_append]

/-- An edge that a change makes is entered once if the change indexes its edges, and else never. -/
theorem Change.entriesOf_made {g : Streets α} (hsound : Sound g) (hindexed : Indexed g)
    {c : Change α} {e : Edge α} (hmakes : c.makes g e) :
    entriesOf (c.apply g) e.serial = if c.indexes then e.entry?.toList else [] := by
  obtain ⟨entered, henters, hall, hnone⟩ := c.exists_enters hsound
  obtain ⟨hlive, hnew⟩ := hmakes
  have hold : g.edgeIndex.items.filter (·.serial == e.serial) = [] :=
    hindexed.entriesOf_eq_nil ((henters.edges e hlive).resolve_left hnew)
  rw [entriesOf, henters.entries, List.filter_append, hold, List.append_nil]
  cases hindexes : c.indexes with
  | true =>
    obtain ⟨entry, hentry⟩ := exists_entry? ((c.sound_apply hsound).lines e hlive)
    rw [filter_entered henters.distinct ((hall hindexes e hlive).resolve_left hnew) hentry, hentry]
    rfl
  | false =>
    rw [hnone hindexes]
    rfl

/-! ## Edges that are gone -/

theorem not_isAttached_of_split {g : Streets α} (hsound : Sound g) {number : Nat} {e : Edge α}
    (hedge : g.edge? number = some e) (location : Location α) (after : List (Change α)) (n : Nat) :
    (replay g (.split number location :: after)).isAttached n e.serial = false := by
  obtain ⟨h, hh, rfl⟩ := exists_halve hsound hedge location
  obtain ⟨hsound', first, second, hsplits⟩ := sound_and_splits hsound hh
  obtain ⟨henters, -⟩ := enters_of_splits hsound' hsplits
  have hold := hsound.serial_lt _ hsplits.parent_mem
  have hfollows := henters.follows.trans (follows_replay hsound' after)
  have hlast := follows_replay hsound' after
  rw [replay_cons, Change.apply]
  by_contra hfound
  obtain ⟨d, hd⟩ := Option.isSome_iff_exists.1 (Bool.not_eq_false _ ▸ hfound)
  obtain ⟨hlive, -, hserial⟩ := (attached?_eq_some_iff (sound_replay hsound' after)).1 hd
  -- the edge found would be the parent, but that one went with the split
  have hparent : d = h.parent := by
    refine hsound.serial_inj ((hfollows.edges d hlive).resolve_right ?_) hsplits.parent_mem hserial
    omega
  subst hparent
  rcases hlast.edges _ hlive with hstill | hfresh
  · exact hsplits.parent_not_mem hsound hstill
  · have := hsplits.serial_le
    omega

/-! ## Searching -/

omit [Scalar α] in
theorem serials_attachedTo_sublist (g : Streets α) (entries : List (EdgeEntry α)) :
    ((g.attachedTo entries).map (·.serial)).Sublist (entries.map (·.serial)) := by
  rw [attachedTo_eq]
  induction entries with
  | nil => exact List.Sublist.refl _
  | cons entry rest ih =>
    rw [List.filterMap_cons, List.map_cons]
    split
    · exact ih.cons _
    · next e he =>
      rw [List.map_cons, (edge?_serial_of_attached? he).2]
      exact ih.cons_cons _

/-- A search whose boxes are those that meet its own finds every edge once, and just the live edges
with such a box. -/
theorem candidates_spec {g : Streets α} (hsound : Sound g) (hindexed : Indexed g)
    {search : Search α} (mode : Mode)
    (hfound : (g.entriesIn search.box).Perm (g.edgeIndex.items.filter (·.box.meets search.box))) :
    (candidates g search mode).Nodup ∧ ∀ e, e ∈ candidates g search mode ↔
      e ∈ g.edges ∧ e.kind.isLinkable = true ∧ e.allows (ModeSet.forLinking mode) = true ∧
        ∃ entry ∈ g.edgeIndex.items, entry.number = e.number ∧ entry.serial = e.serial ∧
          entry.box.meets search.box = true := by
  constructor
  · have hserials : ((g.entriesIn search.box).map (·.serial)).Nodup := by
      rw [(hfound.map _).nodup_iff]
      exact hindexed.serials.sublist (List.filter_sublist.map _)
    exact ((hserials.sublist (serials_attachedTo_sublist g _)).of_map _).filter _
  · intro e
    rw [candidates, List.mem_filter, Bool.and_eq_true, attachedTo_eq, List.mem_filterMap]
    constructor
    · rintro ⟨⟨entry, hmem, hattached⟩, hlinkable, hallows⟩
      obtain ⟨hlive, hnumber, hserial⟩ := (attached?_eq_some_iff hsound).1 hattached
      obtain ⟨hitem, hmeets⟩ := List.mem_filter.1 (hfound.mem_iff.1 hmem)
      exact ⟨hlive, hlinkable, hallows, entry, hitem, hnumber.symm, hserial.symm, hmeets⟩
    · rintro ⟨hlive, hlinkable, hallows, entry, hitem, hnumber, hserial, hmeets⟩
      refine ⟨⟨entry, hfound.mem_iff.2 (List.mem_filter.2 ⟨hitem, hmeets⟩), ?_⟩,
        hlinkable, hallows⟩
      exact (attached?_eq_some_iff hsound).2 ⟨hlive, hnumber.symm, hserial.symm⟩

/-! ## The index along a history -/

/-- After every history serials are distinct, an edge that was added or split off has just its own
entry and any other edge has none, entries of split edges are dead, and searches find each live edge
with a fitting entry once. -/
theorem index_in_step (events : List (Event α)) :
    let changes := changesOf .empty events
    let g := run .empty events
    replay .empty changes = g ∧
    ((g.edges.map (·.serial)).Nodup ∧ ∀ e ∈ g.edges, e.serial < g.nextSerial) ∧
    (∀ e ∈ g.edges, ∃ before c after, changes = before ++ c :: after ∧
      c.makes (replay .empty before) e) ∧
    (∀ before c after e, changes = before ++ c :: after → c.makes (replay .empty before) e →
      if c.indexes then
        ∃ box, Box.around? e.line = some box ∧
          g.edgeIndex.items.filter (·.serial == e.serial) = [⟨e.number, e.serial, box⟩]
      else ∀ entry ∈ g.edgeIndex.items, entry.serial ≠ e.serial) ∧
    (∀ before number location after e, changes = before ++ .split number location :: after →
      (replay .empty before).edge? number = some e →
      ∀ entry ∈ g.edgeIndex.items, entry.serial = e.serial →
        g.isAttached entry.number entry.serial = false) ∧
    ∀ search mode,
      (g.entriesIn search.box).Perm (g.edgeIndex.items.filter (·.box.meets search.box)) →
      (candidates g search mode).Nodup ∧ ∀ e, e ∈ candidates g search mode ↔
        e ∈ g.edges ∧ e.kind.isLinkable = true ∧ e.allows (ModeSet.forLinking mode) = true ∧
          ∃ entry ∈ g.edgeIndex.items, entry.number = e.number ∧ entry.serial = e.serial ∧
            entry.box.meets search.box = true := by
  intro changes g
  have hsound : Sound g := sound_run sound_empty events
  have hreplay : replay .empty changes = g := replay_changesOf .empty events
  have hindexed : Indexed g := by
    rw [← hreplay]
    exact indexed_empty.replay sound_empty changes
  refine ⟨hreplay, ⟨hsound.nodup_serials, hsound.serial_lt⟩, ?_, ?_, ?_, ?_⟩
  · intro e he
    rw [← hreplay] at he
    exact (exists_makes he).resolve_left (by simp [empty])
  · intro before c after e hchanges hmakes
    have hbefore := sound_replay sound_empty before
    have hmade := c.sound_apply hbefore
    have hentries := Change.entriesOf_made hbefore (indexed_empty.replay sound_empty before) hmakes
    rw [← (follows_replay hmade after).entriesOf_eq (hmade.serial_lt e hmakes.1),
      ← replay_cons, ← replay_append, ← hchanges, hreplay] at hentries
    cases hindexes : c.indexes with
    | true =>
      obtain ⟨⟨number, serial, box⟩, hentry⟩ := exists_entry? (hmade.lines e hmakes.1)
      rw [hindexes, hentry] at hentries
      obtain ⟨hbox, rfl, rfl⟩ := entry?_eq_some_iff.1 hentry
      exact ⟨box, hbox, hentries⟩
    | false =>
      rw [hindexes] at hentries
      intro entry hmem hsame
      exact List.filter_eq_nil_iff.1 hentries entry hmem (beq_iff_eq.2 hsame)
  · intro before number location after e hchanges hedge entry _ hserial
    rw [hserial, ← hreplay, hchanges, replay_append]
    exact not_isAttached_of_split (sound_replay sound_empty before) hedge location after _
  · exact fun search mode hfound => candidates_spec hsound hindexed mode hfound

def splitStreet : List (Event Float) :=
  [.add (.intersection ⟨0.0, 0.0⟩ none), .add (.intersection ⟨0.5, 0.0⟩ none),
    .add (.street 0 1 none .all "Main Street"), .operate (.split 0 ⟨0, 0.5⟩)]

theorem index_in_step_of_splitStreet :
    let g := run .empty splitStreet
    (∃ e ∈ g.edges, e.serial = 2 ∧ ∃ box, Box.around? e.line = some box ∧
      g.edgeIndex.items.filter (·.serial == e.serial) = [⟨e.number, e.serial, box⟩]) ∧
    (∀ entry ∈ g.edgeIndex.items, entry.serial = 1 →
      g.isAttached entry.number entry.serial = false) ∧
    (candidates g (Search.within ⟨0.25, 0.0⟩ ⟨1.0⟩ 0.5) .walk).Nodup := by
  obtain ⟨-, -, -, hmade, hsplit, hsearch⟩ := index_in_step splitStreet
  have hchanges : changesOf .empty splitStreet =
      splitStreet.dropLast.flatMap (Event.changes .empty) ++ .split 0 ⟨0, 0.5⟩ :: [] := rfl
  refine ⟨?_, ?_, (hsearch _ .walk ?_).1⟩
  · have hhalf : ∃ e ∈ (run .empty splitStreet).edges, e.serial = 2 := by decide
    obtain ⟨e, he, hserial⟩ := hhalf
    refine ⟨e, he, hserial, hmade _ _ _ e hchanges ⟨he, fun hold => ?_⟩⟩
    have hserials : ∀ d ∈ (run .empty splitStreet.dropLast).edges, d.serial ≠ 2 := by decide
    exact hserials e hold hserial
  · have hparent : ∃ e, (run .empty splitStreet.dropLast).edge? 0 = some e ∧ e.serial = 1 := by
      have hsome : ((run .empty splitStreet.dropLast).attached? 0 1).isSome = true := by decide
      obtain ⟨e, he⟩ := Option.isSome_iff_exists.1 hsome
      exact ⟨e, edge?_serial_of_attached? he⟩
    obtain ⟨e, hedge, hserial⟩ := hparent
    intro entry hmem hsame
    exact hsplit _ _ _ _ e hchanges hedge entry hmem (hsame.trans hserial.symm)
  · have hdefined : ∀ entry ∈ (run .empty splitStreet).edgeIndex.items,
        entry.box.isDefined = true := by decide
    exact .of_eq (BoxIndex.search_of_isDefined _ hdefined)

end StreetLinking.Linking
