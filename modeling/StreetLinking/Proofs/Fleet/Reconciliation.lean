import Mathlib.Algebra.Ring.Nat
import Mathlib.Data.List.Forall2
import Mathlib.Data.List.Induction
import StreetLinking.Proofs.Fleet.Keys
import StreetLinking.Proofs.Linking.Renaming
/-!
# The roster over whole runs

What is on the roster follows from the feeds alone: an entity is there if the last feed reports it,
as it was first described when its unbroken run of reports began, and with the link that this
description gave then. Main statement: this law for every run of feeds, with the changes of the last
feed, the counts over the whole run, and the independence from the order within feeds.
-/

namespace StreetLinking.Fleet

open Street Temporary Linking

/-! ## Links of single entities -/

def entityGuest (id : OverlayId) (d : Descriptor) : Guest Float :=
  ⟨⟨id, 0⟩, d.kind.role, d.position⟩

def entityOverlay (id : OverlayId) (d : Descriptor) : Overlay Float :=
  (({ id } : Overlay Float).addVertex ⟨.entity d.key d.kind.role, d.name, d.position⟩).1

theorem lists_entityOverlay (id : OverlayId) (d : Descriptor) :
    (entityOverlay id d).lists (.temporary (entityGuest id d).vertex) = true :=
  lists_nextVertex { id } _

theorem registered_entityOverlay (id : OverlayId) (d : Descriptor) :
    (entityOverlay id d).Registered :=
  (Overlay.registered_empty id).addVertex _

theorem linkDescriptor_eq (settings : Settings) (g : Streets Float) (id : OverlayId)
    (d : Descriptor) :
    linkDescriptor settings g id d =
      match linkGuest settings g (entityGuest id d) d.kind.linkingMode
        ⟨entityOverlay id d, none⟩ with
      | ⟨.ok true, draft⟩ => some ⟨⟨id, 0⟩, draft.overlay, draft.overlay.streetVertices⟩
      | _ => none := rfl

theorem linkDescriptor_eq_some_iff {settings : Settings} {g : Streets Float} {id : OverlayId}
    {d : Descriptor} {l : EntityLink} :
    linkDescriptor settings g id d = some l ↔
      (linkGuest settings g (entityGuest id d) d.kind.linkingMode
          ⟨entityOverlay id d, none⟩).answer = .ok true ∧
        l = ⟨⟨id, 0⟩, (linkGuest settings g (entityGuest id d) d.kind.linkingMode
            ⟨entityOverlay id d, none⟩).state.overlay,
          (linkGuest settings g (entityGuest id d) d.kind.linkingMode
            ⟨entityOverlay id d, none⟩).state.overlay.streetVertices⟩ := by
  rw [linkDescriptor_eq]
  rcases linkGuest settings g (entityGuest id d) d.kind.linkingMode
    ⟨entityOverlay id d, none⟩ with ⟨_ | _ | _, draft⟩
  · simp
  · simp
  · simp [eq_comm]

theorem registered_linkDescriptor {settings : Settings} {g : Streets Float} {id : OverlayId}
    {d : Descriptor} {l : EntityLink} (h : linkDescriptor settings g id d = some l) :
    l.overlay.Registered ∧ l.streetVertices = l.overlay.streetVertices := by
  obtain ⟨-, rfl⟩ := linkDescriptor_eq_some_iff.1 h
  have hgrows := grows_linkGuest settings g (entityGuest id d) d.kind.linkingMode
    (d := ⟨entityOverlay id d, none⟩) (lists_entityOverlay id d)
  exact ⟨hgrows.registered (registered_entityOverlay id d), rfl⟩

def EntityLink.renamed (id : OverlayId) (l : EntityLink) : EntityLink :=
  { l with vertex := l.vertex.renamed id, overlay := l.overlay.renamed id }

/-- In an overlay with another identity an entity gets the same link under that identity. -/
theorem linkDescriptor_renamed (settings : Settings) (g : Streets Float) (id other : OverlayId)
    (d : Descriptor) :
    linkDescriptor settings g other d =
      (linkDescriptor settings g id d).map (EntityLink.renamed other) := by
  have hlink : linkGuest settings g (entityGuest other d) d.kind.linkingMode
        ⟨entityOverlay other d, none⟩ = _ :=
    linkGuest_renamed other settings g (entityGuest id d) d.kind.linkingMode
      (d := ⟨entityOverlay id d, none⟩) (registered_entityOverlay id d) (lists_entityOverlay id d)
  rw [linkDescriptor_eq, linkDescriptor_eq, hlink]
  rcases linkGuest settings g (entityGuest id d) d.kind.linkingMode
    ⟨entityOverlay id d, none⟩ with ⟨_ | _ | _, linked⟩
  · rfl
  · rfl
  · simp [EntityLink.renamed, Draft.renamed, Overlay.streetVertices_renamed, LocalVertex.renamed]

/-! ## What an update does -/

namespace Roster

variable (settings : Settings) (g : Streets Float) (r : Roster)

theorem find?_eq_none_iff {r : Roster} {key : Key} :
    r.find? key = none ↔ key ∉ r.tracked.map (·.key) := by
  simp [find?]

theorem mem_arrivals {r : Roster} {feed : List Descriptor} {d : Descriptor} :
    d ∈ r.arrivals feed ↔ firstOf? feed d.key = some d ∧ d.key ∉ r.tracked.map (·.key) := by
  rw [arrivals, List.mem_mergeSort, List.mem_filter, mem_firstOfEach, Option.isNone_iff_eq_none,
    find?_eq_none_iff]

theorem increasing_arrivals (feed : List Descriptor) :
    Increasing ((r.arrivals feed).map (·.key)) :=
  increasing_mergeSort _ ((nodup_keys_firstUnseen [] feed).sublist (List.filter_sublist.map _))

theorem arrivals_congr {feed feed' : List Descriptor} (h : firstOf? feed = firstOf? feed') :
    r.arrivals feed = r.arrivals feed' :=
  eq_of_increasing _ (r.increasing_arrivals feed) (r.increasing_arrivals feed') fun d => by
    rw [mem_arrivals, mem_arrivals, h]

theorem mem_trackFrom {owner attempt : Nat} {ds : List Descriptor} {t : Tracked}
    (h : t ∈ trackFrom settings g owner attempt ds) :
    t.descriptor ∈ ds ∧ ∃ id, t.link = linkDescriptor settings g id t.descriptor := by
  induction ds generalizing attempt with
  | nil => simp [trackFrom] at h
  | cons d rest ih =>
    rcases List.mem_cons.1 h with rfl | h
    · exact ⟨List.mem_cons_self, _, rfl⟩
    · obtain ⟨hmem, hlink⟩ := ih h
      exact ⟨List.mem_cons_of_mem _ hmem, hlink⟩

/-- The entities that an update with a feed puts on the roster. -/
def entrants (feed : List Descriptor) : List Tracked :=
  trackFrom settings g r.owner r.linkAttempts (r.arrivals feed)

theorem keys_entrants (feed : List Descriptor) :
    (entrants settings g r feed).map (·.key) = (r.arrivals feed).map (·.key) := by
  have hdescriptors := descriptors_trackFrom settings g r.owner r.linkAttempts (r.arrivals feed)
  calc
    (entrants settings g r feed).map (·.key)
      = ((entrants settings g r feed).map (·.descriptor)).map (·.key) := by
        rw [List.map_map]
        rfl
    _ = (r.arrivals feed).map (·.key) := by rw [entrants, hdescriptors]

theorem mem_keys_entrants {feed : List Descriptor} {key : Key} :
    key ∈ (entrants settings g r feed).map (·.key) ↔
      Reports feed key ∧ key ∉ r.tracked.map (·.key) := by
  rw [keys_entrants, List.mem_map]
  constructor
  · rintro ⟨d, hd, rfl⟩
    obtain ⟨hfirst, hnew⟩ := mem_arrivals.1 hd
    exact ⟨reports_iff.2 ⟨d, hfirst⟩, hnew⟩
  · rintro ⟨hreports, hnew⟩
    obtain ⟨d, hd⟩ := reports_iff.1 hreports
    have hkey := key_of_firstOf? hd
    subst hkey
    exact ⟨d, mem_arrivals.2 ⟨hd, hnew⟩, rfl⟩

theorem mem_tracked_update {feed : List Descriptor} {t : Tracked} :
    t ∈ (r.update settings g feed).2.tracked ↔
      t ∈ r.tracked ∧ Reports feed t.key ∨ t ∈ entrants settings g r feed := by
  simp only [update]
  rw [List.mem_mergeSort, List.mem_append, List.mem_filter, any_key_iff]
  rfl

theorem increasing_update (h : Increasing (r.tracked.map (·.key))) (feed : List Descriptor) :
    Increasing ((r.update settings g feed).2.tracked.map (·.key)) := by
  refine increasing_mergeSort _ ?_
  rw [List.map_append, List.nodup_append]
  refine ⟨h.nodup.sublist (List.filter_sublist.map _), ?_, ?_⟩
  · change ((entrants settings g r feed).map (·.key)).Nodup
    rw [keys_entrants]
    exact (r.increasing_arrivals feed).nodup
  · rintro key hold key' hnew rfl
    obtain ⟨t, ht, rfl⟩ := List.mem_map.1 hold
    have hnew := (mem_keys_entrants settings g r).1 hnew
    exact hnew.2 (List.mem_map_of_mem (List.mem_filter.1 ht).1)

theorem mem_keys_update {feed : List Descriptor} {key : Key} :
    key ∈ (r.update settings g feed).2.tracked.map (·.key) ↔ Reports feed key := by
  rw [List.mem_map]
  constructor
  · rintro ⟨t, ht, rfl⟩
    rcases (mem_tracked_update settings g r).1 ht with ⟨-, hreports⟩ | hnew
    · exact hreports
    · exact ((mem_keys_entrants settings g r).1 (List.mem_map_of_mem hnew)).1
  · intro hreports
    by_cases hold : key ∈ r.tracked.map (·.key)
    · obtain ⟨t, ht, rfl⟩ := List.mem_map.1 hold
      exact ⟨t, (mem_tracked_update settings g r).2 (Or.inl ⟨ht, hreports⟩), rfl⟩
    · obtain ⟨t, ht, rfl⟩ := List.mem_map.1
        ((mem_keys_entrants settings g r).2 ⟨hreports, hold⟩)
      exact ⟨t, (mem_tracked_update settings g r).2 (Or.inr ht), rfl⟩

theorem update_congr {feed feed' : List Descriptor} (h : firstOf? feed = firstOf? feed') :
    r.update settings g feed = r.update settings g feed' := by
  have hstays : ∀ key, feed.any (·.key == key) = feed'.any (·.key == key) := by
    intro key
    rw [Bool.eq_iff_iff, any_key_iff, any_key_iff, reports_iff, reports_iff, h]
  simp only [update, r.arrivals_congr h, hstays]

end Roster

/-! ## Runs of feeds -/

namespace Roster

def after (settings : Settings) (g : Streets Float) (r : Roster)
    (feeds : List (List Descriptor)) : Roster :=
  feeds.foldl (fun r feed => (r.update settings g feed).2) r

def changesOver (settings : Settings) (g : Streets Float) :
    Roster → List (List Descriptor) → List Changes
  | _, [] => []
  | r, feed :: rest =>
    let updated := r.update settings g feed
    updated.1 :: changesOver settings g updated.2 rest

variable (settings : Settings) (g : Streets Float)

theorem after_append (r : Roster) (feeds : List (List Descriptor)) (feed : List Descriptor) :
    r.after settings g (feeds ++ [feed]) = ((r.after settings g feeds).update settings g feed).2 := by
  rw [after, List.foldl_append]
  rfl

theorem changesOver_append (r : Roster) (feeds : List (List Descriptor))
    (feed : List Descriptor) :
    r.changesOver settings g (feeds ++ [feed]) =
      r.changesOver settings g feeds ++ [((r.after settings g feeds).update settings g feed).1] := by
  induction feeds generalizing r with
  | nil => rfl
  | cons first rest ih =>
    rw [List.cons_append, changesOver, ih]
    rfl

theorem run_congr {feeds feeds' : List (List Descriptor)}
    (h : List.Forall₂ (fun feed feed' => ∀ key, firstOf? feed key = firstOf? feed' key) feeds feeds')
    (r : Roster) :
    r.changesOver settings g feeds = r.changesOver settings g feeds' ∧
      r.after settings g feeds = r.after settings g feeds' := by
  induction h generalizing r with
  | nil => exact ⟨rfl, rfl⟩
  | @cons feed feed' rest rest' hfeed _ ih =>
    have hupdate := update_congr settings g r (funext hfeed)
    obtain ⟨hchanges, hafter⟩ := ih (r.update settings g feed').2
    rw [changesOver, changesOver, hupdate, hchanges]
    refine ⟨rfl, ?_⟩
    change Roster.after settings g (r.update settings g feed).2 rest = _
    rw [hupdate, hafter]
    rfl

theorem counts_after (r : Roster) (feeds : List (List Descriptor)) :
    (r.after settings g feeds).linkAttempts =
        r.linkAttempts + ((r.changesOver settings g feeds).map (·.added.length)).sum ∧
      (r.after settings g feeds).version = r.version + feeds.length := by
  induction feeds generalizing r with
  | nil => exact ⟨rfl, rfl⟩
  | cons feed rest ih =>
    obtain ⟨hattempts, hversion⟩ := ih (r.update settings g feed).2
    have hadded : (r.update settings g feed).2.linkAttempts =
        r.linkAttempts + (r.update settings g feed).1.added.length := by
      simp only [update, List.length_map]
    have hnext : (r.update settings g feed).2.version = r.version + 1 := rfl
    rw [changesOver, List.map_cons, List.sum_cons, List.length_cons]
    refine ⟨?_, ?_⟩
    · exact hattempts.trans (by rw [hadded, Nat.add_assoc])
    · exact hversion.trans (by rw [hnext]; omega)

end Roster

/-- The descriptor is the first of its key in the feed with which the unbroken run of reports of
that key up to the last feed began. -/
def Since (feeds : List (List Descriptor)) (d : Descriptor) : Prop :=
  ∃ earlier start later, feeds = earlier ++ start :: later ∧
    (∀ feed ∈ start :: later, Reports feed d.key) ∧
    (∀ feed, earlier.getLast? = some feed → ¬ Reports feed d.key) ∧
    firstOf? start d.key = some d

theorem Since.append {feeds : List (List Descriptor)} {d : Descriptor} (h : Since feeds d)
    {feed : List Descriptor} (hfeed : Reports feed d.key) : Since (feeds ++ [feed]) d := by
  obtain ⟨earlier, start, later, rfl, hrun, hbreak, hfirst⟩ := h
  refine ⟨earlier, start, later ++ [feed], by simp, fun f hf => ?_, hbreak, hfirst⟩
  rw [← List.cons_append, List.mem_append, List.mem_singleton] at hf
  rcases hf with hf | rfl
  · exact hrun f hf
  · exact hfeed

/-- The keys that the last feed of a run reports; before the first feed there are none. -/
def ReportedLast (feeds : List (List Descriptor)) (key : Key) : Prop :=
  ∃ feed, feeds.getLast? = some feed ∧ Reports feed key

/-- What the roster is after a run of feeds. -/
structure Reflects (settings : Settings) (g : Streets Float) (feeds : List (List Descriptor))
    (r : Roster) : Prop where
  keys : Increasing (r.tracked.map (·.key))
  mem_keys : ∀ key, key ∈ r.tracked.map (·.key) ↔ ReportedLast feeds key
  since : ∀ t ∈ r.tracked, Since feeds t.descriptor
  link : ∀ t ∈ r.tracked, ∃ id, t.link = linkDescriptor settings g id t.descriptor

theorem reflects_nil (settings : Settings) (g : Streets Float) (owner : Nat) :
    Reflects settings g [] { owner } where
  keys := List.Pairwise.nil
  mem_keys := by simp [ReportedLast]
  since := by simp
  link := by simp

theorem Reflects.update {settings : Settings} {g : Streets Float}
    {feeds : List (List Descriptor)} {r : Roster} (h : Reflects settings g feeds r)
    (feed : List Descriptor) :
    Reflects settings g (feeds ++ [feed]) (r.update settings g feed).2 where
  keys := Roster.increasing_update settings g r h.keys feed
  mem_keys := by
    intro key
    rw [Roster.mem_keys_update, ReportedLast]
    simp
  since := by
    intro t ht
    rcases (Roster.mem_tracked_update settings g r).1 ht with ⟨hold, hreports⟩ | hnew
    · exact (h.since t hold).append hreports
    · obtain ⟨harrival, -⟩ := Roster.mem_trackFrom settings g hnew
      obtain ⟨hfirst, hmissing⟩ := Roster.mem_arrivals.1 harrival
      refine ⟨feeds, feed, [], rfl, fun f hf => ?_, fun f hf hreports => ?_, hfirst⟩
      · rw [List.mem_singleton.1 hf]
        exact reports_iff.2 ⟨_, hfirst⟩
      · exact hmissing ((h.mem_keys _).2 ⟨f, hf, hreports⟩)
  link := by
    intro t ht
    rcases (Roster.mem_tracked_update settings g r).1 ht with ⟨hold, -⟩ | hnew
    · exact h.link t hold
    · exact (Roster.mem_trackFrom settings g hnew).2

theorem reflects_after (settings : Settings) (g : Streets Float) (owner : Nat)
    (feeds : List (List Descriptor)) :
    Reflects settings g feeds (Roster.after settings g { owner } feeds) := by
  induction feeds using List.reverseRecOn with
  | nil => exact reflects_nil settings g owner
  | append_singleton before feed ih =>
    rw [Roster.after_append]
    exact ih.update feed

/-! ## The changes of a feed -/

namespace Roster

theorem find?_eq_some {r : Roster} (h : (r.tracked.map (·.key)).Nodup) {t : Tracked}
    (ht : t ∈ r.tracked) : r.find? t.key = some t := by
  cases hfound : r.find? t.key with
  | none => exact absurd (List.mem_map_of_mem ht) (find?_eq_none_iff.1 hfound)
  | some d =>
    have hkey : d.key = t.key := by simpa using List.find?_some hfound
    rw [List.inj_on_of_nodup_map h (List.mem_of_find?_eq_some hfound) ht hkey]

variable (settings : Settings) (g : Streets Float)

theorem mem_removed {r : Roster} {feed : List Descriptor} {key : Key} :
    key ∈ (r.update settings g feed).1.removed ↔
      key ∈ r.tracked.map (·.key) ∧ ¬ Reports feed key := by
  simp only [update, List.mem_map, List.mem_filter, Bool.not_eq_true', ← any_key_iff,
    Bool.not_eq_true]
  constructor
  · rintro ⟨t, ⟨ht, hgone⟩, rfl⟩
    exact ⟨⟨t, ht, rfl⟩, hgone⟩
  · rintro ⟨⟨t, ht, rfl⟩, hgone⟩
    exact ⟨t, ⟨ht, hgone⟩, rfl⟩

theorem counts_update {r : Roster} (h : Increasing (r.tracked.map (·.key)))
    (feed : List Descriptor) :
    let updated := r.update settings g feed
    updated.1.linked = updated.1.added.countP (fun key => (updated.2.find? key).any (·.isLinked)) ∧
      updated.1.linked + updated.1.unlinked = updated.1.added.length := by
  intro updated
  have hkeys : (updated.2.tracked.map (·.key)).Nodup := (increasing_update settings g r h feed).nodup
  have hadded : updated.1.added = (entrants settings g r feed).map (·.key) := rfl
  have hlinked : updated.1.linked = (entrants settings g r feed).countP (·.isLinked) := rfl
  have hunlinked : updated.1.unlinked =
      (entrants settings g r feed).length - (entrants settings g r feed).countP (·.isLinked) := rfl
  constructor
  · rw [hadded, hlinked, List.countP_map]
    refine List.countP_congr fun t ht => ?_
    have hfound := find?_eq_some hkeys ((mem_tracked_update settings g r).2 (Or.inr ht))
    simp only [Function.comp_apply, hfound, Option.any_some]
  · have hle : (entrants settings g r feed).countP (·.isLinked) ≤
        (entrants settings g r feed).length := List.countP_le_length
    rw [hadded, hlinked, hunlinked, List.length_map]
    omega

theorem changes_eq_empty {r : Roster} {feed : List Descriptor}
    (h : ∀ key, key ∈ r.tracked.map (·.key) ↔ Reports feed key) :
    (r.update settings g feed).1 = {} := by
  have hnew : r.arrivals feed = [] := by
    rw [List.eq_nil_iff_forall_not_mem]
    intro d hd
    obtain ⟨hfirst, hmissing⟩ := mem_arrivals.1 hd
    exact hmissing ((h d.key).2 (reports_iff.2 ⟨d, hfirst⟩))
  have hremoved : (r.update settings g feed).1.removed = [] := by
    rw [List.eq_nil_iff_forall_not_mem]
    intro key hkey
    obtain ⟨hold, hgone⟩ := (mem_removed settings g).1 hkey
    exact hgone ((h key).1 hold)
  simp only [update, hnew, trackFrom] at hremoved ⊢
  rw [hremoved]
  rfl

end Roster

/-- After a run of feeds the roster holds the keys of the last feed, each with its first description
since it was reported without a break and the link that this gives, in whatever overlay; the last
feed changed what it has beyond the one before it and lacks of it; attempts and versions are counted
over the whole run; only the first descriptor of each key in each feed matters; and giving the last
feed again changes nothing. -/
theorem roster_over_runs (settings : Settings) (g : Streets Float) (owner : Nat)
    (feeds : List (List Descriptor)) (feed : List Descriptor) :
    let start : Roster := { owner }
    let run := feeds ++ [feed]
    let changes := ((start.after settings g feeds).update settings g feed).1
    let now := start.after settings g run
    (Increasing (now.tracked.map (·.key)) ∧
      ∀ key, key ∈ now.tracked.map (·.key) ↔ Reports feed key) ∧
    (∀ t ∈ now.tracked, Since run t.descriptor ∧
      ∀ id, linkDescriptor settings g id t.descriptor = t.link.map (EntityLink.renamed id)) ∧
    (Increasing changes.added ∧
      ∀ key, key ∈ changes.added ↔ Reports feed key ∧ ¬ ReportedLast feeds key) ∧
    (Increasing changes.removed ∧
      ∀ key, key ∈ changes.removed ↔ ReportedLast feeds key ∧ ¬ Reports feed key) ∧
    (changes.linked = changes.added.countP (fun key => (now.find? key).any (·.isLinked)) ∧
      changes.linked + changes.unlinked = changes.added.length) ∧
    (start.changesOver settings g run = start.changesOver settings g feeds ++ [changes] ∧
      now.linkAttempts = ((start.changesOver settings g run).map (·.added.length)).sum ∧
      now.version = run.length) ∧
    (∀ run', List.Forall₂ (fun f f' => ∀ key, firstOf? f key = firstOf? f' key) run run' →
      start.changesOver settings g run = start.changesOver settings g run' ∧
        now = start.after settings g run') ∧
    (now.update settings g feed).1 = {} := by
  intro start run changes now
  have hbefore : Reflects settings g feeds (start.after settings g feeds) :=
    reflects_after settings g owner feeds
  have hnow : Reflects settings g run now := reflects_after settings g owner run
  have hupdate : now = ((start.after settings g feeds).update settings g feed).2 :=
    Roster.after_append settings g start feeds feed
  have hkeys : ∀ key, key ∈ now.tracked.map (·.key) ↔ Reports feed key := by
    intro key
    rw [hupdate, Roster.mem_keys_update]
  have hadded : changes.added = ((start.after settings g feeds).arrivals feed).map (·.key) :=
    Roster.keys_entrants settings g _ feed
  have hcounts := Roster.counts_update settings g hbefore.keys feed
  obtain ⟨hattempts, hversion⟩ := Roster.counts_after settings g start run
  refine ⟨⟨hnow.keys, hkeys⟩, fun t ht => ⟨hnow.since t ht, fun id => ?_⟩, ⟨?_, fun key => ?_⟩,
    ⟨?_, fun key => ?_⟩, ?_, ⟨?_, ?_, ?_⟩, fun run' hrun => ?_, ?_⟩
  · obtain ⟨own, hlink⟩ := hnow.link t ht
    rw [hlink]
    exact linkDescriptor_renamed settings g own id t.descriptor
  · rw [hadded]
    exact Roster.increasing_arrivals _ feed
  · rw [← hbefore.mem_keys key]
    exact Roster.mem_keys_entrants settings g _
  · exact hbefore.keys.sublist (List.filter_sublist.map _)
  · rw [← hbefore.mem_keys key]
    exact Roster.mem_removed settings g
  · rw [hupdate]
    exact hcounts
  · exact Roster.changesOver_append settings g start feeds feed
  · rw [hattempts]
    exact Nat.zero_add _
  · rw [hversion]
    exact Nat.zero_add _
  · exact Roster.run_congr settings g hrun start
  · exact Roster.changes_eq_empty settings g hkeys

def scooterAt (x : Float) : Descriptor :=
  .vehicle ⟨"city", "scooter 1"⟩ .kickScooter ⟨x, 0.0⟩

def marketStation : Descriptor :=
  .bikeStation ⟨"city", "station 1"⟩ "Market" 10 ⟨0.0, 0.0⟩

theorem roster_over_runs_of_two_feeds :
    let start : Roster := { owner := 0 }
    let run := [[scooterAt 0.0, scooterAt 0.5, marketStation], [marketStation, scooterAt 0.25]]
    (∃ t ∈ (start.after {} .empty run).tracked, t.key = (scooterAt 0.0).key ∧
      Since run t.descriptor) ∧
    start.after {} .empty run =
      start.after {} .empty [[marketStation, scooterAt 0.0], [scooterAt 0.25, marketStation]] := by
  obtain ⟨⟨-, hkeys⟩, hentries, -, -, -, -, hsame, -⟩ := roster_over_runs {} .empty 0
    [[scooterAt 0.0, scooterAt 0.5, marketStation]] [marketStation, scooterAt 0.25]
  constructor
  · have hreports : Reports [marketStation, scooterAt 0.25] (scooterAt 0.0).key :=
      List.mem_cons_of_mem _ List.mem_cons_self
    obtain ⟨t, ht, hkey⟩ := List.mem_map.1 ((hkeys _).2 hreports)
    exact ⟨t, ht, hkey, (hentries t ht).1⟩
  · refine (hsame _ (.cons (fun key => ?_) (.cons (fun key => ?_) .nil))).2
    · by_cases hscooter : (scooterAt 0.0).key = key
      · subst hscooter
        rfl
      · have hlater : (scooterAt 0.5).key ≠ key := hscooter
        simp [firstOf?, List.find?_cons, hscooter, hlater]
    · by_cases hscooter : (scooterAt 0.25).key = key
      · subst hscooter
        rfl
      · simp [firstOf?, List.find?_cons, hscooter]

end StreetLinking.Fleet
