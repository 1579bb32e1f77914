import Mathlib.Data.List.Nodup
import StreetLinking.Street.Construction
/-!
# Sound street graphs

What every street graph keeps to while it is built and linked: the numbers of live edges and of
removed ones never collide, serials fall along the list of edges and are never given again, edges
join vertices that exist, and their lines have at least two points. Edges enter the graph in batches
that are indexed as a whole or not at all, so the effect of a batch is stated once, as growth.
-/

namespace StreetLinking.Street

open Number Plane

variable {α : Type}

namespace Edge

def place (e : Edge α) : Nat × Nat × EdgeData α :=
  (e.source, e.target, e.toEdgeData)

def entry? [Scalar α] (e : Edge α) : Option (EdgeEntry α) :=
  (Box.around? e.line).map fun box => ⟨e.number, e.serial, box⟩

end Edge

namespace Streets

/-! ## Soundness -/

/-- What holds of every street graph that is built by additions and linking. -/
structure Sound (g : Streets α) : Prop where
  numbers : (g.edges.map (·.number) ++ g.freed).Nodup
  number_lt : ∀ n ∈ g.edges.map (·.number) ++ g.freed, n < g.numbers
  serials : g.edges.Pairwise fun a b => b.serial < a.serial
  serial_lt : ∀ e ∈ g.edges, e.serial < g.nextSerial
  ends : ∀ e ∈ g.edges, e.source < g.vertices.size ∧ e.target < g.vertices.size
  lines : ∀ e ∈ g.edges, 2 ≤ e.line.length

theorem sound_empty : Sound (empty : Streets α) where
  numbers := List.nodup_nil
  number_lt := by simp [empty]
  serials := List.Pairwise.nil
  serial_lt := by simp [empty]
  ends := by simp [empty]
  lines := by simp [empty]

theorem Sound.congr {g g' : Streets α} (h : Sound g) (hedges : g'.edges = g.edges)
    (hfreed : g'.freed = g.freed) (hnumbers : g'.numbers = g.numbers)
    (hserial : g'.nextSerial = g.nextSerial) (hsize : g.vertices.size ≤ g'.vertices.size) :
    Sound g' where
  numbers := by rw [hedges, hfreed]; exact h.numbers
  number_lt := by rw [hedges, hfreed, hnumbers]; exact h.number_lt
  serials := by rw [hedges]; exact h.serials
  serial_lt := by rw [hedges, hserial]; exact h.serial_lt
  ends := by
    rw [hedges]
    intro e he
    have hends := h.ends e he
    omega
  lines := by rw [hedges]; exact h.lines

theorem Sound.addVertex {g : Streets α} (h : Sound g) (v : Vertex α) : Sound (g.addVertex v).1 :=
  h.congr rfl rfl rfl rfl (by simp [Streets.addVertex])

theorem Sound.nextNumber_not_mem {g : Streets α} (h : Sound g) :
    g.nextNumber ∉ g.edges.map (·.number) ++ g.freed.tail := by
  unfold nextNumber
  have hnodup := h.numbers
  have hlt := h.number_lt
  cases hfreed : g.freed with
  | nil =>
    rw [hfreed] at hlt
    intro hmem
    have := hlt g.numbers (by simpa using hmem)
    omega
  | cons n rest =>
    rw [hfreed] at hnodup
    simp only [List.headD_cons, List.tail_cons]
    have hmiddle := List.nodup_middle.1 hnodup
    exact (List.nodup_cons.1 hmiddle).1

theorem Sound.insertEdge {g : Streets α} (h : Sound g) {source target : Nat}
    {data : EdgeData α} (hsource : source < g.vertices.size) (htarget : target < g.vertices.size)
    (hline : 2 ≤ data.line.length) : Sound (g.insertEdge source target data).1 where
  numbers := by
    have hnodup := h.numbers
    refine List.nodup_cons.2 ⟨h.nextNumber_not_mem, ?_⟩
    exact hnodup.sublist ((List.Sublist.refl _).append (List.tail_sublist _))
  number_lt := by
    have hlt := h.number_lt
    simp only [Streets.insertEdge, nextEdge, List.map_cons, List.cons_append, List.mem_cons,
      List.mem_append, nextNumber]
    cases hfreed : g.freed with
    | nil =>
      rw [hfreed] at hlt
      simp only [List.headD_nil, List.tail_nil, List.not_mem_nil, or_false, List.isEmpty_nil,
        if_true]
      rintro n (rfl | hn)
      · omega
      · have := hlt n (List.mem_append_left _ hn)
        omega
    | cons m rest =>
      rw [hfreed] at hlt
      simp only [List.headD_cons, List.tail_cons, List.isEmpty_cons, Bool.false_eq_true, if_false]
      rintro n (rfl | hn | hn)
      · exact hlt n (by simp)
      · exact hlt n (List.mem_append_left _ hn)
      · exact hlt n (by simp [hn])
  serials := List.pairwise_cons.2 ⟨h.serial_lt, h.serials⟩
  serial_lt := by
    intro e he
    rcases List.mem_cons.1 he with rfl | he
    · exact Nat.lt_succ_self _
    · exact Nat.lt_succ_of_lt (h.serial_lt e he)
  ends := by
    intro e he
    rcases List.mem_cons.1 he with rfl | he
    · exact ⟨hsource, htarget⟩
    · exact h.ends e he
  lines := by
    intro e he
    rcases List.mem_cons.1 he with rfl | he
    · exact hline
    · exact h.lines e he

theorem Sound.edge?_eq_some_iff {g : Streets α} (h : Sound g) {n : Nat} {e : Edge α} :
    g.edge? n = some e ↔ e ∈ g.edges ∧ e.number = n := by
  have hnodup := (List.nodup_append.1 h.numbers).1
  unfold edge?
  generalize g.edges = edges at hnodup
  induction edges with
  | nil => simp
  | cons d rest ih =>
    obtain ⟨hd, hrest⟩ := List.nodup_cons.1 hnodup
    rw [List.find?_cons]
    by_cases hn : d.number = n
    · subst hn
      simp only [beq_self_eq_true, Option.some.injEq, List.mem_cons]
      constructor
      · rintro rfl
        exact ⟨Or.inl rfl, rfl⟩
      · rintro ⟨rfl | he, hnumber⟩
        · rfl
        · exact absurd (List.mem_map.2 ⟨e, he, hnumber⟩) hd
    · have hne : (d.number == n) = false := by simpa using hn
      rw [hne]
      simp only [ih hrest, List.mem_cons]
      constructor
      · rintro ⟨he, hnumber⟩
        exact ⟨Or.inr he, hnumber⟩
      · rintro ⟨rfl | he, hnumber⟩
        · exact absurd hnumber hn
        · exact ⟨he, hnumber⟩

theorem Sound.edge?_of_kept {g g' : Streets α} (h : Sound g) (h' : Sound g') {n : Nat} {e : Edge α}
    (hedge : g.edge? n = some e) (hkept : ∀ d ∈ g.edges, d.number = n → d ∈ g'.edges) :
    g'.edge? n = some e := by
  obtain ⟨he, hnumber⟩ := h.edge?_eq_some_iff.1 hedge
  exact h'.edge?_eq_some_iff.2 ⟨hkept e he hnumber, hnumber⟩

theorem Sound.number_inj {g : Streets α} (h : Sound g) {d e : Edge α} (hd : d ∈ g.edges)
    (he : e ∈ g.edges) (hnumber : d.number = e.number) : d = e := by
  have hfound := h.edge?_eq_some_iff.2 ⟨hd, hnumber⟩
  rwa [h.edge?_eq_some_iff.2 ⟨he, rfl⟩, Option.some.injEq, eq_comm] at hfound

theorem Sound.number_ne_of_append {g : Streets α} (h : Sound g) {new kept : List (Edge α)}
    (hedges : g.edges = new ++ kept) {d e : Edge α} (hd : d ∈ new) (he : e ∈ kept) :
    d.number ≠ e.number := by
  have hnumbers := (List.nodup_append.1 h.numbers).1
  rw [hedges, List.map_append] at hnumbers
  exact (List.nodup_append.1 hnumbers).2.2 _ (List.mem_map_of_mem hd) _ (List.mem_map_of_mem he)

/-- On top of edges of another graph, a further one of which is taken away, the edges stay. -/
theorem Sound.filter_edges {g g' : Streets α} (h : Sound g') {e : Edge α} (he : e ∈ g.edges)
    {gone : List Nat} (hthere : e.number ∉ gone) {new : List (Edge α)}
    (hedges : g'.edges = new ++ g.edges.filter fun d => !gone.contains d.number) :
    g'.edges.filter (·.number != e.number) =
      new ++ g.edges.filter fun d => !(gone ++ [e.number]).contains d.number := by
  have hkept : e ∈ g.edges.filter fun d => !gone.contains d.number :=
    List.mem_filter.2 ⟨he, by simpa using hthere⟩
  rw [hedges, List.filter_append, List.filter_filter]
  congr 1
  · refine List.filter_eq_self.2 fun d hd => bne_iff_ne.2 ?_
    exact h.number_ne_of_append hedges hd hkept
  · refine List.filter_congr fun d _ => ?_
    by_cases hsame : d.number = e.number <;> simp [hsame]

theorem Sound.nodup_serials {g : Streets α} (h : Sound g) : (g.edges.map (·.serial)).Nodup :=
  List.pairwise_map.2 (h.serials.imp fun hlt => (Nat.ne_of_lt hlt).symm)

theorem Sound.serial_inj {g : Streets α} (h : Sound g) {d e : Edge α} (hd : d ∈ g.edges)
    (he : e ∈ g.edges) (hserial : d.serial = e.serial) : d = e :=
  List.inj_on_of_nodup_map h.nodup_serials hd he hserial

theorem Sound.detach_eq {g : Streets α} (h : Sound g) {e : Edge α} (he : e ∈ g.edges) :
    g.detach e.number =
      { g with
          edges := g.edges.filter (·.number != e.number)
          freed := e.number :: g.freed } := by
  rw [detach, if_pos]
  rw [h.edge?_eq_some_iff.2 ⟨he, rfl⟩]
  rfl

theorem frame_detach (g : Streets α) (n : Nat) :
    (g.detach n).areas = g.areas ∧ (g.detach n).annotations = g.annotations ∧
      (g.detach n).stopIndex = g.stopIndex := by
  unfold detach
  split <;> exact ⟨rfl, rfl, rfl⟩

theorem Sound.detach {g : Streets α} (h : Sound g) {e : Edge α} (he : e ∈ g.edges) :
    Sound (g.detach e.number) := by
  have hsub : (g.edges.filter (·.number != e.number)).Sublist g.edges := List.filter_sublist
  rw [h.detach_eq he]
  refine ⟨?_, ?_, h.serials.sublist hsub, ?_, ?_, ?_⟩
  · rw [List.nodup_middle, List.nodup_cons]
    refine ⟨?_, h.numbers.sublist ((hsub.map _).append (List.Sublist.refl _))⟩
    rw [List.mem_append, not_or]
    constructor
    · simp
    · exact fun hfreed =>
        (List.nodup_append.1 h.numbers).2.2 _ (List.mem_map_of_mem he) _ hfreed rfl
  · intro n hn
    rcases List.mem_append.1 hn with hn | hn
    · exact h.number_lt n (List.mem_append_left _ ((hsub.map _).subset hn))
    · rcases List.mem_cons.1 hn with rfl | hn
      · exact h.number_lt _ (List.mem_append_left _ (List.mem_map_of_mem he))
      · exact h.number_lt n (List.mem_append_right _ hn)
  · exact fun d hd => h.serial_lt d (hsub.subset hd)
  · exact fun d hd => h.ends d (hsub.subset hd)
  · exact fun d hd => h.lines d (hsub.subset hd)

end Streets

end StreetLinking.Street
