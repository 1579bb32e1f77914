import StreetLinking.Proofs.Linking.AllOrNothing
import StreetLinking.Proofs.Linking.Persistence
/-!
# What linking changes

Linking vertices of a graph splits streets and edges of areas at the places of points, connects the
vertices that it links with ends of such edges, and crosses areas from such ends. Main statement:
each change that a call of linking makes is of this kind in the graph in which it is made, so that
what changes of this kind keep holds after any calls.
-/

namespace StreetLinking.Linking

open Number Plane Street Streets Nearest

variable {α : Type} [Scalar α]

/-- A change as linking makes it. -/
def Change.IsRegular (g : Streets α) : Change α → Prop
  | .add _ => False
  | .annotate _ => True
  | .split number location => ∃ e frame point, g.edge? number = some e ∧
      e.kind.isLinkable = true ∧ location = Frame.locate frame point e.line
  | .connect entity street role =>
    (∃ x, g.vertex? entity = some x ∧ x.kind.role? = some role) ∧ OnEdge g street
  | .cross vertex _ => OnEdge g vertex

def Along (P : Streets α → Change α → Prop) : Streets α → List (Change α) → Prop
  | _, [] => True
  | g, c :: rest => P g c ∧ Along P (c.apply g) rest

theorem along_append {P : Streets α → Change α → Prop} {g : Streets α}
    {before after : List (Change α)} :
    Along P g (before ++ after) ↔ Along P g before ∧ Along P (replay g before) after := by
  induction before generalizing g with
  | nil => simp [Along]
  | cons c rest ih => simp only [List.cons_append, Along, ih, replay_cons, and_assoc]

theorem Along.imp {P Q : Streets α → Change α → Prop} {g : Streets α} {changes : List (Change α)}
    (h : Along P g changes) (himp : ∀ g c, P g c → Q g c) : Along Q g changes := by
  induction changes generalizing g with
  | nil => trivial
  | cons c rest ih => exact ⟨himp g c h.1, ih h.2⟩

/-! ## Attaching -/

omit [Scalar α] in
theorem OnEdge.mono {g g' : Streets α} (h : ∀ e ∈ g.edges, e ∈ g'.edges) {w : Nat}
    (hw : OnEdge g w) : OnEdge g' w := by
  obtain ⟨e, he, hend⟩ := hw
  exact ⟨e, h e he, hend⟩

omit [Scalar α] in
theorem OnEdge.isStreet {g : Streets α} {w : Nat} (hw : OnEdge g w) (hstreets : OnStreets g) :
    IsStreet g w := by
  obtain ⟨e, he, hopen, hend⟩ := hw
  obtain ⟨hsource, htarget⟩ := hstreets.edges e he hopen
  rcases hend with rfl | rfl
  · exact hsource
  · exact htarget

theorem onEdge_split {g : Streets α} (hsound : Sound g) {number : Nat} {location : Location α}
    {h : Halves α} (hh : halve g number location = .ok h)
    (hopen : h.parent.kind.isLinkable = true) :
    OnEdge (split g number location).state g.vertices.size := by
  obtain ⟨-, first, second, hsplits⟩ := sound_and_splits hsound hh
  obtain ⟨⟨hmem, hkind, -, htarget⟩, -⟩ := hsplits.halves hh
  exact ⟨first, hmem, hkind ▸ hopen, Or.inr htarget.symm⟩

section Attach

variable (settings : Settings) (frame : Frame α) (entity : Entity α)

theorem along_attachChanges {g : Streets α} (hsound : Sound g) {number : Nat} {e : Edge α}
    (hedge : g.edge? number = some e) (hopen : e.kind.isLinkable = true) :
    Along Change.IsRegular g (attachChanges settings frame entity g number) ∧
      ∃ v g', attach settings frame entity g number = .ok v g' ∧ OnEdge g' v := by
  obtain ⟨hlive, -⟩ := hsound.edge?_eq_some_iff.1 hedge
  rcases attach_cases hsound hedge settings frame entity with
    ⟨v, hplan, hend, hattach⟩ | ⟨location, h, hplan, hh, rfl, hattach⟩
  · refine ⟨?_, v, g, hattach, e, hlive, hopen, hend⟩
    simp only [attachChanges, hplan, Along]
  · have honEdge := onEdge_split hsound hh hopen
    have hanswer : (split g number location).answer = .ok g.vertices.size :=
      congrArg Outcome.answer (split_of_halve hh)
    constructor
    · simp only [attachChanges, hplan, hanswer, hedge, Option.bind_some]
      refine ⟨⟨h.parent, frame, entity.position, hedge, hopen, plan_eq_cut hedge hplan⟩, ?_⟩
      cases h.parent.kind.area? with
      | none => trivial
      | some area =>
        dsimp only
        split
        · exact ⟨honEdge, trivial⟩
        · trivial
    · rcases hattach with hattach | ⟨-, area, hattach⟩
      · exact ⟨_, _, hattach, honEdge⟩
      · exact ⟨_, _, hattach, honEdge.mono (mem_edges_crossArea _ _ _)⟩

theorem along_attachAllChanges {g : Streets α} (hsound : Sound g) {x : Vertex α}
    (hx : g.vertex? entity.vertex = some x) (hrole : x.kind.role? = some entity.role)
    {numbers : List Nat} (hdistinct : numbers.Nodup)
    (hlive : ∀ n ∈ numbers, ∃ e, g.edge? n = some e ∧ e.kind.isLinkable = true) :
    Along Change.IsRegular g (attachAllChanges settings frame entity g numbers) := by
  induction numbers generalizing g with
  | nil => trivial
  | cons number rest ih =>
    obtain ⟨hnew, hdistinct⟩ := List.nodup_cons.1 hdistinct
    obtain ⟨⟨e, hedge, hopen⟩, hrest⟩ := List.forall_mem_cons.1 hlive
    obtain ⟨halong, v, g₁, hattach, honEdge⟩ :=
      along_attachChanges settings frame entity hsound hedge hopen
    obtain ⟨_, _, hattach', hsound₁, hkept⟩ :=
      exists_attach_of_sound settings frame entity hsound ⟨e, hedge⟩
    rw [hattach] at hattach'
    cases hattach'
    have hstate : replay g (attachChanges settings frame entity g number) = g₁ := by
      rw [replay_attachChanges, hattach]
      rfl
    have hgrow := vertices_replay hsound (attachChanges settings frame entity g number)
    rw [hstate] at hgrow
    let c : Change α := .connect entity.vertex v entity.role
    have hx₁ := vertex?_mono hgrow hx
    rw [attachAllChanges, along_append, hstate, hattach]
    refine ⟨halong, ⟨⟨x, hx₁, hrole⟩, honEdge⟩, ?_⟩
    refine ih (c.sound_apply hsound₁) (vertex?_mono (c.vertices_apply hsound₁) hx₁) hdistinct ?_
    intro n hn
    obtain ⟨d, hd, hdopen⟩ := hrest n hn
    have hother : n ≠ number := fun hsame => hnew (hsame ▸ hn)
    refine ⟨d, hsound.edge?_of_kept (c.sound_apply hsound₁) hd fun d' hd' hnumber => ?_, hdopen⟩
    exact c.mem_edges_apply hsound₁ (hkept d' hd' (hnumber ▸ hother)) fun _ => by simp [c]

end Attach

/-! ## Calls of linking -/

theorem along_annotate {changes : List (Change α)} (h : ∀ c ∈ changes, ∃ note, c = .annotate note)
    (g : Streets α) : Along Change.IsRegular g changes := by
  induction changes generalizing g with
  | nil => trivial
  | cons c rest ih =>
    obtain ⟨⟨note, rfl⟩, hrest⟩ := List.forall_mem_cons.1 h
    exact ⟨trivial, ih hrest _⟩

theorem along_linkEntityChanges (settings : Settings) {g : Streets α} (h : Reached g)
    (entity : Entity α) {x : Vertex α} (hx : g.vertex? entity.vertex = some x)
    (hrole : x.kind.role? = some entity.role) (mode : Mode) :
    Along Change.IsRegular g (linkEntityChanges settings g entity mode) := by
  unfold linkEntityChanges
  cases htargets : targets settings g entity.position mode with
  | nil => trivial
  | cons first rest =>
    obtain ⟨annotations, hwarn⟩ := warnFar_frame settings entity first.distance g
    have hnotes : ∀ c ∈ warnChanges settings entity first.distance, ∃ note, c = .annotate note := by
      unfold warnChanges
      dsimp only
      split
      · simp
      · simp
    have hdistinct := h.nodup_targets settings entity.position mode
    rw [htargets] at hdistinct
    dsimp only
    rw [along_append, replay_warnChanges]
    refine ⟨along_annotate hnotes g, ?_⟩
    have hsound : Sound { g with annotations } := h.sound.congr rfl rfl rfl rfl (Nat.le_refl _)
    rw [hwarn]
    refine along_attachAllChanges settings _ entity hsound hx hrole hdistinct fun n hn => ?_
    obtain ⟨t, ht, rfl⟩ := List.mem_map.1 hn
    obtain ⟨hlive, hopen⟩ := h.live_of_mem_targets settings entity.position mode (htargets ▸ ht)
    exact ⟨t.item, hsound.edge?_eq_some_iff.2 ⟨hlive, rfl⟩, hopen⟩

theorem along_linkChanges (settings : Settings) {g : Streets α} (h : Reached g) (vertex : Nat)
    (mode : Mode) : Along Change.IsRegular g (linkChanges settings g vertex mode) := by
  unfold linkChanges
  cases hx : g.vertex? vertex with
  | none => trivial
  | some x =>
    cases hrole : x.kind.role? with
    | none => simp only [hrole, Along]
    | some role =>
      simp only [hrole]
      exact along_linkEntityChanges settings h _ hx hrole mode

theorem along_linkEachChanges (settings : Settings) {g : Streets α} (h : Reached g)
    (entities : List (Nat × Role)) :
    Along Change.IsRegular g (linkEachChanges settings g entities) := by
  induction entities generalizing g with
  | nil => trivial
  | cons entity rest ih =>
    obtain ⟨vertex, role⟩ := entity
    have hlinked : Reached (link settings g vertex (buildingMode role)).state := by
      rw [← replay_linkChanges]
      exact h.replay _
    rw [linkEachChanges, along_append, replay_linkChanges]
    refine ⟨along_linkChanges settings h vertex _, ?_⟩
    split
    · exact ih hlinked
    · rw [along_append, replay_unlinkedChanges]
      refine ⟨along_annotate (fun c hc => ?_) _, ih ?_⟩
      · obtain ⟨note, -, rfl⟩ := Option.map_eq_some_iff.1 (Option.mem_toList.1 hc)
        exact ⟨note, rfl⟩
      · rw [← replay_unlinkedChanges]
        exact hlinked.replay _
    · trivial

def Operation.isCall : Operation α → Bool
  | link _ _ _ | linkAll _ | linkStreets _ => true
  | split _ _ | connect _ _ _ | cross _ _ => false

theorem along_changes {g : Streets α} (h : Reached g) {call : Operation α}
    (hcall : call.isCall = true) : Along Change.IsRegular g (call.changes g) := by
  cases call with
  | split number location => cases hcall
  | connect entity street role => cases hcall
  | cross vertex area => cases hcall
  | link settings vertex mode => exact along_linkChanges settings h vertex mode
  | linkAll settings => exact along_linkEachChanges settings h _
  | linkStreets settings =>
    simp only [Operation.changes, linkStreetsChanges]
    cases settings.validate with
    | error fault => trivial
    | ok _ =>
      cases coverageAnnotation? g with
      | none => exact along_linkEachChanges settings h _
      | some note => exact ⟨trivial, along_linkEachChanges settings (h.apply (.annotate note)) _⟩

/-- Calls of linking make regular changes only. -/
theorem along_changesOf {g : Streets α} (h : Reached g) {calls : List (Operation α)}
    (hcalls : ∀ c ∈ calls, c.isCall = true) :
    Along Change.IsRegular g (changesOf g (calls.map .operate)) := by
  induction calls generalizing g with
  | nil => trivial
  | cons call rest ih =>
    obtain ⟨hcall, hrest⟩ := List.forall_mem_cons.1 hcalls
    rw [List.map_cons, changesOf, along_append]
    refine ⟨along_changes h hcall, ?_⟩
    rw [Event.changes, replay_operation_changes]
    refine ih ?_ hrest
    rw [← replay_operation_changes]
    exact h.replay _

/-! ## What regular changes leave in place -/

theorem Change.IsRegular.exists_advances {g : Streets α} (hsound : Sound g)
    (hstreets : OnStreets g) {c : Change α} (hc : c.IsRegular g) :
    ∃ us notes, Advances us notes g (c.apply g) := by
  cases c with
  | add addition => cases hc
  | annotate note => exact ⟨[], [note], advances_annotate hsound hstreets [] note⟩
  | split number location =>
    obtain ⟨e, frame, point, hedge, hopen, -⟩ := hc
    obtain ⟨h, hh, rfl⟩ := exists_halve hsound hedge location
    exact ⟨[], [], (advances_split hsound hstreets [] hh hopen).1⟩
  | connect entity street role =>
    obtain ⟨⟨x, hx, -⟩, hw⟩ := hc
    exact ⟨[entity], [], advances_connect hsound hstreets hx (hw.isStreet hstreets) role⟩
  | cross vertex area =>
    exact ⟨[], [], advances_crossArea hsound hstreets [] (OnEdge.isStreet hc hstreets) area⟩

end StreetLinking.Linking
