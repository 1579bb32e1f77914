import StreetLinking.Proofs.Linking.RegularChanges
import StreetLinking.Proofs.Plane.Bounds
/-!
# Lines that lead from vertex to vertex

Where all coordinates are of moderate size and each given line of a street begins and ends at the
vertices of the street, the line of every edge does, and no coordinate is ever undefined. Main
statement: this holds after any history, however often edges are split and at whatever places; what
has to be equal is equal as numbers, because the zero that rounding gives may have either sign.
-/

namespace StreetLinking.Linking

open Number Plane Street Streets Nearest

/-! ## Places and lines -/

def IsModerate (p : Point Float) : Prop :=
  (-1000 ≤ p.x ∧ p.x ≤ 1000) ∧ -1000 ≤ p.y ∧ p.y ≤ 1000

instance (p : Point Float) : Decidable (IsModerate p) :=
  inferInstanceAs (Decidable (_ ∧ _))

theorem IsModerate.isBounded {p : Point Float} (h : IsModerate p) : p.IsBounded :=
  ⟨isBounded_of_le h.1.1 h.1.2, isBounded_of_le h.2.1 h.2.2⟩

/-- A line begins at one place and ends at another, up to equality of numbers. -/
def Spans (line : Line Float) (p q : Point Float) : Prop :=
  (∃ a, line.head? = some a ∧ (a == p) = true) ∧ ∃ b, line.getLast? = some b ∧ (b == q) = true

theorem spans_straight {p q : Point Float} (hp : (p == p) = true) (hq : (q == q) = true) :
    Spans [p, q] p q :=
  ⟨⟨p, rfl, hp⟩, q, rfl, hq⟩

theorem Spans.reverse {line : Line Float} {p q : Point Float} (h : Spans line p q) :
    Spans line.reverse q p := by
  obtain ⟨⟨a, ha, hap⟩, b, hb, hbq⟩ := h
  exact ⟨⟨b, List.head?_reverse.trans hb, hbq⟩, a, List.getLast?_reverse.trans ha, hap⟩

theorem Spans.parts {line first second : Line Float} {p q x : Point Float} (h : Spans line p q)
    (hfirst : 2 ≤ first.length) (hx : (x == x) = true) (hjoins : Joins x first second line) :
    Spans first p x ∧ Spans second x q := by
  obtain ⟨⟨a, ha, hap⟩, b, hb, hbq⟩ := h
  obtain ⟨y, hy, hyx⟩ := hjoins.getLast?
  refine ⟨⟨⟨a, (hjoins.head?_whole hfirst).symm.trans ha, hap⟩, y, hy, ?_⟩, ⟨x, hjoins.head?, hx⟩,
    b, ?_, hbq⟩
  · rcases hyx with rfl | hyx
    · exact hx
    · exact hyx
  · obtain ⟨before, after, rfl, rfl, hafter, -⟩ := hjoins
    rwa [List.getLast?_cons_of_ne_nil hafter, ← List.getLast?_append_of_ne_nil _ hafter]

/-- The line of an edge is bounded and leads from the position of its source to that of its
target. -/
def Lies (g : Streets Float) (source target : Nat) (line : Line Float) : Prop :=
  IsBoundedLine line ∧
    ∃ p q, g.position? source = some p ∧ g.position? target = some q ∧ Spans line p q

structure Placed (g : Streets Float) : Prop where
  vertices : ∀ v p, g.position? v = some p → p.IsBounded
  edges : ∀ e ∈ g.edges, Lies g e.source e.target e.line

theorem placed_empty : Placed .empty where
  vertices v p hp := by simp [Streets.empty, Streets.position?, Streets.vertex?] at hp
  edges := by simp [Streets.empty]

theorem position?_mono {g g' : Streets Float} (h : g.vertices.toList <+: g'.vertices.toList)
    {v : Nat} {p : Point Float} (hp : g.position? v = some p) : g'.position? v = some p := by
  obtain ⟨x, hx, rfl⟩ := Option.map_eq_some_iff.1 hp
  rw [Streets.position?, vertex?_mono h hx]
  rfl

theorem Lies.mono {g g' : Streets Float} (h : g.vertices.toList <+: g'.vertices.toList)
    {source target : Nat} {line : Line Float} (hlies : Lies g source target line) :
    Lies g' source target line := by
  obtain ⟨hbounded, p, q, hp, hq, hspans⟩ := hlies
  exact ⟨hbounded, p, q, position?_mono h hp, position?_mono h hq, hspans⟩

theorem lies_straight {g : Streets Float} (h : Placed g) {source target : Nat}
    {p q : Point Float} (hp : g.position? source = some p) (hq : g.position? target = some q) :
    Lies g source target [p, q] := by
  have hpb := h.vertices _ _ hp
  have hqb := h.vertices _ _ hq
  exact ⟨by simp [IsBoundedLine, hpb, hqb], p, q, hp, hq, spans_straight hpb.beq_self hqb.beq_self⟩

theorem Lies.reverse {g : Streets Float} {source target : Nat} {line : Line Float}
    (h : Lies g source target line) : Lies g target source line.reverse := by
  obtain ⟨hbounded, p, q, hp, hq, hspans⟩ := h
  exact ⟨fun x hx => hbounded x (List.mem_reverse.1 hx), q, p, hq, hp, hspans.reverse⟩

/-! ## Batches of edges -/

theorem Placed.grow {g g' : Streets Float} (h : Placed g) (hvertices : g'.vertices = g.vertices)
    {es : List (Nat × Nat × EdgeData Float)} (hes : ∀ c ∈ es, Lies g c.1 c.2.1 c.2.2.line)
    (hedges : ∀ e ∈ g'.edges, e ∈ g.edges ∨ e.place ∈ es) : Placed g' := by
  have hsame : ∀ v, g'.position? v = g.position? v := fun v => by
    simp only [Streets.position?, Streets.vertex?, hvertices]
  refine ⟨fun v p hp => h.vertices v p (hsame v ▸ hp), fun e he => ?_⟩
  have hlies : Lies g e.source e.target e.line := by
    rcases hedges e he with hold | hnew
    · exact h.edges e hold
    · exact hes _ hnew
  exact hlies.mono (hvertices ▸ List.prefix_refl _)

theorem Placed.insertAll {g : Streets Float} (h : Placed g)
    {es : List (Nat × Nat × EdgeData Float)} (hes : ∀ c ∈ es, Lies g c.1 c.2.1 c.2.2.line) :
    Placed (insertAll g es).1 :=
  h.grow (insertAll_vertices g es) hes fun _ he => mem_edges_insertAll he

theorem Placed.insertIndexed {g : Streets Float} (h : Placed g)
    {es : List (Nat × Nat × EdgeData Float)} (hes : ∀ c ∈ es, Lies g c.1 c.2.1 c.2.2.line) :
    Placed (insertIndexed g es) :=
  h.grow (insertIndexed_vertices g es) hes fun _ he => mem_edges_insertIndexed he

theorem Placed.addVertex {g : Streets Float} (h : Placed g) {x : Vertex Float}
    (hx : x.position.IsBounded) : Placed (g.addVertex x).1 := by
  refine ⟨fun v p hp => ?_, fun e he => (h.edges e he).mono (by simp [Streets.addVertex])⟩
  obtain ⟨y, hy, rfl⟩ := Option.map_eq_some_iff.1 hp
  rw [vertex?_addVertex] at hy
  split at hy
  · obtain rfl := Option.some.inj hy
    exact hx
  · exact h.vertices v _ (Option.map_eq_some_iff.2 ⟨y, hy, rfl⟩)

/-! ## Linking -/

theorem Placed.halves {g : Streets Float} (hsound : Sound g) (hplaced : Placed g) {number : Nat}
    {location : Location Float} {h : Halves Float} (hh : halve g number location = .ok h)
    (hl : IsFraction location.fraction) :
    h.point.IsBounded ∧ IsBoundedLine h.first.line ∧ IsBoundedLine h.second.line ∧
      ∃ p q, g.position? h.parent.source = some p ∧ g.position? h.parent.target = some q ∧
        Spans h.first.line p h.point ∧ Spans h.second.line h.point q := by
  obtain ⟨hedge, first, second, m, n, hfirst, hsecond, -, hlong, -, hjoins⟩ := halve_eq_ok hh
  obtain ⟨hlive, -⟩ := hsound.edge?_eq_some_iff.1 hedge
  obtain ⟨hbounded, p, q, hp, hq, hspans⟩ := hplaced.edges _ hlive
  have hpoint : h.point.IsBounded := hbounded.point? hl (point?_of_halve hh)
  obtain ⟨hfront, hback⟩ := hspans.parts hlong hpoint.beq_self hjoins
  obtain ⟨hfrontBounded, hbackBounded⟩ := hbounded.parts hpoint hjoins
  rw [hfirst, hsecond]
  exact ⟨hpoint, hfrontBounded, hbackBounded, p, q, hp, hq, hfront, hback⟩

theorem Placed.split {g : Streets Float} (hsound : Sound g) (hplaced : Placed g) (number : Nat)
    {location : Location Float} (hl : IsFraction location.fraction) :
    Placed (split g number location).state := by
  cases hh : halve g number location with
  | error fault => rwa [split_state_of_error hh]
  | ok h =>
    obtain ⟨-, first, second, hsplits⟩ := sound_and_splits hsound hh
    obtain ⟨hpoint, hfirst, hsecond, p, q, hp, hq, hfront, hback⟩ := hplaced.halves hsound hh hl
    have hjoint : Placed (g.addVertex (splitVertex h)).1 := hplaced.addVertex hpoint
    have hgrow : g.vertices.toList <+: (g.addVertex (splitVertex h)).1.vertices.toList := by
      simp [Streets.addVertex]
    have hmiddle : (g.addVertex (splitVertex h)).1.position? g.vertices.size = some h.point := by
      rw [Streets.position?, vertex?_addVertex, if_pos rfl]
      rfl
    have hhalves : ∀ c ∈ halfEdges g h,
        Lies (g.addVertex (splitVertex h)).1 c.1 c.2.1 c.2.2.line := by
      refine List.forall_mem_cons.2 ⟨?_, List.forall_mem_singleton.2 ?_⟩
      · exact ⟨hfirst, p, h.point, position?_mono hgrow hp, hmiddle, hfront⟩
      · exact ⟨hsecond, h.point, q, hmiddle, position?_mono hgrow hq, hback⟩
    refine hjoint.grow hsplits.vertices hhalves fun e he => ?_
    rw [hsplits.edges] at he
    rcases List.mem_cons.1 he with rfl | he
    · exact Or.inr (hsplits.second_place ▸ List.mem_cons_of_mem _ List.mem_cons_self)
    · rcases List.mem_cons.1 he with rfl | he
      · exact Or.inr (hsplits.first_place ▸ List.mem_cons_self)
      · exact Or.inl (List.mem_of_mem_filter he)

theorem Placed.connect {g : Streets Float} (h : Placed g) (entity street : Nat) (role : Role) :
    Placed (connect g entity street role).1 := by
  cases ha : g.vertex? entity with
  | none => simpa only [Linking.connect, ha] using h
  | some a =>
    cases hb : g.vertex? street with
    | none => simpa only [Linking.connect, ha, hb] using h
    | some b =>
      have hp : g.position? entity = some a.position := by rw [Streets.position?, ha]; rfl
      have hq : g.position? street = some b.position := by rw [Streets.position?, hb]; rfl
      obtain ⟨es, hes, heq⟩ := exists_connectors_of_connect ha hb role
      rw [heq]
      refine h.insertAll fun c hc => ?_
      rcases List.mem_append.1 (hes c hc) with hc | hc
      · split at hc
        · rw [List.mem_singleton.1 hc]
          exact lies_straight h hp hq
        · cases hc
      · split at hc
        · rw [List.mem_singleton.1 hc]
          exact lies_straight h hq hp
        · cases hc

theorem Placed.crossArea {g : Streets Float} (h : Placed g) (vertex area : Nat) :
    Placed (crossArea g vertex area).1 := by
  unfold Linking.crossArea
  split
  · next a position _ hposition =>
    simp only [foldl_insertEdge]
    refine h.insertAll fun c hc => ?_
    simp only [crossings, List.mem_flatMap] at hc
    obtain ⟨other, -, hc⟩ := hc
    split at hc
    · cases hc
    · next there hthere =>
      rcases List.mem_append.1 hc with hc | hc
      · split at hc
        · cases hc
        · rw [List.mem_singleton.1 hc]
          exact lies_straight h hposition hthere
      · split at hc
        · cases hc
        · rw [List.mem_singleton.1 hc]
          exact lies_straight h hthere hposition
  · exact h

/-! ## Histories -/

/-- A line given for a street has moderate coordinates, and its first and last point are where the
ends of the street are. -/
def IsFairLine (g : Streets Float) (source target : Nat) (line : Line Float) : Prop :=
  (∀ p ∈ line, IsModerate p) ∧
    (∀ a p, line.head? = some a → g.position? source = some p → (a == p) = true) ∧
    ∀ b q, line.getLast? = some b → g.position? target = some q → (b == q) = true

def Addition.IsFair (g : Streets Float) : Addition Float → Prop
  | intersection position _ | stop _ _ position _ | bikeRental _ _ position
  | bikePark _ _ position => IsModerate position
  | street source target line _ _ | twoWayStreet source target line _ _ =>
    ∀ given, line = some given → IsFairLine g source target given
  | area _ _ _ => True

/-- An event of which only an addition and a place on an edge have something to be fair in. -/
def Event.IsFair (g : Streets Float) : Event Float → Prop
  | add addition => addition.IsFair g
  | operate (.split _ location) => 0 ≤ location.fraction ∧ ¬ 1 ≤ location.fraction
  | operate _ => True

/-- Every event of a history is fair in the graph that it comes upon. -/
def FairHistory : Streets Float → List (Event Float) → Prop
  | _, [] => True
  | g, event :: rest => event.IsFair g ∧ FairHistory (event.perform g) rest

def Change.IsFair (g : Streets Float) : Change Float → Prop
  | add addition => addition.IsFair g
  | split _ location => IsFraction location.fraction
  | annotate _ | connect _ _ _ | cross _ _ => True

theorem lies_of_streetLine {g : Streets Float} (h : Placed g) {source target : Nat}
    {given : Option (Line Float)} {line : Line Float}
    (hgiven : ∀ l, given = some l → IsFairLine g source target l)
    (hline : g.streetLine source target given = .ok line) : Lies g source target line := by
  unfold streetLine at hline
  split at hline
  · next p q hp hq =>
    cases given with
    | none =>
      cases hline
      exact lies_straight h hp hq
    | some l =>
      dsimp only at hline
      split at hline
      · cases hline
      · next hlong =>
        cases hline
        obtain ⟨hmoderate, hhead, hlast⟩ := hgiven line rfl
        have hne : line ≠ [] := by
          rintro rfl
          exact hlong (by decide)
        have hfirst := List.head?_eq_some_head hne
        have hend := List.getLast?_eq_some_getLast hne
        exact ⟨fun x hx => (hmoderate x hx).isBounded, p, q, hp, hq,
          ⟨_, hfirst, hhead _ p hfirst hp⟩, _, hend, hlast _ q hend hq⟩
  · cases hline

theorem lies_of_mem_sideEdges {g : Streets Float} (h : Placed g) {ring : List Nat}
    {corners : List (Nat × Point Float)} (hcorners : g.corners? ring = some corners) {area : Nat}
    {permission : ModeSet} {name : String} {c : Nat × Nat × EdgeData Float}
    (hc : c ∈ sideEdges area permission name (sides corners)) : Lies g c.1 c.2.1 c.2.2.line := by
  obtain ⟨s, hs, hc⟩ := List.mem_flatMap.1 hc
  obtain ⟨hfirst, hsecond⟩ := mem_of_mem_sides hs
  have hside : Lies g s.1.1 s.2.1 [s.1.2, s.2.2] := lies_straight h
    (position?_of_mem_corners hcorners _ hfirst) (position?_of_mem_corners hcorners _ hsecond)
  rcases List.mem_pair.1 hc with rfl | rfl
  · exact hside
  · exact hside.reverse

theorem Placed.perform {g : Streets Float} (h : Placed g) {a : Addition Float} (ha : a.IsFair g) :
    Placed (a.perform g) := by
  cases a with
  | intersection position osmId => exact h.addVertex ha.isBounded
  | stop id name position wheelchair =>
    have hadded := h.addVertex (x := ⟨.stop id wheelchair, name, position⟩) ha.isBounded
    exact ⟨hadded.vertices, hadded.edges⟩
  | bikeRental id name position => exact h.addVertex ha.isBounded
  | bikePark id name position => exact h.addVertex ha.isBounded
  | street source target line permission name =>
    rcases addStreet_state g source target line permission name with heq | ⟨l, hl, heq⟩
    · rwa [Addition.perform, heq]
    · rw [Addition.perform, heq]
      have hlies := lies_of_streetLine h ha hl
      exact h.insertIndexed (List.forall_mem_singleton.2 hlies)
  | twoWayStreet source target line permission name =>
    rcases addTwoWayStreet_state g source target line permission name with heq | ⟨l, hl, heq⟩
    · rwa [Addition.perform, heq]
    · rw [Addition.perform, heq]
      have hlies := lies_of_streetLine h ha hl
      exact h.insertIndexed (List.forall_mem_cons.2 ⟨hlies, List.forall_mem_singleton.2 hlies.reverse⟩)
  | area name ring permission =>
    rcases addArea_cases g name ring permission with ⟨fault, heq⟩ | ⟨corners, hcorners, heq⟩
    · rw [Addition.perform, heq]
      exact h
    · have hsides : Placed (g.insertIndexed
          (sideEdges g.areas.length permission name (sides corners))) :=
        h.insertIndexed fun c hc => lies_of_mem_sideEdges h hcorners hc
      rw [Addition.perform, heq]
      exact ⟨hsides.vertices, hsides.edges⟩

theorem Placed.apply {g : Streets Float} (hsound : Sound g) (h : Placed g) {c : Change Float}
    (hc : c.IsFair g) : Placed (c.apply g) := by
  cases c with
  | add addition => exact h.perform hc
  | annotate note => exact ⟨h.vertices, h.edges⟩
  | split number location => exact h.split hsound number hc
  | connect entity street role => exact h.connect entity street role
  | cross vertex area => exact h.crossArea vertex area

theorem Placed.replay {g : Streets Float} (hsound : Sound g) (h : Placed g)
    {changes : List (Change Float)} (hfair : Along Change.IsFair g changes) :
    Placed (replay g changes) := by
  induction changes generalizing g with
  | nil => exact h
  | cons c rest ih => exact ih (c.sound_apply hsound) (h.apply hsound hfair.1) hfair.2

theorem Change.IsRegular.isFair {g : Streets Float} {c : Change Float} (hc : c.IsRegular g) :
    c.IsFair g := by
  cases c with
  | add addition => cases hc
  | annotate note => trivial
  | split number location =>
    obtain ⟨e, frame, point, -, -, rfl⟩ := hc
    exact isFraction_locate frame point e.line
  | connect entity street role => trivial
  | cross vertex area => trivial

theorem Event.along_isFair {g : Streets Float} (hreached : Reached g) {event : Event Float}
    (h : event.IsFair g) : Along Change.IsFair g (event.changes g) := by
  cases event with
  | add addition => exact ⟨h, trivial⟩
  | operate operation =>
    by_cases hcall : operation.isCall = true
    · exact (along_changes hreached hcall).imp fun _ _ hc => hc.isFair
    · cases operation with
      | split number location => exact ⟨isFraction_of_le h.1 h.2, trivial⟩
      | connect entity street role => exact ⟨trivial, trivial⟩
      | cross vertex area => exact ⟨trivial, trivial⟩
      | link settings vertex mode => exact absurd rfl hcall
      | linkAll settings => exact absurd rfl hcall
      | linkStreets settings => exact absurd rfl hcall

theorem Placed.run {g : Streets Float} (hreached : Reached g) (hplaced : Placed g)
    {events : List (Event Float)} (h : FairHistory g events) : Placed (run g events) := by
  induction events generalizing g with
  | nil => exact hplaced
  | cons event rest ih =>
    have hstep := hplaced.replay hreached.sound (Event.along_isFair hreached h.1)
    have hnext := hreached.replay (event.changes g)
    rw [replay_event_changes] at hstep hnext
    exact ih hnext hstep h.2

/-- After any fair history every edge leads from vertex to vertex. -/
theorem placed_run {events : List (Event Float)} (h : FairHistory .empty events) :
    Placed (run .empty events) :=
  placed_empty.run reached_empty h

end StreetLinking.Linking
