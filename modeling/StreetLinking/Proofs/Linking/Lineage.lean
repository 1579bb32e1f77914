import Mathlib.Algebra.Ring.Nat
import Mathlib.Data.List.Induction
import StreetLinking.Proofs.Linking.Changes
/-!
# Linking refines the street network

However often edges are split, what an edge of the built graph has become is a path of live edges
from its source to its target. The paths are followed through a history: where an edge is split, its
halves take its place in the path that it belongs to. Main statement: after every list of operations
the paths of the built edges represent them, are disjoint, and leave over only connectors, crossings
and parts of these.
-/

namespace StreetLinking.Linking

open Number Plane Street Streets

variable {α : Type} [Scalar α]

/-! ## Paths that stand for an edge -/

/-- Live edges that lead from a vertex to another one, each to a split vertex where the next one
goes on, and spell out a line when they are joined at the positions of these vertices. -/
inductive Runs (g : Streets α) : Nat → List (Edge α) → Nat → Line α → Prop
  | edge {e : Edge α} (hlive : e ∈ g.edges) : Runs g e.source [e] e.target e.line
  | cons {e : Edge α} {v : Vertex α} {parent target : Nat} {rest : List (Edge α)}
      {after whole : Line α} (hlive : e ∈ g.edges) (hvertex : g.vertex? e.target = some v)
      (hkind : v.kind = .split parent) (hrest : Runs g e.target rest target after)
      (hjoins : Joins v.position e.line after whole) : Runs g e.source (e :: rest) target whole

/-- The path runs as the edge does, never twice to one vertex, in edges that are like it and as long
as it is. -/
structure Represents (g : Streets α) (e : Edge α) (path : List (Edge α)) : Prop where
  runs : Runs g e.source path e.target e.line
  simple : (path.map (·.target)).Nodup
  alike : ∀ d ∈ path, d.kind = e.kind ∧ d.name = e.name ∧ d.permission = e.permission ∧
    d.back = e.back
  length : (path.map (·.lengthMm)).sum = e.lengthMm

/-- One edge ends at a split vertex where the other begins, and their lines share its position. The
first line may have numbers equal to those of the position instead. -/
def Meets (g : Streets α) (d e : Edge α) : Prop :=
  e.source = d.target ∧ ∃ v parent q, g.vertex? d.target = some v ∧ v.kind = .split parent ∧
    e.line.head? = some v.position ∧ d.line.getLast? = some q ∧
    (q = v.position ∨ (q == v.position) = true)

theorem Runs.head? {g : Streets α} (hsound : Sound g) {source target : Nat}
    {path : List (Edge α)} {line : Line α} (h : Runs g source path target line) :
    ∃ e rest, path = e :: rest ∧ e.source = source ∧ e.line.head? = line.head? := by
  cases h with
  | edge hlive => exact ⟨_, [], rfl, rfl, rfl⟩
  | cons hlive _ _ _ hjoins =>
    exact ⟨_, _, rfl, rfl, (hjoins.head?_whole (hsound.lines _ hlive)).symm⟩

theorem Runs.meets {g : Streets α} (hsound : Sound g) {source target : Nat}
    {path : List (Edge α)} {line : Line α} (h : Runs g source path target line) :
    path.IsChain (Meets g) := by
  induction h with
  | edge _ => exact .singleton _
  | @cons d v parent _ rest _ _ _ hvertex hkind hrest hjoins ih =>
    obtain ⟨e, more, rfl, hsource, hhead⟩ := hrest.head? hsound
    obtain ⟨q, hq, hshared⟩ := hjoins.getLast?
    rw [hjoins.head?] at hhead
    exact .cons_cons ⟨hsource, v, parent, q, hvertex, hkind, hhead, hq, hshared⟩ ih

theorem Runs.live {g : Streets α} {source target : Nat} {path : List (Edge α)} {line : Line α}
    (h : Runs g source path target line) : ∀ d ∈ path, d ∈ g.edges := by
  induction h with
  | edge hlive =>
    intro d hd
    rwa [List.mem_singleton.1 hd]
  | cons hlive _ _ _ _ ih =>
    intro d hd
    rcases List.mem_cons.1 hd with rfl | hd
    · exact hlive
    · exact ih d hd

theorem Runs.grows {g g' : Streets α} {indexed : Bool} {new path : List (Edge α)}
    {source target : Nat} {line : Line α} (h : Runs g source path target line)
    (hgrows : Grows indexed new g g') : Runs g' source path target line := by
  have hlives : ∀ e ∈ g.edges, e ∈ g'.edges := by
    intro e he
    rw [hgrows.edges]
    exact List.mem_append_right _ he
  induction h with
  | edge hlive => exact .edge (hlives _ hlive)
  | cons hlive hvertex hkind _ hjoins ih =>
    exact .cons (hlives _ hlive) (hgrows.vertex? hvertex) hkind ih hjoins

theorem Represents.grows {g g' : Streets α} {indexed : Bool} {new path : List (Edge α)}
    {e : Edge α} (h : Represents g e path) (hgrows : Grows indexed new g g') :
    Represents g' e path :=
  ⟨h.runs.grows hgrows, h.simple, h.alike, h.length⟩

/-! ## Halves in the place of an edge -/

def substitute (serial : Nat) (first second : Edge α) (path : List (Edge α)) : List (Edge α) :=
  path.flatMap fun e => if e.serial = serial then [first, second] else [e]

omit [Scalar α] in
theorem substitute_cons (serial : Nat) (first second e : Edge α) (path : List (Edge α)) :
    substitute serial first second (e :: path) =
      (if e.serial = serial then [first, second] else [e]) ++
        substitute serial first second path := rfl

omit [Scalar α] in
theorem mem_substitute_iff {serial : Nat} {first second d : Edge α} {path : List (Edge α)} :
    d ∈ substitute serial first second path ↔
      d ∈ path ∧ d.serial ≠ serial ∨
        (∃ e ∈ path, e.serial = serial) ∧ (d = first ∨ d = second) := by
  rw [substitute, List.mem_flatMap]
  constructor
  · rintro ⟨e, he, hd⟩
    split at hd
    · next hsame => exact Or.inr ⟨⟨e, he, hsame⟩, List.mem_pair.1 hd⟩
    · next hother =>
      obtain rfl := List.mem_singleton.1 hd
      exact Or.inl ⟨he, hother⟩
  · rintro (⟨hd, hother⟩ | ⟨⟨e, he, hsame⟩, hd⟩)
    · exact ⟨d, hd, by rw [if_neg hother]; exact List.mem_singleton_self d⟩
    · exact ⟨e, he, by rw [if_pos hsame]; exact List.mem_pair.2 hd⟩

omit [Scalar α] in
theorem substitute_of_forall_ne {serial : Nat} {first second : Edge α} {path : List (Edge α)}
    (h : ∀ e ∈ path, e.serial ≠ serial) : substitute serial first second path = path := by
  induction path with
  | nil => rfl
  | cons e rest ih =>
    rw [substitute_cons, if_neg (h e List.mem_cons_self),
      ih fun d hd => h d (List.mem_cons_of_mem _ hd)]
    rfl

structure Divides (h : Halves α) (first second : Edge α) (g g' : Streets α) : Prop
    extends Splits h first second g g' where
  sound : Sound g
  alike : ∀ d ∈ [first, second], d.kind = h.parent.kind ∧ d.name = h.parent.name ∧
    d.permission = h.parent.permission ∧ d.back = h.parent.back
  length : first.lengthMm + second.lengthMm = h.parent.lengthMm
  joins : Joins h.point first.line second.line h.parent.line

theorem exists_divides {g : Streets α} (hsound : Sound g) {number : Nat}
    {location : Location α} {h : Halves α} (hh : halve g number location = .ok h) :
    ∃ first second, Divides h first second g (split g number location).state := by
  obtain ⟨-, first, second, hsplits⟩ := sound_and_splits hsound hh
  obtain ⟨-, l₁, l₂, m, n, hfirst, hsecond, hlength, -, -, hjoins⟩ := halve_eq_ok hh
  have hfirst : first.toEdgeData = partOf h.parent l₁ m := by
    rw [← hfirst]
    exact congrArg (·.2.2) hsplits.first_place
  have hsecond : second.toEdgeData = partOf h.parent l₂ n := by
    rw [← hsecond]
    exact congrArg (·.2.2) hsplits.second_place
  refine ⟨first, second, ⟨hsplits, hsound, fun d hd => ?_, ?_, ?_⟩⟩
  · rcases List.mem_pair.1 hd with rfl | rfl
    · rw [hfirst]
      exact ⟨rfl, rfl, rfl, rfl⟩
    · rw [hsecond]
      exact ⟨rfl, rfl, rfl, rfl⟩
  · rw [hfirst, hsecond]
    exact hlength
  · rw [hfirst, hsecond]
    exact hjoins

namespace Divides

variable {h : Halves α} {first second : Edge α} {g g' : Streets α}

theorem eq_parent (hdiv : Divides h first second g g') {e : Edge α} (he : e ∈ g.edges)
    (hserial : e.serial = h.parent.serial) : e = h.parent :=
  hdiv.sound.serial_inj he hdiv.parent_mem hserial

theorem fresh (hdiv : Divides h first second g g') {d e : Edge α} (he : e ∈ g.edges)
    (hd : d = first ∨ d = second) : e.serial < d.serial := by
  have hlt := hdiv.sound.serial_lt e he
  have hfirst := hdiv.first_fresh
  have hsecond := hdiv.second_fresh
  rcases hd with rfl | rfl <;> omega

theorem live_of_ne (hdiv : Divides h first second g g') {e : Edge α} (he : e ∈ g.edges)
    (hserial : e.serial ≠ h.parent.serial) : e ∈ g'.edges := by
  rw [hdiv.edges]
  refine List.mem_cons_of_mem _ (List.mem_cons_of_mem _ (List.mem_filter.2 ⟨he, ?_⟩))
  rw [bne_iff_ne]
  intro hnumber
  have hparent := hdiv.sound.number_inj he hdiv.parent_mem hnumber
  exact hserial (congrArg (·.serial) hparent)

theorem live_cases (hdiv : Divides h first second g g') {e : Edge α} (he : e ∈ g'.edges) :
    e ∈ g.edges ∧ e.serial ≠ h.parent.serial ∨ e = first ∨ e = second := by
  rw [hdiv.edges] at he
  rcases List.mem_cons.1 he with rfl | he
  · exact Or.inr (Or.inr rfl)
  · rcases List.mem_cons.1 he with rfl | he
    · exact Or.inr (Or.inl rfl)
    · obtain ⟨hold, hnumber⟩ := List.mem_filter.1 he
      refine Or.inl ⟨hold, fun hserial => ?_⟩
      rw [hdiv.eq_parent hold hserial, bne_self_eq_false] at hnumber
      exact Bool.false_ne_true hnumber

theorem vertex?_old (hdiv : Divides h first second g g') {n : Nat} {v : Vertex α}
    (hv : g.vertex? n = some v) : g'.vertex? n = some v := by
  obtain ⟨hlt, -⟩ := Array.getElem?_eq_some_iff.1 hv
  rw [vertex?, hdiv.vertices, Array.getElem?_push, if_neg (Nat.ne_of_lt hlt)]
  exact hv

theorem vertex?_new (hdiv : Divides h first second g g') :
    g'.vertex? first.target = some (splitVertex h) := by
  have htarget : first.target = g.vertices.size := congrArg (·.2.1) hdiv.first_place
  rw [vertex?, hdiv.vertices, htarget, Array.getElem?_push_size]

theorem runs_halves (hdiv : Divides h first second g g') :
    first ∈ g'.edges ∧ second ∈ g'.edges ∧ first.source = h.parent.source ∧
      first.target = second.source ∧ second.target = h.parent.target := by
  have hfirst := hdiv.first_place
  have hsecond := hdiv.second_place
  simp only [Edge.place, Prod.mk.injEq] at hfirst hsecond
  rw [hdiv.edges]
  exact ⟨by simp, by simp, hfirst.1, hfirst.2.1.trans hsecond.1.symm, hsecond.2.1⟩

theorem runs (hdiv : Divides h first second g g') {source target : Nat} {path : List (Edge α)}
    {line : Line α} (hruns : Runs g source path target line) :
    Runs g' source (substitute h.parent.serial first second path) target line := by
  obtain ⟨hlive₁, hlive₂, hsource, hmiddle, htarget⟩ := hdiv.runs_halves
  induction hruns with
  | @edge e hlive =>
    rw [substitute_cons]
    split
    · next hserial =>
      rw [hdiv.eq_parent hlive hserial, ← hsource, ← htarget]
      refine .cons hlive₁ hdiv.vertex?_new rfl ?_ hdiv.joins
      rw [hmiddle]
      exact .edge hlive₂
    · next hserial => exact .edge (hdiv.live_of_ne hlive hserial)
  | @cons e v _ target rest after whole hlive hvertex hkind _ hjoins ih =>
    rw [substitute_cons]
    have hvertex' := hdiv.vertex?_old hvertex
    split
    · next hserial =>
      rw [hdiv.eq_parent hlive hserial] at hjoins hvertex' ih ⊢
      rw [← htarget] at hvertex' ih
      obtain ⟨tail, hsecond, hfirst⟩ := hdiv.joins.assoc hjoins
      rw [← hsource]
      refine .cons hlive₁ hdiv.vertex?_new rfl ?_ hfirst
      rw [hmiddle]
      exact .cons hlive₂ hvertex' hkind ih hsecond
    · next hserial => exact .cons (hdiv.live_of_ne hlive hserial) hvertex' hkind ih hjoins

theorem length_substitute (hdiv : Divides h first second g g') {path : List (Edge α)}
    (hpath : ∀ e ∈ path, e ∈ g.edges) :
    ((substitute h.parent.serial first second path).map (·.lengthMm)).sum =
      (path.map (·.lengthMm)).sum := by
  induction path with
  | nil => rfl
  | cons e rest ih =>
    have hrest := ih fun d hd => hpath d (List.mem_cons_of_mem _ hd)
    rw [substitute_cons, List.map_append, List.sum_append, hrest, List.map_cons, List.sum_cons]
    split
    · next hserial =>
      rw [hdiv.eq_parent (hpath e List.mem_cons_self) hserial, ← hdiv.length]
      simp
    · simp

theorem simple_substitute (hdiv : Divides h first second g g') {path : List (Edge α)}
    (hpath : ∀ e ∈ path, e ∈ g.edges) (hsimple : (path.map (·.target)).Nodup) :
    ((substitute h.parent.serial first second path).map (·.target)).Nodup := by
  obtain ⟨-, -, -, -, htarget⟩ := hdiv.runs_halves
  have hnew : first.target = g.vertices.size := congrArg (·.2.1) hdiv.first_place
  induction path with
  | nil => exact hsimple
  | cons e rest ih =>
    rw [List.map_cons, List.nodup_cons] at hsimple
    obtain ⟨hnot, hsimple⟩ := hsimple
    have hlive := hpath e List.mem_cons_self
    have hlives : ∀ d ∈ rest, d ∈ g.edges := fun d hd => hpath d (List.mem_cons_of_mem _ hd)
    rw [substitute_cons]
    split
    · next hserial =>
      -- the parent ends at one vertex only, so it does not occur again
      have hrest : ∀ d ∈ rest, d.serial ≠ h.parent.serial := by
        intro d hd hsame
        rw [hdiv.eq_parent hlive hserial, ← hdiv.eq_parent (hlives d hd) hsame] at hnot
        exact hnot (List.mem_map_of_mem hd)
      rw [substitute_of_forall_ne hrest]
      have hend : e.target = second.target := by rw [htarget, hdiv.eq_parent hlive hserial]
      simp only [List.cons_append, List.nil_append, List.map_cons, List.nodup_cons, List.mem_cons,
        not_or]
      rw [← hend, hnew]
      refine ⟨⟨?_, fun hmem => ?_⟩, hnot, hsimple⟩
      · have := (hdiv.sound.ends e hlive).2
        omega
      · obtain ⟨d, hd, hsize⟩ := List.mem_map.1 hmem
        have := (hdiv.sound.ends d (hlives d hd)).2
        omega
    · rw [List.map_append, List.map_cons, List.map_nil, List.singleton_append, List.nodup_cons]
      refine ⟨fun hmem => ?_, ih hlives hsimple⟩
      obtain ⟨d, hd, hsame⟩ := List.mem_map.1 hmem
      rcases mem_substitute_iff.1 hd with ⟨hd, -⟩ | ⟨⟨x, hx, hserial⟩, rfl | rfl⟩
      · exact hnot (hsame ▸ List.mem_map_of_mem hd)
      · have := (hdiv.sound.ends e hlive).2
        omega
      · rw [htarget, ← hdiv.eq_parent (hlives x hx) hserial] at hsame
        exact hnot (hsame ▸ List.mem_map_of_mem hx)

/-- A path that represents an edge still does so with the halves in the place of the parent. -/
theorem represents (hdiv : Divides h first second g g') {e : Edge α} {path : List (Edge α)}
    (hpath : Represents g e path) :
    Represents g' e (substitute h.parent.serial first second path) where
  runs := hdiv.runs hpath.runs
  simple := hdiv.simple_substitute hpath.runs.live hpath.simple
  alike := by
    intro d hd
    rcases mem_substitute_iff.1 hd with ⟨hd, -⟩ | ⟨⟨x, hx, hserial⟩, hd⟩
    · exact hpath.alike d hd
    · have hparent := hpath.alike x hx
      rw [hdiv.eq_parent (hpath.runs.live x hx) hserial] at hparent
      have hhalf := hdiv.alike d (List.mem_pair.2 hd)
      rwa [hhalf.1, hhalf.2.1, hhalf.2.2.1, hhalf.2.2.2]
  length := (hdiv.length_substitute hpath.runs.live).trans hpath.length

end Divides

/-! ## Following a history -/

/-- Edges that stand for no built edge: connectors, crossings, and the halves of such edges. -/
inductive Extra (g₀ : Streets α) (changes : List (Change α)) : Edge α → Prop
  | connected {before after : List (Change α)} {entity street : Nat} {role : Role} {e : Edge α}
      (hchanges : changes = before ++ .connect entity street role :: after)
      (hmakes : (Change.connect entity street role).makes (replay g₀ before) e) :
      Extra g₀ changes e
  | crossed {before after : List (Change α)} {vertex area : Nat} {e : Edge α}
      (hchanges : changes = before ++ .cross vertex area :: after)
      (hmakes : (Change.cross vertex area).makes (replay g₀ before) e) : Extra g₀ changes e
  | halved {before after : List (Change α)} {number : Nat} {location : Location α} {d e : Edge α}
      (hchanges : changes = before ++ .split number location :: after)
      (hparent : (replay g₀ before).edge? number = some d) (hextra : Extra g₀ changes d)
      (hmakes : (Change.split number location).makes (replay g₀ before) e) : Extra g₀ changes e

omit [Scalar α] in
theorem append_of_eq_append_cons {changes before after : List (Change α)} {c : Change α}
    (h : changes = before ++ c :: after) (more : List (Change α)) :
    changes ++ more = before ++ c :: (after ++ more) := by
  rw [h, List.append_assoc, List.cons_append]

/-- The edge is split by one of the changes. No split of a live edge fails (`exists_halve`). -/
def WasSplit (g₀ : Streets α) (changes : List (Change α)) (e : Edge α) : Prop :=
  ∃ before number location after, changes = before ++ .split number location :: after ∧
    (replay g₀ before).edge? number = some e

theorem WasSplit.append {g₀ : Streets α} {changes : List (Change α)} {e : Edge α}
    (h : WasSplit g₀ changes e) (more : List (Change α)) : WasSplit g₀ (changes ++ more) e := by
  obtain ⟨before, number, location, after, hchanges, hedge⟩ := h
  exact ⟨before, number, location, _, append_of_eq_append_cons hchanges more, hedge⟩

theorem Extra.append {g₀ : Streets α} {changes : List (Change α)} {e : Edge α}
    (h : Extra g₀ changes e) (more : List (Change α)) : Extra g₀ (changes ++ more) e := by
  induction h with
  | connected hchanges hmakes => exact .connected (append_of_eq_append_cons hchanges more) hmakes
  | crossed hchanges hmakes => exact .crossed (append_of_eq_append_cons hchanges more) hmakes
  | halved hchanges hparent _ hmakes ih =>
    exact .halved (append_of_eq_append_cons hchanges more) hparent ih hmakes

/-- The graph after some changes of `g₀` refines it: each edge of `g₀` has a path. -/
structure Refines (g₀ : Streets α) (changes : List (Change α)) (path : Edge α → List (Edge α)) :
    Prop where
  represents : ∀ e ∈ g₀.edges, Represents (replay g₀ changes) e (path e)
  whole : ∀ e ∈ g₀.edges, ¬ WasSplit g₀ changes e → path e = [e]
  disjoint : ∀ e ∈ g₀.edges, ∀ e' ∈ g₀.edges, e ≠ e' → List.Disjoint (path e) (path e')
  others : ∀ d ∈ (replay g₀ changes).edges, (∀ e ∈ g₀.edges, d ∉ path e) → Extra g₀ changes d

theorem refines_nil (g₀ : Streets α) : Refines g₀ [] fun e => [e] where
  represents := fun e he =>
    ⟨.edge he, List.nodup_singleton _, by simp, by simp⟩
  whole := fun _ _ _ => rfl
  disjoint := by
    intro e _ e' _ hne
    simpa using hne.symm
  others := fun d hd hnone => absurd (List.mem_singleton_self d) (hnone d hd)

namespace Refines

variable {g₀ : Streets α} {changes : List (Change α)} {path : Edge α → List (Edge α)}

theorem grow (h : Refines g₀ changes path) {c : Change α} {indexed : Bool}
    {new : List (Edge α)}
    (hgrows : Grows indexed new (replay g₀ changes) (replay g₀ (changes ++ [c])))
    (hextra : ∀ e ∈ new, Extra g₀ (changes ++ [c]) e) : Refines g₀ (changes ++ [c]) path where
  represents := fun e he => (h.represents e he).grows hgrows
  whole := fun e he hnever => h.whole e he fun hsplit => hnever (hsplit.append [c])
  disjoint := h.disjoint
  others := by
    intro d hd hnone
    rw [hgrows.edges] at hd
    rcases List.mem_append.1 hd with hnew | hold
    · exact hextra d hnew
    · exact (h.others d hold hnone).append [c]

theorem divide (h : Refines g₀ changes path) {number : Nat} {location : Location α}
    {halves : Halves α} {first second : Edge α}
    (hedge : (replay g₀ changes).edge? number = some halves.parent)
    (hdiv : Divides halves first second (replay g₀ changes)
      (replay g₀ (changes ++ [.split number location]))) :
    Refines g₀ (changes ++ [.split number location])
      fun e => substitute halves.parent.serial first second (path e) where
  represents := fun e he => hdiv.represents (h.represents e he)
  whole := by
    intro e he hnever
    have hpath := h.whole e he fun hsplit => hnever (hsplit.append _)
    have hlive := (h.represents e he).runs.live e (by rw [hpath]; exact List.mem_singleton_self e)
    have hserial : e.serial ≠ halves.parent.serial := by
      intro hserial
      rw [← hdiv.eq_parent hlive hserial] at hedge
      exact hnever ⟨changes, number, location, [], rfl, hedge⟩
    rw [hpath]
    exact substitute_of_forall_ne (by simpa using hserial)
  disjoint := by
    intro e he e' he' hne d hd hd'
    have hlive := (h.represents e he).runs.live
    have hlive' := (h.represents e' he').runs.live
    rcases mem_substitute_iff.1 hd with ⟨hold, -⟩ | ⟨⟨x, hx, hserial⟩, hhalf⟩
    · rcases mem_substitute_iff.1 hd' with ⟨hold', -⟩ | ⟨-, hhalf'⟩
      · exact h.disjoint e he e' he' hne hold hold'
      · exact Nat.lt_irrefl _ (hdiv.fresh (hlive d hold) hhalf')
    · rcases mem_substitute_iff.1 hd' with ⟨hold', -⟩ | ⟨⟨x', hx', hserial'⟩, -⟩
      · exact Nat.lt_irrefl _ (hdiv.fresh (hlive' d hold') hhalf)
      · -- both paths would contain the parent
        rw [hdiv.eq_parent (hlive x hx) hserial] at hx
        rw [hdiv.eq_parent (hlive' x' hx') hserial'] at hx'
        exact h.disjoint e he e' he' hne hx hx'
  others := by
    intro d hd hnone
    rcases hdiv.live_cases hd with ⟨hold, hserial⟩ | hhalf
    · refine (h.others d hold fun e he hmem => hnone e he ?_).append _
      exact mem_substitute_iff.2 (Or.inl ⟨hmem, hserial⟩)
    · have hparent : Extra g₀ changes halves.parent := by
        refine h.others _ hdiv.parent_mem fun e he hmem => hnone e he ?_
        exact mem_substitute_iff.2 (Or.inr ⟨⟨_, hmem, rfl⟩, hhalf⟩)
      refine .halved rfl hedge (hparent.append _) ⟨?_, fun hold => ?_⟩
      · rwa [replay_append] at hd
      · exact Nat.lt_irrefl _ (hdiv.fresh hold hhalf)

/-- A change that is no addition keeps the refinement. -/
theorem exists_step (h : Refines g₀ changes path) (hsound : Sound g₀) (c : Change α)
    (hc : c.isAddition = false) : ∃ path', Refines g₀ (changes ++ [c]) path' := by
  have hnow := sound_replay hsound changes
  have hnext : replay g₀ (changes ++ [c]) = c.apply (replay g₀ changes) := by
    rw [replay_append]
    rfl
  have hmakes {indexed : Bool} {new : List (Edge α)}
      (hgrows : Grows indexed new (replay g₀ changes) (c.apply (replay g₀ changes))) :
      ∀ e ∈ new, c.makes (replay g₀ changes) e := by
    intro e he
    refine ⟨by rw [hgrows.edges]; exact List.mem_append_left _ he, fun hold => ?_⟩
    have := hgrows.fresh e he
    have := hnow.serial_lt e hold
    omega
  -- only a split of a live edge puts other edges into the paths
  cases c with
  | add addition => simp [Change.isAddition] at hc
  | annotate annotation =>
    have hgrows : Grows false [] (replay g₀ changes)
        (replay g₀ (changes ++ [.annotate annotation])) := by
      rw [hnext]
      exact ⟨List.prefix_refl _, Nat.le_refl _, rfl, by simp, rfl⟩
    exact ⟨path, h.grow hgrows (by simp)⟩
  | split number location =>
    cases hh : halve (replay g₀ changes) number location with
    | error fault =>
      have hgrows : Grows false [] (replay g₀ changes)
          (replay g₀ (changes ++ [.split number location])) := by
        rw [hnext, Change.apply, split_state_of_error hh]
        exact Grows.refl _ _
      exact ⟨path, h.grow hgrows (by simp)⟩
    | ok halves =>
      obtain ⟨first, second, hdiv⟩ := exists_divides hnow hh
      rw [show (split (replay g₀ changes) number location).state = _ from hnext.symm] at hdiv
      exact ⟨_, h.divide (halve_eq_ok hh).1 hdiv⟩
  | connect entity street role =>
    rcases Change.apply_cases hnow (.connect entity street role) with
      ⟨new, hgrows⟩ | ⟨_, _, _, _, _, heq, -⟩
    · refine ⟨path, h.grow (hnext ▸ hgrows) fun e he => ?_⟩
      exact .connected rfl (hmakes hgrows e he)
    · cases heq
  | cross vertex area =>
    rcases Change.apply_cases hnow (.cross vertex area) with
      ⟨new, hgrows⟩ | ⟨_, _, _, _, _, heq, -⟩
    · refine ⟨path, h.grow (hnext ▸ hgrows) fun e he => ?_⟩
      exact .crossed rfl (hmakes hgrows e he)
    · cases heq

end Refines

theorem exists_refines {g₀ : Streets α} (hsound : Sound g₀) (changes : List (Change α))
    (hchanges : ∀ c ∈ changes, c.isAddition = false) : ∃ path, Refines g₀ changes path := by
  induction changes using List.reverseRecOn with
  | nil => exact ⟨_, refines_nil g₀⟩
  | append_singleton before c ih =>
    obtain ⟨path, hpath⟩ := ih fun d hd => hchanges d (List.mem_append_left _ hd)
    exact hpath.exists_step hsound c (hchanges c (by simp))

/-! ## Built graphs -/

theorem isLinkable_of_mem_build (additions : List (Addition α)) :
    ∀ e ∈ (build additions).edges, e.kind.isLinkable = true := by
  suffices hrun : ∀ g : Streets α, Sound g → (∀ e ∈ g.edges, e.kind.isLinkable = true) →
      ∀ e ∈ (run g (additions.map .add)).edges, e.kind.isLinkable = true from
    hrun .empty sound_empty (by simp [empty])
  induction additions with
  | nil => exact fun _ _ hkinds => hkinds
  | cons a rest ih =>
    intro g hsound hkinds
    obtain ⟨hsound', new, hgrows, hnew⟩ := a.sound_and_grows hsound
    refine ih (a.perform g) hsound' fun e he => ?_
    rw [hgrows.edges] at he
    rcases List.mem_append.1 he with he | he
    · exact hnew e he
    · exact hkinds e he

/-- Whatever operations of permanent linking are carried out on a built graph, its edges are
represented by disjoint paths of parts that meet at split vertices, an edge that was never split by
itself, and every other live edge is a connector, a crossing or a part of one. -/
theorem linking_refines (additions : List (Addition α)) (operations : List (Operation α)) :
    let built := build additions
    let changes := changesOf built (operations.map .operate)
    let g := operateAll built operations
    replay built changes = g ∧
    (∀ e ∈ built.edges, e.kind.isLinkable = true) ∧
    ∃ path : Edge α → List (Edge α),
      (∀ e ∈ built.edges, Represents g e (path e) ∧ (path e).IsChain (Meets g)) ∧
      (∀ e ∈ built.edges, ¬ WasSplit built changes e → path e = [e]) ∧
      (∀ e ∈ built.edges, ∀ e' ∈ built.edges, e ≠ e' → List.Disjoint (path e) (path e')) ∧
      ∀ d ∈ g.edges, (∀ e ∈ built.edges, d ∉ path e) → Extra built changes d := by
  intro built changes g
  have hsound : Sound built := sound_run sound_empty _
  have hreplay : replay built changes = g := replay_changesOf built _
  have hsound' : Sound g := sound_run hsound _
  obtain ⟨path, hrefines⟩ :=
    exists_refines hsound changes (changesOf_operations_isAddition built operations)
  refine ⟨hreplay, isLinkable_of_mem_build additions, path, ?_, hrefines.whole,
    hrefines.disjoint, ?_⟩
  · intro e he
    have hrepresents := hrefines.represents e he
    rw [hreplay] at hrepresents
    exact ⟨hrepresents, hrepresents.runs.meets hsound'⟩
  · rw [← hreplay]
    exact hrefines.others

def twoStreets : List (Addition Float) :=
  [.intersection ⟨0.0, 0.0⟩ none, .intersection ⟨0.5, 0.0⟩ none,
    .stop "A" "Stop A" ⟨0.25, 0.25⟩ false, .street 0 1 none .all "Main Street",
    .street 1 0 none .all "Side Street"]

theorem linking_refines_of_twoStreets :
    let built := build twoStreets
    let g := operateAll built [.split 0 ⟨0, 0.5⟩, .connect 2 3 .stop]
    ∃ d ∈ built.edges, ∃ e ∈ built.edges, d.serial = 1 ∧ e.serial = 2 ∧
      Represents g e [e] ∧ (∃ path, Represents g d path ∧ e ∉ path) ∧
      ∃ x ∈ g.edges, Extra built [.split 0 ⟨0, 0.5⟩, .connect 2 3 .stop] x := by
  obtain ⟨-, hkinds, path, hrepresents, hwhole, hdisjoint, hothers⟩ :=
    linking_refines twoStreets [.split 0 ⟨0, 0.5⟩, .connect 2 3 .stop]
  have hd : ∃ d ∈ (build twoStreets).edges, d.serial = 1 := by decide
  have he : ∃ e ∈ (build twoStreets).edges, e.serial = 2 := by decide
  obtain ⟨d, hd, hdserial⟩ := hd
  obtain ⟨e, he, heserial⟩ := he
  have hother : e ≠ d := by
    rintro rfl
    omega
  have hnever : ¬ WasSplit (build twoStreets)
      (changesOf (build twoStreets)
        ([.split 0 ⟨0, 0.5⟩, .connect 2 3 .stop].map Event.operate)) e := by
    rintro ⟨before, number, location, after, hchanges, hedge⟩
    have hfirst : ∀ f, (build twoStreets).edge? 0 = some f → f.serial ≠ 2 := by
      intro f hf
      have hserial : ((build twoStreets).edge? 0).map (·.serial) = some 1 := by decide
      rw [hf, Option.map_some, Option.some.injEq] at hserial
      omega
    cases before with
    | nil =>
      cases hchanges
      exact hfirst e hedge heserial
    | cons c before =>
      have hlater := congrArg List.tail hchanges
      cases before with
      | nil => cases hlater
      | cons c' before => cases before <;> cases hlater
  have hwhole := hwhole e he hnever
  have hrepresented := (hrepresents e he).1
  rw [hwhole] at hrepresented
  refine ⟨d, hd, e, he, hdserial, heserial, hrepresented, ⟨path d, (hrepresents d hd).1, ?_⟩, ?_⟩
  · have hempty := hdisjoint e he d hd hother
    rw [hwhole] at hempty
    exact hempty (List.mem_singleton_self e)
  · have hx : ∃ x ∈ (operateAll (build twoStreets)
        [.split 0 ⟨0, 0.5⟩, .connect 2 3 .stop]).edges, x.kind.isLinkable = false := by decide
    obtain ⟨x, hx, hkind⟩ := hx
    refine ⟨x, hx, hothers x hx fun f hf hmem => ?_⟩
    have halike := ((hrepresents f hf).1.alike x hmem).1
    rw [halike, hkinds f hf] at hkind
    exact Bool.false_ne_true hkind.symm

end StreetLinking.Linking
