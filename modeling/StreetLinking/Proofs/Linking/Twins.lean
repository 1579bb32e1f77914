import StreetLinking.Proofs.Linking.Changes
import StreetLinking.Proofs.Linking.Shares
/-!
# The two edges of a street

A two-way street is added as two edges with one line, each from its own end. Their lengths are
rounded sums over the same distances, added up from either end, and where both are cut at one point
each apportions its own length to its halves. Main statement: the lengths of the edges are one
millimetre apart at most, and so are those of halves over the same part of the street, up to what
the lengths of the edges are apart; on a street of two points they are the same.
-/

namespace StreetLinking.Linking

open Number Plane Street Streets

/-! ## Two directions -/

section Twins

variable {α : Type} [Scalar α]

/-- Two edges that are the two directions of a street. -/
structure Twins (forward back : Edge α) : Prop where
  source : back.source = forward.target
  target : back.target = forward.source
  line : back.line = forward.line.reverse
  long : 2 ≤ forward.line.length
  forwardLength : forward.lengthMm = millimetres (lineMetres forward.line)
  backLength : back.lengthMm = millimetres (lineMetres back.line)
  forwardSide : forward.back = false
  backSide : back.back = true

theorem Twins.length_back {forward back : Edge α} (h : Twins forward back) :
    back.line.length = forward.line.length := by
  rw [h.line, List.length_reverse]

theorem Twins.dist_lengthMm_le {forward back : Edge α} (h : Twins forward back) :
    Nat.dist forward.lengthMm back.lengthMm ≤
      1 + leeway forward.line.length forward.lengthMm back.lengthMm := by
  rw [h.forwardLength, h.backLength, h.line]
  exact dist_millimetres_reverse forward.line

theorem Twins.lengthMm_le_maxCount {forward back : Edge α} (h : Twins forward back) :
    forward.lengthMm ≤ maxCount ∧ back.lengthMm ≤ maxCount := by
  rw [h.forwardLength, h.backLength]
  exact ⟨round_le_maxCount _, round_le_maxCount _⟩

theorem Twins.lengthMm_eq {forward back : Edge α} (h : Twins forward back)
    (hstraight : forward.line.length = 2) : back.lengthMm = forward.lengthMm := by
  rw [h.forwardLength, h.backLength, h.line, lineMetres_reverse_of_le hstraight.le]

/-- A two-way street is added as two edges, which are its two directions. -/
theorem exists_twins {g g' : Streets α} (hsound : Sound g) {source target m n : Nat}
    {given : Option (Line α)} {permission : ModeSet} {name : String}
    (hadded : g.addTwoWayStreet source target given permission name = .ok (m, n) g') :
    ∃ forward back, g'.edge? m = some forward ∧ g'.edge? n = some back ∧
      forward.source = source ∧ forward.target = target ∧
      g.streetLine source target given = .ok forward.line ∧ Twins forward back := by
  unfold addTwoWayStreet at hadded
  cases hline : g.streetLine source target given with
  | error fault =>
    rw [hline] at hadded
    simp [Outcome.fail, Outcome.ok] at hadded
  | ok line =>
    obtain ⟨hsource, htarget, hlong⟩ := fits_of_streetLine hline
    let there : EdgeData α := .measured .street line permission name false
    let again : EdgeData α := .measured .street line.reverse permission name true
    let middle := (g.insertEdge source target there).1
    have hboth : Sound (insertIndexed g [(source, target, there), (target, source, again)]) := by
      apply hsound.insertIndexed
      simp [Fits, there, again, EdgeData.measured, hsource, htarget, hlong]
    -- the graph lists the latest edge first, which is the one back
    have hstate : .ok (g.nextNumber, middle.nextNumber)
        (insertIndexed g [(source, target, there), (target, source, again)]) =
          Outcome.ok (m, n) g' := by
      rw [← hadded, hline]
      rfl
    simp only [Outcome.ok, Outcome.mk.injEq, Except.ok.injEq, Prod.mk.injEq] at hstate
    obtain ⟨⟨rfl, rfl⟩, rfl⟩ := hstate
    obtain ⟨edgeIndex, hframe, -⟩ := indexAll_frame
      (insertAll g [(source, target, there), (target, source, again)]).1
      (insertAll g [(source, target, there), (target, source, again)]).2
    have hedges : (insertIndexed g [(source, target, there), (target, source, again)]).edges =
        middle.nextEdge target source again :: g.nextEdge source target there :: g.edges := by
      rw [insertIndexed, hframe]
      rfl
    refine ⟨g.nextEdge source target there, middle.nextEdge target source again, ?_, ?_, rfl, rfl,
      rfl, ⟨rfl, rfl, rfl, hlong, rfl, rfl, rfl, rfl⟩⟩
    · rw [hboth.edge?_eq_some_iff, hedges]
      exact ⟨List.mem_cons_of_mem _ List.mem_cons_self, rfl⟩
    · rw [hboth.edge?_eq_some_iff, hedges]
      exact ⟨List.mem_cons_self, rfl⟩

end Twins

/-! ## The lengths of halves over the same parts -/

section Lengths

variable {α : Type} [Scalar α]

/-- The lengths of halves can be told from what their lines measure: the edge has no length, or the
lines measure more than nothing together. -/
def Measured (h : Halves α) : Prop :=
  h.parent.lengthMm = 0 ∨ 0.0 < lineMetres h.first.line + lineMetres h.second.line

/-- The halves of both edges of a street lead along the same parts of it, in opposite directions. -/
structure Opposed (forward back : Halves α) : Prop where
  source : Retraces back.second.line forward.first.line
  target : Retraces forward.second.line back.first.line

/-- The lengths of halves over the same part of a street, by the end that the part begins or ends
at. -/
structure LengthsAlike (forward back : Halves α) : Prop where
  source : Nat.dist forward.first.lengthMm back.second.lengthMm ≤
    1 + Nat.dist forward.parent.lengthMm back.parent.lengthMm +
      leeway forward.parent.line.length forward.parent.lengthMm back.parent.lengthMm
  target : Nat.dist forward.second.lengthMm back.first.lengthMm ≤
    1 + Nat.dist forward.parent.lengthMm back.parent.lengthMm +
      leeway forward.parent.line.length forward.parent.lengthMm back.parent.lengthMm
  /-- On a street of two points nothing is added up in another order. -/
  straight : forward.parent.line.length = 2 →
    forward.first.lengthMm = back.second.lengthMm ∧ forward.second.lengthMm = back.first.lengthMm

structure Cuts (h : Halves α) : Prop where
  first_long : 2 ≤ h.first.line.length
  second_long : 2 ≤ h.second.line.length
  first_le : h.first.line.length ≤ h.parent.line.length
  second_le : h.second.line.length ≤ h.parent.line.length
  lengths : (h.first.lengthMm, h.second.lengthMm) = apportion h.parent.lengthMm
    (lineMetres h.first.line) (lineMetres h.second.line) h.parent.back

theorem cuts_of_halve {g : Streets α} {number : Nat} {location : Location α} {h : Halves α}
    (hh : halve g number location = .ok h) : Cuts h := by
  unfold halve at hh
  split at hh
  · cases hh
  · split at hh
    · next hcut hp =>
      obtain ⟨hfirst, hsecond, hjoins⟩ := Location.joins_of_cut? hcut hp
      obtain ⟨hfirst', hsecond'⟩ := hjoins.length_le hfirst
      cases hh
      exact ⟨hfirst, hsecond, hfirst', hsecond', rfl⟩
    · cases hh

theorem Cuts.sum {h : Halves α} (hcuts : Cuts h) :
    h.first.lengthMm + h.second.lengthMm = h.parent.lengthMm := by
  have hsum := apportion_sum h.parent.lengthMm (lineMetres h.first.line)
    (lineMetres h.second.line) h.parent.back
  rwa [← hcuts.lengths] at hsum

namespace Twins

variable {forward back : Halves α} (htwins : Twins forward.parent back.parent)
  (hforward : Cuts forward) (hback : Cuts back) (hopposed : Opposed forward back)

include htwins hforward hback hopposed

/-- What all parts measure is rounded from two sums, one for each part of the street. -/
theorem exists_approximates (hsum : 0.0 < lineMetres forward.first.line +
    lineMetres forward.second.line) {n : ℕ} (hpoints : forward.parent.line.length = n + 1)
    (hn : n ≤ 2 ^ 49) :
    ∃ f g : ℚ, 0 < f + g ∧ f + g < 2 ^ 100 ∧
      Approximates n (lineMetres forward.first.line) f ∧
      Approximates n (lineMetres forward.second.line) g ∧
      Approximates n (lineMetres back.second.line) f ∧
      Approximates n (lineMetres back.first.line) g := by
  obtain ⟨hfirst, hsecond⟩ := isMeasured_of_sum_pos hsum
  have hfirst' := (hopposed.source.isMeasured_iff hforward.first_long).2 hfirst
  have hsecond' := (hopposed.target.isMeasured_iff hback.first_long).1 hsecond
  have hparent : back.parent.line.length = n + 1 := htwins.length_back.trans hpoints
  have hle : n ≤ 2 ^ 50 := hn.trans (by decide)
  have ha := hfirst.approximates (hpoints ▸ hforward.first_le) hle
  have hb := hsecond.approximates (hpoints ▸ hforward.second_le) hle
  have hc := hfirst'.approximates (hparent ▸ hback.second_le) hle
  have hd := hsecond'.approximates (hparent ▸ hback.first_le) hle
  rw [hopposed.source.exactSum_eq] at hc
  rw [← hopposed.target.exactSum_eq] at hd
  refine ⟨_, _, (ha.add_pos_iff hb).1 hsum, ?_, ha, hb, hc, hd⟩
  · have hcount {line : Line α} (hline : line.length ≤ n + 1) : (line.length : ℚ) ≤ 2 ^ 50 := by
      exact_mod_cast hline.trans (by omega)
    calc exactSum (distances forward.first.line) + exactSum (distances forward.second.line)
        ≤ 2 ^ 50 * 2 ^ 25 + 2 ^ 50 * 2 ^ 25 := by
          refine add_le_add (hfirst.exactSum_le.trans ?_) (hsecond.exactSum_le.trans ?_)
          · gcongr
            exact hcount (hpoints ▸ hforward.first_le)
          · gcongr
            exact hcount (hpoints ▸ hforward.second_le)
      _ < 2 ^ 100 := by norm_num

theorem straight (hmeasured : Measured forward) (hstraight : forward.parent.line.length = 2) :
    forward.first.lengthMm = back.second.lengthMm ∧
      forward.second.lengthMm = back.first.lengthMm := by
  have hparent : back.parent.line.length = 2 := htwins.length_back.trans hstraight
  have hsource := hopposed.source.lineMetres_eq_of_le (hparent ▸ hback.second_le)
    hforward.first_long
  have htarget := hopposed.target.lineMetres_eq_of_le (hstraight ▸ hforward.second_le)
    hback.first_long
  have htotal := htwins.lengthMm_eq hstraight
  have hlengths := hforward.lengths
  have hlengths' := hback.lengths
  rw [htwins.forwardSide, htarget] at hlengths
  rw [Measured, htarget] at hmeasured
  have hswap := (apportion_swap_iff false).2 hmeasured
  rw [htwins.backSide, htotal, hsource, ← Bool.not_false, hswap, ← hlengths, Prod.swap_prod_mk,
    Prod.mk.injEq] at hlengths'
  exact ⟨hlengths'.2.symm, hlengths'.1.symm⟩

theorem dist_lengthMm_le_of_measured (hsum : 0.0 < lineMetres forward.first.line +
    lineMetres forward.second.line) (hfew : forward.parent.line.length < 2 ^ 49) :
    Nat.dist forward.first.lengthMm back.second.lengthMm ≤
        1 + Nat.dist forward.parent.lengthMm back.parent.lengthMm +
          leeway forward.parent.line.length forward.parent.lengthMm back.parent.lengthMm ∧
      Nat.dist forward.second.lengthMm back.first.lengthMm ≤
        1 + Nat.dist forward.parent.lengthMm back.parent.lengthMm +
          leeway forward.parent.line.length forward.parent.lengthMm back.parent.lengthMm := by
  have hlong := htwins.long
  obtain ⟨n, hn⟩ : ∃ n, forward.parent.line.length = n + 1 :=
    ⟨forward.parent.line.length - 1, by omega⟩
  obtain ⟨f, g, hpos, hspan, ha, hb, hc, hd⟩ :=
    htwins.exists_approximates hforward hback hopposed hsum hn (by omega)
  have hbound := dist_apportion_le htwins.lengthMm_le_maxCount.1 htwins.lengthMm_le_maxCount.2
    ha hb hc hd hpos (by omega) (by omega) hspan
  rw [← htwins.forwardSide, ← htwins.backSide, ← hforward.lengths, ← hback.lengths, ← hn] at hbound
  exact hbound

theorem lengthsAlike (hmeasured : Measured forward) : LengthsAlike forward back := by
  suffices hboth : Nat.dist forward.first.lengthMm back.second.lengthMm ≤
        1 + Nat.dist forward.parent.lengthMm back.parent.lengthMm +
          leeway forward.parent.line.length forward.parent.lengthMm back.parent.lengthMm ∧
      Nat.dist forward.second.lengthMm back.first.lengthMm ≤
        1 + Nat.dist forward.parent.lengthMm back.parent.lengthMm +
          leeway forward.parent.line.length forward.parent.lengthMm back.parent.lengthMm from
    ⟨hboth.1, hboth.2, htwins.straight hforward hback hopposed hmeasured⟩
  have hsum := hforward.sum
  have hsum' := hback.sum
  rcases hmeasured with hnone | hpos
  · -- an edge without length has nothing to apportion, and the other one hardly anything
    unfold Nat.dist
    omega
  · rcases le_or_gt (2 ^ 49) forward.parent.line.length with hmany | hfew
    · -- with so many points the leeway is as much as both lengths
      have hleeway := add_le_leeway hmany forward.parent.lengthMm back.parent.lengthMm
      unfold Nat.dist
      omega
    · exact htwins.dist_lengthMm_le_of_measured hforward hback hopposed hpos hfew

end Twins

/-- Both edges of a street are equally long, but for one millimetre, and on two points without
exception. Wherever both are cut so that their halves lead along the same parts of the street, the
lengths of these are alike. -/
structure CutAlike (forward back : Edge α) : Prop where
  whole : Nat.dist forward.lengthMm back.lengthMm ≤
    1 + leeway forward.line.length forward.lengthMm back.lengthMm
  straight : forward.line.length = 2 → back.lengthMm = forward.lengthMm
  halves : ∀ (g₁ g₂ : Streets α) (m n : Nat) (l₁ l₂ : Location α) (h₁ h₂ : Halves α),
    halve g₁ m l₁ = .ok h₁ → halve g₂ n l₂ = .ok h₂ → h₁.parent = forward → h₂.parent = back →
    Opposed h₁ h₂ → Measured h₁ → LengthsAlike h₁ h₂

theorem Twins.cutAlike {forward back : Edge α} (h : Twins forward back) :
    CutAlike forward back where
  whole := h.dist_lengthMm_le
  straight := h.lengthMm_eq
  halves := by
    rintro g₁ g₂ m n l₁ l₂ h₁ h₂ hhalve₁ hhalve₂ rfl rfl hopposed hmeasured
    exact h.lengthsAlike (cuts_of_halve hhalve₁) (cuts_of_halve hhalve₂) hopposed hmeasured

end Lengths

end StreetLinking.Linking
