import LoopNest.Report

/-!
# The facts in a header without broken rules

A header that breaks no rule has all its facts. If its iterator has an initial value as well,
then there is arithmetic for it, and a loop with that header has a summary.

* `Loop.describe_of_isValid`: a valid descriptor has an iterator, a comparison, a bound and a
  step.
* `Descriptor.Ready`: what the arithmetic asks for.
* `Descriptor.Ready.tripCount`, `Descriptor.Ready.valueAt`, `MappedLoop.summary_of_ready`: there
  is no error then.
-/

namespace LoopNest

/-- A valid descriptor comes from four clauses that were all read, and has their facts. -/
theorem Loop.describe_of_isValid {loop : Loop} {vars : VarTable} {label : String}
    (h : (loop.describe vars label).isValid = true) :
    ∃ d op comparison b step,
      iteratorOf vars loop.init = .ok d ∧
      comparisonOf d.var.name loop.check = .ok (op, comparison) ∧
      boundOf d.var comparison = .ok b ∧
      stepOf d.var loop.update = .ok step ∧
      loop.describe vars label =
        { iterator := some d, comparison := some op, bound := some b, step := some step } := by
  unfold describe at h ⊢
  cases hd : iteratorOf vars loop.init with
  | error e => simp [hd, Descriptor.isValid] at h
  | ok d =>
    cases hc : comparisonOf d.var.name loop.check with
    | error e => simp [hd, hc, Descriptor.isValid] at h
    | ok c =>
      obtain ⟨op, comparison⟩ := c
      cases hb : boundOf d.var comparison with
      | error e => simp [hd, hc, hb, Descriptor.isValid] at h
      | ok b =>
        cases hs : stepOf d.var loop.update with
        | error e => simp [hd, hc, hb, hs, Descriptor.isValid] at h
        | ok step => exact ⟨d, op, comparison, b, step, rfl, hc, hb, hs, by simp only [hc, hb, hs]⟩

namespace Descriptor

/-- A descriptor with all facts, the initial value of the iterator among them. -/
structure Ready (d : Descriptor) : Prop where
  valid : d.isValid = true
  iterator : d.iteratorVar?.isSome = true
  init : d.init?.isSome = true
  comparison : d.comparison.isSome = true
  bound : d.bound.isSome = true
  updateOp : d.updateOp?.isSome = true
  direction : d.direction?.isSome = true

namespace Ready

variable {d : Descriptor}

theorem parts (h : d.Ready) : ∃ p, d.parts = .ok p := by
  obtain ⟨init, hi⟩ := Option.isSome_iff_exists.mp h.init
  obtain ⟨bound, hb⟩ := Option.isSome_iff_exists.mp h.bound
  obtain ⟨step, hs⟩ : ∃ step, d.step = some step := by
    have hop := h.updateOp
    rw [updateOp?, Option.isSome_map] at hop
    exact Option.isSome_iff_exists.mp hop
  exact ⟨(init, bound, step), by simp [Descriptor.parts, h.valid, hi, hb, hs]⟩

theorem tripCount (h : d.Ready) : ∃ x, d.tripCount = .ok x := by
  obtain ⟨p, hp⟩ := h.parts
  exact ⟨_, by rw [Descriptor.tripCount, hp]; rfl⟩

theorem valueAt (h : d.Ready) (index : Expr) : ∃ x, d.valueAt index = .ok x := by
  obtain ⟨p, hp⟩ := h.parts
  exact ⟨_, by rw [Descriptor.valueAt, hp]; rfl⟩

end Ready

end Descriptor

theorem Loop.ready_of_isValid {loop : Loop} {vars : VarTable} {label : String}
    (h : (loop.describe vars label).isValid = true)
    (hi : (loop.describe vars label).init?.isSome = true) : (loop.describe vars label).Ready := by
  obtain ⟨d, op, _, b, step, _, _, _, _, hd⟩ := describe_of_isValid h
  rw [hd] at h hi ⊢
  exact ⟨h, rfl, hi, rfl, rfl, rfl, rfl⟩

theorem MappedLoop.summary_of_ready {l : MappedLoop} (h : l.descriptor.Ready) (index : Expr) :
    ∃ s, l.summary index = .ok s := by
  obtain ⟨count, hc⟩ := h.tripCount
  obtain ⟨value, hv⟩ := h.valueAt index
  exact ⟨_, by rw [summary, hc, hv]; rfl⟩

end LoopNest
