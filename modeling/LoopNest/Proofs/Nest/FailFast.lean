import LoopNest.Proofs.Nest.Events

/-!
# Stopping at the first rejection

A check that stops at the first rejection finds a part of what the check finds that goes on:
the events up to the first rejection. Hence it has the first of the errors and the first of the
diagnostics, the loops that were accepted before, and the same verdict.

* `Event.filterMap_upToRejection`: what is read off rejections alone is read once.
* `Program.classify_failFast`: the two checks of a program side by side.
-/

namespace LoopNest

namespace Event

/-- What rejections have and no other event has, is found once up to the first rejection. -/
theorem filterMap_upToRejection {α : Type} {f : Event → Option α}
    (hf : ∀ e, (f e).isSome = e.isRejection) (es : List Event) :
    (upToRejection es).filterMap f = (es.filterMap f).take 1 := by
  induction es with
  | nil => rfl
  | cons e es ih =>
    rw [upToRejection]
    cases h : f e with
    | none =>
      have he : e.isRejection = false := by rw [← hf, h, Option.isSome_none]
      rw [he, List.filterMap_cons_none h]
      simpa [List.filterMap_cons_none h] using ih
    | some a =>
      have he : e.isRejection = true := by rw [← hf, h, Option.isSome_some]
      rw [he, List.filterMap_cons_some h]
      simp [h]

theorem isSome_diagnostic? (e : Event) : e.diagnostic?.isSome = e.isRejection := by
  cases e with
  | described d => simp [diagnostic?, isRejection, rejection?]
  | entered _ | passed _ _ | rejected _ _ _ | accepted _ => rfl

end Event

/-- **Stopping at the first rejection.** Of two checks of a program that differ in their mode
alone, the one that stops has the first of the errors and of the diagnostics of the other one,
the first of its loops, all of them if nothing is rejected, and the same verdict. -/
theorem Program.classify_failFast (p : Program) (config : CheckConfig) :
    let first := p.classify { config with mode := .failFast }
    let all := p.classify { config with mode := .batch }
    first.errors = all.errors.take 1 ∧
      first.loops <+: all.loops ∧
      (all.errors = [] → first.loops = all.loops) ∧
      first.diagnostics config = (all.diagnostics config).take 1 ∧
      first.isOk = all.isOk := by
  intro first all
  let es := p.kernels.flatMap fun f => f.events p.vars config.label
  have hfirst : first = ⟨Event.upToRejection es⟩ := p.classify_eq _
  have hall : all = ⟨es⟩ := p.classify_eq _
  have herrors : first.errors = all.errors.take 1 := by
    rw [hfirst, hall]
    exact Event.filterMap_upToRejection (fun _ => rfl) es
  refine ⟨herrors, ?_, ?_, ?_, ?_⟩
  · rw [hfirst, hall]
    exact (Event.upToRejection_prefix es).filterMap _
  · intro hnone
    rw [hall, Classification.errors_eq_nil_iff] at hnone
    rw [hfirst, hall, Event.upToRejection_eq_self hnone]
  · rw [hfirst, hall]
    unfold Classification.diagnostics
    split
    · exact Event.filterMap_upToRejection Event.isSome_diagnostic? es
    · rfl
  · unfold Classification.isOk
    rw [herrors]
    cases all.errors <;> rfl

end LoopNest
