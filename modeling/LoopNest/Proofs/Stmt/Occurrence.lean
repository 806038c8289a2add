import LoopNest.Stmt
import Mathlib.Data.List.Basic

/-!
# Statements where they stand

One statement may stand at several places of a function. An `Occurrence` is a statement with
the statements around it.

* `Stmt.children_induction`: what holds of a statement if it holds of those directly below it,
  holds of every statement.
* `Stmt.occurrences`: all statements in a statement, each where it stands.
* `Stmt.direct_eq`: the statements seen through plain blocks are those with nothing but plain
  blocks around them.
* `Stmt.PlainHeaders`: no `for` header in a statement holds further statements.
-/

namespace LoopNest

/-- A statement with the statements around it, the innermost one first. -/
structure Occurrence where
  around : List Stmt
  stmt : Stmt

namespace Stmt

/-! ## Induction on the statements below a statement -/

theorem sizeOf_lt_of_mem_children {s t : Stmt} (h : t ∈ s.children) : sizeOf t < sizeOf s := by
  cases s with
  | block head body =>
    have hlt : sizeOf t < sizeOf body := List.sizeOf_lt_of_mem h
    simp only [block.sizeOf_spec]
    omega
  | forLoop head i c u b =>
    simp only [children, List.mem_cons, List.not_mem_nil, or_false] at h
    simp only [forLoop.sizeOf_spec]
    rcases h with rfl | rfl | rfl | rfl <;> omega
  | ifElse head c a b =>
    simp only [children, List.mem_cons, List.not_mem_nil, or_false] at h
    simp only [ifElse.sizeOf_spec]
    rcases h with rfl | rfl <;> omega
  | ifThen head c a =>
    obtain rfl := List.mem_singleton.mp h
    simp only [ifThen.sizeOf_spec]
    omega
  | whileLoop head c a =>
    obtain rfl := List.mem_singleton.mp h
    simp only [whileLoop.sizeOf_spec]
    omega
  | declaration _ _ | expression _ _ | returns _ _ | empty _ => cases h

theorem children_induction {P : Stmt → Prop} (step : ∀ s, (∀ t ∈ s.children, P t) → P s)
    (s : Stmt) : P s :=
  step s fun t _ => children_induction step t
termination_by sizeOf s
decreasing_by exact sizeOf_lt_of_mem_children ‹_›

theorem statementsAll_eq (ss : List Stmt) : statementsAll ss = ss.flatMap statements := by
  induction ss with
  | nil => rfl
  | cons s ss ih => rw [statementsAll, ih, List.flatMap_cons]

theorem statements_eq (s : Stmt) : s.statements = s :: s.children.flatMap statements := by
  cases s <;> simp [statements, children, statementsAll_eq]

end Stmt

theorem Block.mem_allStatements {b : Block} {t : Stmt} :
    t ∈ b.allStatements ↔ ∃ s ∈ b.statements, t ∈ s.statements := by
  rw [allStatements, Stmt.statementsAll_eq, List.mem_flatMap]

namespace Stmt

/-! ## Occurrences -/

mutual

/-- A statement and all below it, each where it stands, in the order of the source. -/
def occurrences (around : List Stmt) : Stmt → List Occurrence
  | forLoop h i c u b =>
    let inside := forLoop h i c u b :: around
    ⟨around, forLoop h i c u b⟩ :: (i.occurrences inside ++
      (c.occurrences inside ++ (u.occurrences inside ++ b.occurrences inside)))
  | block h body => ⟨around, block h body⟩ :: occurrencesAll (block h body :: around) body
  | ifThen h c t => ⟨around, ifThen h c t⟩ :: t.occurrences (ifThen h c t :: around)
  | ifElse h c t e =>
    let inside := ifElse h c t e :: around
    ⟨around, ifElse h c t e⟩ :: (t.occurrences inside ++ e.occurrences inside)
  | whileLoop h c body =>
    ⟨around, whileLoop h c body⟩ :: body.occurrences (whileLoop h c body :: around)
  | declaration h ds => [⟨around, declaration h ds⟩]
  | expression h x => [⟨around, expression h x⟩]
  | returns h x => [⟨around, returns h x⟩]
  | empty h => [⟨around, empty h⟩]

def occurrencesAll (around : List Stmt) : List Stmt → List Occurrence
  | [] => []
  | s :: ss => s.occurrences around ++ occurrencesAll around ss

end

theorem occurrencesAll_eq (around ss : List Stmt) :
    occurrencesAll around ss = ss.flatMap (occurrences around) := by
  induction ss with
  | nil => rfl
  | cons s ss ih => rw [occurrencesAll, ih, List.flatMap_cons]

theorem occurrences_eq (around : List Stmt) (s : Stmt) :
    s.occurrences around = ⟨around, s⟩ :: s.children.flatMap (occurrences (s :: around)) := by
  cases s <;> simp [occurrences, children, occurrencesAll_eq]

/-- The occurrences are the statements, each once and in the same order. -/
theorem map_stmt_occurrences (around : List Stmt) (s : Stmt) :
    (s.occurrences around).map Occurrence.stmt = s.statements := by
  induction s using children_induction generalizing around with
  | step s ih =>
    rw [occurrences_eq, statements_eq, List.map_cons, List.map_flatMap]
    congr 1
    exact List.flatMap_congr fun t ht => ih t ht _

theorem suffix_around {around : List Stmt} {s : Stmt} {o : Occurrence}
    (h : o ∈ s.occurrences around) : around <:+ o.around := by
  induction s using children_induction generalizing around with
  | step s ih =>
    rw [occurrences_eq] at h
    rcases List.mem_cons.mp h with rfl | h
    · exact List.suffix_rfl
    · obtain ⟨t, ht, ho⟩ := List.mem_flatMap.mp h
      exact (List.suffix_cons s around).trans (ih t ht ho)

end Stmt

/-! ## Statements directly in a statement -/

/-- The statement is no plain block, and nothing but plain blocks is around it. -/
def Occurrence.isDirect (o : Occurrence) : Bool :=
  !o.stmt.isPlainBlock && o.around.all Stmt.isPlainBlock

namespace Stmt

/-- The statements that stand directly in a statement, plain blocks aside. -/
def directly (s : Stmt) : List Stmt :=
  ((s.occurrences []).filter Occurrence.isDirect).map Occurrence.stmt

theorem directAll_eq (ss : List Stmt) : directAll ss = ss.flatMap direct := by
  induction ss with
  | nil => rfl
  | cons s ss ih => rw [directAll, ih, List.flatMap_cons]

theorem direct_of_plain {s : Stmt} (h : s.isPlainBlock = true) :
    s.direct = s.children.flatMap direct := by
  cases s with
  | block head body =>
    have hplain : head.attributes.isEmpty = true := h
    rw [direct, if_pos hplain, directAll_eq, children]
  | _ => cases h

theorem direct_of_not_plain {s : Stmt} (h : s.isPlainBlock = false) : s.direct = [s] := by
  cases s with
  | block head body =>
    have hmarked : ¬ head.attributes.isEmpty = true := Bool.eq_false_iff.mp h
    rw [direct, if_neg hmarked]
  | _ => rfl

theorem filter_isDirect_of_not_plain {around : List Stmt} (h : around.all isPlainBlock = false)
    (s : Stmt) : (s.occurrences around).filter Occurrence.isDirect = [] := by
  rw [List.filter_eq_nil_iff]
  intro o ho hdirect
  obtain ⟨_, hplain⟩ := Bool.and_eq_true_iff.mp hdirect
  rw [List.all_eq_true] at hplain
  have hall : around.all isPlainBlock = true :=
    List.all_eq_true.mpr fun t ht => hplain t ((suffix_around ho).subset ht)
  rw [h] at hall
  cases hall

theorem map_filter_isDirect {around : List Stmt} (h : around.all isPlainBlock = true) (s : Stmt) :
    ((s.occurrences around).filter Occurrence.isDirect).map Occurrence.stmt = s.direct := by
  induction s using children_induction generalizing around with
  | step s ih =>
    rw [occurrences_eq]
    cases hs : s.isPlainBlock with
    | true =>
      have hinside : (s :: around).all isPlainBlock = true := by simp [hs, h]
      rw [direct_of_plain hs, List.filter_cons_of_neg (by simp [Occurrence.isDirect, hs]),
        List.filter_flatMap, List.map_flatMap]
      exact List.flatMap_congr fun t ht => ih t ht hinside
    | false =>
      have hinside : (s :: around).all isPlainBlock = false := by simp [hs]
      have hbelow : s.children.flatMap
          (fun t => (t.occurrences (s :: around)).filter Occurrence.isDirect) = [] :=
        List.flatMap_eq_nil_iff.mpr fun t _ => filter_isDirect_of_not_plain hinside t
      rw [direct_of_not_plain hs, List.filter_cons_of_pos (by simp [Occurrence.isDirect, hs, h]),
        List.filter_flatMap, hbelow]
      rfl

/-- The statements seen through plain blocks are those that are no plain blocks and have only
plain blocks around them. -/
theorem direct_eq (s : Stmt) : s.direct = s.directly := (map_filter_isDirect rfl s).symm

end Stmt

/-! ## Plain headers -/

/-- No clause of the header has statements below it. -/
structure Loop.PlainHeader (l : Loop) : Prop where
  init : l.init.children = []
  check : l.check.children = []
  update : l.update.children = []

namespace Stmt

/-- All `for` headers in the statement are plain. -/
def PlainHeaders (s : Stmt) : Prop := ∀ t ∈ s.statements, ∀ l, t.loop? = some l → l.PlainHeader

theorem plainHeaders_iff (s : Stmt) :
    s.PlainHeaders ↔
      (∀ l, s.loop? = some l → l.PlainHeader) ∧ ∀ t ∈ s.children, t.PlainHeaders := by
  constructor
  · intro h
    refine ⟨h s (by rw [statements_eq]; exact List.mem_cons_self), fun t ht u hu => h u ?_⟩
    rw [statements_eq]
    exact List.mem_cons_of_mem _ (List.mem_flatMap.mpr ⟨t, ht, hu⟩)
  · rintro ⟨hs, hbelow⟩ t ht
    rw [statements_eq] at ht
    rcases List.mem_cons.mp ht with rfl | ht
    · exact hs
    · obtain ⟨u, hu, htu⟩ := List.mem_flatMap.mp ht
      exact hbelow u hu t htu

theorem PlainHeaders.of_children_eq_nil {s : Stmt} (h : s.children = []) : s.PlainHeaders := by
  rw [plainHeaders_iff, h]
  refine ⟨fun l hl => ?_, fun t ht => absurd ht List.not_mem_nil⟩
  cases s <;> simp_all [loop?, children]

end Stmt

/-- All `for` headers in the function are plain. -/
def Function.PlainHeaders (f : Function) : Prop := ∀ s ∈ f.body.statements, s.PlainHeaders

end LoopNest
