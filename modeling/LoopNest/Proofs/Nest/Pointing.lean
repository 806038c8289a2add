import LoopNest.Proofs.Grammar.PlainHeaders
import LoopNest.Proofs.Grammar.Spans
import LoopNest.Proofs.Header.Shape
import LoopNest.Proofs.Nest.Verdict

/-!
# Where rejections point

Every rejection has the span of a node of the kernel that is rejected, so that it points into the
text of that kernel and of no other one.

* `Node.Holds`: the nodes in the tree of a node.
* `Node.HoldsStmt`: a statement in that tree, with its attributes.
* `Function.place_of_mem_rejections`: the place of a broken rule is the span of a node.
* `Rejection.PointsInto`: the rejection points into the function.
* `Program.rejections_point`: so does every rejection of a kernel, and those of two kernels point
  into texts that lie apart.
-/

namespace LoopNest

open Token Grammar

/-! ## Nodes in a tree -/

namespace Node

/-- The nodes in the tree of `m`, with `m` itself. -/
inductive Holds (m : Node) : Node → Prop
  | self : Holds m m
  | part {n n' : Node} (h : Holds m n) (hn : n' ∈ n.parts) : Holds m n'

/-- A function, statement, clause, declarator, attribute or expression, and no pair of braces. -/
def IsPlace : Node → Prop
  | block _ => False
  | _ => True

/-- The span is that of a node in the tree. -/
def HasPlace (m : Node) (s : Span) : Prop := ∃ n, m.Holds n ∧ n.IsPlace ∧ n.span = s

variable {m n : Node} {ts : List Token} {s t : Stmt} {x : Expr}

/-- Where a node is laid, all nodes in its tree are. -/
theorem Holds.laid (h : m.Holds n) (hm : Laid ts m) : ∃ us, us <:+: ts ∧ Laid us n := by
  induction h with
  | self => exact ⟨ts, List.infix_rfl, hm⟩
  | part _ hn ih =>
    obtain ⟨us, hus, h⟩ := ih
    obtain ⟨vs, hvs, h⟩ := h.parts.exists_of_mem hn
    exact ⟨vs, hvs.trans hus, h⟩

theorem Holds.place (h : m.Holds n) (hn : n.IsPlace) : m.HasPlace n.span := ⟨n, h, hn, rfl⟩

/-- An expression starts with a node of its own. -/
theorem Holds.startNode (h : m.Holds (.expression x)) : m.Holds (.expression x.startNode) := by
  induction x using Expr.startNode.induct with
  | case1 s op x ih => exact ih (h.part (List.mem_singleton.mpr rfl))
  | case2 s op l r ih => exact ih (h.part List.mem_cons_self)
  | case3 s a i ih => exact ih (h.part List.mem_cons_self)
  | case4 x hbehind hbinary hsubscript =>
    cases x with
    | unaryBehind s op x => exact absurd rfl (hbehind s op x)
    | binary s op l r => exact absurd rfl (hbinary s op l r)
    | subscript s a i => exact absurd rfl (hsubscript s a i)
    | _ => exact h

end Node

/-! ## Statements in a tree -/

namespace Grammar

variable {S : List Token → Stmt → Prop} {ts : List Token} {marks : List Attribute} {s t : Stmt}

/-- A statement that is no loop has the attributes in front of it alone. -/
theorem DerivesRest.attributes (h : DerivesRest S ts marks s) (hs : s.isLoop = false) :
    s.attributes = marks := by
  cases h with
  | forLoop => cases hs
  | _ => rfl

theorem ClauseAt.bare {t : Token} (h : ClauseAt ts t s) : s.attributes = [] ∧ s.children = [] := by
  cases h <;> exact ⟨rfl, rfl⟩

theorem InitAt.bare (h : InitAt ts s) : s.attributes = [] ∧ s.children = [] := by
  cases h with
  | clause h _ => exact h.bare
  | declaration _ _ => exact ⟨rfl, rfl⟩

/-- The clauses of a header have neither attributes nor statements below them. -/
theorem HeaderAt.bare {init check update : Stmt} (h : HeaderAt ts init check update marks)
    (ht : t ∈ [init, check, update]) : t.attributes = [] ∧ t.children = [] := by
  obtain ⟨hinit, hcheck, -, hupdate, -, -, -⟩ := h
  simp only [List.mem_cons, List.not_mem_nil, or_false] at ht
  rcases ht with rfl | rfl | rfl
  · exact hinit.bare
  · exact hcheck.bare
  · exact hupdate.bare

end Grammar

namespace Node

variable {m n : Node} {ts : List Token} {s t : Stmt} {x : Expr}

/-- A statement below a statement stands there behind its attributes, or is a clause. -/
theorem WrittenAs.children (h : (Node.statement s).WrittenAs ts) (ht : t ∈ s.children) :
    (∀ n ∈ t.withAttributes, n ∈ s.parts) ∨
      (.clause t ∈ s.parts ∧ t.attributes = [] ∧ t.children = []) := by
  obtain ⟨-, hdetails⟩ := h
  cases s with
  | forLoop head i c u b =>
    obtain ⟨_, _, us, vs, -, hheader, -⟩ := hdetails
    simp only [Stmt.children, List.mem_cons, List.not_mem_nil, or_false] at ht
    rcases ht with rfl | rfl | rfl | rfl
    · exact .inr ⟨by simp [Stmt.parts], hheader.bare (by simp)⟩
    · exact .inr ⟨by simp [Stmt.parts], hheader.bare (by simp)⟩
    · exact .inr ⟨by simp [Stmt.parts], hheader.bare (by simp)⟩
    · exact .inl fun n hn => by simp [Stmt.parts, hn]
  | block head body => exact .inl fun n hn => List.mem_flatMap.mpr ⟨t, ht, hn⟩
  | ifThen head c b | whileLoop head c b =>
    obtain rfl := List.mem_singleton.mp ht
    exact .inl fun n hn => List.mem_cons_of_mem _ hn
  | ifElse head c b e =>
    simp only [Stmt.children, List.mem_cons, List.not_mem_nil, or_false] at ht
    rcases ht with rfl | rfl
    · exact .inl fun n hn => by simp [Stmt.parts, hn]
    · exact .inl fun n hn => by simp [Stmt.parts, hn]
  | declaration _ _ | expression _ _ | returns _ _ | empty _ => cases ht

/-- A statement in the tree, with its attributes. -/
structure HoldsStmt (m : Node) (s : Stmt) : Prop where
  stmt : m.Holds (.statement s) ∨ m.Holds (.clause s)
  marks : ∀ a ∈ s.attributes, m.Holds (.mark a)

namespace HoldsStmt

theorem parts (h : m.HoldsStmt s) (hn : n ∈ s.parts) : m.Holds n := by
  rcases h.stmt with h | h
  · exact h.part hn
  · exact h.part hn

theorem span (h : m.HoldsStmt s) : m.HasPlace s.span := by
  rcases h.stmt with h | h
  · exact h.place trivial
  · exact h.place trivial

/-- A statement behind its attributes. Those in a header stand below the statement. -/
theorem of_withAttributes (hm : Laid ts m) (h : ∀ n ∈ s.withAttributes, m.Holds n) :
    m.HoldsStmt s := by
  have hstmt : m.Holds (.statement s) := h _ (by simp [Stmt.withAttributes])
  refine ⟨.inl hstmt, fun a ha => ?_⟩
  by_cases hinside : s.head.HasInside a
  · cases s with
    | forLoop head i c u b =>
      refine hstmt.part (List.mem_append_right _ (List.mem_append_left _ ?_))
      exact List.mem_map_of_mem (List.mem_filter.mpr ⟨ha, decide_eq_true hinside⟩)
    | _ =>
      obtain ⟨us, -, hlaid⟩ := hstmt.laid hm
      rw [hlaid.written.1.attributes rfl] at ha
      exact h _ (List.mem_append_left _ (List.mem_map_of_mem ha))
  · have hahead : a ∈ s.attributesAhead := List.mem_filter.mpr ⟨ha, decide_eq_true hinside⟩
    exact h _ (List.mem_append_left _ (List.mem_map_of_mem hahead))

/-- With a statement, the tree holds the statements below it. -/
theorem of_mem_statements (hm : Laid ts m) (h : ∀ n ∈ s.withAttributes, m.Holds n) :
    ∀ t ∈ s.statements, m.HoldsStmt t := by
  induction s using Stmt.children_induction with
  | step s ih =>
    have hs := of_withAttributes hm h
    intro t ht
    rw [Stmt.statements_eq] at ht
    rcases List.mem_cons.mp ht with rfl | ht
    · exact hs
    · obtain ⟨u, hu, ht⟩ := List.mem_flatMap.mp ht
      have hstmt : m.Holds (.statement s) := h _ (by simp [Stmt.withAttributes])
      obtain ⟨us, -, hlaid⟩ := hstmt.laid hm
      rcases hlaid.written.children hu with hparts | ⟨hclause, hmarks, hchildren⟩
      · exact ih u hu (fun n hn => hs.parts (hparts n hn)) t ht
      · rw [Stmt.statements_eq, hchildren] at ht
        obtain rfl := List.mem_singleton.mp ht
        refine ⟨.inr (hs.parts hclause), fun a ha => ?_⟩
        rw [hmarks] at ha
        cases ha

end HoldsStmt

/-- The tree of a function holds all statements in it. -/
theorem holdsStmt_of_mem_allStatements {f : Function} (hf : Laid ts (.function f))
    (hs : s ∈ f.body.allStatements) : (Node.function f).HoldsStmt s := by
  obtain ⟨t, ht, hs⟩ := Block.mem_allStatements.mp hs
  have hbody : (Node.function f).Holds (.block f.body) := Holds.self.part (List.mem_singleton.mpr rfl)
  exact .of_mem_statements hf (fun n hn => hbody.part (List.mem_flatMap.mpr ⟨t, ht, hn⟩)) s hs

/-! ## Places of broken rules -/

/-- The tree holds the clauses of a loop, and what is in its body. -/
structure HoldsLoop (m : Node) (loop : Loop) : Prop where
  init : m.Holds (.clause loop.init)
  check : m.Holds (.clause loop.check)
  update : m.Holds (.clause loop.update)
  body : ∀ t ∈ loop.body.statements, m.HoldsStmt t

namespace HoldsLoop

variable {loop : Loop} {vars : VarTable} {d : Declarator}

/-- The clause declares the variable, so that its declarator stands below it. -/
theorem declarator (h : m.HoldsLoop loop) {head : StmtHead} {ds : List Declarator}
    (hinit : loop.init = .declaration head ds) (hd : d ∈ ds) : m.Holds (.declarator d) := by
  have hclause := h.init
  rw [hinit] at hclause
  exact hclause.part (List.mem_map_of_mem hd)

theorem checked (h : m.HoldsLoop loop) (hcheck : loop.Obeys vars .check) :
    ∃ x, loop.check.value? = some x ∧ m.Holds (.expression x) := by
  obtain ⟨head, x, hx⟩ := hcheck
  have hclause := h.check
  rw [hx] at hclause
  exact ⟨x, by rw [hx]; rfl, hclause.part (List.mem_singleton.mpr rfl)⟩

theorem updated (h : m.HoldsLoop loop) (hupdate : loop.Obeys vars .update) :
    ∃ x, loop.update.value? = some x ∧ m.Holds (.expression x) := by
  obtain ⟨head, x, hx⟩ := hupdate
  have hclause := h.update
  rw [hx] at hclause
  exact ⟨x, by rw [hx]; rfl, hclause.part (List.mem_singleton.mpr rfl)⟩

/-- Where the header breaks its first rule there is a node. -/
theorem place (h : m.HoldsLoop loop) {rule : HeaderRule} (hrule : loop.FirstBroken vars rule) :
    m.HasPlace (loop.place rule) := by
  have hearlier := hrule.earlier
  cases rule with
  | declaration => exact h.init.place trivial
  | check => exact h.check.place trivial
  | update | updateNode => exact h.update.place trivial
  | single =>
    obtain ⟨head, d, ds, hinit⟩ := hearlier .declaration (by decide)
    cases ds with
    | nil => exact absurd ⟨d, head, hinit⟩ hrule.broken
    | cons e ds =>
      have hplace : loop.place .single = e.span := by rw [Loop.place, hinit]; rfl
      rw [hplace]
      exact (h.declarator hinit (by simp)).place trivial
  | iteratorType =>
    obtain ⟨d, head, hinit⟩ := hearlier .single (by decide)
    have hplace : loop.place .iteratorType = d.span := by rw [Loop.place, hinit]; rfl
    rw [hplace]
    exact (h.declarator hinit List.mem_cons_self).place trivial
  | checkNode | checkOperator | checkIterator =>
    obtain ⟨x, hvalue, hx⟩ := h.checked (hearlier .check (by decide))
    rw [Loop.place, hvalue]
    exact hx.place trivial
  | updateOperator =>
    obtain ⟨x, hvalue, hx⟩ := h.updated (hearlier .update (by decide))
    rw [Loop.place, hvalue]
    exact hx.place trivial
  | updateIterator =>
    obtain ⟨x, hvalue, hx⟩ := h.updated (hearlier .update (by decide))
    rw [Loop.place, hvalue]
    exact hx.startNode.place trivial

/-- The declarators in the body. -/
theorem declarators (h : m.HoldsLoop loop) (hd : d ∈ loop.body.declarators) :
    m.Holds (.declarator d) := by
  obtain ⟨t, ht, hd⟩ := List.mem_flatMap.mp hd
  cases t with
  | declaration head ds => exact (h.body _ ht).parts (List.mem_map_of_mem hd)
  | _ => cases hd

theorem directly (h : m.HoldsLoop loop) (ht : t ∈ loop.body.directly) : m.HoldsStmt t := by
  obtain ⟨o, ho, rfl⟩ := List.mem_map.mp ht
  refine h.body _ ?_
  rw [← Stmt.map_stmt_occurrences []]
  exact List.mem_map_of_mem (List.mem_of_mem_filter ho)

end HoldsLoop

end Node

open Node

/-- How a header can fail: with the place of its first broken rule. -/
theorem Loop.Outcome.failure_place {loop : Loop} {vars : VarTable} {label : String} {d : Descriptor}
    {r : Rejection} (h : loop.Outcome vars label d) (hr : d.failure = some r) :
    ∃ rule, loop.FirstBroken vars rule ∧ r.span = loop.place rule := by
  cases h with
  | atInit _ hbroken | atCheck _ _ hbroken _ | atBound hbroken _ _ | atUpdate _ hbroken _ _ _ =>
    obtain rfl := Option.some.inj hr
    exact ⟨_, hbroken, rfl⟩
  | atEnd => cases hr

namespace PlacedLoop

variable {m : Node} {o : PlacedLoop} {vars : VarTable} {label : String}

theorem place_of_mem_misplacements (hmark : m.Holds (.mark o.mark)) :
    ∀ b ∈ o.misplacements, m.HasPlace b.2 := by
  intro b hb
  have hspan : b.2 = o.mark.span := by
    unfold misplacements at hb
    rcases List.mem_append.mp hb with hb | hb
    · rcases List.mem_append.mp hb with hb | hb
      · split at hb
        · rw [List.mem_singleton.mp hb]
        · cases hb
      · split at hb
        · rw [List.mem_singleton.mp hb]
        · cases hb
    · split at hb
      · rw [List.mem_singleton.mp hb]
      · cases hb
  rw [hspan]
  exact hmark.place trivial

/-- The iterator, or what shadows it. -/
theorem place_of_mem_breaches (h : m.HoldsLoop o.loop) {d : Declarator}
    (hd : m.Holds (.declarator d)) : ∀ b ∈ d.breaches o.loop.body, m.HasPlace b.2 := by
  intro b hb
  rcases List.mem_append.mp hb with hb | hb
  · split at hb
    · rw [List.mem_singleton.mp hb]
      exact hd.place trivial
    · cases hb
  · obtain ⟨e, he, rfl⟩ := List.mem_map.mp hb
    exact (h.declarators (List.mem_of_mem_filter (List.mem_of_mem_take he))).place trivial

theorem place_of_mem_headerRejections (h : m.HoldsLoop o.loop) :
    ∀ r ∈ o.headerRejections vars label, m.HasPlace r.span := by
  intro r hr
  have houtcome := o.loop.describe_outcome vars label
  unfold headerRejections at hr
  dsimp only at hr
  split at hr
  · next r' hfailure =>
    obtain rfl := List.mem_singleton.mp hr
    obtain ⟨rule, hbroken, hspan⟩ := houtcome.failure_place hfailure
    rw [hspan]
    exact h.place hbroken
  · obtain ⟨b, hb, rfl⟩ := List.mem_map.mp hr
    obtain ⟨d, hd, hb⟩ := List.mem_flatMap.mp hb
    obtain ⟨-, head, hinit⟩ := (houtcome.hasFacts.iterator d).mp (Option.mem_toList.mp hd)
    exact place_of_mem_breaches h (h.declarator hinit List.mem_cons_self) b hb

theorem place_of_mem_intruders (h : m.HoldsLoop o.loop) : ∀ b ∈ o.intruders, m.HasPlace b.2 := by
  intro b hb
  unfold intruders at hb
  split at hb
  · obtain ⟨t, ht, rfl⟩ := List.mem_map.mp hb
    exact (h.directly (List.mem_of_mem_filter ht)).span
  · cases hb

/-- What a loop breaks, it breaks at one of its nodes. -/
theorem place_of_mem_rejections (hmark : m.Holds (.mark o.mark)) (h : m.HoldsLoop o.loop) :
    ∀ r ∈ o.rejections vars label, m.HasPlace r.span := by
  intro r hr
  rcases List.mem_append.mp hr with hr | hr
  · rcases List.mem_append.mp hr with hr | hr
    · obtain ⟨b, hb, rfl⟩ := List.mem_map.mp hr
      exact place_of_mem_misplacements hmark b hb
    · exact place_of_mem_headerRejections h r hr
  · obtain ⟨b, hb, rfl⟩ := List.mem_map.mp hr
    exact place_of_mem_intruders h b hb

end PlacedLoop

/-- The first attribute that names a level is one of the attributes. -/
theorem Stmt.mem_attributes_of_level? {s : Stmt} {level : Level} {mark : Attribute}
    (h : s.level? = some (level, mark)) : mark ∈ s.attributes := by
  obtain ⟨a, ha, hmark⟩ := List.exists_of_findSome?_eq_some h
  obtain ⟨l, -, heq⟩ := Option.map_eq_some_iff.mp hmark
  obtain ⟨-, rfl⟩ := Prod.mk.inj heq
  exact ha

/-- The tree of a function holds a loop that stands in it. -/
theorem Function.holdsLoop {f : Function} {ts : List Token} (hf : Laid ts (.function f))
    {o : PlacedLoop} (ho : o ∈ f.placedLoops) :
    (Node.function f).Holds (.mark o.mark) ∧ (Node.function f).HoldsLoop o.loop := by
  obtain ⟨s, hs, ho⟩ := List.mem_flatMap.mp ho
  obtain ⟨⟨around, t⟩, hoccurrence, ho⟩ := List.mem_filterMap.mp ho
  obtain ⟨loop, hloop, ho⟩ := Option.bind_eq_some_iff.mp ho
  obtain ⟨⟨level, mark⟩, hlevel, rfl⟩ := Option.map_eq_some_iff.mp ho
  have ht : t ∈ f.body.allStatements := by
    refine Block.mem_allStatements.mpr ⟨s, hs, ?_⟩
    rw [← Stmt.map_stmt_occurrences []]
    exact List.mem_map_of_mem hoccurrence
  have hholds := holdsStmt_of_mem_allStatements hf ht
  refine ⟨hholds.marks _ (Stmt.mem_attributes_of_level? hlevel), ?_⟩
  cases t with
  | forLoop head i c u b =>
    obtain rfl := Option.some.inj hloop
    refine ⟨hholds.parts (by simp [Stmt.parts]), hholds.parts (by simp [Stmt.parts]),
      hholds.parts (by simp [Stmt.parts]), ?_⟩
    exact HoldsStmt.of_mem_statements hf fun n hn => hholds.parts (by simp [Stmt.parts, hn])
  | _ => cases hloop

/-- What a function breaks as a kernel, it breaks at one of its nodes. -/
theorem Function.place_of_mem_rejections {f : Function} {ts : List Token}
    (hf : Laid ts (.function f)) (vars : VarTable) (label : String) :
    ∀ r ∈ f.rejections vars label, (Node.function f).HasPlace r.span := by
  intro r hr
  rcases List.mem_append.mp hr with hr | hr
  · rcases List.mem_append.mp hr with hr | hr
    · obtain ⟨b, hb, rfl⟩ := List.mem_map.mp hr
      obtain ⟨s, hs, hb⟩ := List.mem_filterMap.mp hb
      obtain ⟨⟨level, mark⟩, hlevel, rfl⟩ := Option.map_eq_some_iff.mp hb
      have hholds := holdsStmt_of_mem_allStatements hf (List.mem_of_mem_filter hs)
      exact (hholds.marks _ (Stmt.mem_attributes_of_level? hlevel)).place trivial
    · obtain ⟨b, hb, rfl⟩ := List.mem_map.mp hr
      unfold missingOuter at hb
      split at hb
      · rw [List.mem_singleton.mp hb]
        exact Node.Holds.self.place trivial
      · cases hb
  · obtain ⟨o, ho, hr⟩ := List.mem_flatMap.mp hr
    obtain ⟨hmark, hloop⟩ := holdsLoop hf ho
    exact PlacedLoop.place_of_mem_rejections hmark hloop r hr

/-! ## Checks -/

/-- The rejection has text in the function: that of the function or of a statement, clause,
declarator, attribute or expression in it. -/
structure Rejection.PointsInto (r : Rejection) (f : Function) : Prop where
  somewhere : r.span.isNone = false
  nonempty : r.span.start.offset < r.span.stop.offset
  inside : f.span.start.offset ≤ r.span.start.offset ∧ r.span.stop.offset ≤ f.span.stop.offset
  place : (Node.function f).HasPlace r.span

/-- The broken rule, and where the place of it starts and stops. -/
def Rejection.spot (r : Rejection) : Violation × Nat × Nat :=
  (r.violation, r.span.start.offset, r.span.stop.offset)

/-- What is found in a check is found in one that goes on. -/
theorem Function.errors_subset {f : Function} (hf : f.PlainHeaders) (vars : VarTable)
    (config : CheckConfig) :
    (f.classify vars config).errors ⊆ f.rejections vars config.label := by
  rw [f.classify_eq vars config, ← errors_events hf]
  exact ((config.mode.cut_prefix _).filterMap _).subset

/-- A check of several kernels finds what the checks of the first ones find. -/
theorem CheckMode.cut_flatMap (mode : CheckMode) (fs : List Function) (events : Function → List Event) :
    ∃ gs, gs <+: fs ∧ mode.cut (fs.flatMap events) = gs.flatMap fun f => mode.cut (events f) := by
  induction fs with
  | nil => exact ⟨[], List.nil_prefix, by cases mode <;> rfl⟩
  | cons f fs ih =>
    rw [List.flatMap_cons, cut_append]
    split
    · exact ⟨[f], ⟨fs, rfl⟩, (List.append_nil _).symm⟩
    · obtain ⟨gs, hgs, hcut⟩ := ih
      exact ⟨f :: gs, List.cons_prefix_cons.mpr ⟨rfl, hgs⟩, by rw [hcut, List.flatMap_cons]⟩

namespace Program

variable {source : String} {p : Program}

/-- The functions of a program lie one behind the other. -/
theorem functions_apart (h : p.parts.Pairwise Node.Before) :
    p.functions.Pairwise fun f g => f.span.stop.offset ≤ g.span.start.offset := by
  refine (List.pairwise_flatMap.mp h).2.imp fun hfg => ?_
  exact hfg (.function _) (by simp) (.function _) (by simp)

theorem laid_of_mem_functions {ts : List Token} (h : Embedded Laid ts p.parts) {f : Function}
    (hf : f ∈ p.functions) : ∃ us, us <:+: ts ∧ Laid us (.function f) :=
  h.exists_of_mem (List.mem_flatMap.mpr ⟨f, hf, by simp⟩)

/-- **Rejections point into the kernel that is rejected.** Take any source text that is a program.
Every rejection of a function of it, in either mode, has text in the function, and that is the text
of the function, or of a statement, clause, declarator, attribute or expression in it. A check of the
program finds what the checks of its first kernels find, one after the other, and the rejections of a
kernel point in front of those of all kernels behind it. -/
theorem rejections_point (h : read source = .ok p) (config : CheckConfig) :
    (∀ f ∈ p.functions, ∀ r ∈ (f.classify p.vars config).errors, r.PointsInto f) ∧
      ∃ checked, checked <+: p.kernels ∧
        (p.classify config).errors =
          checked.flatMap (fun f => (f.classify p.vars config).errors) ∧
        checked.Pairwise fun f g => ∀ r ∈ (f.classify p.vars config).errors,
          ∀ r' ∈ (g.classify p.vars config).errors, r.span.stop.offset ≤ r'.span.start.offset := by
  obtain ⟨ts, last, htokens, -, hparts⟩ := (laidIn_of_readStrict (readStrict_of_read h)).parts
  have ho := tokenize_inOrder htokens
  have hpoints : ∀ f ∈ p.functions, ∀ r ∈ (f.classify p.vars config).errors, r.PointsInto f := by
    intro f hf r hr
    have hr := Function.errors_subset (plainHeaders_of_read h f hf) p.vars config hr
    obtain ⟨us, hus, hlaid⟩ := laid_of_mem_functions hparts hf
    have hous := ho.sublist hus.sublist
    have hplace := Function.place_of_mem_rejections hlaid p.vars config.label r hr
    obtain ⟨n, hn, -, hspan⟩ := id hplace
    obtain ⟨vs, hvs, hn⟩ := hn.laid hlaid
    have hbounds : r.span.Bounds vs := hspan ▸ hn.span
    have hovs := hous.sublist hvs.sublist
    refine ⟨?_, hbounds.nonempty hovs, hbounds.inside hlaid.span hous hvs.subset, hplace⟩
    obtain ⟨t, ht, hstart⟩ := hbounds.first
    have hline := hovs.line_pos t (List.mem_of_mem_head? ht)
    rw [← hstart] at hline
    simp [Span.isNone]
    omega
  refine ⟨hpoints, ?_⟩
  obtain ⟨checked, hchecked, hcut⟩ := config.mode.cut_flatMap p.kernels
    fun f => f.events p.vars config.label
  refine ⟨checked, hchecked, ?_, ?_⟩
  · rw [classify_eq, hcut, Classification.errors, List.filterMap_flatMap]
    simp only [Function.classify_eq, Classification.errors]
  · have hsub : checked.Sublist p.functions := hchecked.sublist.trans List.filter_sublist
    refine ((functions_apart (hparts.before_of_laid ho)).sublist hsub).imp_of_mem ?_
    intro f g hf hg hfg r hr r' hr'
    have hfirst := (hpoints f (hsub.subset hf) r hr).inside.2
    have hsecond := (hpoints g (hsub.subset hg) r' hr').inside.1
    omega

/-- Two kernels with a function between them. The clause that is left out is rejected at the
parenthesis behind it, and the second declarator at its own place. -/
theorem rejections_point_two_kernels :
    ∃ p, read "@kernel void f() \x7b @inner for (int i = 0; i < 4; ) ; \x7d void g() \x7b\x7d
  @kernel void h() \x7b @outer for (int i, j; ; ) ; \x7d" = .ok p ∧
      (p.classify { mode := .batch }).errors.map Rejection.spot =
        [(.missingOuterLoop "f", 8, 54), (.innerOutsideOuter, 19, 25),
          (.expectedUpdateExpression "i", 49, 50), (.missingInnerLoop, 88, 94),
          (.multipleIterators, 107, 108)] ∧
      (∀ f ∈ p.functions, ∀ r ∈ (f.classify p.vars { mode := .batch }).errors, r.PointsInto f) ∧
      ∃ checked, checked <+: p.kernels ∧
        (p.classify { mode := .batch }).errors =
          checked.flatMap (fun f => (f.classify p.vars { mode := .batch }).errors) ∧
        checked.Pairwise fun f g => ∀ r ∈ (f.classify p.vars { mode := .batch }).errors,
          ∀ r' ∈ (g.classify p.vars { mode := .batch }).errors,
            r.span.stop.offset ≤ r'.span.start.offset := by
  refine (exists_of_read (P := fun p => (p.classify { mode := .batch }).errors.map Rejection.spot ==
    [(.missingOuterLoop "f", 8, 54), (.innerOutsideOuter, 19, 25),
      (.expectedUpdateExpression "i", 49, 50), (.missingInnerLoop, 88, 94),
      (.multipleIterators, 107, 108)]) ?_).imp fun p h =>
    ⟨h.1, eq_of_beq h.2, rejections_point h.1 { mode := .batch }⟩
  decide +kernel

end Program

end LoopNest
