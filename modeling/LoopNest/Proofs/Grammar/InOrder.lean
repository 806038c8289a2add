import LoopNest.Proofs.Grammar.Redefined

/-!
# Problems in the order of the source

Where something cannot be read, the problem is noted at the token at which the reader stands, and it
is noted before any other token is passed. Of a second declaration the reader tells only when it is
behind the whole declarator, but it points back at the name; nothing else is noted in between.

* `Span.IsTokenOf`: a span of a token.
* `Reader.NotedUpTo`: the problems are in the order of the source, up to a place that the reader has
  reached.
* `Parse.NotesInOrder`: a step keeps this for the place where the reader stands, and if it fails then
  because of something there.
* `Program.problems_in_order`: the problems of a source are in the order of the source.
-/

namespace LoopNest

/-- One of the items is a token with that span. -/
def Span.IsTokenOf (items : List Item) (s : Span) : Prop := ∃ t, .token t ∈ items ∧ s = t.span

namespace Reader

/-! ## What is noted up to a place -/

/-- The reader goes through `items` and is at `span` or behind it. The problems that it has noted
point at tokens, none of them behind `span`, and they do so in the order of the source. -/
structure NotedUpTo (items : List Item) (span : Span) (r : Reader) : Prop where
  place : span.IsTokenOf items
  current : r.current.span.IsTokenOf items
  within : ∀ i ∈ r.items, i ∈ items
  ahead : (r.remaining.map fun i => i.span.start.offset).Pairwise (· ≤ ·)
  reached : span.start.offset ≤ r.current.span.start.offset
  tokens : ∀ p ∈ r.problems, p.span.IsTokenOf items
  sorted : (r.problems.map fun p => p.span.start.offset).Pairwise (· ≤ ·)
  behind : ∀ p ∈ r.problems, p.span.start.offset ≤ span.start.offset

namespace NotedUpTo

variable {items : List Item} {span : Span} {r s : Reader}

theorem of_eq (h : r.NotedUpTo items span) (hcurrent : s.current.span = r.current.span)
    (hitems : s.items = r.items) (hproblems : s.problems = r.problems) :
    s.NotedUpTo items span where
  place := h.place
  current := hcurrent ▸ h.current
  within := hitems ▸ h.within
  ahead := by
    have hremaining : s.remaining.map (fun i => i.span.start.offset) =
        r.remaining.map fun i => i.span.start.offset := by
      simp only [remaining, List.map_cons, Item.span, hcurrent, hitems]
    exact hremaining ▸ h.ahead
  reached := hcurrent ▸ h.reached
  tokens := hproblems ▸ h.tokens
  sorted := hproblems ▸ h.sorted
  behind := hproblems ▸ h.behind

/-- What is noted up to a place is noted up to where the reader stands. -/
theorem here (h : r.NotedUpTo items span) : r.NotedUpTo items r.current.span where
  place := h.current
  current := h.current
  within := h.within
  ahead := h.ahead
  reached := Nat.le_refl _
  tokens := h.tokens
  sorted := h.sorted
  behind p hp := Nat.le_trans (h.behind p hp) h.reached

/-- One more problem is noted at the place itself. -/
theorem note (h : r.NotedUpTo items span) {p : Problem} (hp : p.span = span) :
    (r.addProblem p).NotedUpTo items span where
  place := h.place
  current := h.current
  within := h.within
  ahead := h.ahead
  reached := h.reached
  tokens := by
    refine List.forall_mem_append.mpr ⟨h.tokens, fun q hq => ?_⟩
    rw [List.mem_singleton.mp hq, hp]
    exact h.place
  sorted := by
    rw [addProblem, List.map_append, List.pairwise_append]
    refine ⟨h.sorted, List.pairwise_singleton _ _, fun o ho o' ho' => ?_⟩
    obtain ⟨q, hq, rfl⟩ := List.mem_map.mp ho
    rw [List.mem_singleton.mp ho']
    dsimp only
    rw [hp]
    exact h.behind q hq
  behind := by
    refine List.forall_mem_append.mpr ⟨h.behind, fun q hq => ?_⟩
    rw [List.mem_singleton.mp hq]
    exact Nat.le_of_eq (congrArg (fun s => s.start.offset) hp)

theorem advance (h : r.NotedUpTo items span) : r.advance.2.NotedUpTo items span := by
  have hwithin := h.within
  have hahead := h.ahead
  unfold Reader.advance
  split
  · exact h.of_eq rfl rfl rfl
  · next t rest hitems =>
    rw [hitems] at hwithin
    rw [remaining, hitems] at hahead
    obtain ⟨hfirst, hrest⟩ := List.pairwise_cons.mp hahead
    have hreached : span.start.offset ≤ t.span.start.offset :=
      Nat.le_trans h.reached (hfirst _ List.mem_cons_self)
    obtain ⟨ht, hwithin⟩ := List.forall_mem_cons.mp hwithin
    exact ⟨h.place, ⟨t, ht, rfl⟩, hwithin, hrest, hreached, h.tokens, h.sorted, h.behind⟩
  · next f rest hitems =>
    rw [hitems] at hwithin
    rw [remaining, hitems] at hahead
    have hrest := hahead.sublist ((List.sublist_cons_self _ _).cons_cons _)
    exact ⟨h.place, h.current, (List.forall_mem_cons.mp hwithin).2, hrest, h.reached, h.tokens,
      h.sorted, h.behind⟩

end NotedUpTo

/-- The problems are in order up to where the reader stands. -/
def NotedInOrder (items : List Item) (r : Reader) : Prop := r.NotedUpTo items r.current.span

/-! ## Steps of the reader -/

variable (items : List Item)

theorem notedUpTo_invariant (span : Span) :
    Parse.Invariant fun r s => r.NotedUpTo items span → s.NotedUpTo items span where
  refl _ := id
  trans h h' := h' ∘ h
  advance _ h := h.advance
  stopHere _ h := h.of_eq rfl rfl rfl
  resolve name span' r h := by
    rw [Parse.resolve_apply]
    exact h.of_eq rfl rfl rfl
  inScope hrun h := (hrun (h.of_eq rfl rfl rfl)).of_eq rfl rfl rfl

/-- The place where the reader stands moves on with it. -/
theorem notedInOrder_invariant :
    Parse.Invariant fun r s => r.NotedInOrder items → s.NotedInOrder items where
  refl _ := id
  trans h h' := h' ∘ h
  advance r h := ((notedUpTo_invariant items _).advance r h).here
  stopHere r h := ((notedUpTo_invariant items _).stopHere r h).here
  resolve name span r h := ((notedUpTo_invariant items _).resolve name span r h).here
  inScope hrun h := (hrun (h.of_eq rfl rfl rfl)).of_eq rfl rfl rfl

/-- At the first token of a source nothing is noted. -/
theorem notedInOrder_of_ofSource {source : String} {r : Reader} (hr : ofSource source = .ok r) :
    r.NotedInOrder (scan source) := by
  obtain ⟨-, -, hproblems⟩ := state_of_ofSource hr
  have hsound := (sound_of_ofSource hr).1
  have hnone : ∀ p, p ∉ r.problems := by simp [hproblems]
  have hwithin : ∀ i ∈ r.remaining, i ∈ scan source := fun i hi => hsound.within.subset hi
  have hcurrent : r.current.span.IsTokenOf (scan source) :=
    ⟨r.current, hwithin _ List.mem_cons_self, rfl⟩
  have hsorted := (List.pairwise_cons.mp hsound.sorted).2
  refine ⟨hcurrent, hcurrent, fun i hi => hwithin i (List.mem_cons_of_mem _ hi), hsorted,
    Nat.le_refl _, fun p hp => absurd hp (hnone p), ?_, fun p hp => absurd hp (hnone p)⟩
  rw [hproblems]
  exact .nil

end Reader

namespace Parse

variable {α : Type} (items : List Item)

/-- The step keeps the problems in order. If it fails then because of something where the reader
stands. -/
def NotesInOrder (step : Parse α) : Prop :=
  Keeps (fun r s => r.NotedInOrder items → s.NotedInOrder items) step ∧
    FailsAs (fun r p => p.span = r.current.span) step

theorem failsHere_closed : Closed fun _ step => FailsAs (fun r p => p.span = r.current.span) step :=
  failsAs_closed (fun _ _ _ => rfl) (fun _ _ => rfl) fun _ _ _ h => h

theorem notesInOrder_closed : Closed fun _ step => NotesInOrder items step :=
  (Reader.notedInOrder_invariant items).closed.and failsHere_closed

variable {items}

/-- What keeps the problems in order up to the place where it starts keeps them in order. -/
theorem keeps_from_here {next : Span → Parse α}
    (h : ∀ span, Keeps (fun r s => r.NotedUpTo items span → s.NotedUpTo items span) (next span)) :
    Keeps (fun r s => r.NotedInOrder items → s.NotedInOrder items) (Grammar.currentSpan >>= next) :=
  fun r hr => (h r.current.span r hr).here

/-- A second declaration is noted at the name. -/
theorem declare_keeps (name : String) (type : VarType) (span : Span) :
    Keeps (fun r s => r.NotedUpTo items span → s.NotedUpTo items span)
      (Parse.declare name type span) := by
  intro r h
  rw [declare_apply]
  dsimp only
  split
  · exact (h.note rfl).of_eq rfl rfl rfl
  · exact h.of_eq rfl rfl rfl

/-- What a step fails with is noted before the reader goes on. -/
theorem NotesInOrder.recovering {step : Parse α} (h : NotesInOrder items step)
    {recover : Reader → Reader}
    (hrecover : ∀ r : Reader, r.NotedInOrder items → (recover r).NotedInOrder items) :
    NotesInOrder items (Parse.recovering step recover) :=
  ⟨h.1.recovering (Reader.notedInOrder_invariant items) (fun _ _ hp hr => hr.note hp) h.2 hrecover,
    recovering_failsAs step recover⟩

end Parse

/-! ## The grammar -/

namespace Grammar

open Parse

variable (items : List Item)

/-- Between the name of a parameter or of a variable and its declaration nothing is noted. -/
theorem Handling.tolerant_notesInOrder :
    Handling.tolerant.Admits fun _ step => NotesInOrder items step where
  parameter type := by
    have hsteps := Reader.notedInOrder_invariant items
    refine ⟨?_, parameter_closed failsHere_closed tolerant_failsAs type⟩
    apply hsteps.closed.bind (stars_keeps hsteps)
    intro depth
    apply keeps_from_here
    intro span
    have hsteps := Reader.notedUpTo_invariant items span
    apply hsteps.closed.bind (hsteps.closed.name _)
    intro name
    exact hsteps.closed.bind (parameterBrackets_keeps hsteps) fun n => declare_keeps _ _ span
  declarator type := by
    have hsteps := Reader.notedInOrder_invariant items
    refine ⟨?_, declarator_closed failsHere_closed tolerant_failsAs type⟩
    apply hsteps.closed.bind (currentSpan_keeps hsteps)
    intro start
    apply hsteps.closed.bind (stars_keeps hsteps)
    intro depth
    apply keeps_from_here
    intro nameSpan
    have hsteps := Reader.notedUpTo_invariant items nameSpan
    apply hsteps.closed.bind (hsteps.closed.name _)
    intro name
    apply hsteps.closed.bind (arrayBrackets_keeps hsteps)
    intro n
    apply hsteps.closed.bind (initializer_keeps hsteps)
    intro x
    apply hsteps.closed.bind (declare_keeps _ _ nameSpan)
    intro v
    exact hsteps.closed.bind (spanFrom_keeps hsteps start) fun span => hsteps.closed.pure _
  statement start h := h.recovering ((Reader.notedInOrder_invariant items).recoverStatement start)
  function h := h.recovering (Reader.notedInOrder_invariant items).recoverFunction

theorem functions_notesInOrder : NotesInOrder items functions := by
  rw [← Handling.functions_tolerant]
  exact Handling.functions_closed (notesInOrder_closed items) (Handling.tolerant_notesInOrder items)

end Grammar

/-! ## Sources -/

namespace Program

/-- **Problems come in the order of the source.** A source whose first token can be read is a
program, or problems are found in it. These lie in the order of the source, whether something is
missing, declared again or unreadable, and each of them has the span of a token, be it the end of the
file. -/
theorem problems_in_order {source : String} {r : Reader} (hr : Reader.ofSource source = .ok r) :
    (∃ p, read source = .ok p) ∨
      ∃ ps, read source = .error (.problems ps) ∧ ps ≠ [] ∧
        (ps.map fun p => p.span.start.offset).Pairwise (· ≤ ·) ∧
        ∀ p ∈ ps, ∃ t, .token t ∈ scan source ∧ p.span = t.span := by
  obtain ⟨fs, r', hrun⟩ := Reader.exists_functions hr
  have horder := (Grammar.functions_notesInOrder _).1 r (Reader.notedInOrder_of_ofSource hr)
  rw [hrun] at horder
  rw [read_eq hr hrun]
  split
  · exact .inl ⟨_, rfl⟩
  · next hproblems =>
    exact .inr ⟨_, rfl, fun h => hproblems (List.isEmpty_iff.mpr h), horder.sorted, horder.tokens⟩

/-- A parameter that is declared again, a missing value, a character that starts no token and a
missing type. The third one is noted at the token in front of it. -/
theorem problems_in_order_four : ∃ r, Reader.ofSource
      "void f(int n, int n) \x7b int i = ; int n = $1; \x7d void g( \x7b \x7d" = .ok r ∧
    ∃ ps, read "void f(int n, int n) \x7b int i = ; int n = $1; \x7d void g( \x7b \x7d" =
        .error (.problems ps) ∧
      ps.map (fun p => p.span.start.offset) = [18, 31, 39, 55] ∧
      (ps.map fun p => p.span.start.offset).Pairwise (· ≤ ·) ∧
      ∀ p ∈ ps, ∃ t, .token t ∈ scan
        "void f(int n, int n) \x7b int i = ; int n = $1; \x7d void g( \x7b \x7d" ∧ p.span = t.span := by
  obtain ⟨r, hr, hoffsets⟩ := Reader.exists_of_ofSource
    "void f(int n, int n) \x7b int i = ; int n = $1; \x7d void g( \x7b \x7d"
    (P := fun r => (Grammar.functions r).2.problems.map (fun p => p.span.start.offset) =
      [18, 31, 39, 55])
    (by decide +kernel)
  have hoffsets := of_decide_eq_true hoffsets
  obtain ⟨fs, r', hrun⟩ := Reader.exists_functions hr
  rw [hrun] at hoffsets
  have hread := read_eq hr hrun
  rw [if_neg fun h => by simp [List.isEmpty_iff.mp h] at hoffsets] at hread
  rcases problems_in_order hr with ⟨p, hp⟩ | ⟨ps, hps, -, hsorted, htokens⟩
  · rw [hread] at hp
    cases hp
  · rw [hread] at hps
    cases hps
    exact ⟨r, hr, _, hread, hoffsets, hsorted, htokens⟩

end Program

end LoopNest
