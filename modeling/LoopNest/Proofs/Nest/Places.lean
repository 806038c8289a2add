import Mathlib.Data.List.Forall2
import LoopNest.Proofs.Grammar.Together
import LoopNest.Proofs.Nest.Accepted
import LoopNest.Proofs.Nest.Relabel

/-!
# Reports and places

Blanks, line breaks and comments between the words of a source text say where a program stands and
nothing else: texts with the same words have the same problems, or they are the same program with
the same report, but for places.

A report quotes a place in one more text than its spans and lines: the note on a shadowed iterator
names the place where the iterator is declared. No other rejection has a note.

* `Violation.HasNotes`: the notes that stand with a broken rule.
* `Function.hasNotes_of_mem_events`: the rejections of a kernel have these notes.
* `Report.SameButPlaces`: reports that differ in places alone.
* `Report.sameButPlaces_of_shapes`: findings that are the same but for places make such reports.
* `Report.ofSource_sameButPlaces`: so do texts with the same words.
-/

namespace LoopNest

/-! ## Notes -/

/-- The note on the place where an iterator is declared. -/
def placeNote (iterator : String) (place : Position) : String :=
  s!"[{iterator}] is declared at {place.text}"

/-- The notes that stand with a broken rule: a shadowed iterator has the place of its
declaration. -/
def Violation.HasNotes (notes : List String) : Violation → Prop
  | shadowedIterator iterator => ∃ place, notes = [placeNote iterator place]
  | _ => notes = []

/-- If the event is a rejection, then with the notes of the broken rule. -/
def Event.HasNotes : Event → Prop
  | rejected _ r notes => r.violation.HasNotes notes
  | _ => True

namespace Site

variable (k : Site) (n : Nesting) (level : Level)

theorem hasNotes_position (mark : Attribute) (body : Stmt) :
    ∀ e ∈ k.position n level mark body, e.HasNotes := by
  intro e he
  unfold position at he
  cases level with
  | outer =>
    dsimp only at he
    split at he
    · obtain rfl := List.mem_singleton.mp he
      rfl
    · split at he
      · obtain rfl := List.mem_singleton.mp he
        rfl
      · cases he
  | inner =>
    dsimp only at he
    split at he
    · cases he
    · obtain rfl := List.mem_singleton.mp he
      rfl

theorem hasNotes_initializer (d : Declarator) : ∀ e ∈ k.initializer d, e.HasNotes := by
  intro e he
  unfold initializer at he
  split at he
  · obtain rfl := List.mem_singleton.mp he
    rfl
  · cases he

theorem hasNotes_shadowing (d : Declarator) (body : Stmt) :
    ∀ e ∈ k.shadowing d body, e.HasNotes := by
  intro e he
  unfold shadowing at he
  split at he
  · obtain rfl := List.mem_singleton.mp he
    exact ⟨d.span.start, rfl⟩
  · cases he

theorem hasNotes_header (d : Descriptor) (body : Stmt) : ∀ e ∈ k.header d body, e.HasNotes := by
  intro e he
  unfold header at he
  rcases List.mem_cons.mp he with rfl | he
  · trivial
  · split at he
    · rcases List.mem_append.mp he with he | he
      · exact k.hasNotes_initializer _ e he
      · exact k.hasNotes_shadowing _ body e he
    · cases he

theorem hasNotes_between (body : Stmt) : ∀ e ∈ k.between level body, e.HasNotes := by
  intro e he
  unfold between at he
  split at he
  · obtain ⟨s, -, rfl⟩ := List.mem_map.mp he
    rfl
  · cases he

theorem hasNotes_loop (head : StmtHead) (mark : Attribute) (l : Loop) :
    ∀ e ∈ k.loop n head level mark l, e.HasNotes := by
  intro e he
  unfold loop checks at he
  rcases List.mem_append.mp he with he | he
  · rcases List.mem_cons.mp he with rfl | he
    · trivial
    · rcases List.mem_append.mp he with he | he
      · rcases List.mem_append.mp he with he | he
        · exact k.hasNotes_position n level mark l.body e he
        · exact k.hasNotes_header _ l.body e he
      · exact k.hasNotes_between level l.body e he
  · split at he
    · cases he
    · obtain rfl := List.mem_singleton.mp he
      trivial

end Site

/-- Every rejection of a kernel has the notes of the rule that it breaks. -/
theorem Function.hasNotes_of_mem_events {f : Function} {vars : VarTable} {label : String}
    {e : Event} (he : e ∈ f.events vars label) : e.HasNotes := by
  unfold events at he
  rcases List.mem_append.mp he with he | he
  · rcases List.mem_append.mp he with he | he
    · rcases List.mem_cons.mp he with rfl | he
      · trivial
      · obtain ⟨m, -, rfl⟩ := List.mem_map.mp he
        rfl
    · unfold Site.outerLoop at he
      split at he
      · cases he
      · obtain rfl := List.mem_singleton.mp he
        rfl
  · rw [Stmt.eventsAll_eq] at he
    obtain ⟨s, -, he⟩ := List.mem_flatMap.mp he
    obtain ⟨t, -, n, level, mark, l, -, -, he⟩ := Stmt.mem_events he
    exact Site.hasNotes_loop _ n level t.head mark l e he

theorem Program.hasNotes_classify (p : Program) (config : CheckConfig) :
    ∀ e ∈ (p.classify config).events, e.HasNotes := by
  intro e he
  rw [classify_eq] at he
  obtain ⟨f, -, he⟩ := List.mem_flatMap.mp ((config.mode.cut_prefix _).subset he)
  exact Function.hasNotes_of_mem_events he

/-! ## Diagnostics without places -/

/-- Notes that are the same but for the place in the note on an iterator. -/
def SameNotes (notes notes' : List String) : Prop :=
  notes = notes' ∨ ∃ iterator place place',
    notes = [placeNote iterator place] ∧ notes' = [placeNote iterator place']

/-- The diagnostics are the same but for their spans and the place in a note. -/
structure Diagnostic.SameButPlaces (d d' : Diagnostic) : Prop where
  severity : d.severity = d'.severity
  message : d.message = d'.message
  notes : SameNotes d.notes d'.notes

theorem Violation.HasNotes.same {v : Violation} {notes notes' : List String}
    (h : v.HasNotes notes) (h' : v.HasNotes notes') : SameNotes notes notes' := by
  cases v with
  | shadowedIterator iterator =>
    obtain ⟨place, rfl⟩ := h
    obtain ⟨place', rfl⟩ := h'
    exact .inr ⟨iterator, place, place', rfl, rfl⟩
  | _ => exact .inl (h.trans h'.symm)

theorem Rejection.diagnostic_sameButPlaces {r r' : Rejection} (h : r.unplaced = r'.unplaced)
    {notes notes' : List String} (hnotes : SameNotes notes notes') :
    (r.diagnostic notes).SameButPlaces (r'.diagnostic notes') := by
  have hmessage : r.unplaced.message = r'.unplaced.message := congrArg message h
  exact ⟨rfl, hmessage, hnotes⟩

/-- So it is for the header rules that two loops may break, which have no notes. -/
theorem failure_sameButPlaces {r? r?' : Option Rejection}
    (h : r?.map Rejection.unplaced = r?'.map Rejection.unplaced) :
    Option.Rel Diagnostic.SameButPlaces (r?.map (Rejection.diagnostic · []))
      (r?'.map (Rejection.diagnostic · [])) := by
  cases r? with
  | none =>
    cases r?' with
    | none => exact .none
    | some r' => cases h
  | some r =>
    cases r?' with
    | none => cases h
    | some r' => exact .some (Rejection.diagnostic_sameButPlaces (Option.some.inj h) (.inl rfl))

namespace Event

/-- Events that are the same but for places make such diagnostics. -/
theorem diagnostic?_of_shape {e e' : Event} (h : e.shape = e'.shape) (hnotes : e.HasNotes)
    (hnotes' : e'.HasNotes) :
    Option.Rel Diagnostic.SameButPlaces e.diagnostic? e'.diagnostic? := by
  cases e with
  | entered _ | passed _ _ | accepted _ =>
    cases e' with
    | described _ | rejected _ _ _ => cases h
    | _ => exact .none
  | rejected _ r notes =>
    cases e' with
    | rejected _ r' notes' =>
      obtain ⟨-, hr, -⟩ := Event.rejected.inj h
      have hviolation : r.unplaced.violation = r'.unplaced.violation :=
        congrArg Rejection.violation hr
      have hviolation : r.violation = r'.violation := hviolation
      have hnotes' : r'.violation.HasNotes notes' := hnotes'
      rw [← hviolation] at hnotes'
      have hsame := Violation.HasNotes.same hnotes hnotes'
      exact .some (Rejection.diagnostic_sameButPlaces hr hsame)
    | _ => cases h
  | described d =>
    cases e' with
    | described d' =>
      have hd := congrArg Descriptor.failure (Event.described.inj h)
      have hfailure : d.failure.map Rejection.unplaced = d'.failure.map Rejection.unplaced := hd
      exact failure_sameButPlaces hfailure
    | _ => cases h

theorem diagnostics_of_shapes {es fs : List Event} (h : es.map shape = fs.map shape)
    (hes : ∀ e ∈ es, e.HasNotes) (hfs : ∀ e ∈ fs, e.HasNotes) :
    List.Forall₂ Diagnostic.SameButPlaces (es.filterMap diagnostic?)
      (fs.filterMap diagnostic?) := by
  have hall : List.Forall₂ (fun e e' => Option.Rel Diagnostic.SameButPlaces e.diagnostic?
      e'.diagnostic?) es fs := by
    rw [← List.forall₂_eq_eq_eq, List.forall₂_map_left_iff, List.forall₂_map_right_iff] at h
    induction h with
    | nil => exact .nil
    | cons first _ ih =>
      obtain ⟨he, hes⟩ := List.forall_mem_cons.mp hes
      obtain ⟨hf, hfs⟩ := List.forall_mem_cons.mp hfs
      exact .cons (diagnostic?_of_shape first he hf) (ih hes hfs)
  exact List.rel_filterMap (fun _ _ hsame => hsame) hall

end Event

/-! ## Reports without places -/

/-- The reports are the same but for spans, the lines of loops and the places in notes. -/
structure Report.SameButPlaces (r r' : Report) : Prop where
  ok : r.ok = r'.ok
  loops : r.loops.map LoopSummary.unplaced = r'.loops.map LoopSummary.unplaced
  errors : r.errors.map Rejection.unplaced = r'.errors.map Rejection.unplaced
  diagnostics : List.Forall₂ Diagnostic.SameButPlaces r.diagnostics r'.diagnostics

/-- Findings that are the same but for places make such reports. -/
theorem Report.sameButPlaces_of_shapes {c c' : Classification}
    (h : c.events.map Event.shape = c'.events.map Event.shape)
    (hc : ∀ e ∈ c.events, e.HasNotes) (hc' : ∀ e ∈ c'.events, e.HasNotes) (config : CheckConfig)
    (index : Expr) : (c.report config index).SameButPlaces (c'.report config index) := by
  have hagrees := Classification.report_agrees h config (rfl : index.shape = index.shape)
  refine ⟨hagrees.ok, hagrees.loops, ?_, ?_⟩
  · change c.errors.map Rejection.unplaced = c'.errors.map Rejection.unplaced
    rw [← Classification.errors_shape, ← Classification.errors_shape, h]
  · change List.Forall₂ _ (c.diagnostics config) (c'.diagnostics config)
    unfold Classification.diagnostics
    split
    · exact Event.diagnostics_of_shapes h hc hc'
    · exact .nil

namespace Program

variable {p p' : Program}

/-- A check finds the same in a program without places. -/
theorem shapes_classify_unplaced (p : Program) (config : CheckConfig) :
    (p.unplaced.classify config).events.map Event.shape =
      (p.classify config).events.map Event.shape :=
  shapes_classify (.all id) p.vars.unplaced Function.injective_id p config
    fun _ _ _ _ v _ => p.vars.type?_unplaced v.id

/-- The variable for the index has the same number in both programs. -/
theorem withIndex_unplaced (h : p.unplaced = p'.unplaced) (name : String) :
    (p.withIndex name).1 = (p'.withIndex name).1 ∧
      (p.withIndex name).2.unplaced = (p'.withIndex name).2.unplaced := by
  obtain ⟨hfunctions, hvars, -⟩ := Program.mk.inj h
  obtain ⟨hv, hadded⟩ := VarTable.declareImplicit_unplaced hvars name .none .none
  refine ⟨congrArg (Expr.var .none) hv, ?_⟩
  exact congrArg₂ (fun fs vars => Program.mk fs vars .none) hfunctions hadded

/-- Reports on programs that are the same but for places. -/
theorem check_sameButPlaces (h : p.unplaced = p'.unplaced) (config : CheckConfig) :
    (p.check config).1.SameButPlaces (p'.check config).1 := by
  obtain ⟨hindex, hunplaced⟩ := withIndex_unplaced h config.flatIndex
  unfold check
  rcases hp : p.withIndex config.flatIndex with ⟨index, q⟩
  rcases hp' : p'.withIndex config.flatIndex with ⟨index', q'⟩
  rw [hp, hp'] at hindex hunplaced
  obtain rfl : index = index' := hindex
  have hshapes : (q.classify config).events.map Event.shape =
      (q'.classify config).events.map Event.shape := by
    have hq : q.unplaced = q'.unplaced := hunplaced
    rw [← shapes_classify_unplaced, hq, shapes_classify_unplaced]
  exact Report.sameButPlaces_of_shapes hshapes (q.hasNotes_classify config)
    (q'.hasNotes_classify config) config index

end Program

/-! ## Texts with the same words -/

/-- **Layout never changes the outcome.** If two texts have the same words, then neither is a
program and their problems are the same but for spans, or both are the same program but for spans
and have the same report but for places, whatever is configured. -/
theorem Report.ofSource_sameButPlaces {source source' : String} {ts ts' : List Token}
    (h : tokenize source = .ok ts) (h' : tokenize source' = .ok ts')
    (hwords : ts.map Token.word = ts'.map Token.word) :
    (∃ ps ps', Program.read source = .error (.problems ps) ∧
      Program.read source' = .error (.problems ps') ∧
      ps.map Problem.unplaced = ps'.map Problem.unplaced ∧
      ∀ config, ofSource source config = .error (.problems ps) ∧
        ofSource source' config = .error (.problems ps')) ∨
    ∃ p p', Program.read source = .ok p ∧ Program.read source' = .ok p' ∧
      p.unplaced = p'.unplaced ∧
      ∀ config, ∃ r r', ofSource source config = .ok r ∧ ofSource source' config = .ok r' ∧
        r.SameButPlaces r' := by
  have hread := Program.read_parallel h h' hwords
  generalize hs : Program.read source = result at hread
  generalize hs' : Program.read source' = result' at hread
  unfold ofSource
  rw [hs, hs']
  cases hread with
  | problems hps => exact .inl ⟨_, _, rfl, rfl, hps, fun _ => ⟨rfl, rfl⟩⟩
  | program hp =>
    exact .inr ⟨_, _, rfl, rfl, hp, fun config =>
      ⟨_, _, rfl, rfl, Program.check_sameButPlaces hp config⟩⟩

/-- Two texts with the same words, found by scanning them. -/
theorem exists_tokens_of_words {source source' : String}
    (h : ((tokenize source).toOption.any fun ts => (tokenize source').toOption.any fun ts' =>
      decide (ts.map Token.word = ts'.map Token.word)) = true) :
    ∃ ts ts', tokenize source = .ok ts ∧ tokenize source' = .ok ts' ∧
      ts.map Token.word = ts'.map Token.word := by
  cases hts : tokenize source with
  | error f =>
    rw [hts] at h
    cases h
  | ok ts =>
    cases hts' : tokenize source' with
    | error f =>
      rw [hts, hts'] at h
      cases h
    | ok ts' =>
      rw [hts, hts'] at h
      exact ⟨ts, ts', rfl, rfl, of_decide_eq_true h⟩

/-- A shadowed iterator on one line and on several ones, with a comment: the reports differ in
places, the one in the note among them. -/
theorem Report.ofSource_sameButPlaces_shadowed :
    ∃ source source' ts ts', tokenize source = .ok ts ∧ tokenize source' = .ok ts' ∧
      ts.map Token.word = ts'.map Token.word ∧
      ofSource source { mode := .batch } ≠ ofSource source' { mode := .batch } ∧
      ((∃ ps ps', Program.read source = .error (.problems ps) ∧
        Program.read source' = .error (.problems ps') ∧
        ps.map Problem.unplaced = ps'.map Problem.unplaced ∧
        ∀ config, ofSource source config = .error (.problems ps) ∧
          ofSource source' config = .error (.problems ps')) ∨
      ∃ p p', Program.read source = .ok p ∧ Program.read source' = .ok p' ∧
        p.unplaced = p'.unplaced ∧
        ∀ config, ∃ r r', ofSource source config = .ok r ∧ ofSource source' config = .ok r' ∧
          r.SameButPlaces r') := by
  refine ⟨"@kernel void k() { @outer for (int i = 0; i < 4; ++i) int i; }", "@kernel void k() {
      @outer for (int i = 0; i < 4; ++i) int i; // not the one of the loop
    }", ?_⟩
  refine (exists_tokens_of_words ?_).imp fun ts h => h.imp fun ts' h =>
    ⟨h.1, h.2.1, h.2.2, ?_, ofSource_sameButPlaces h.1 h.2.1 h.2.2⟩
  · decide +kernel
  · decide +kernel

end LoopNest
