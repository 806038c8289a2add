import LoopNest.Proofs.Grammar.Placement
import LoopNest.Proofs.Nest.Printed

/-!
# Attributes in front of a loop and in its header

A loop is the same one with its attributes in front of it and with them in its header, unless they
use a name that the header declares: in front of the loop that name stands for a variable from
outside, in the header for the one that is declared there. A check makes no difference between them.

* `HasWords`: the words of a source text.
* `MarkedLoop.placements_agree`: the programs and what a check finds in them are the same.
* `MarkedLoop.tiled`: a loop over `i` whose attribute uses some name.
* `MarkedLoop.placements_differ`: the programs are not the same where that name is `i`.
-/

namespace LoopNest

/-- The tokens of the source text are these words and the end of the file. -/
def HasWords (source : String) (ws : List Word) : Prop :=
  ∃ ts, tokenize source = .ok ts ∧ ts.map Token.word = ws ++ [.endOfFile]

theorem HasWords.of_tokenize {source : String} {ws : List Word}
    (h : ((tokenize source).toOption.any fun ts =>
      decide (ts.map Token.word = ws ++ [.endOfFile])) = true) : HasWords source ws := by
  cases hts : tokenize source with
  | error f =>
    rw [hts] at h
    cases h
  | ok ts =>
    rw [hts] at h
    exact ⟨ts, hts, of_decide_eq_true h⟩

namespace MarkedLoop

variable (l : MarkedLoop) {source source' : String} {p p' : Program}

/-- The programs are alike. Attributes matter if they do not use names of the header. -/
theorem exists_alike {exact : Prop} (hapart : exact → l.Apart) (h : HasWords source l.inFront)
    (h' : HasWords source' l.inHeader) (hp : Program.read source = .ok p)
    (hp' : Program.read source' = .ok p') : ∃ K, p.Alike exact K p' := by
  obtain ⟨ts, hts, hwords⟩ := h
  obtain ⟨ts', hts', hwords'⟩ := h'
  exact Program.alike_of_alongside (atLoops hapart) hts hts' (.inl ⟨rfl, rfl⟩)
    (hwords.trans l.inFront_append) (hwords'.trans l.inHeader_append) hp hp'

/-- **Attributes in front of a loop and in its header.** Two texts that are the same but for the
place of the attributes of one loop, in front of it or behind the clauses of its header, are the
same program but for spans, a renumbering of variables and the variables in attributes, and a check
finds the same in both. If the attributes use no name that the header declares, then the variables
in attributes are the same too. -/
theorem placements_agree (h : HasWords source l.inFront) (h' : HasWords source' l.inHeader)
    (hp : Program.read source = .ok p) (hp' : Program.read source' = .ok p') :
    (∃ σ, Function.Injective σ ∧ p'.functions.map (Function.relabel (.plain id)) =
        p.functions.map (Function.relabel (.plain σ))) ∧
      (l.Apart → ∃ σ, p.Renumbers σ p') ∧
      ∀ config, (p'.classify config).events.map Event.shape =
          (p.classify config).events.map Event.shape ∧
        (p'.check config).1.Agrees (p.check config).1 := by
  obtain ⟨K, halike⟩ := l.exists_alike False.elim h h' hp hp'
  refine ⟨⟨_, halike.number_injective, halike.relabel_numbering.symm⟩, fun hapart => ?_,
    fun config => ⟨?_, halike.check_agrees config⟩⟩
  · obtain ⟨_, hexact⟩ := l.exists_alike (fun _ : True => hapart) h h' hp hp'
    exact hexact.exists_renumbers
  · exact halike.shapes_classify_eq (fun _ _ => rfl) (fun _ _ => rfl) config

end MarkedLoop

/-! ## Tiled loops -/

/-- The token of a word at no place. -/
def Word.token (w : Word) : Token := ⟨w.kind, .none, w.lexeme⟩

/-- The word of a whole number. -/
def Word.number (n : Nat) : Word := ⟨.integer, toString n⟩

namespace Grammar

theorem derives_name (n : String) : Derives 10 [(Word.name n).token] (.var .none ⟨0, n⟩) :=
  .name rfl

theorem phrase_tile (n : String) : Phrase (Rows DerivesAttribute)
    [.symbol .atSign, .name "tile", .symbol .leftParen, .name n, .symbol .rightParen]
    [⟨"tile", [.var .none ⟨0, n⟩], .none⟩] := by
  let t : Token := (Word.name n).token
  have hargs : DerivesArguments [t] [.var .none ⟨0, n⟩] :=
    @DerivesArguments.list [([t], .var .none ⟨0, n⟩)] [t] (.single _)
      (List.forall_mem_singleton.mpr ((derives_name n).mono (by decide)))
  have hmark : DerivesAttribute ((Word.symbol .atSign).token :: (Word.name "tile").token ::
      (Word.symbol .leftParen).token :: ([t] ++ [(Word.symbol .rightParen).token]))
      ⟨"tile", [.var .none ⟨0, n⟩], .none⟩ := .applied rfl rfl rfl hargs rfl
  exact ⟨_, rfl, .cons hmark .nil⟩

theorem phrase_init : Phrase DerivesInit
    [.keyword (.type .int), .name "i", .symbol .equal, .number 0, .symbol .semicolon]
    (.declaration ⟨.none, []⟩ [⟨⟨0, "i"⟩, some (.literal .none (.int 0)), .none⟩]) := by
  let equal : Token := (Word.symbol .equal).token
  let zero : Token := (Word.number 0).token
  let d : Declarator := ⟨⟨0, "i"⟩, some (.literal .none (.int 0)), .none⟩
  have hstars : IsStars [] 0 := ⟨rfl, List.forall_mem_nil _⟩
  have hzero : Derives 10 [zero] (.literal .none (.int 0)) := .literal (by decide)
  have hvalue : DerivesInitializer [equal, zero] d.value := .value rfl (hzero.mono (by decide))
  have hd : DerivesDeclarator ([] ++ (Word.name "i").token :: ([] ++ [equal, zero])) d :=
    .named hstars rfl .nil hvalue
  have htype : DerivesType ((Word.keyword (.type .int)).token :: ([] ++ [])) ⟨.int, 0⟩ :=
    .words rfl (absurd rfl ·) (List.forall_mem_nil _) hstars
  have hds : DerivesDeclaration (_ ++ (_ ++ [(Word.symbol .semicolon).token])) [d] :=
    @DerivesDeclaration.list _ _ _ _ [(_, d)] htype (.single _) (List.cons_ne_nil _ _)
      (List.forall_mem_singleton.mpr hd) rfl
  exact ⟨_, rfl, .declaration hds⟩

theorem phrase_check : Phrase DerivesClause [.name "i", .symbol .less, .number 8]
    (.expression ⟨.none, []⟩
      (.binary .none .lt (.var .none ⟨0, "i"⟩) (.literal .none (.int 8)))) := by
  have height : Derives 10 [(Word.number 8).token] (.literal .none (.int 8)) :=
    .literal (by decide)
  have hless : Derives BinaryOp.lt.precedence (_ ++ (Word.symbol .less).token :: _)
      (.binary .none .lt _ _) :=
    .binary (by decide) rfl ((derives_name "i").mono (by decide)) (height.mono (by decide))
  exact ⟨_, rfl, .expression (hless.mono (by decide))⟩

theorem phrase_update : Phrase DerivesClause [.symbol .plusPlus, .name "i"]
    (.expression ⟨.none, []⟩ (.unaryBefore .none .increment (.var .none ⟨0, "i"⟩))) := by
  have hplus : Derives 8 ((Word.symbol .plusPlus).token :: _) (.unaryBefore .none .increment _) :=
    .before rfl ((derives_name "i").mono (by decide))
  exact ⟨_, rfl, .expression (hplus.mono (by decide))⟩

end Grammar

namespace MarkedLoop

open Grammar

/-- The loop `for (int i = 0; i < 8; ++i)` with the attribute `@tile` of a name. -/
def tiled (ahead behind : List Word) (n : String) : MarkedLoop where
  ahead
  marks := [.symbol .atSign, .name "tile", .symbol .leftParen, .name n, .symbol .rightParen]
  init := [.keyword (.type .int), .name "i", .symbol .equal, .number 0, .symbol .semicolon]
  check := [.name "i", .symbol .less, .number 8]
  update := [.symbol .plusPlus, .name "i"]
  behind
  isMarks := ⟨_, phrase_tile n⟩
  isInit := ⟨_, phrase_init⟩
  isCheck := ⟨_, phrase_check⟩
  isUpdate := ⟨_, phrase_update⟩

theorem apart_tiled {ahead behind : List Word} {n : String} (htile : n ≠ "i") :
    (tiled ahead behind n).Apart := by
  refine apart_of_words _ fun w hw hkind hmem => ?_
  simp only [tiled, List.mem_cons, List.not_mem_nil, or_false] at hw hmem
  rcases hw with rfl | rfl | rfl | rfl | rfl
  all_goals simp [Word.name, Word.symbol, Word.keyword, Word.number, htile] at hkind hmem

/-- The words of `void f(int n) {` for some name. -/
def opensWith (n : String) : List Word :=
  [.keyword (.type .void), .name "f", .symbol .leftParen, .keyword (.type .int), .name n,
    .symbol .rightParen, .symbol .leftBrace]

/-- The tile is a name that is declared nowhere. In front of the loop it gets its number before the
loop's variable does, in the header behind it. -/
theorem placements_agree_tiled : ∃ (l : MarkedLoop) (source source' : String) (p p' : Program),
    (HasWords source l.inFront ∧ HasWords source' l.inHeader ∧ Program.read source = .ok p ∧
      Program.read source' = .ok p') ∧ l.Apart ∧ (∃ σ, p.Renumbers σ p') ∧
      ∀ config, (p'.classify config).events.map Event.shape =
          (p.classify config).events.map Event.shape ∧
        (p'.check config).1.Agrees (p.check config).1 := by
  let l := tiled (opensWith "n")
    [.name "N", .symbol .equal, .name "i", .symbol .semicolon, .symbol .rightBrace] "N"
  let source := "void f(int n) { @tile(N) for (int i = 0; i < 8; ++i) N = i; }"
  let source' := "void f(int n) { for (int i = 0; i < 8; ++i; @tile(N)) N = i; }"
  have h : HasWords source l.inFront := .of_tokenize (by decide +kernel)
  have h' : HasWords source' l.inHeader := .of_tokenize (by decide +kernel)
  obtain ⟨p, hp, -⟩ : ∃ p, Program.read source = .ok p ∧ true = true :=
    Program.exists_of_read (by decide +kernel)
  obtain ⟨p', hp', -⟩ : ∃ p, Program.read source' = .ok p ∧ true = true :=
    Program.exists_of_read (by decide +kernel)
  have hapart : l.Apart := apart_tiled (by decide)
  obtain ⟨-, hsame, hcheck⟩ := placements_agree l h h' hp hp'
  exact ⟨l, source, source', p, p', ⟨h, h', hp, hp'⟩, hapart, hsame hapart, hcheck⟩

/-- The tile is a parameter with the name of the loop's variable, which it is in the header. -/
theorem placements_differ : ∃ (l : MarkedLoop) (source source' : String) (p p' : Program),
    (HasWords source l.inFront ∧ HasWords source' l.inHeader ∧ Program.read source = .ok p ∧
      Program.read source' = .ok p') ∧ ¬ ∃ σ, p.Renumbers σ p' := by
  let l := tiled (opensWith "i") [.symbol .semicolon, .symbol .rightBrace] "i"
  let source := "void f(int i) { @tile(i) for (int i = 0; i < 8; ++i) ; }"
  let source' := "void f(int i) { for (int i = 0; i < 8; ++i; @tile(i)) ; }"
  have h : HasWords source l.inFront := .of_tokenize (by decide +kernel)
  have h' : HasWords source' l.inHeader := .of_tokenize (by decide +kernel)
  obtain ⟨p, hp, hids⟩ : ∃ p, Program.read source = .ok p ∧
      decide (p.refs.map VarRef.id = [0, 1, 1, 1, 0]) = true :=
    Program.exists_of_read (by decide +kernel)
  obtain ⟨p', hp', hids'⟩ : ∃ p, Program.read source' = .ok p ∧
      decide (p.refs.map VarRef.id = [0, 1, 1, 1, 1]) = true :=
    Program.exists_of_read (by decide +kernel)
  refine ⟨l, source, source', p, p', ⟨h, h', hp, hp'⟩, ?_⟩
  rintro ⟨σ, hσ⟩
  have hrefs : p'.refs.map (VarRef.relabel id) = p.refs.map (VarRef.relabel σ) := by
    rw [Program.refs, Program.refs, ← Function.refs_relabelled, ← Function.refs_relabelled,
      hσ.functions]
  have hnumbers : p'.refs.map VarRef.id = (p.refs.map VarRef.id).map σ := by
    have hmap := congrArg (List.map VarRef.id) hrefs
    rw [List.map_map, List.map_map] at hmap
    rw [List.map_map]
    exact hmap
  rw [of_decide_eq_true hids, of_decide_eq_true hids'] at hnumbers
  -- The parameter keeps its number, but in the attribute it gets the one of the loop's variable.
  have hparameter : 0 = σ 0 := (List.cons.inj hnumbers).1
  have hattribute : 1 = σ 0 := congrArg (fun ids => ids.getLastD 0) hnumbers
  omega

end MarkedLoop

end LoopNest
