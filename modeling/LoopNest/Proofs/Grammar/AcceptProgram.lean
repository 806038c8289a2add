import LoopNest.Proofs.Grammar.AcceptStmt

/-!
# Programs that are accepted

The text of a program that was read can be read again, and what is read is the program but for
spans and numbers of variables.

* `Function.Alike`, `Program.Alike`: two functions and two programs are the same up to these.
* `Function.Alike.of_parts`: functions are alike if their parts are.
* `Grammar.function_accepts`: the grammar accepts the words of a function.
* `Program.exists_alike`: the text of a program is read as a program alike.
-/

namespace LoopNest

/-- The functions are the same but for spans and numbers, and the first variable of each
declaration has its type. -/
structure Function.Alike (exact : Prop) (K : Pairing) (f f' : Function) : Prop where
  same : K.Same exact (fun σ => f.relabel σ) fun τ => f'.relabel τ
  firsts : ∀ s ∈ f'.body.statements, ∀ v ∈ s.firsts, ∃ i, K.typed i v.id

namespace Function.Alike

variable {exact : Prop} {K L : Pairing} {f f' : Function}

theorem lasting (exact : Prop) : Pairing.Lasting (Function.Alike exact) :=
  ⟨fun hle h => ⟨h.same.mono hle, fun s hs v hv =>
    (h.firsts s hs v hv).imp fun i hi => hle.typed i v.id hi⟩⟩

/-- Functions of one name and one type are alike if their other parts are. -/
theorem of_parts (hname : f.name = f'.name) (htype : f.returnType = f'.returnType)
    (hmarks : K.Same exact (fun σ => f.attributes.map (Attribute.relabel σ))
      fun τ => f'.attributes.map (Attribute.relabel τ))
    (hparams : K.Same exact (fun σ => f.params.map (VarRef.relabel σ.vars))
      fun τ => f'.params.map (VarRef.relabel τ.vars))
    (hbody : List.Forall₂ (Stmt.Alike exact K) f.body.statements f'.body.statements) :
    f.Alike exact K f' := by
  refine ⟨fun σ τ hagree => ?_, Stmt.Alike.typed_firsts hbody⟩
  have hmarks := hmarks σ τ hagree
  have hparams := hparams σ τ hagree
  have hbody := Stmt.Alike.same_map hbody σ τ hagree
  dsimp only at hmarks hparams hbody
  simp only [relabel, Block.relabel, hname, htype, hmarks, hparams, hbody]

end Function.Alike

/-- The statements of a function can be read back. -/
structure Function.Printable (exact : Prop) (vars : VarTable) (f : Function) : Prop where
  marks : ∀ x ∈ f.attributes.flatMap Attribute.args, x.Apart
  body : ∀ s ∈ f.body.statements, s.AllPrintable exact vars

namespace Grammar

open Parse

section

variable {sizes : Span → List String} {exact : Prop} {K : Pairing} {vars : VarTable} {c c' : Context}
  {r : Reader} {w : Word} {ws : List Word}

theorem statement_accepts (n : Nat) : AcceptsStmts sizes exact vars statement n := by
  intro K c c' s r w ws hs hfollows _ hopen hsees
  refine .get (statementFor_accepts r.remaining K c c' s r w ws hs hfollows ?_ hopen hsees)
  rw [hsees.length_remaining, List.length_append]
  exact Nat.le_add_right _ _

theorem functionRest_accepts {f : Function} {c₁ : Context}
    (hparams : Parameters sizes vars c f.params c₁)
    (hbody : Stmt.ReadAllIn sizes f.body.statements c₁.push c')
    (hprintable : f.Printable exact vars) (htable : c'.vars.Extends vars)
    (hfollows : Context.Follows exact K c r.context)
    (hsees : r.Sees (.symbol .leftParen ::
      (Word.separated (f.params.map (VarRef.parameterWords vars)) ++ .symbol .rightParen ::
        .symbol .leftBrace :: (Stmt.wordsAll vars f.body.statements ++
          .symbol .rightBrace :: w :: ws)))) :
    functionRest.Accepts r fun p r' => r'.Sees (w :: ws) ∧
      Context.FollowsBy exact K c'.pop r'.context fun L =>
        List.Forall₂ (SameParameter exact L) f.params p.1 ∧
          List.Forall₂ (Stmt.Alike exact L) f.body.statements p.2.statements := by
  have hframes₁ : 2 ≤ c₁.frames.length :=
    (Context.Passes.of_runWith (VarRef.run_of_chain hparams.chain)).frames ▸ hparams.frames
  unfold functionRest
  refine (Accepts.expect _ hsees (by simp)).bind fun _ r₁ h₁ => ?_
  obtain ⟨hsees₁, hcontext₁⟩ := h₁
  rw [← hcontext₁] at hfollows
  refine (parameters_accepts hparams hfollows hsees₁).bind fun params r₂ h₂ => ?_
  obtain ⟨hsees₂, L, hle, hfollows₂, hsame⟩ := h₂
  refine (Accepts.expect _ hsees₂ (by simp)).bind fun _ r₃ h₃ => ?_
  obtain ⟨hsees₃, hcontext₃⟩ := h₃
  rw [← hcontext₃] at hfollows₂
  have hbody : StatementsAhead sizes exact vars (f.body.statements.flatMap (Stmt.words vars)).length
      c₁.push f.body.statements c' :=
    ⟨hbody, hprintable.body, fun s hs => length_le_flatMap hs, htable, Nat.succ_le_succ hframes₁⟩
  refine (block_accepts (statement_accepts _) hbody hfollows₂ hsees₃).bind fun b r₄ h₄ => .pure ?_
  obtain ⟨hsees₄, M, hle', hfollows₄, hall⟩ := h₄
  have hparams := hsame.imp fun _ _ h => (SameParameter.lasting exact).mono hle' h
  exact ⟨hsees₄, M, hle.trans hle', hfollows₄, hparams, hall⟩

theorem function_accepts {f : Function} (hf : f.ReadIn sizes c c')
    (hprintable : f.Printable exact vars) (htable : c'.vars.Extends vars)
    (hfollows : Context.Follows exact K c r.context) (hsees : r.Sees (f.words vars ++ w :: ws)) :
    function.Accepts r fun f' r' => r'.Sees (w :: ws) ∧
      Context.FollowsBy exact K c' r'.context fun L => f.Alike exact L f' := by
  obtain ⟨c₁, c₂, c₃, hmarks, _, hparams, hbody, rfl⟩ := hf
  have hreadable : ∀ x ∈ f.attributes.flatMap Attribute.args, x.Readable :=
    fun x hx => ⟨hmarks.2.1 x hx, hprintable.marks x hx⟩
  have htable₃ : c₃.vars.Extends vars := htable
  have hbodyPasses := Context.Passes.of_runWith (Stmt.ReadAllIn.run hbody)
  have hparamsPasses := Context.Passes.of_runWith (VarRef.run_of_chain hparams)
  have htable₂ : c₂.vars.Extends vars := hbodyPasses.table.trans htable₃
  have hframes₁ : 2 ≤ c₁.push.frames.length := by
    have hne := hmarks.2.2.sound hfollows.left
    have hpos := List.length_pos_iff.mpr hne.frames_ne
    exact Nat.succ_le_succ hpos
  have hframes₃ : c₃.frames.length = c₁.push.frames.length + 1 := by
    have hpush : c₂.push.frames.length = c₂.frames.length + 1 := rfl
    have hlength₂ := hparamsPasses.frames
    have hlength₃ := hbodyPasses.frames
    omega
  have hsees : r.Sees (Stmt.markWords f.attributes ++ f.returnType.base.word ::
      (List.replicate f.returnType.pointers (.symbol .star) ++ .name f.name :: .symbol .leftParen ::
        (Word.separated (f.params.map (VarRef.parameterWords vars)) ++ .symbol .rightParen ::
          .symbol .leftBrace :: (Stmt.wordsAll vars f.body.statements ++
            .symbol .rightBrace :: w :: ws)))) := by
    simpa [Function.words, VarType.starWords] using hsees
  have hends : EndsMarks f.attributes f.returnType.base.word :=
    ⟨by simp [BaseType.word, Word.keyword], fun _ _ _ => by simp [BaseType.word, Word.keyword]⟩
  unfold function
  refine (attributes_accepts hreadable hends hsees).bind fun marks' r₁ h₁ => .get ?_
  obtain ⟨hshape, hmarks', hsees₁⟩ := h₁
  obtain ⟨L, hle, hfollows₁, hsame⟩ := marks_follow hfollows hmarks hmarks' hshape
  refine (typeName_accepts (endsType_name _) hsees₁).bind fun type r₂ h₂ => ?_
  obtain ⟨htype, hsees₂, hcontext₂⟩ := h₂
  refine (Accepts.name _ hsees₂ (by simp)).bind fun name r₃ h₃ => ?_
  obtain ⟨rfl, hsees₃, hcontext₃⟩ := h₃
  rw [← hcontext₂, ← hcontext₃] at hfollows₁
  have hrest (r₄ : Reader) (hremaining : r₄.remaining = r₃.remaining)
      (hcontext : r₄.context = r₃.context.push) :=
    functionRest_accepts ⟨hparams, htable₂, hframes₁⟩ hbody hprintable htable₃
      (hcontext ▸ hfollows₁.push) (hsees₃.of_remaining hremaining)
  refine (Accepts.inScope hrest).bind fun p r₄ h₄ => .get (.pure ?_)
  obtain ⟨r₅, ⟨hsees₅, M, hle', hfollows₅, hparams, hbody⟩, hcontext, hremaining⟩ := h₄
  refine ⟨hsees₅.of_remaining hremaining, M, hle.trans hle', ?_,
    .of_parts rfl htype.symm (hsame.mono hle') (.map hparams) hbody⟩
  rw [hcontext]
  refine hfollows₅.pop ?_
  have hpop : c₃.pop.frames.length = c₃.frames.length - 1 := List.length_tail
  omega

theorem exists_function_start (vars : VarTable) (f : Function) :
    ∃ w ws, f.words vars = w :: ws ∧ w.kind ≠ .endOfFile := by
  unfold Function.words
  cases f.attributes with
  | nil => exact ⟨_, _, rfl, by simp [BaseType.word, Word.keyword]⟩
  | cons a marks => exact ⟨_, _, rfl, by simp [Word.symbol]⟩

/-- What is left of a program: its functions up to the end of the text. -/
structure FunctionsAhead (sizes : Span → List String) (exact : Prop) (vars : VarTable) (c : Context)
    (fs : List Function) (c' : Context) : Prop where
  chain : c.Chain (Function.ReadIn sizes) fs c'
  printable : ∀ f ∈ fs, f.Printable exact vars
  table : c'.vars.Extends vars

theorem FunctionsAhead.tail {f : Function} {fs : List Function}
    (h : FunctionsAhead sizes exact vars c (f :: fs) c') :
    ∃ c₁, f.ReadIn sizes c c₁ ∧ f.Printable exact vars ∧ c₁.vars.Extends vars ∧
      FunctionsAhead sizes exact vars c₁ fs c' := by
  obtain ⟨hchain, hprintable, htable⟩ := h
  obtain ⟨⟩ | ⟨hf, hfs⟩ := hchain
  rename_i c₁
  obtain ⟨hprintable, hprintables⟩ := List.forall_mem_cons.mp hprintable
  exact ⟨c₁, hf, hprintable, VarTable.Extends.trans (hfs.extends Function.ReadIn.vars_extend) htable,
    hfs, hprintables, htable⟩

theorem programItem_accepts {f : Function} (hf : f.ReadIn sizes c c')
    (hprintable : f.Printable exact vars) (htable : c'.vars.Extends vars)
    (hfollows : Context.Follows exact K c r.context) (hsees : r.Sees (f.words vars ++ w :: ws)) :
    programItem.Accepts r fun o r' => ∃ o', o = some o' ∧ r'.Sees (w :: ws) ∧
      Context.FollowsBy exact K c' r'.context fun L =>
        Option.Rel (Function.Alike exact L) (some f) o' := by
  obtain ⟨w₁, ws₁, hwords, hw₁⟩ := exists_function_start vars f
  have hahead := hsees
  rw [hwords, List.cons_append] at hahead
  have hgo : ¬ r.atEnd = true := by
    rw [Reader.atEnd, Token.isEnd, hahead.kind_current]
    exact fun h => hw₁ (eq_of_beq h)
  refine .get ?_
  rw [if_neg hgo]
  refine ((function_accepts hf hprintable htable hfollows hsees).recovering _).bind
    fun o r₁ h₁ => .pure ?_
  obtain ⟨f', rfl, hsees₁, L, hle, hfollows₁, halike⟩ := h₁
  exact ⟨some f', rfl, hsees₁, L, hle, hfollows₁, .some halike⟩

theorem programItem_stops (hsees : r.Sees (.endOfFile :: ws)) :
    programItem.Accepts r fun o r' => o = none ∧ r' = r := by
  have hend : r.atEnd = true := by
    rw [Reader.atEnd, Token.isEnd, hsees.kind_current]
    rfl
  refine .get ?_
  rw [if_pos hend]
  exact .pure ⟨rfl, rfl⟩

theorem functions_accepts {fs : List Function} (hfs : FunctionsAhead sizes exact vars c fs c')
    (hfollows : Context.Follows exact K c r.context)
    (hsees : r.Sees (fs.flatMap (Function.words vars) ++ [.endOfFile])) :
    functions.Accepts r fun fs' r' => Context.FollowsBy exact K c' r'.context fun L =>
      List.Forall₂ (Function.Alike exact L) fs fs' := by
  have hstart : ∀ f ∈ fs, ∃ w' ws', f.words vars = w' :: ws' ∧ True := by
    intro f _
    obtain ⟨w', ws', hwords, _⟩ := exists_function_start vars f
    exact ⟨w', ws', hwords, trivial⟩
  have hmany : (many programItem).Accepts r fun items r' => r'.Sees [.endOfFile] ∧
      Context.FollowsBy exact K c' r'.context fun L =>
        List.Forall₂ (fun f => Option.Rel (Function.Alike exact L) (some f)) fs items := by
    refine Accepts.many_follows (P := fun c fs => FunctionsAhead sizes exact vars c fs c')
      (B := fun _ => True) ⟨fun hle h => (Function.Alike.lasting exact).option.mono hle h⟩ ?_ ?_
      programItem_stops trivial hstart hfs hfollows hsees
    · intro K c f fs r w' ws' hfs hfollows _ hsees
      obtain ⟨c₁, hf, hprintable, htable, hrest⟩ := hfs.tail
      refine (programItem_accepts hf hprintable htable hfollows hsees).mono fun o r' ho => ?_
      obtain ⟨o', rfl, hsees', hfollows'⟩ := ho
      exact ⟨o', c₁, rfl, hsees', hrest, hfollows'⟩
    · rintro c ⟨hchain, _⟩
      cases hchain
      rfl
  refine hmany.bind fun items r' h => .pure ?_
  obtain ⟨_, L, hle, hfollows', hall⟩ := h
  exact ⟨L, hle, hfollows', forall₂_filterMap_some hall⟩

end

end Grammar

/-! ## Programs -/

/-- The programs are the same but for spans and numbers: some variables of them correspond to one
another, by their names and, where it matters, by their types. -/
structure Program.Alike (exact : Prop) (K : Pairing) (p p' : Program) : Prop where
  unique : ∀ i j i' j', K.pairs i j → K.pairs i' j' → (i = i' ↔ j = j')
  lt_size : ∀ i j, K.pairs i j → i < p.vars.size ∧ j < p'.vars.size
  named : ∀ i j, K.pairs i j → p.vars.name? i = p'.vars.name? j
  typed : ∀ i j, K.typed i j → K.pairs i j ∧ p.vars.type? i = p'.vars.type? j
  all_typed : exact → ∀ i j, K.pairs i j → K.typed i j
  functions : List.Forall₂ (Function.Alike exact K) p.functions p'.functions

/-- Programs whose variables are those of contexts that follow one another. -/
theorem Context.Follows.program_alike {exact : Prop} {K : Pairing} {c d : Context} {p p' : Program}
    (h : Follows exact K c d) (hvars : c.vars = p.vars) (hvars' : d.vars = p'.vars)
    (hfunctions : List.Forall₂ (Function.Alike exact K) p.functions p'.functions) :
    p.Alike exact K p' :=
  ⟨h.unique, hvars ▸ hvars' ▸ h.lt_size, hvars ▸ hvars' ▸ h.named, hvars ▸ hvars' ▸ h.typed,
    h.all_typed, hfunctions⟩

/-- The words of a text without faults, for the reader at its first token. -/
theorem Reader.sees_of_scan {source : String} {ts : List Token}
    (h : scan source = ts.map .token) :
    ∃ r, Reader.ofSource source = .ok r ∧ r.Ready ∧ r.context = .initial ∧
      r.Sees (ts.map Token.word) := by
  cases ts with
  | nil =>
    obtain ⟨items, t, hclosed, -⟩ := scan_closed source
    rw [h] at hclosed
    simp at hclosed
  | cons t ts =>
    have hr : Reader.ofSource source =
        .ok { items := ts.map .token, current := t, previous := t } := by
      rw [Reader.ofSource, h]
      rfl
    obtain ⟨hsound, hcontext⟩ := Reader.sound_of_ofSource hr
    rw [h] at hsound
    exact ⟨_, hr, ⟨rfl, hsound⟩, hcontext, t :: ts, rfl, rfl⟩

/-- The words of a text that spells them, for the reader at its first token. -/
theorem Reader.sees_ofSource {source : String} {ws : List Word} (h : Spelled source.toList ws) :
    ∃ r, Reader.ofSource source = .ok r ∧ r.Ready ∧ r.context = .initial ∧
      r.Sees (ws ++ [.endOfFile]) := by
  obtain ⟨ts, hscan, hwords⟩ := h.scan
  exact hwords ▸ sees_of_scan hscan

/-- The text of a program is read as a program alike. -/
theorem Program.exists_alike {source : String} {p : Program} (hp : Program.read source = .ok p)
    {exact : Prop} (hprintable : ∀ f ∈ p.functions, f.Printable exact p.vars)
    (hapart : ∀ x ∈ p.expressions, x.Apart) :
    ∃ p' K, Program.read p.text = .ok p' ∧ p.Alike exact K p' := by
  obtain ⟨c, hchain, hvars⟩ := readIn_of_read hp
  obtain ⟨r, hr, hready, hcontext, hsees⟩ := Reader.sees_ofSource (spelled_text hp hapart)
  have hfollows : Context.Follows exact .empty .initial r.context := hcontext ▸ .initial exact
  have htable : c.vars.Extends p.vars := hvars ▸ .refl _
  obtain ⟨fs, hok, hready', _, K, _, hfollows', hfs⟩ :=
    Grammar.functions_accepts ⟨hchain, hprintable, htable⟩ hfollows hsees hready
  rcases hrun : Grammar.functions r with ⟨result, r'⟩
  rw [hrun] at hok hready' hfollows'
  obtain rfl : result = .ok fs := hok
  have hproblems : r'.problems.isEmpty = true := by rw [hready'.problems]; rfl
  refine ⟨⟨fs, r'.vars, r.current.span.merge r'.previous.span⟩, K, ?_, ?_⟩
  · simp only [read, hr, hrun]
    rw [if_pos hproblems]
  · exact hfollows'.program_alike hvars rfl hfs

end LoopNest
