import LoopNest.Proofs.Expr.Words
import LoopNest.Proofs.Grammar.Mentions
import LoopNest.Proofs.Token.Indentation
import LoopNest.Stmt.Text

/-!
# The words of statements and programs

A program is a row of words, and its text spells them.

* `Stmt.words`, `Function.words`, `Program.words`: the words, without any regard to lines.
* `Stmt.expressions`, `Program.expressions`: all expressions, those in attributes included.
* `Stmt.spelled_layout`: the layout of a statement that was read spells its words.
* `Program.spelled_text`: so does the text of a program.
-/

namespace LoopNest

/-! ## Words -/

def BaseType.word (b : BaseType) : Word := .keyword (.type b)

def VarType.starWords (t : VarType) : List Word := List.replicate t.pointers (.symbol .star)

def VarRef.starredWords (vars : VarTable) (v : VarRef) : List Word :=
  (vars.typeOf v).starWords ++ [.name v.name]

def VarRef.parameterWords (vars : VarTable) (v : VarRef) : List Word :=
  (vars.typeOf v).base.word :: v.starredWords vars

def Declarator.words (vars : VarTable) (d : Declarator) : List Word :=
  d.var.starredWords vars ++
    match d.value with
    | some x => .symbol .equal :: x.words
    | none => []

def declarationWords (vars : VarTable) (ds : List Declarator) : List Word :=
  (baseTypeOf vars ds).word :: Word.separated (ds.map (Declarator.words vars))

/-- An attribute without arguments has no parentheses. -/
def Attribute.words (a : Attribute) : List Word :=
  .symbol .atSign :: .name a.name ::
    if a.args.isEmpty then []
    else .symbol .leftParen :: (Word.separated (a.args.map Expr.words) ++ [.symbol .rightParen])

namespace Stmt

def markWords (marks : List Attribute) : List Word := marks.flatMap Attribute.words

/-- Attributes in a header stand behind a semicolon. -/
def headerMarkWords (marks : List Attribute) : List Word :=
  if marks.isEmpty then [] else .symbol .semicolon :: markWords marks

/-- The words of a clause without its semicolon. -/
def clauseWords (vars : VarTable) : Stmt → List Word
  | declaration _ ds => declarationWords vars ds
  | expression _ x => x.words
  | _ => []

mutual

def words (vars : VarTable) : Stmt → List Word
  | forLoop h i c u b =>
    .keyword .forLoop :: .symbol .leftParen :: (i.clauseWords vars ++ .symbol .semicolon ::
      (c.clauseWords vars ++ .symbol .semicolon :: (u.clauseWords vars ++
        (headerMarkWords h.attributes ++ .symbol .rightParen :: b.words vars))))
  | block h body =>
    markWords h.attributes ++ .symbol .leftBrace :: (wordsAll vars body ++ [.symbol .rightBrace])
  | ifThen h c t =>
    markWords h.attributes ++ .keyword .ifThen :: .symbol .leftParen ::
      (c.words ++ .symbol .rightParen :: t.words vars)
  | ifElse h c t e =>
    markWords h.attributes ++ .keyword .ifThen :: .symbol .leftParen ::
      (c.words ++ .symbol .rightParen :: (t.words vars ++ .keyword .elseBranch :: e.words vars))
  | whileLoop h c b =>
    markWords h.attributes ++ .keyword .whileLoop :: .symbol .leftParen ::
      (c.words ++ .symbol .rightParen :: b.words vars)
  | returns h v =>
    markWords h.attributes ++ .keyword .returnValue ::
      (v.toList.flatMap Expr.words ++ [.symbol .semicolon])
  | declaration h ds => markWords h.attributes ++ (declarationWords vars ds ++ [.symbol .semicolon])
  | expression h x => markWords h.attributes ++ (x.words ++ [.symbol .semicolon])
  | empty h => markWords h.attributes ++ [.symbol .semicolon]

def wordsAll (vars : VarTable) : List Stmt → List Word
  | [] => []
  | s :: ss => s.words vars ++ wordsAll vars ss

end

theorem wordsAll_eq (vars : VarTable) (ss : List Stmt) :
    wordsAll vars ss = ss.flatMap (words vars) := by
  induction ss with
  | nil => rfl
  | cons s ss ih => rw [wordsAll, ih, List.flatMap_cons]

/-- All expressions in a statement, in attributes and in the statements below it as well. -/
def expressions (s : Stmt) : List Expr :=
  s.statements.flatMap fun t => t.attributes.flatMap Attribute.args ++ t.values

theorem expressions_eq (s : Stmt) :
    s.expressions =
      (s.attributes.flatMap Attribute.args ++ s.values) ++ s.children.flatMap expressions := by
  rw [expressions, statements_eq, List.flatMap_cons, List.flatMap_assoc]
  rfl

theorem forall_expressions_iff {P : Expr → Prop} (s : Stmt) :
    (∀ x ∈ s.expressions, P x) ↔ (∀ x ∈ s.attributes.flatMap Attribute.args, P x) ∧
      (∀ x ∈ s.values, P x) ∧ ∀ t ∈ s.children, ∀ x ∈ t.expressions, P x := by
  rw [expressions_eq, List.forall_mem_append, List.forall_mem_append, and_assoc]
  simp only [List.mem_flatMap, forall_exists_index, and_imp]
  exact ⟨fun h => ⟨h.1, h.2.1, fun t ht x hx => h.2.2 x t ht hx⟩,
    fun h => ⟨h.1, h.2.1, fun x t ht hx => h.2.2 t ht x hx⟩⟩

end Stmt

def Function.words (vars : VarTable) (f : Function) : List Word :=
  Stmt.markWords f.attributes ++ f.returnType.base.word :: (f.returnType.starWords ++
    .name f.name :: .symbol .leftParen ::
      (Word.separated (f.params.map (VarRef.parameterWords vars)) ++ .symbol .rightParen ::
        .symbol .leftBrace :: (Stmt.wordsAll vars f.body.statements ++ [.symbol .rightBrace])))

def Function.expressions (f : Function) : List Expr :=
  f.attributes.flatMap Attribute.args ++ f.body.statements.flatMap Stmt.expressions

def Program.words (p : Program) : List Word := p.functions.flatMap (Function.words p.vars)

def Program.expressions (p : Program) : List Expr := p.functions.flatMap Function.expressions

/-! ## Attributes and declarations -/

theorem Attribute.spells {a : Attribute} (hname : Text.IsName a.name)
    (hargs : ∀ x ∈ a.args, x.Grammatical ∧ x.Apart) : Spells a.text.toList a.words := by
  intro rest ws hrest h
  unfold text words
  split
  · simp only [String.toList_append, List.append_assoc, List.cons_append, List.nil_append]
    exact Spelled.closed (s := .atSign) rfl (.name hname hrest h)
  · simp only [String.toList_append, List.append_assoc, List.cons_append, List.nil_append,
      String.toList_intercalate, List.map_map]
    refine Spelled.closed (s := .atSign) rfl (.name hname (Symbol.leftParen.stops _) ?_)
    refine Spelled.closed (s := .leftParen) rfl ?_
    refine Spells.separated (String.toList ∘ Expr.text) (fun x hx => ?_)
      (Symbol.rightParen.stops rest) (Spelled.closed (s := .rightParen) rfl h)
    exact Expr.spells (hargs x hx).1 (hargs x hx).2

theorem Spelled.stars {n : Nat} {cs : List Char} {ws : List Word} (h : Spelled cs ws)
    (hcs : Symbol.star.EndsAt cs) :
    Symbol.star.EndsAt (List.replicate n '*' ++ cs) ∧
      Spelled (List.replicate n '*' ++ cs) (List.replicate n (.symbol .star) ++ ws) := by
  induction n with
  | zero => exact ⟨hcs, h⟩
  | succ n ih =>
    refine ⟨fun d hd => ?_, .symbol (s := .star) ih.1 ih.2⟩
    obtain rfl : '*' = d := Option.some.inj hd
    decide

theorem Text.IsName.endsAt_star {n : String} (hn : IsName n) (rest : List Char) :
    Symbol.star.EndsAt (n.toList ++ rest) := by
  obtain ⟨c, cs, hchars, heq, _⟩ := Expr.start_of_name hn
  intro d hd
  rw [hchars] at hd
  obtain rfl : c = d := Option.some.inj hd
  have hall : Symbol.star.continuations = ['='] := by decide
  simpa [hall] using heq

theorem VarRef.spells_starred {v : VarRef} (hname : Text.IsName v.name) (vars : VarTable) :
    Spells (v.starred vars).toList (v.starredWords vars) := by
  intro rest ws hrest h
  have hspelled := (Spelled.name hname hrest h).stars (n := (vars.typeOf v).pointers)
    (hname.endsAt_star rest)
  simpa [starred, starredWords, VarType.stars, VarType.starWords] using hspelled.2

theorem VarRef.spells_parameter {v : VarRef} (hname : Text.IsName v.name) (vars : VarTable) :
    Spells (v.parameterText vars).toList (v.parameterWords vars) := by
  intro rest ws hrest h
  rw [parameterText]
  simp only [String.toList_append, List.append_assoc]
  exact Spelled.keyword (.type (vars.typeOf v).base) (.blank (by decide))
    (.space (spells_starred hname vars hrest h))

theorem Declarator.spells {d : Declarator} (hname : Text.IsName d.var.name)
    (hvalue : ∀ x ∈ d.value.toList, x.Grammatical ∧ x.Apart) (vars : VarTable) :
    Spells (d.text vars).toList (d.words vars) := by
  intro rest ws hrest h
  have hstarred := VarRef.spells_starred hname vars
  unfold text words
  cases hd : d.value with
  | none => simpa using hstarred hrest h
  | some x =>
    rw [hd] at hvalue
    obtain ⟨hx, ha⟩ := hvalue x (by simp)
    simp only [String.toList_append, List.append_assoc, List.cons_append]
    refine hstarred (.blank (by decide)) (.space ?_)
    refine Spelled.symbol (s := .equal) (Symbol.endsAt_space _ _) (.space ?_)
    exact Expr.spells hx ha hrest h

theorem spells_declaration {ds : List Declarator}
    (h : ∀ d ∈ ds, Text.IsName d.var.name ∧ ∀ x ∈ d.value.toList, x.Grammatical ∧ x.Apart)
    (vars : VarTable) :
    Spells (declarationText vars ds).toList (declarationWords vars ds) := by
  intro rest ws hrest hspelled
  rw [declarationText]
  simp only [String.toList_append, List.append_assoc, String.toList_intercalate, List.map_map]
  refine Spelled.keyword (.type (baseTypeOf vars ds)) (.blank (by decide)) (.space ?_)
  exact Spells.separated (String.toList ∘ Declarator.text vars)
    (fun d hd => Declarator.spells (h d hd).1 (h d hd).2 vars) hrest hspelled

/-! ## Statements -/

/-- What was read is grammatical, and if it is apart as well then its text spells its words. -/
theorem Context.ReadsMarks.spells {c c' : Context} {marks : List Attribute}
    (h : c.ReadsMarks marks c') (ha : ∀ x ∈ marks.flatMap Attribute.args, x.Apart) :
    ∀ a ∈ marks, Spells a.text.toList a.words := by
  intro a hmem
  refine Attribute.spells (h.1 a hmem) fun x hx => ?_
  have hx := List.mem_flatMap.mpr ⟨a, hmem, hx⟩
  exact ⟨h.2.1 x hx, ha x hx⟩

theorem Declarator.spells_of_chain {base : BaseType} {c c' : Context} {ds : List Declarator}
    (h : c.Chain (Declarator.ReadIn sizes base) ds c')
    (ha : ∀ x ∈ ds.flatMap fun d => d.value.toList, x.Apart) (vars : VarTable) :
    Spells (declarationText vars ds).toList (declarationWords vars ds) := by
  refine spells_declaration ?_ vars
  induction h with
  | nil => exact fun _ hd => absurd hd List.not_mem_nil
  | cons first _ ih =>
    obtain ⟨_, _, _, _, _, hvalue, hname, _⟩ := first
    rw [List.flatMap_cons, List.forall_mem_append] at ha
    exact List.forall_mem_cons.mpr
      ⟨⟨hname, fun x hx => ⟨hvalue.1 x hx, ha.1 x hx⟩⟩, ih ha.2⟩

namespace Stmt

theorem spelled_marksBefore {marks : List Attribute} {cs : List Char} {ws : List Word}
    (hmarks : ∀ a ∈ marks, Spells a.text.toList a.words) (h : Spelled cs ws) :
    Spelled (Layout.plain (marksBefore marks) ++ cs) (markWords marks ++ ws) := by
  induction marks with
  | nil => exact h
  | cons a marks ih =>
    obtain ⟨ha, hmarks⟩ := List.forall_mem_cons.mp hmarks
    have hspelled := ha (.blank (by decide)) (.space (ih hmarks))
    simpa [marksBefore, markWords] using hspelled

theorem spelled_headerMarks {marks : List Attribute} {cs : List Char} {ws : List Word}
    (hmarks : ∀ a ∈ marks, Spells a.text.toList a.words) (hcs : Text.Stops cs)
    (h : Spelled cs ws) :
    Text.Stops ((headerMarks marks).toList ++ cs) ∧
      Spelled ((headerMarks marks).toList ++ cs) (headerMarkWords marks ++ ws) := by
  have hbehind {marks : List Attribute} (hmarks : ∀ a ∈ marks, Spells a.text.toList a.words) :
      Text.Stops ((marks.map fun a => a.text.toList).flatMap (" ".toList ++ ·) ++ cs) ∧
      Spelled ((marks.map fun a => a.text.toList).flatMap (" ".toList ++ ·) ++ cs)
        (markWords marks ++ ws) := by
    induction marks with
    | nil => exact ⟨hcs, h⟩
    | cons a marks ih =>
      obtain ⟨ha, hmarks⟩ := List.forall_mem_cons.mp hmarks
      obtain ⟨hstops, hrest⟩ := ih hmarks
      simp only [List.map_cons, List.flatMap_cons, List.append_assoc, markWords]
      exact ⟨.blank (by decide), .space (ha hstops hrest)⟩
  cases marks with
  | nil => exact ⟨hcs, h⟩
  | cons a marks =>
    obtain ⟨ha, hmarks⟩ := List.forall_mem_cons.mp hmarks
    obtain ⟨hstops, hrest⟩ := hbehind hmarks
    have htext : (headerMarks (a :: marks)).toList ++ cs =
        Symbol.semicolon.chars ++ (' ' :: (a.text.toList ++
          ((marks.map fun a => a.text.toList).flatMap (" ".toList ++ ·) ++ cs))) := by
      rw [headerMarks, if_neg (by simp)]
      simp only [String.toList_append, String.toList_intercalate, List.map_cons, List.map_map,
        intercalate_cons, List.append_assoc]
      rfl
    have hwords : headerMarkWords (a :: marks) ++ ws =
        .symbol .semicolon :: (a.words ++ (markWords marks ++ ws)) := by
      simp [headerMarkWords, markWords]
    rw [htext, hwords]
    exact ⟨Symbol.semicolon.stops _, .closed rfl (.space (ha hstops hrest))⟩

theorem spells_clause {s : Stmt} {c c' : Context} (hs : s.ReadIn sizes c c')
    (ha : ∀ x ∈ s.expressions, x.Apart) (vars : VarTable) :
    Spells (s.clauseText vars).toList (s.clauseWords vars) := by
  obtain ⟨_, hvalues, _⟩ := (forall_expressions_iff s).mp ha
  cases s with
  | declaration h ds =>
    obtain ⟨c₁, base, _, _, hds⟩ := hs
    exact Declarator.spells_of_chain hds hvalues vars
  | expression h x =>
    obtain ⟨c₁, _, hx⟩ := hs
    exact Expr.spells (hx.1 x List.mem_cons_self) (hvalues x List.mem_cons_self)
  | _ => exact fun _ _ _ h => h

/-- A header and what it governs. -/
theorem spelled_governed {header : String} (body : Stmt) {inner : List Layout.Step}
    {hws ws : List Word} {rest : List Char}
    (hheader : Spells header.toList hws)
    (hinner : Spelled (Layout.plain inner ++ rest) ws) :
    Spelled (Layout.plain (governed header body inner) ++ rest) (hws ++ ws) := by
  unfold governed
  split
  · have hspelled := hheader (.blank (by decide)) (.gap (c := ' ') (by decide) hinner)
    simpa using hspelled
  · have hspelled := hheader (.blank (by decide)) (.gap (c := '\n') (by decide) hinner)
    simpa using hspelled

/-- A condition in parentheses behind its keyword. -/
theorem spells_condition {x : Expr} (hx : x.Grammatical) (ha : x.Apart) (k : Keyword) :
    Spells (k.text ++ " (" ++ x.text ++ ")").toList
      (.keyword k :: .symbol .leftParen :: (x.words ++ [.symbol .rightParen])) := by
  intro cs ws _ h
  have hclose := Spelled.closed (s := .rightParen) rfl h
  have hvalue := Expr.spells hx ha (Symbol.rightParen.stops _) hclose
  have hopen := Spelled.closed (s := .leftParen) rfl hvalue
  have hspelled := Spelled.keyword k (.blank (by decide)) hopen.space
  simpa [Symbol.chars] using hspelled

/-- The header of a `for` statement. -/
theorem spells_header {vars : VarTable} {marks : List Attribute} {i k u : Stmt}
    (hi : Spells (i.clauseText vars).toList (i.clauseWords vars))
    (hk : Spells (k.clauseText vars).toList (k.clauseWords vars))
    (hu : Spells (u.clauseText vars).toList (u.clauseWords vars))
    (hmarks : ∀ a ∈ marks, Spells a.text.toList a.words) :
    Spells (headerText vars marks i k u).toList
      (.keyword .forLoop :: .symbol .leftParen :: (i.clauseWords vars ++ .symbol .semicolon ::
        (k.clauseWords vars ++ .symbol .semicolon :: (u.clauseWords vars ++
          (headerMarkWords marks ++ [.symbol .rightParen]))))) := by
  intro cs ws _ h
  have hclose := Spelled.closed (s := .rightParen) rfl h
  obtain ⟨hstops, hbehind⟩ := spelled_headerMarks hmarks (Symbol.rightParen.stops _) hclose
  have hupdate := hu hstops hbehind
  have hcheck := hk (Symbol.semicolon.stops _) (.closed (s := .semicolon) rfl hupdate.space)
  have hinit := hi (Symbol.semicolon.stops _) (.closed (s := .semicolon) rfl hcheck.space)
  have hopen := Spelled.closed (s := .leftParen) rfl hinit
  have hspelled := Spelled.keyword .forLoop (.blank (by decide)) hopen.space
  simpa [headerText, Symbol.chars, Keyword.text] using hspelled

/-- The layout of a single line behind attributes. -/
theorem spelled_line {marks : List Attribute} {s : String} {ws ws' : List Word} {rest : List Char}
    (hmarks : ∀ a ∈ marks, Spells a.text.toList a.words) (hs : Spells s.toList ws)
    (h : Spelled rest ws') :
    Spelled (Layout.plain (marksBefore marks ++ [.line (s ++ ";")]) ++ rest)
      (markWords marks ++ (ws ++ [.symbol .semicolon]) ++ ws') := by
  have hclose := Spelled.closed (s := .semicolon) rfl (.gap (c := '\n') (by decide) h)
  have hspelled := spelled_marksBefore hmarks (hs (Symbol.semicolon.stops _) hclose)
  simpa [Symbol.chars] using hspelled

/-- The value behind `return`. -/
theorem spells_return {x : Expr} (hx : x.Grammatical) (ha : x.Apart) :
    Spells ("return " ++ x.text).toList (.keyword .returnValue :: x.words) := by
  intro rest ws hrest h
  have hvalue := Expr.spells hx ha hrest h
  have hspelled := Spelled.keyword .returnValue (.blank (by decide)) hvalue.space
  simpa [Keyword.text] using hspelled

mutual

/-- The layout of a statement that was read spells its words. -/
theorem spelled_layout (vars : VarTable) : ∀ {s : Stmt} {c c' : Context}, s.ReadIn sizes c c' →
    (∀ x ∈ s.expressions, x.Apart) → ∀ {rest : List Char} {ws : List Word}, Spelled rest ws →
    Spelled (Layout.plain (s.layout vars) ++ rest) (s.words vars ++ ws)
  | forLoop h i k u b, c, c', hs, ha, rest, ws, hrest => by
    obtain ⟨hmarks, _, hbelow⟩ := (forall_expressions_iff _).mp ha
    simp only [children, List.forall_mem_cons] at hbelow
    obtain ⟨hai, hak, hau, hab, _⟩ := hbelow
    obtain ⟨before, behind, c₁, c₂, c₃, c₄, c₅, c₆, ⟨hattributes, _⟩, hbefore, ⟨_, hi⟩, ⟨_, hk⟩,
      ⟨_, hu⟩, hbehind, hb, _⟩ := hs
    have hspells : ∀ a ∈ h.attributes, Spells a.text.toList a.words := by
      change ∀ x ∈ h.attributes.flatMap Attribute.args, x.Apart at hmarks
      rw [hattributes, List.flatMap_append, List.forall_mem_append] at hmarks
      rw [hattributes, List.forall_mem_append]
      exact ⟨hbefore.spells hmarks.1, hbehind.spells hmarks.2⟩
    have hspelled := spelled_governed b
      (spells_header (spells_clause hi hai vars) (spells_clause hk hak vars)
        (spells_clause hu hau vars) hspells) (spelled_layout vars hb hab hrest)
    rw [layout, words]
    simpa using hspelled
  | block h ss, c, c', hs, ha, rest, ws, hrest => by
    obtain ⟨hmarks, _, hbelow⟩ := (forall_expressions_iff _).mp ha
    obtain ⟨c₁, c₂, hread, hss, _⟩ := hs
    have hclose := Spelled.closed (s := .rightBrace) rfl (.gap (c := '\n') (by decide) hrest)
    have hbody := spelled_layoutAll vars hss hbelow hclose
    have hopen := Spelled.closed (s := .leftBrace) rfl (.gap (c := '\n') (by decide) hbody)
    have hspelled := spelled_marksBefore (hread.spells hmarks) hopen
    rw [layout, braced, words]
    simpa [Symbol.chars] using hspelled
  | ifThen h x t, c, c', hs, ha, rest, ws, hrest => by
    obtain ⟨hmarks, hvalues, hbelow⟩ := (forall_expressions_iff _).mp ha
    obtain ⟨c₁, c₂, hread, hx, ht⟩ := hs
    have hthen := spelled_governed t
      (spells_condition (hx.1 x List.mem_cons_self) (hvalues x List.mem_cons_self) .ifThen)
      (spelled_layout vars ht (hbelow t (by simp [children])) hrest)
    have hspelled := spelled_marksBefore (hread.spells hmarks) hthen
    rw [layout, words]
    simpa [Keyword.text] using hspelled
  | ifElse h x t e, c, c', hs, ha, rest, ws, hrest => by
    obtain ⟨hmarks, hvalues, hbelow⟩ := (forall_expressions_iff _).mp ha
    obtain ⟨c₁, c₂, c₃, hread, hx, ⟨_, ht⟩, he⟩ := hs
    have hkeyword : Spells "else".toList [.keyword .elseBranch] :=
      fun _ _ hstops h => Spelled.keyword .elseBranch hstops h
    have helse := spelled_governed e hkeyword
      (spelled_layout vars he (hbelow e (by simp [children])) hrest)
    have hthen := spelled_governed t
      (spells_condition (hx.1 x List.mem_cons_self) (hvalues x List.mem_cons_self) .ifThen)
      (spelled_layout vars ht (hbelow t (by simp [children])) helse)
    have hspelled := spelled_marksBefore (hread.spells hmarks) hthen
    rw [layout, words]
    simpa [Keyword.text] using hspelled
  | whileLoop h x b, c, c', hs, ha, rest, ws, hrest => by
    obtain ⟨hmarks, hvalues, hbelow⟩ := (forall_expressions_iff _).mp ha
    obtain ⟨c₁, c₂, hread, hx, hb⟩ := hs
    have hbody := spelled_governed b
      (spells_condition (hx.1 x List.mem_cons_self) (hvalues x List.mem_cons_self) .whileLoop)
      (spelled_layout vars hb (hbelow b (by simp [children])) hrest)
    have hspelled := spelled_marksBefore (hread.spells hmarks) hbody
    rw [layout, words]
    simpa [Keyword.text] using hspelled
  | returns h (some x), c, c', hs, ha, rest, ws, hrest => by
    obtain ⟨hmarks, hvalues, _⟩ := (forall_expressions_iff _).mp ha
    obtain ⟨c₁, hread, hx⟩ := hs
    have hvalue := spells_return (hx.1 x List.mem_cons_self) (hvalues x List.mem_cons_self)
    have hspelled := spelled_line (hread.spells hmarks) hvalue hrest
    rw [layout, words]
    simpa using hspelled
  | returns h none, c, c', hs, ha, rest, ws, hrest => by
    obtain ⟨hmarks, _, _⟩ := (forall_expressions_iff _).mp ha
    obtain ⟨c₁, hread, _⟩ := hs
    have hvalue : Spells "return".toList [.keyword .returnValue] :=
      fun _ _ hstops h => Spelled.keyword .returnValue hstops h
    have hspelled := spelled_line (hread.spells hmarks) hvalue hrest
    rw [layout, words]
    simpa using hspelled
  | declaration h ds, c, c', hs, ha, rest, ws, hrest => by
    obtain ⟨hmarks, hvalues, _⟩ := (forall_expressions_iff _).mp ha
    obtain ⟨c₁, base, hread, _, hds⟩ := hs
    have hvalue := Declarator.spells_of_chain hds hvalues vars
    exact spelled_line (hread.spells hmarks) hvalue hrest
  | expression h x, c, c', hs, ha, rest, ws, hrest => by
    obtain ⟨hmarks, hvalues, _⟩ := (forall_expressions_iff _).mp ha
    obtain ⟨c₁, hread, hx⟩ := hs
    have hvalue := Expr.spells (hx.1 x List.mem_cons_self) (hvalues x List.mem_cons_self)
    exact spelled_line (hread.spells hmarks) hvalue hrest
  | empty h, c, c', hs, ha, rest, ws, hrest => by
    obtain ⟨hmarks, _, _⟩ := (forall_expressions_iff _).mp ha
    have hempty : Spells "".toList [] := fun _ _ _ h => h
    exact spelled_line (Context.ReadsMarks.spells hs hmarks) hempty hrest

theorem spelled_layoutAll (vars : VarTable) : ∀ {ss : List Stmt} {c c' : Context},
    ReadAllIn sizes ss c c' → (∀ s ∈ ss, ∀ x ∈ s.expressions, x.Apart) →
    ∀ {rest : List Char} {ws : List Word}, Spelled rest ws →
    Spelled (Layout.plain (layoutAll vars ss) ++ rest) (wordsAll vars ss ++ ws)
  | [], c, c', _, _, rest, ws, hrest => hrest
  | s :: ss, c, c', hss, ha, rest, ws, hrest => by
    obtain ⟨c₁, hs, hss⟩ := hss
    obtain ⟨has, hass⟩ := List.forall_mem_cons.mp ha
    rw [layoutAll, wordsAll, Layout.plain_append, List.append_assoc, List.append_assoc]
    exact spelled_layout vars hs has (spelled_layoutAll vars hss hass hrest)

end

end Stmt

/-! ## Programs -/

theorem VarType.spelled_text (t : VarType) {cs : List Char} {ws : List Word}
    (h : Spelled (' ' :: cs) ws) :
    Spelled (t.text.toList ++ ' ' :: cs) (t.base.word :: (t.starWords ++ ws)) := by
  have hstars (n : Nat) :
      Text.Stops ((List.replicate n " *").flatMap String.toList ++ ' ' :: cs) ∧
        Symbol.star.EndsAt ((List.replicate n " *").flatMap String.toList ++ ' ' :: cs) ∧
        Spelled ((List.replicate n " *").flatMap String.toList ++ ' ' :: cs)
          (List.replicate n (.symbol .star) ++ ws) := by
    induction n with
    | zero => exact ⟨.blank (by decide), Symbol.endsAt_space _ _, h⟩
    | succ n ih =>
      refine ⟨.blank (by decide), Symbol.endsAt_space _ _, .space ?_⟩
      exact Spelled.symbol (s := .star) ih.2.1 ih.2.2
  obtain ⟨hstops, _, hspelled⟩ := hstars t.pointers
  rw [text]
  simp only [String.toList_append, String.toList_join, List.append_assoc]
  exact Spelled.keyword (.type t.base) hstops hspelled

theorem VarRef.isName_of_chain {c c' : Context} {vs : List VarRef}
    (h : c.Chain (VarRef.ReadIn sizes) vs c') : ∀ v ∈ vs, Text.IsName v.name := by
  induction h with
  | nil => exact fun _ hv => absurd hv List.not_mem_nil
  | cons first _ ih =>
    obtain ⟨_, _, _, _, hv, _⟩ := first
    exact List.forall_mem_cons.mpr ⟨hv, ih⟩

theorem Function.spelled_layout (vars : VarTable) {f : Function} {c c' : Context}
    (hf : f.ReadIn sizes c c') (ha : ∀ x ∈ f.expressions, x.Apart) {rest : List Char} {ws : List Word}
    (h : Spelled rest ws) :
    Spelled (Layout.plain (f.layout vars) ++ rest) (f.words vars ++ ws) := by
  obtain ⟨c₁, c₂, c₃, hmarks, hname, hparams, hbody, _⟩ := hf
  rw [expressions, List.forall_mem_append] at ha
  have hbelow : ∀ s ∈ f.body.statements, ∀ x ∈ s.expressions, x.Apart :=
    fun s hs x hx => ha.2 x (List.mem_flatMap.mpr ⟨s, hs, hx⟩)
  have hnames : ∀ v ∈ f.params, Spells (v.parameterText vars).toList (v.parameterWords vars) :=
    fun v hv => VarRef.spells_parameter (VarRef.isName_of_chain hparams v hv) vars
  have hclose := Spelled.closed (s := .rightBrace) rfl (.gap (c := '\n') (by decide) h)
  have hbody := Stmt.spelled_layoutAll vars hbody hbelow hclose
  have hopen := Spelled.closed (s := .leftBrace) rfl (.gap (c := '\n') (by decide) hbody)
  have hright := Spelled.closed (s := .rightParen) rfl hopen.space
  have hseparated := Spells.separated (String.toList ∘ VarRef.parameterText vars) hnames
    (Symbol.rightParen.stops _) hright
  have hleft := Spelled.closed (s := .leftParen) rfl hseparated
  have hheader := f.returnType.spelled_text (Spelled.name hname (Symbol.leftParen.stops _) hleft).space
  have hspelled := Stmt.spelled_marksBefore (hmarks.spells ha.1) hheader
  rw [layout, words]
  simpa [headerText, Stmt.braced, Symbol.chars, String.toList_intercalate] using hspelled

/-- The text of a program that was read spells its words. -/
theorem Program.spelled_text {source : String} {p : Program}
    (hp : Program.read source = .ok p) (ha : ∀ x ∈ p.expressions, x.Apart) :
    Spelled p.text.toList p.words := by
  have hbehind {sizes : Span → List String} {fs : List Function} {c c' : Context}
      (h : c.Chain (Function.ReadIn sizes) fs c')
      (ha : ∀ f ∈ fs, ∀ x ∈ f.expressions, x.Apart) :
      Spelled (Layout.plain ((fs.map (Function.layout p.vars)).flatMap ([.line ""] ++ ·)))
        (fs.flatMap (Function.words p.vars)) := by
    induction h with
    | nil => exact .done
    | @cons c c₁ c₂ f fs first _ ih =>
      obtain ⟨haf, hafs⟩ := List.forall_mem_cons.mp ha
      have hspelled := Function.spelled_layout p.vars first haf (ih hafs)
      rw [List.map_cons, List.flatMap_cons, List.flatMap_cons, List.append_assoc,
        Layout.plain_append, Layout.plain_append]
      exact .gap (by decide) hspelled
  obtain ⟨c, hchain, -⟩ := readIn_of_read hp
  have ha : ∀ f ∈ p.functions, ∀ x ∈ f.expressions, x.Apart :=
    fun f hf x hx => ha x (List.mem_flatMap.mpr ⟨f, hf, hx⟩)
  refine Spelled.render ?_
  rw [layout, words]
  generalize p.functions = fs at hchain ha
  cases hchain with
  | nil => exact .done
  | cons first rest =>
    obtain ⟨haf, hafs⟩ := List.forall_mem_cons.mp ha
    rw [List.map_cons, intercalate_cons, Layout.plain_append]
    exact Function.spelled_layout p.vars first haf (hbehind rest hafs)

end LoopNest
