import LoopNest.Proofs.Grammar.AcceptExpr
import LoopNest.Proofs.Stmt.Words

/-!
# Statements that can be read back

The text of a statement leaves out empty parentheses behind attributes, brackets of arrays and the
place of attributes in front of `for`. Where that makes a difference the text means something else.

* `Stmt.takesArguments`: an expression is read as arguments of the attribute in front of it.
* `Stmt.spreadsStars`: the stars of a variable are read as part of the type of others.
* `Stmt.movesMentions`: a variable in an attribute is read inside the header of the loop.
* `Stmt.Printable`: none of this is the case, and all expressions can be read back.
-/

namespace LoopNest

namespace Stmt

/-- The expression starts with a parenthesis, and the last attribute in front has no arguments. -/
def takesArguments : Stmt → Bool
  | expression h x =>
    h.attributes.getLast?.any (fun a => a.args.isEmpty) && x.text.toList.head? == some '('
  | _ => false

/-- The first one of several variables is a pointer. -/
def spreadsStars (vars : VarTable) : Stmt → Bool
  | declaration _ (d :: _ :: _) => (vars.typeOf d.var).pointers != 0
  | _ => false

/-- An attribute in front of a `for` statement mentions a variable. -/
def movesMentions (s : Stmt) : Bool :=
  s.isLoop && s.attributes.any fun a =>
    decide (¬ s.head.span.start.offset < a.span.start.offset) && a.args.any fun x => !x.refs.isEmpty

/-- The statement itself is read back from its text, with all its types and variables if `exact`
holds. -/
structure Printable (exact : Prop) (vars : VarTable) (s : Stmt) : Prop where
  marks : ∀ x ∈ s.attributes.flatMap Attribute.args, x.Apart
  values : ∀ x ∈ s.values, x.Apart
  arguments : s.takesArguments = false
  stars : exact → s.spreadsStars vars = false
  mentions : exact → s.movesMentions = false

/-- So it is for the statement and for those below it. -/
def AllPrintable (exact : Prop) (vars : VarTable) (s : Stmt) : Prop :=
  ∀ t ∈ s.statements, t.Printable exact vars

theorem allPrintable_iff {exact : Prop} {vars : VarTable} (s : Stmt) :
    s.AllPrintable exact vars ↔
      s.Printable exact vars ∧ ∀ t ∈ s.children, t.AllPrintable exact vars := by
  rw [AllPrintable, statements_eq, List.forall_mem_cons]
  simp only [List.mem_flatMap, forall_exists_index, and_imp]
  exact ⟨fun h => ⟨h.1, fun t ht u hu => h.2 u t ht hu⟩,
    fun h => ⟨h.1, fun u t ht hu => h.2 t ht u hu⟩⟩

/-- No attribute in front of the loop mentions a variable. -/
theorem Printable.refs_eq_nil {exact : Prop} {vars : VarTable} {s : Stmt}
    (h : s.Printable exact vars) (hexact : exact) (hloop : s.isLoop = true)
    {marks : List Attribute} (hsub : marks ⊆ s.attributes)
    (hmarks : ∀ a ∈ marks, ¬ s.head.HasInside a) : Attribute.refsAll marks = [] := by
  have hmentions := h.mentions hexact
  rw [movesMentions, hloop, Bool.true_and, List.any_eq_false] at hmentions
  rw [Attribute.refsAll, List.flatMap_eq_nil_iff]
  intro x hx
  obtain ⟨a, ha, hx⟩ := List.mem_flatMap.mp hx
  have hoff : ¬ s.head.span.start.offset < a.span.start.offset := hmarks a ha
  have hargs := hmentions a (hsub ha)
  rw [decide_eq_true hoff, Bool.true_and] at hargs
  by_contra hrefs
  exact hargs (List.any_eq_true.mpr ⟨x, hx, by simpa using hrefs⟩)

theorem Printable.of_declaration {exact : Prop} {vars : VarTable} {head : StmtHead}
    {ds : List Declarator} (h : (declaration head ds).Printable exact vars) :
    (∀ d ∈ ds, ∀ x ∈ d.value.toList, x.Apart) ∧
      (exact → 2 ≤ ds.length → ∀ d ∈ ds.head?, (vars.typeOf d.var).pointers = 0) := by
  refine ⟨fun d hd x hx => h.values x (List.mem_flatMap.mpr ⟨d, hd, hx⟩), fun hexact hlength => ?_⟩
  have hstars := h.stars hexact
  match ds, hlength with
  | d :: _ :: _, _ =>
    intro d' hd'
    obtain rfl : d = d' := Option.some.inj hd'
    simpa [spreadsStars] using hstars

end Stmt

/-! ## First words -/

theorem head?_append {s : String} {c : Char} (h : s.toList.head? = some c) (t : String) :
    (s ++ t).toList.head? = some c := by
  rw [String.toList_append, List.head?_append, h]
  rfl

theorem Expr.head?_operandText {s : String} (h : s.toList.head? = some '(') (level binding : Nat) :
    (operandText level binding s).toList.head? = some '(' := by
  unfold operandText
  split
  · exact head?_append (head?_append (by decide) _) _
  · exact h

/-- What starts with a parenthesis as a word starts with it as a text. -/
theorem Expr.head?_text : ∀ {x : Expr}, x.Grammatical → ∀ {w : Word} {ws : List Word},
    x.words = w :: ws → w.kind = .symbol .leftParen → x.text.toList.head? = some '('
  | var _ v, _, w, ws, h, hw => by
    obtain ⟨rfl, -⟩ := List.cons.inj h
    cases hw
  | literal _ value, _, w, ws, h, hw => by
    obtain ⟨rfl, -⟩ := List.cons.inj h
    cases value <;> cases hw
  | unaryBefore _ op x, _, w, ws, h, hw => by
    obtain ⟨rfl, -⟩ := List.cons.inj h
    cases op <;> cases hw
  | unaryBehind _ op x, ⟨_, _, hx⟩, w, ws, h, hw => by
    obtain ⟨w', ws', hwords, _⟩ := words_start hx
    rw [words, hwords, List.cons_append] at h
    obtain ⟨rfl, -⟩ := List.cons.inj h
    exact head?_append (head?_operandText (head?_text hx hwords hw) _ _) _
  | binary _ op l r, ⟨⟨_, hl⟩, _⟩, w, ws, h, hw => by
    obtain ⟨w', ws', hwords, _⟩ := words_start hl
    rw [words, hwords, List.cons_append] at h
    obtain ⟨rfl, -⟩ := List.cons.inj h
    have hhead := head?_operandText (head?_text hl hwords hw) (leftLevel op) l.binding
    exact head?_append (head?_append (head?_append (head?_append hhead _) _) _) _
  | parentheses _ x, _, _, _, _, _ => head?_append (head?_append (by decide) _) _
  | subscript _ a i, ⟨⟨_, ha⟩, _⟩, w, ws, h, hw => by
    obtain ⟨w', ws', hwords, _⟩ := words_start ha
    rw [words, hwords, List.cons_append] at h
    obtain ⟨rfl, -⟩ := List.cons.inj h
    have hhead := head?_operandText (head?_text ha hwords hw) 9 a.binding
    exact head?_append (head?_append (head?_append hhead _) _) _
  | call _ f args, _, w, ws, h, hw => by
    obtain ⟨rfl, -⟩ := List.cons.inj h
    cases hw

namespace Stmt

/-- A word that starts a statement does not end what is around it. -/
structure Starts (w : Word) : Prop where
  elseBranch : w.kind ≠ .keyword .elseBranch
  rightBrace : w.kind ≠ .symbol .rightBrace
  endOfFile : w.kind ≠ .endOfFile

theorem starts_of_startsExpr {w : Word} (h : w.kind.startsExpr = true) : Starts w := by
  constructor <;> intro hk <;> rw [hk] at h <;> cases h

theorem exists_start {s : Stmt} {c c' : Context} (hs : s.ReadIn sizes c c') (vars : VarTable) :
    ∃ w ws, s.words vars = w :: ws ∧ Starts w := by
  have hmarked (marks : List Attribute) {ws : List Word} (hws : ∃ w ws', ws = w :: ws' ∧ Starts w) :
      ∃ w ws', markWords marks ++ ws = w :: ws' ∧ Starts w := by
    cases marks with
    | nil => exact hws
    | cons a marks => exact ⟨_, _, rfl, by simp [Word.symbol], by simp [Word.symbol],
        by simp [Word.symbol]⟩
  have hword {w : Word} (ws : List Word) (hw : Starts w) : ∃ w' ws', w :: ws = w' :: ws' ∧ Starts w' :=
    ⟨w, ws, rfl, hw⟩
  have hkeyword (k : Keyword) (hk : k ≠ .elseBranch) : Starts (.keyword k) :=
    ⟨by simpa [Word.keyword] using hk, by simp [Word.keyword], by simp [Word.keyword]⟩
  have hsymbol (y : Symbol) (hy : y ≠ .rightBrace) : Starts (.symbol y) :=
    ⟨by simp [Word.symbol], by simpa [Word.symbol] using hy, by simp [Word.symbol]⟩
  cases s with
  | forLoop h i k u b => exact hword _ (hkeyword _ (by decide))
  | block h ss => exact hmarked _ (hword _ (hsymbol _ (by decide)))
  | ifThen h x t => exact hmarked _ (hword _ (hkeyword _ (by decide)))
  | ifElse h x t e => exact hmarked _ (hword _ (hkeyword _ (by decide)))
  | whileLoop h x b => exact hmarked _ (hword _ (hkeyword _ (by decide)))
  | returns h v => exact hmarked _ (hword _ (hkeyword _ (by decide)))
  | declaration h ds => exact hmarked _ (hword _ (hkeyword _ (by simp)))
  | expression h x =>
    obtain ⟨_, _, hx⟩ := hs
    obtain ⟨w, ws, hwords, hstart, _⟩ := Expr.words_start (hx.1 x List.mem_cons_self)
    refine hmarked _ ?_
    rw [hwords]
    exact hword _ (starts_of_startsExpr hstart)
  | empty h => exact hmarked _ (hword _ (hsymbol _ (by decide)))

end Stmt

end LoopNest
