import LoopNest.Proofs.Grammar.ReadIn
import LoopNest.Proofs.Token.Numbers

/-!
# The words of expressions

An expression is a row of words, and its text spells them unless two of its operators run together.

* `Expr.words`: the words of an expression.
* `Expr.Apart`: no minus runs into another one, and numbers read back.
* `Expr.spells`: the text of an expression spells its words.
-/

namespace LoopNest

/-! ## Operators and literals -/

def UnaryOp.symbol : UnaryOp → Symbol
  | increment => .plusPlus
  | decrement => .minusMinus
  | negate => .minus
  | not => .bang

def BinaryOp.symbol : BinaryOp → Symbol
  | add => .plus
  | sub => .minus
  | mul => .star
  | div => .slash
  | mod => .percent
  | lt => .less
  | le => .lessEqual
  | gt => .greater
  | ge => .greaterEqual
  | eq => .equalEqual
  | ne => .bangEqual
  | and => .ampAmp
  | or => .pipePipe
  | assign => .equal
  | addAssign => .plusEqual
  | subAssign => .minusEqual
  | mulAssign => .starEqual
  | divAssign => .slashEqual

theorem UnaryOp.toList_text (op : UnaryOp) : op.text.toList = op.symbol.chars := by
  cases op <;> rfl

theorem BinaryOp.toList_text (op : BinaryOp) : op.text.toList = op.symbol.chars := by
  cases op <;> rfl

def Literal.word : Literal → Word
  | .int n => ⟨.integer, toString n⟩
  | .float x => ⟨.float, x.text⟩
  | .bool b => .keyword (.bool b)

/-! ## Words -/

namespace Expr

mutual

/-- The words of an expression. No parentheses are added. -/
def words : Expr → List Word
  | var _ v => [.name v.name]
  | literal _ value => [value.word]
  | unaryBefore _ op x => .symbol op.symbol :: x.words
  | unaryBehind _ op x => x.words ++ [.symbol op.symbol]
  | binary _ op l r => l.words ++ .symbol op.symbol :: r.words
  | parentheses _ x => .symbol .leftParen :: (x.words ++ [.symbol .rightParen])
  | subscript _ a i => a.words ++ .symbol .leftBracket :: (i.words ++ [.symbol .rightBracket])
  | call _ f args =>
    .name f :: .symbol .leftParen :: (Word.separated (wordsAll args) ++ [.symbol .rightParen])

def wordsAll : List Expr → List (List Word)
  | [] => []
  | x :: xs => x.words :: wordsAll xs

end

theorem wordsAll_eq (xs : List Expr) : wordsAll xs = xs.map words := by
  induction xs with
  | nil => rfl
  | cons x xs ih => rw [wordsAll, ih, List.map_cons]

theorem texts_eq (xs : List Expr) : texts xs = xs.map text := by
  induction xs with
  | nil => rfl
  | cons x xs ih => rw [texts, ih, List.map_cons]

/-! ## Operators that do not run together -/

/-- An operator in front that starts with a minus. -/
def isSigned : Expr → Bool
  | unaryBefore _ op _ => op == .negate || op == .decrement
  | _ => false

/-- No minus stands right in front of another one. -/
def SignApart : Expr → Prop
  | unaryBefore _ .negate x => x.isSigned = false
  | _ => True

/-- A float is a finite number that is read back from its text. -/
def FloatReadsBack : Expr → Prop
  | literal _ (.float x) =>
    x.isFinite = true ∧ Grammar.floatLiteral x.text = some (.float x)
  | _ => True

/-- The text of the expression can be read as what it is. -/
def Apart (x : Expr) : Prop := ∀ y ∈ x.nodes, y.SignApart ∧ y.FloatReadsBack

theorem Apart.self {x : Expr} (h : x.Apart) : x.SignApart ∧ x.FloatReadsBack :=
  h x (by cases x <;> simp [nodes])

theorem Apart.mono {x y : Expr} (h : x.Apart) (hsub : y.nodes ⊆ x.nodes) : y.Apart :=
  fun z hz => h z (hsub hz)

theorem apart_args {s : Span} {f : String} {args : List Expr} (h : (call s f args).Apart) :
    ∀ x ∈ args, x.Apart := by
  refine fun x hx => h.mono fun y hy => ?_
  rw [nodes, nodesAll_eq]
  exact List.mem_cons_of_mem _ (List.mem_flatMap.mpr ⟨x, hx, hy⟩)

/-! ## The first character -/

theorem toList_operandText {level binding : Nat} (h : level ≤ binding) (s : String) :
    operandText level binding s = s := if_neg (Nat.not_lt.mpr h)

theorem isSigned_of_binding {x : Expr} (h : 9 ≤ x.binding) : x.isSigned = false := by
  cases x with
  | unaryBefore s op y =>
    have hbinding : (unaryBefore s op y).binding = 8 := rfl
    omega
  | _ => rfl

theorem binding_binary_lt (s : Span) (op : BinaryOp) (l r : Expr) :
    (binary s op l r).binding < 8 := by
  change op.precedence < 8
  cases op <;> decide

/-- The text starts with a character of that kind. -/
def StartsWith (P : Char → Prop) (cs : List Char) : Prop := ∃ c ds, cs = c :: ds ∧ P c

namespace StartsWith

variable {P Q : Char → Prop} {cs : List Char}

theorem append (h : StartsWith P cs) (ds : List Char) : StartsWith P (cs ++ ds) := by
  obtain ⟨c, es, rfl, hc⟩ := h
  exact ⟨c, es ++ ds, rfl, hc⟩

theorem mono (h : StartsWith P cs) (himp : ∀ c, P c → Q c) : StartsWith Q cs := by
  obtain ⟨c, es, hcs, hc⟩ := h
  exact ⟨c, es, hcs, himp c hc⟩

end StartsWith

/-- Nothing that goes on with an operator in front of an operand. -/
def PlainStart (c : Char) : Prop := c ≠ '=' ∧ c ≠ '-'

theorem start_of_name {n : String} (hn : Text.IsName n) : StartsWith PlainStart n.toList := by
  obtain ⟨c, cs, hchars, hstart, _⟩ := hn.form
  refine ⟨c, cs, hchars, ?_, ?_⟩
  · rintro rfl
    exact absurd hstart (by decide)
  · rintro rfl
    exact absurd hstart (by decide)

theorem plainStart_of_isDigit {c : Char} (hc : c.isDigit = true) : PlainStart c := by
  constructor
  · rintro rfl
    cases hc
  · rintro rfl
    cases hc

/-- The text of a literal is its word, a single one. -/
theorem fits_literal {s : Span} {value : Literal} {rest : List Char} (h : value.Grammatical)
    (ha : (literal s value).FloatReadsBack) (hrest : Text.Stops rest) :
    value.word.Fits value.text.toList rest := by
  cases value with
  | int n =>
    obtain ⟨m, rfl, _⟩ := h
    exact Word.fits_integer m hrest
  | float x =>
    obtain ⟨d, rfl⟩ := h
    exact Word.fits_float (Binary64.isFloat_text ha.1) hrest
  | bool b =>
    cases b with
    | true => exact Word.fits_keyword (.bool true) hrest
    | false => exact Word.fits_keyword (.bool false) hrest

theorem start_of_literal {s : Span} {value : Literal} (h : value.Grammatical)
    (ha : (literal s value).FloatReadsBack) : StartsWith PlainStart value.text.toList := by
  cases value with
  | int n =>
    obtain ⟨m, rfl, _⟩ := h
    obtain ⟨d, ds, hcons⟩ := List.exists_cons_of_ne_nil (Nat.toDigits_ne_nil (n := m) (b := 10))
    have hdigits : Text.IsDigits (d :: ds) := hcons ▸ Text.isDigits_toDigits m
    refine ⟨d, ds, ?_, plainStart_of_isDigit (hdigits d List.mem_cons_self)⟩
    rw [← hcons, ← Nat.toList_repr]
    rfl
  | float x =>
    obtain ⟨d, rfl⟩ := h
    obtain ⟨c, cs, _, _, hchars, hdigits, _⟩ := Binary64.isFloat_text ha.1
    exact ⟨c, _, hchars, plainStart_of_isDigit (hdigits c List.mem_cons_self)⟩
  | bool b => cases b <;> exact ⟨_, _, rfl, by decide, by decide⟩

/-- An expression does not start with a sign of equality, and only an operator starts it with a
minus. -/
theorem text_start : ∀ {x : Expr}, x.Grammatical → x.Apart → StartsWith
    (fun c => c ≠ '=' ∧ (8 ≤ x.binding → x.isSigned = false → c ≠ '-')) x.text.toList
  | var _ v, hx, _ => (start_of_name hx).mono fun _ h => ⟨h.1, fun _ _ => h.2⟩
  | literal _ value, hx, ha =>
    (start_of_literal hx ha.self.2).mono fun _ h => ⟨h.1, fun _ _ => h.2⟩
  | unaryBefore s op x, _, _ => by
    rw [text, String.toList_append, op.toList_text]
    refine StartsWith.append ?_ _
    cases op with
    | increment => exact ⟨_, _, rfl, by decide, fun _ _ => by decide⟩
    | not => exact ⟨_, _, rfl, by decide, fun _ _ => by decide⟩
    | decrement => exact ⟨_, _, rfl, by decide, fun _ h => by cases h⟩
    | negate => exact ⟨_, _, rfl, by decide, fun _ h => by cases h⟩
  | unaryBehind _ op x, ⟨_, hbinding, hx⟩, ha => by
    have hstart := text_start hx (ha.mono (by simp [nodes]))
    rw [text, toList_operandText hbinding, String.toList_append]
    refine (hstart.append _).mono fun c hc => ⟨hc.1, fun _ _ => ?_⟩
    exact hc.2 (Nat.le_of_succ_le hbinding) (isSigned_of_binding hbinding)
  | binary s op l r, ⟨⟨hbinding, hl⟩, _⟩, ha => by
    have hstart := text_start hl (ha.mono (by simp [nodes]))
    have hlt := binding_binary_lt s op l r
    rw [text, toList_operandText hbinding]
    simp only [String.toList_append, List.append_assoc]
    exact (hstart.append _).mono fun c hc => ⟨hc.1, fun hle => by omega⟩
  | parentheses _ x, _, _ => by
    rw [text]
    exact ⟨'(', x.text.toList ++ [')'], by simp, by decide, fun _ _ => by decide⟩
  | subscript _ a i, ⟨⟨hbinding, hx⟩, _⟩, ha => by
    have hstart := text_start hx (ha.mono (by simp [nodes]))
    rw [text, toList_operandText hbinding]
    simp only [String.toList_append, List.append_assoc]
    refine (hstart.append _).mono fun c hc => ⟨hc.1, fun _ _ => ?_⟩
    exact hc.2 (Nat.le_of_succ_le hbinding) (isSigned_of_binding hbinding)
  | call _ f args, ⟨hf, _⟩, _ => by
    rw [text]
    simp only [String.toList_append, List.append_assoc]
    exact ((start_of_name hf).append _).mono fun _ h => ⟨h.1, fun _ _ => h.2⟩

/-! ## The text of an expression -/

mutual

/-- The text of an expression spells its words. -/
theorem spells : ∀ {x : Expr}, x.Grammatical → x.Apart → Spells x.text.toList x.words
  | var _ v, hx, _, rest, ws, hrest, h => .name hx hrest h
  | literal _ value, hx, ha, rest, ws, hrest, h => .word (fits_literal hx ha.self.2 hrest) h
  | unaryBefore s op x, ⟨hbinding, hx⟩, ha, rest, ws, hrest, h => by
    have ha' : x.Apart := ha.mono (by simp [nodes])
    obtain ⟨c, cs, hchars, heq, hminus⟩ := text_start hx ha'
    rw [text, toList_operandText hbinding, String.toList_append, op.toList_text, List.append_assoc]
    refine .symbol ?_ (spells hx ha' hrest h)
    intro d hd
    rw [hchars] at hd
    obtain rfl : c = d := Option.some.inj hd
    cases op with
    | increment => exact List.not_mem_nil
    | decrement => exact List.not_mem_nil
    | not =>
      have hall : Symbol.bang.continuations = ['='] := by decide
      simpa [UnaryOp.symbol, hall] using heq
    | negate =>
      have hall : Symbol.minus.continuations = ['-', '='] := by decide
      simpa [UnaryOp.symbol, hall, heq] using hminus hbinding ha.self.1
  | unaryBehind _ op x, ⟨hop, hbinding, hx⟩, ha, rest, ws, hrest, h => by
    have hclosed : op.symbol.continuations = [] := by
      rcases hop with rfl | rfl <;> rfl
    rw [text, toList_operandText hbinding, String.toList_append, op.toList_text, words,
      List.append_assoc, List.append_assoc]
    exact spells hx (ha.mono (by simp [nodes])) (op.symbol.stops rest) (.closed hclosed h)
  | binary s op l r, ⟨⟨hbinding, hl⟩, hbinding', hr⟩, ha, rest, ws, hrest, h => by
    rw [text, toList_operandText hbinding, toList_operandText hbinding', words]
    simp only [String.toList_append, List.append_assoc, op.toList_text, List.cons_append]
    refine spells hl (ha.mono (by simp [nodes])) (.blank (by decide)) (.space ?_)
    refine .symbol (Symbol.endsAt_space _ _) (.space ?_)
    exact spells hr (ha.mono (by simp [nodes])) hrest h
  | parentheses _ x, hx, ha, rest, ws, hrest, h => by
    rw [text, words]
    simp only [String.toList_append, List.append_assoc, List.cons_append, List.nil_append]
    refine Spelled.closed (s := .leftParen) rfl ?_
    exact spells (x := x) hx (ha.mono (by simp [nodes])) (Symbol.rightParen.stops rest)
      (Spelled.closed (s := .rightParen) rfl h)
  | subscript _ a i, ⟨⟨hbinding, hx⟩, hi⟩, ha, rest, ws, hrest, h => by
    rw [text, toList_operandText hbinding, words]
    simp only [String.toList_append, List.append_assoc, List.cons_append, List.nil_append]
    refine spells hx (ha.mono (by simp [nodes])) (Symbol.leftBracket.stops _)
      (Spelled.closed (s := .leftBracket) rfl ?_)
    exact spells hi (ha.mono (by simp [nodes])) (Symbol.rightBracket.stops rest)
      (Spelled.closed (s := .rightBracket) rfl h)
  | call s f args, ⟨hf, hargs⟩, ha, rest, ws, hrest, h => by
    rw [text, words]
    simp only [String.toList_append, List.append_assoc, List.cons_append, List.nil_append]
    refine .name hf (Symbol.leftParen.stops _) (Spelled.closed (s := .leftParen) rfl ?_)
    have hclose := Spelled.closed (s := .rightParen) rfl h
    rw [String.toList_intercalate, texts_eq, List.map_map, wordsAll_eq]
    exact Spells.separated (String.toList ∘ text) (spellsAll hargs (apart_args ha))
      (Symbol.rightParen.stops rest) hclose

theorem spellsAll : ∀ {xs : List Expr}, GrammaticalAll xs → (∀ x ∈ xs, x.Apart) →
    ∀ x ∈ xs, Spells (String.toList (text x)) x.words
  | [], _, _ => fun _ hx => absurd hx List.not_mem_nil
  | x :: xs, ⟨hx, hxs⟩, ha => by
    obtain ⟨hax, haxs⟩ := List.forall_mem_cons.mp ha
    exact List.forall_mem_cons.mpr ⟨spells hx hax, spellsAll hxs haxs⟩

end

end Expr

end LoopNest
