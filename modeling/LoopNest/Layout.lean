/-!
# Indented text

A text is laid out in steps: pieces of text, and changes of the level of indentation. The
first character of a line is put behind as many copies of the unit of indentation as the
level is then; an empty line gets none.

* `Layout.run`: the layout after some steps.
* `Layout.render`: the text of some steps.
-/

namespace LoopNest

/-- A text that is being laid out. -/
structure Layout where
  unit : String := "  "
  level : Nat := 0
  /-- Whether nothing is on the current line yet. -/
  fresh : Bool := true
  text : String := ""
deriving Repr, Inhabited

namespace Layout

inductive Step where
  | write (s : String)
  | indent
  | dedent
deriving DecidableEq, Repr

/-- A whole line, or the rest of one. -/
def Step.line (s : String) : Step := .write (s ++ "\n")

def put (l : Layout) (c : Char) : Layout :=
  if c = '\n' then { l with text := l.text.push c, fresh := true }
  else if l.fresh then
    { l with text := (l.text ++ String.join (List.replicate l.level l.unit)).push c, fresh := false }
  else { l with text := l.text.push c }

def write (l : Layout) (s : String) : Layout := s.toList.foldl put l

def step (l : Layout) : Step → Layout
  | .write s => l.write s
  | .indent => { l with level := l.level + 1 }
  | .dedent => { l with level := l.level - 1 }

def run (l : Layout) (steps : List Step) : Layout := steps.foldl step l

def render (steps : List Step) : String := (run {} steps).text

theorem write_append (l : Layout) (s t : String) : l.write (s ++ t) = (l.write s).write t := by
  simp [write, String.toList_append, List.foldl_append]

theorem run_append (l : Layout) (ss ts : List Step) : l.run (ss ++ ts) = (l.run ss).run ts := by
  simp [run, List.foldl_append]

end Layout

end LoopNest
