import LoopNest.Text.Quoted

/-!
# JSON

Values in the JSON format and their text: every member and every element on a line of its
own, two spaces further in than what it belongs to.
-/

namespace LoopNest

inductive JsonValue where
  | null
  | bool (value : Bool)
  | number (value : Int)
  | string (value : String)
  | array (elements : List JsonValue)
  | object (members : List (String × JsonValue))

namespace JsonValue

def ofNat (n : Nat) : JsonValue := number n

/-- The value, or `null` if there is none. -/
def ofOption {α : Type} (f : α → JsonValue) : Option α → JsonValue
  | some a => f a
  | none => null

/-- The digits of a code point below 32 in base sixteen, four of them. -/
def controlDigits (n : Nat) : List Char :=
  if n < 16 then '0' :: '0' :: '0' :: Text.hexadecimal n else '0' :: '0' :: Text.hexadecimal n

/-- A character inside a string. Only quotes, backslashes and controls are escaped. -/
def stringChar (c : Char) : List Char :=
  if c = '"' then ['\\', '"']
  else if c = '\\' then ['\\', '\\']
  else if c = '\n' then ['\\', 'n']
  else if c = '\r' then ['\\', 'r']
  else if c = '\t' then ['\\', 't']
  else if c = '\x08' then ['\\', 'b']
  else if c = '\x0c' then ['\\', 'f']
  else if c.toNat < 32 then '\\' :: 'u' :: controlDigits c.toNat
  else [c]

def stringText (s : String) : String :=
  String.ofList ('"' :: s.toList.flatMap stringChar ++ ['"'])

/-- A new line at that depth. -/
def newline (depth : Nat) : String := "\n" ++ String.join (List.replicate depth "  ")

/-- Items between two brackets, each on a line of its own; `depth` is that of the brackets. -/
def bracketed (left right : String) (depth : Nat) (items : List String) : String :=
  if items.isEmpty then left ++ right
  else
    left ++ newline (depth + 1) ++ ("," ++ newline (depth + 1)).intercalate items ++
      newline depth ++ right

mutual

/-- The text of a value that stands at that depth. -/
def textAt (depth : Nat) : JsonValue → String
  | null => "null"
  | bool value => toString value
  | number value => toString value
  | string value => stringText value
  | array elements => bracketed "[" "]" depth (elementTexts (depth + 1) elements)
  | object members => bracketed "\x7b" "\x7d" depth (memberTexts (depth + 1) members)

def elementTexts (depth : Nat) : List JsonValue → List String
  | [] => []
  | v :: vs => v.textAt depth :: elementTexts depth vs

def memberTexts (depth : Nat) : List (String × JsonValue) → List String
  | [] => []
  | (key, v) :: ms => (stringText key ++ ": " ++ v.textAt depth) :: memberTexts depth ms

end

def text (v : JsonValue) : String := v.textAt 0

end JsonValue

end LoopNest
