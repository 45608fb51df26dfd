/-!
JSON values and their compact text. A number keeps its digits as written. A text
is `none` when an escape in it is half of a surrogate pair: such a text has the
right form and may be skipped, but nothing can read it.
-/

namespace TaskFiring

inductive Json
  | null
  | bool (value : Bool)
  | number (literal : List Char)
  | text (value : Option String)
  | array (items : List Json)
  | object (members : List (Option String × Json))

namespace Json

def str (s : String) : Json := .text (some s)

def nat (n : Nat) : Json := .number (Nat.toDigits 10 n)

def record (members : List (String × Json)) : Json :=
  .object (members.map fun m => (some m.1, m.2))

/-- An absent value is written as null. -/
def option {α : Type} (write : α → Json) : Option α → Json
  | some a => write a
  | none => .null

def list {α : Type} (write : α → Json) (as : List α) : Json := .array (as.map write)

def hexDigit (n : Nat) : Char := "0123456789abcdef".toList.getD n '0'

def escapedChar (c : Char) : List Char :=
  if c = '"' then ['\\', '"']
  else if c = '\\' then ['\\', '\\']
  else if c = '\n' then ['\\', 'n']
  else if c = '\r' then ['\\', 'r']
  else if c = '\t' then ['\\', 't']
  else if c.toNat = 8 then ['\\', 'b']
  else if c.toNat = 12 then ['\\', 'f']
  else if c.toNat < 32 then
    ['\\', 'u', '0', '0', hexDigit (c.toNat / 16), hexDigit (c.toNat % 16)]
  else [c]

def renderText (s : String) : List Char :=
  '"' :: s.toList.flatMap escapedChar ++ ['"']

mutual

def renderChars : Json → List Char
  | .null => ['n', 'u', 'l', 'l']
  | .bool true => ['t', 'r', 'u', 'e']
  | .bool false => ['f', 'a', 'l', 's', 'e']
  | .number literal => literal
  | .text none => ['n', 'u', 'l', 'l']
  | .text (some s) => renderText s
  | .array items => '[' :: renderItems items ++ [']']
  | .object members => '\x7b' :: renderMembers members ++ ['\x7d']

def renderItems : List Json → List Char
  | [] => []
  | [j] => renderChars j
  | j :: k :: rest => renderChars j ++ ',' :: renderItems (k :: rest)

def renderMembers : List (Option String × Json) → List Char
  | [] => []
  | [(key, j)] => renderText (key.getD "") ++ ':' :: renderChars j
  | (key, j) :: m :: rest =>
      renderText (key.getD "") ++ ':' :: renderChars j ++ ',' :: renderMembers (m :: rest)

end

def render (j : Json) : String := String.ofList j.renderChars

end Json
end TaskFiring
