import TaskFiring.Json

/-!
Reading JSON text, by the grammar and nothing looser: no comments, no leading
zeros, no raw control characters, nothing after the value but white space.
Containers may nest without limit here; a reader of records sets its own.
-/

namespace TaskFiring.Json

def isSpace (c : Char) : Bool := c = ' ' || c = '\t' || c = '\n' || c = '\r'

def skip (cs : List Char) : List Char := cs.dropWhile isSpace

def hexValue? (c : Char) : Option Nat :=
  if c.isDigit then some (c.toNat - '0'.toNat)
  else if 'a' ≤ c ∧ c ≤ 'f' then some (c.toNat - 'a'.toNat + 10)
  else if 'A' ≤ c ∧ c ≤ 'F' then some (c.toNat - 'A'.toNat + 10)
  else none

/-- A piece of a text: a character, or a UTF-16 unit given by its number. -/
inductive Piece
  | char (c : Char)
  | unit (n : Nat)

/-- The pieces up to the closing quote, and what follows it. -/
def pieces : List Char → Option (List Piece × List Char)
  | [] => none
  | '"' :: rest => some ([], rest)
  | '\\' :: 'u' :: a :: b :: c :: d :: rest => do
      let n := (← hexValue? a) * 4096 + (← hexValue? b) * 256 + (← hexValue? c) * 16
        + (← hexValue? d)
      let (ps, rest) ← pieces rest
      some (.unit n :: ps, rest)
  | '\\' :: c :: rest => do
      let c ← match c with
        | '"' => some '"'
        | '\\' => some '\\'
        | '/' => some '/'
        | 'b' => some (Char.ofNat 8)
        | 'f' => some (Char.ofNat 12)
        | 'n' => some '\n'
        | 'r' => some '\r'
        | 't' => some '\t'
        | _ => none
      let (ps, rest) ← pieces rest
      some (.char c :: ps, rest)
  | c :: rest =>
      if c.toNat < 32 ∨ c = '\\' then none
      else do
        let (ps, rest) ← pieces rest
        some (.char c :: ps, rest)

/-- A high unit and the low unit right after it make one character; a unit of
either kind alone makes none. -/
def joinPieces : List Piece → Option (List Char)
  | [] => some []
  | .char c :: ps => (joinPieces ps).map (c :: ·)
  | .unit n :: .unit m :: ps =>
      if 0xD800 ≤ n ∧ n < 0xDC00 then
        if 0xDC00 ≤ m ∧ m < 0xE000 then
          (joinPieces ps).map
            (Char.ofNat (0x10000 + (n - 0xD800) * 0x400 + (m - 0xDC00)) :: ·)
        else none
      else if 0xDC00 ≤ n ∧ n < 0xE000 then none
      else (joinPieces (.unit m :: ps)).map (Char.ofNat n :: ·)
  | .unit n :: ps =>
      if 0xD800 ≤ n ∧ n < 0xE000 then none
      else (joinPieces ps).map (Char.ofNat n :: ·)

/-- A text, after its opening quote. -/
def readText (cs : List Char) : Option (Option String × List Char) := do
  let (ps, rest) ← pieces cs
  some ((joinPieces ps).map String.ofList, rest)

/-- The leading digits, of which there must be one. -/
def digits? (cs : List Char) : Option (List Char × List Char) :=
  match cs.takeWhile Char.isDigit with
  | [] => none
  | ds => some (ds, cs.dropWhile Char.isDigit)

def fraction? : List Char → Option (List Char × List Char)
  | '.' :: cs => do
      let (ds, rest) ← digits? cs
      some ('.' :: ds, rest)
  | cs => some ([], cs)

def exponent? : List Char → Option (List Char × List Char)
  | e :: cs =>
      if e = 'e' ∨ e = 'E' then do
        let (sign, cs) := match cs with
          | '+' :: cs => (['+'], cs)
          | '-' :: cs => (['-'], cs)
          | cs => ([], cs)
        let (ds, rest) ← digits? cs
        some (e :: sign ++ ds, rest)
      else some ([], e :: cs)
  | [] => some ([], [])

def numberLiteral? (cs : List Char) : Option (List Char × List Char) := do
  let (sign, cs) := match cs with
    | '-' :: cs => (['-'], cs)
    | cs => ([], cs)
  let (whole, cs) ← digits? cs
  if whole.head? = some '0' ∧ whole.length ≠ 1 then none
  else do
    let (frac, cs) ← fraction? cs
    let (exp, cs) ← exponent? cs
    some (sign ++ whole ++ frac ++ exp, cs)

mutual

/-- Reads one value; `fuel` bounds the steps, and the length of the text is enough. -/
def value (fuel : Nat) (cs : List Char) : Option (Json × List Char) :=
  match fuel with
  | 0 => none
  | fuel + 1 =>
      match skip cs with
      | 'n' :: 'u' :: 'l' :: 'l' :: rest => some (.null, rest)
      | 't' :: 'r' :: 'u' :: 'e' :: rest => some (.bool true, rest)
      | 'f' :: 'a' :: 'l' :: 's' :: 'e' :: rest => some (.bool false, rest)
      | '"' :: rest => (readText rest).map fun (s, rest) => (.text s, rest)
      | '[' :: rest =>
          match skip rest with
          | ']' :: rest => some (.array [], rest)
          | _ => (items fuel rest).map fun (js, rest) => (.array js, rest)
      | '\x7b' :: rest =>
          match skip rest with
          | '\x7d' :: rest => some (.object [], rest)
          | _ => (members fuel rest).map fun (ms, rest) => (.object ms, rest)
      | cs => (numberLiteral? cs).map fun (literal, rest) => (.number literal, rest)

def items (fuel : Nat) (cs : List Char) : Option (List Json × List Char) :=
  match fuel with
  | 0 => none
  | fuel + 1 => do
      let (j, rest) ← value fuel cs
      match skip rest with
      | ']' :: rest => some ([j], rest)
      | ',' :: rest => (items fuel rest).map fun (js, rest) => (j :: js, rest)
      | _ => none

def members (fuel : Nat) (cs : List Char) :
    Option (List (Option String × Json) × List Char) :=
  match fuel with
  | 0 => none
  | fuel + 1 =>
      match skip cs with
      | '"' :: rest => do
          let (key, rest) ← readText rest
          match skip rest with
          | ':' :: rest => do
              let (j, rest) ← value fuel rest
              match skip rest with
              | '\x7d' :: rest => some ([(key, j)], rest)
              | ',' :: rest =>
                  (members fuel rest).map fun (ms, rest) => ((key, j) :: ms, rest)
              | _ => none
          | _ => none
      | _ => none

end

def parseChars (cs : List Char) : Option Json := do
  let (j, rest) ← value (cs.length + 1) cs
  match skip rest with
  | [] => some j
  | _ => none

def parse (s : String) : Option Json := parseChars s.toList

end TaskFiring.Json
