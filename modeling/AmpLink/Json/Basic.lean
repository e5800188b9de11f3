import AmpLink.Number.Decimal

/-!
# JSON values and their compact text

Whole numbers are kept as integers; every other number is kept as it is written. The fields of an
object stay in order, repeated names included. `illFormed` stands for a string, or an object with a
name, that has an unpaired surrogate: JSON allows it, but no text is meant by it.
-/

namespace AmpLink

inductive Json where
  | null
  | bool (b : Bool)
  | int (n : Int)
  /-- A number with a point or an exponent, or negative zero. -/
  | real (text : String)
  | str (s : String)
  | arr (items : List Json)
  | obj (fields : List (String × Json))
  | illFormed
  deriving Repr, Inhabited

namespace Json

/-- The escape of a character inside a string: quotes, backslashes and control characters. -/
def escape (c : Char) : List Char :=
  if c = '"' then ['\\', '"']
  else if c = '\\' then ['\\', '\\']
  else if c = '\x08' then ['\\', 'b']
  else if c = '\x0c' then ['\\', 'f']
  else if c = '\n' then ['\\', 'n']
  else if c = '\r' then ['\\', 'r']
  else if c = '\t' then ['\\', 't']
  else if c.toNat < 0x20 then
    ['\\', 'u', '0', '0', Nat.digitChar (c.toNat / 16), Nat.digitChar (c.toNat % 16)]
  else [c]

def printString (s : String) : List Char := '"' :: (s.toList.flatMap escape ++ ['"'])

def printInt (n : Int) : List Char :=
  if n < 0 then '-' :: Decimal.digits n.natAbs else Decimal.digits n.natAbs

mutual

/-- The text of a value without blanks. -/
def print : Json → List Char
  | null | illFormed => ['n', 'u', 'l', 'l']
  | bool true => ['t', 'r', 'u', 'e']
  | bool false => ['f', 'a', 'l', 's', 'e']
  | int n => printInt n
  | real text => text.toList
  | str s => printString s
  | arr items => '[' :: (printItems items ++ [']'])
  | obj fields => '{' :: (printFields fields ++ ['}'])

def printItems : List Json → List Char
  | [] => []
  | [j] => j.print
  | j :: k :: rest => j.print ++ ',' :: printItems (k :: rest)

def printFields : List (String × Json) → List Char
  | [] => []
  | [(name, j)] => printString name ++ ':' :: j.print
  | (name, j) :: f :: rest => printString name ++ ':' :: (j.print ++ ',' :: printFields (f :: rest))

end

def text (j : Json) : String := .ofList j.print

mutual

/-- Built without numbers other than integers and without ill-formed strings. -/
def isPlain : Json → Bool
  | real _ | illFormed => false
  | arr items => arePlain items
  | obj fields => havePlain fields
  | _ => true

def arePlain : List Json → Bool
  | [] => true
  | j :: rest => j.isPlain && arePlain rest

def havePlain : List (String × Json) → Bool
  | [] => true
  | (_, j) :: rest => j.isPlain && havePlain rest

end

/-- The value of a field that occurs once. -/
def field? (fields : List (String × Json)) (name : String) : Option Json :=
  match fields.filter (·.1 = name) with
  | [(_, j)] => some j
  | _ => none

end Json
end AmpLink
