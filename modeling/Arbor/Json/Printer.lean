import Arbor.Json.Numeral

/-!
# Writing JSON

Values are written without blanks, members and items in order.  In a string only the quote, the
backslash and the control characters are escaped.
-/

namespace Arbor

def hexDigit (n : Nat) : Char := if n < 10 then Char.ofNat (48 + n) else Char.ofNat (87 + n)

def hexEscape (code : Nat) : List Char :=
  ['\\', 'u', hexDigit (code / 4096 % 16), hexDigit (code / 256 % 16), hexDigit (code / 16 % 16),
    hexDigit (code % 16)]

def escape (c : Char) : List Char :=
  if c = '\"' then ['\\', '\"']
  else if c = '\\' then ['\\', '\\']
  else if c = '\x08' then ['\\', 'b']
  else if c = '\t' then ['\\', 't']
  else if c = '\n' then ['\\', 'n']
  else if c = '\x0c' then ['\\', 'f']
  else if c = '\r' then ['\\', 'r']
  else if c.toNat < 32 then hexEscape c.toNat
  else [c]

def TextUnit.print : TextUnit → List Char
  | scalar c => escape c
  | half code => hexEscape code

/-- A string, quotes included. -/
def Text.print (t : Text) : List Char := '\"' :: t.flatMap TextUnit.print ++ ['\"']

def PowerMark.print : PowerMark → List Char
  | bare => []
  | plus => ['+']
  | minus => ['-']

def Numeral.print (n : Numeral) : List Char :=
  (if n.negative then ['-'] else []) ++ digitChars n.whole ++
    (if n.fraction.isEmpty then [] else '.' :: digitChars n.fraction) ++
    match n.power with
    | none => []
    | some p => 'e' :: p.mark.print ++ digitChars p.digits

mutual

def Json.print : Json → List Char
  | .null => "null".toList
  | .bool true => "true".toList
  | .bool false => "false".toList
  | .number n => n.print
  | .string t => t.print
  | .array [] => ['[', ']']
  | .array (item :: rest) => '[' :: item.print ++ Json.printItems rest
  | .object [] => ['{', '}']
  | .object ((key, value) :: rest) =>
    '{' :: key.print ++ ':' :: value.print ++ Json.printMembers rest

/-- The items after the first one, up to the end of the array. -/
def Json.printItems : List Json → List Char
  | [] => [']']
  | item :: rest => ',' :: item.print ++ Json.printItems rest

/-- The members after the first one, up to the end of the object. -/
def Json.printMembers : List (Text × Json) → List Char
  | [] => ['}']
  | (key, value) :: rest => ',' :: key.print ++ ':' :: value.print ++ Json.printMembers rest

end

end Arbor
