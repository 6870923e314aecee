import Arbor.Json.Tree

/-!
# Reading JSON

The strict grammar: one value, blanks around its parts, and nothing else.  Numbers have no leading
zeros, strings hold no bare control characters, and every escape is one that the grammar names.
-/

namespace Arbor

/-- The blanks that may stand between the parts of a value. -/
def isBlank (c : Char) : Bool := c == ' ' || c == '\t' || c == '\n' || c == '\r'

def skipBlanks (s : List Char) : List Char := s.dropWhile isBlank

/-! ## Strings -/

def hexValue? (c : Char) : Option Nat :=
  if '0' ≤ c ∧ c ≤ '9' then some (c.toNat - 48)
  else if 'a' ≤ c ∧ c ≤ 'f' then some (c.toNat - 87)
  else if 'A' ≤ c ∧ c ≤ 'F' then some (c.toNat - 55)
  else none

def hexCode? (a b c d : Char) : Option Nat := do
  return 4096 * (← hexValue? a) + 256 * (← hexValue? b) + 16 * (← hexValue? c) + (← hexValue? d)

def unescape? (c : Char) : Option Char :=
  if c = '\"' ∨ c = '\\' ∨ c = '/' then some c
  else if c = 'b' then some '\x08'
  else if c = 't' then some '\t'
  else if c = 'n' then some '\n'
  else if c = 'f' then some '\x0c'
  else if c = 'r' then some '\r'
  else none

/-- The element of a string that has a code. -/
def TextUnit.ofCode (code : Nat) : TextUnit :=
  if 0xd800 ≤ code ∧ code < 0xe000 then .half code else .scalar (Char.ofNat code)

/-- Put an element in front of a string: the two halves of a surrogate pair are one scalar. -/
def TextUnit.onto : TextUnit → Text → Text
  | .half high, .half low :: rest =>
    if high < 0xdc00 ∧ 0xdc00 ≤ low then
      .scalar (Char.ofNat (0x10000 + 0x400 * (high - 0xd800) + (low - 0xdc00))) :: rest
    else .half high :: .half low :: rest
  | unit, rest => unit :: rest

/-- Cut the text behind an opening quote at its closing one. -/
def cutAtQuote : List Char → Option (List Char × List Char)
  | [] => none
  | '\"' :: rest => some ([], rest)
  | '\\' :: c :: rest => (cutAtQuote rest).map fun (body, rest) => ('\\' :: c :: body, rest)
  | c :: rest => (cutAtQuote rest).map fun (body, rest) => (c :: body, rest)

def contents? : List Char → Option Text
  | [] => some []
  | '\\' :: 'u' :: a :: b :: c :: d :: rest => do
    return (TextUnit.ofCode (← hexCode? a b c d)).onto (← contents? rest)
  | '\\' :: c :: rest => do
    return .scalar (← unescape? c) :: (← contents? rest)
  | c :: rest =>
    if c = '\\' ∨ c = '\"' ∨ c.toNat < 32 then none
    else (contents? rest).map (.scalar c :: ·)

/-- The string behind an opening quote, and the text after it. -/
def readText (s : List Char) : Option (Text × List Char) := do
  let (body, rest) ← cutAtQuote s
  return (← contents? body, rest)

/-! ## Numbers -/

/-- The digits in front of a text, and the text after them. -/
def readDigits : List Char → List Digit × List Char
  | [] => ([], [])
  | c :: rest =>
    match Digit.ofChar? c with
    | some d => let (ds, rest) := readDigits rest; (d :: ds, rest)
    | none => ([], c :: rest)

def readDigits₁ (s : List Char) : Option (List Digit × List Char) :=
  match readDigits s with
  | ([], _) => none
  | found => some found

/-- The digits before the point: zero is the only number that begins with it. -/
def readWhole (s : List Char) : Option (List Digit × List Char) :=
  match readDigits₁ s with
  | some (0 :: _ :: _, _) => none
  | found => found

def readFraction : List Char → Option (List Digit × List Char)
  | '.' :: rest => readDigits₁ rest
  | s => some ([], s)

def readPower (s : List Char) : Option (Option Power × List Char) :=
  let afterMark (s : List Char) : PowerMark × List Char :=
    match s with
    | '+' :: rest => (.plus, rest)
    | '-' :: rest => (.minus, rest)
    | s => (.bare, s)
  let behind (s : List Char) : Option (Option Power × List Char) :=
    let (mark, s) := afterMark s
    (readDigits₁ s).map fun (ds, rest) => (some ⟨mark, ds⟩, rest)
  match s with
  | 'e' :: rest => behind rest
  | 'E' :: rest => behind rest
  | s => some (none, s)

def readNumeral (s : List Char) : Option (Numeral × List Char) := do
  let (negative, s) := match s with
    | '-' :: rest => (true, rest)
    | s => (false, s)
  let (whole, s) ← readWhole s
  let (fraction, s) ← readFraction s
  let (power, s) ← readPower s
  return (⟨negative, whole, fraction, power⟩, s)

/-! ## Values -/

mutual

/-- The value in front of a text, and the text after it. -/
def readValue : Nat → List Char → Option (Json × List Char)
  | 0, _ => none
  | fuel + 1, s =>
    match s with
    | 'n' :: 'u' :: 'l' :: 'l' :: rest => some (.null, rest)
    | 't' :: 'r' :: 'u' :: 'e' :: rest => some (.bool true, rest)
    | 'f' :: 'a' :: 'l' :: 's' :: 'e' :: rest => some (.bool false, rest)
    | '\"' :: rest => (readText rest).map fun (t, rest) => (.string t, rest)
    | '[' :: rest =>
      match skipBlanks rest with
      | ']' :: rest => some (.array [], rest)
      | rest => (readItems fuel rest).map fun (items, rest) => (.array items, rest)
    | '{' :: rest =>
      match skipBlanks rest with
      | '}' :: rest => some (.object [], rest)
      | rest => (readMembers fuel rest).map fun (members, rest) => (.object members, rest)
    | s => (readNumeral s).map fun (n, rest) => (.number n, rest)

/-- The items in front of a text up to the end of their array, and the text after it. -/
def readItems : Nat → List Char → Option (List Json × List Char)
  | 0, _ => none
  | fuel + 1, s => do
    let (item, rest) ← readValue fuel s
    match skipBlanks rest with
    | ']' :: rest => return ([item], rest)
    | ',' :: rest =>
      let (items, rest) ← readItems fuel (skipBlanks rest)
      return (item :: items, rest)
    | _ => none

/-- The members in front of a text up to the end of their object, and the text after it. -/
def readMembers : Nat → List Char → Option (List (Text × Json) × List Char)
  | 0, _ => none
  | fuel + 1, s => do
    let '\"' :: rest := s | none
    let (key, rest) ← readText rest
    let ':' :: rest := skipBlanks rest | none
    let (value, rest) ← readValue fuel (skipBlanks rest)
    match skipBlanks rest with
    | '}' :: rest => return ([(key, value)], rest)
    | ',' :: rest =>
      let (members, rest) ← readMembers fuel (skipBlanks rest)
      return ((key, value) :: members, rest)
    | _ => none

end

/-- The value of a whole text.  A value nests no deeper than its text is long, and each level takes
two steps. -/
def Json.parse? (s : List Char) : Option Json := do
  let (value, rest) ← readValue (2 * s.length + 1) (skipBlanks s)
  if (skipBlanks rest).isEmpty then some value else none

end Arbor
