import PortNet.Binary64.Shortest
import PortNet.Json.Basic

namespace PortNet.Json

/-- The sixteen digits in lower case. -/
def hexDigit (n : Nat) : Char :=
  if n < 10 then Char.ofNat (48 + n) else Char.ofNat (87 + n)

/-- A quote, a backslash and a control character are escaped, and nothing else is. -/
def escaped (c : Char) : List Char :=
  if c = '"' then ['\\', '"']
  else if c = '\\' then ['\\', '\\']
  else if c = '\x08' then ['\\', 'b']
  else if c = '\x0c' then ['\\', 'f']
  else if c = '\n' then ['\\', 'n']
  else if c = '\r' then ['\\', 'r']
  else if c = '\t' then ['\\', 't']
  else if c < ' ' then ['\\', 'u', '0', '0', hexDigit (c.toNat / 16), hexDigit (c.toNat % 16)]
  else [c]

def writeString (s : String) : List Char := '"' :: (s.toList.flatMap escaped ++ ['"'])

def writeInteger : Int → List Char
  | .ofNat n => Nat.toDigits 10 n
  | .negSucc n => '-' :: Nat.toDigits 10 (n + 1)

/-- How a double is spelled: exponents of the first digit from `positionalFrom` up to
`positionalBelow` are written out, with at least one place; all others get an exponent with
its sign. -/
structure DoubleFormat where
  positionalFrom : Int
  positionalBelow : Int

def doubleFormat : DoubleFormat := ⟨-5, 16⟩

/-- The digits with the point moved to the place that `power`, the exponent of the first digit,
gives it. -/
def positional (digits : List Char) : Int → List Char
  | .ofNat power =>
    let whole := digits.take (power + 1) ++ List.replicate (power + 1 - digits.length) '0'
    let places := digits.drop (power + 1)
    whole ++ '.' :: (if places.isEmpty then ['0'] else places)
  | .negSucc power => '0' :: '.' :: (List.replicate power '0' ++ digits)

def withExponent (digits : List Char) (power : Int) : List Char :=
  let places := digits.drop 1
  digits.take 1 ++ (if places.isEmpty then [] else '.' :: places) ++
    'e' :: (if power < 0 then '-' else '+') :: Nat.toDigits 10 power.natAbs

def writeMagnitude (place : Nat) : List Char :=
  if place = 0 then ['0', '.', '0']
  else
    let (digits, power) := (Binary64.shortest place).scientific
    if doubleFormat.positionalFrom ≤ power ∧ power < doubleFormat.positionalBelow then
      positional digits power
    else withExponent digits power

def writeDouble (d : Binary64) : List Char :=
  if d.negative then '-' :: writeMagnitude d.place else writeMagnitude d.place

def writeNumber : Number → List Char
  | .integer n => writeInteger n
  | .double d => writeDouble d

/-- What stands between the parts of a container: the break before an item, a member or the
closing bracket at a given depth, and the mark after a key. -/
structure Layout where
  lineBreak : Nat → List Char
  colon : List Char

/-- No blank at all. -/
def Layout.compact : Layout := ⟨fun _ => [], [':']⟩

/-- One item or member on a line, indented by two blanks for every open container. -/
def Layout.pretty : Layout := ⟨fun depth => '\n' :: List.replicate (2 * depth) ' ', [':', ' ']⟩

mutual

/-- The text of a value that stands inside `depth` containers. Empty containers have no breaks. -/
def write (layout : Layout) (depth : Nat) : Json → List Char
  | .null => ['n', 'u', 'l', 'l']
  | .bool true => ['t', 'r', 'u', 'e']
  | .bool false => ['f', 'a', 'l', 's', 'e']
  | .num n => writeNumber n
  | .str s => writeString s
  | .arr [] => ['[', ']']
  | .arr (x :: xs) =>
    '[' :: (layout.lineBreak (depth + 1) ++ write layout (depth + 1) x ++
      writeItems layout depth xs)
  | .obj [] => ['{', '}']
  | .obj ((k, x) :: xs) =>
    '{' :: (layout.lineBreak (depth + 1) ++ writeString k ++ layout.colon ++
      write layout (depth + 1) x ++ writeMembers layout depth xs)

/-- The items after the first one, and the closing bracket. -/
def writeItems (layout : Layout) (depth : Nat) : List Json → List Char
  | [] => layout.lineBreak depth ++ [']']
  | x :: xs =>
    ',' :: (layout.lineBreak (depth + 1) ++ write layout (depth + 1) x ++
      writeItems layout depth xs)

/-- The members after the first one, and the closing bracket. -/
def writeMembers (layout : Layout) (depth : Nat) : List (String × Json) → List Char
  | [] => layout.lineBreak depth ++ ['}']
  | (k, x) :: xs =>
    ',' :: (layout.lineBreak (depth + 1) ++ writeString k ++ layout.colon ++
      write layout (depth + 1) x ++ writeMembers layout depth xs)

end

def compact (j : Json) : String := String.ofList (write .compact 0 j)

def pretty (j : Json) : String := String.ofList (write .pretty 0 j)

end PortNet.Json
