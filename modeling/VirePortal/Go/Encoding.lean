import VirePortal.Go.Strings

/-!
# Go's base64 and JSON decoding

`base64.RawURLEncoding` is the URL alphabet without padding. Its decoder skips line ends, refuses
every other byte outside the alphabet and a last group of one character, and ignores the bits of the
last group that no byte needs.

The syntax of JSON stays a parameter of the models that read it. What is here is the second half of
`json.Unmarshal`: the way a parsed document fills the fields of a struct.
-/

namespace VirePortal.Go

/-- The character of a six-bit value in the URL alphabet. -/
def base64Char (v : ℕ) : UInt8 :=
  if v < 26 then UInt8.ofNat (65 + v)
  else if v < 52 then UInt8.ofNat (71 + v)
  else if v < 62 then UInt8.ofNat (v - 4)
  else if v = 62 then 45
  else 95

/-- The six-bit value of a character of the URL alphabet. -/
def base64Value (c : UInt8) : Option ℕ :=
  if 65 ≤ c ∧ c ≤ 90 then some (c.toNat - 65)
  else if 97 ≤ c ∧ c ≤ 122 then some (c.toNat - 71)
  else if 48 ≤ c ∧ c ≤ 57 then some (c.toNat + 4)
  else if c = 45 then some 62
  else if c = 95 then some 63
  else none

/-- `base64.RawURLEncoding.EncodeToString`. -/
def base64Encode : Str → Str
  | [] => []
  | [a] => [base64Char (a.toNat / 4), base64Char (a.toNat % 4 * 16)]
  | [a, b] =>
    [base64Char (a.toNat / 4), base64Char (a.toNat % 4 * 16 + b.toNat / 16),
      base64Char (b.toNat % 16 * 4)]
  | a :: b :: c :: rest =>
    base64Char (a.toNat / 4) :: base64Char (a.toNat % 4 * 16 + b.toNat / 16) ::
      base64Char (b.toNat % 16 * 4 + c.toNat / 64) :: base64Char (c.toNat % 64) ::
      base64Encode rest

/-- The bytes of a sequence of six-bit values. -/
def base64Groups : List ℕ → Option Str
  | [] => some []
  | [_] => none
  | [a, b] => some [UInt8.ofNat (a * 4 + b / 16)]
  | [a, b, c] => some [UInt8.ofNat (a * 4 + b / 16), UInt8.ofNat (b % 16 * 16 + c / 4)]
  | a :: b :: c :: d :: rest => do
    let bytes ← base64Groups rest
    return UInt8.ofNat (a * 4 + b / 16) :: UInt8.ofNat (b % 16 * 16 + c / 4) ::
      UInt8.ofNat (c % 4 * 64 + d) :: bytes

/-- `base64.RawURLEncoding.DecodeString`. -/
def base64Decode (s : Str) : Option Str := do
  let values ← (s.filter fun c => c ≠ 10 && c ≠ 13).mapM base64Value
  base64Groups values

/-- A JSON document as `encoding/json` reads it. A number keeps its literal, and an object the order
of its members. -/
inductive Json where
  | null
  | bool (b : Bool)
  | number (literal : Str)
  | string (s : Str)
  | array (elements : List Json)
  | object (members : List (Str × Json))

/-- The folding of member names: ASCII letters to lower case, and the two other code points that
fold to one (U+017F to `s`, U+212A to `k`). -/
def foldName : Str → Str
  | 0xC5 :: 0xBF :: s => 115 :: foldName s
  | 0xE2 :: 0x84 :: 0xAA :: s => 107 :: foldName s
  | b :: s => toLower b :: foldName s
  | [] => []

/-- The values of the members that set the field `name`, in document order. -/
def fieldValues (name : Str) (members : List (Str × Json)) : List Json :=
  (members.filter fun m => m.1 = name || foldName m.1 = foldName name).map Prod.snd

/-- One value stored into a string field: `null` leaves it as it is. -/
def storeString (old : Str) : Json → Option Str
  | .null => some old
  | .string s => some s
  | _ => none

/-- The decimal digits of a literal as a number. -/
def parseDigits : ℕ → Str → Option ℕ
  | acc, [] => some acc
  | acc, b :: s => if isDigit b then parseDigits (acc * 10 + (b.toNat - 48)) s else none

/-- `strconv.ParseInt` in base 10 at 64 bits, on the literal of a JSON number. -/
def parseInt64 (literal : Str) : Option ℤ :=
  match literal with
  | [] => none
  | 45 :: digits => do
    let n ← if digits = [] then none else parseDigits 0 digits
    if n ≤ 2 ^ 63 then some (-(n : ℤ)) else none
  | digits => do
    let n ← parseDigits 0 digits
    if n < 2 ^ 63 then some (n : ℤ) else none

/-- One value stored into an `int64` field. -/
def storeInt64 (old : ℤ) : Json → Option ℤ
  | .null => some old
  | .number literal => parseInt64 literal
  | _ => none

/-- The field `name` of type `string` after `json.Unmarshal`, `none` when a value has another
type. -/
def stringField (name : Str) (members : List (Str × Json)) : Option Str :=
  (fieldValues name members).foldlM storeString []

/-- The field `name` of type `int64` after `json.Unmarshal`. -/
def int64Field (name : Str) (members : List (Str × Json)) : Option ℤ :=
  (fieldValues name members).foldlM storeInt64 0

/-- One value stored into a `[]string` field: the slice starts again from empty, and a `null`
element is the empty string. -/
def storeStrings : Json → Option (List Str)
  | .null => some []
  | .array elements => elements.mapM (storeString [])
  | _ => none

/-- The field `name` of type `[]string` after `json.Unmarshal`. -/
def stringsField (name : Str) (members : List (Str × Json)) : Option (List Str) :=
  (fieldValues name members).foldlM (fun _ value => storeStrings value) []

/-- The members of a document that is unmarshalled into a struct: an object's own, none for `null`,
and an error for every other document. -/
def structMembers : Json → Option (List (Str × Json))
  | .object members => some members
  | .null => some []
  | _ => none

end VirePortal.Go
