import Mathlib.Data.List.Sort
import Mathlib.Data.String.Basic
import LLMInference.Lib.PyValue

/-!
JSON text as Python's `json` module writes and reads it.

* `dumps`: `json.dumps`, with its options `ensure_ascii` and `sort_keys`.
* `loads`: `json.loads`. The reader is a recursive descent over the characters; `none` is a
  `JSONDecodeError`. A lone surrogate, for which there is no character, is refused as well.

How a float is written and read is a parameter (`Floats`).
-/

/-- `d[key] = x`: a key that is there keeps its place. -/
def PyDict.set (d : PyDict) (key : String) (x : PyValue) : PyDict :=
  if key ∈ d.map Prod.fst then d.map fun item => if item.1 = key then (key, x) else item
  else d ++ [(key, x)]

/-- `d.update(items)`. -/
def PyDict.update (d : PyDict) (items : List (String × PyValue)) : PyDict :=
  items.foldl (fun d item => d.set item.1 item.2) d

namespace Json

/-- `float.__repr__` and `float`. -/
structure Floats where
  repr : ℚ → String
  read : String → PyFloat

/-- The options of `json.dumps`. -/
structure Options where
  ensureAscii : Bool := true
  sortKeys : Bool := false

/-! ### The writer -/

/-- The escapes of one letter. -/
def shortEscape (c : Char) : Option Char :=
  if c = '"' then some '"'
  else if c = '\\' then some '\\'
  else if c = '\n' then some 'n'
  else if c = '\r' then some 'r'
  else if c = '\t' then some 't'
  else if c = '\x0c' then some 'f'
  else if c = '\x08' then some 'b'
  else none

/-- The four digits of a code unit. -/
def unitDigits (unit : ℕ) : List Char :=
  [(unit / 4096 % 16).digitChar, (unit / 256 % 16).digitChar, (unit / 16 % 16).digitChar,
    (unit % 16).digitChar]

def escapeUnit (unit : ℕ) : List Char := '\\' :: 'u' :: unitDigits unit

/-- A code point as one code unit or as a surrogate pair. -/
def escapeUnits (v : ℕ) : List Char :=
  if v < 0x10000 then escapeUnit v
  else escapeUnit (0xd800 + (v - 0x10000) / 0x400) ++ escapeUnit (0xdc00 + (v - 0x10000) % 0x400)

/-- The character may stand in a string as it is. -/
def Options.plain (o : Options) (c : Char) : Bool :=
  decide (' ' ≤ c) && (!o.ensureAscii || decide (c ≤ '~'))

def Options.escape (o : Options) (c : Char) : List Char :=
  match shortEscape c with
  | some letter => ['\\', letter]
  | none => if o.plain c then [c] else escapeUnits c.toNat

def stringText (o : Options) (s : String) : List Char :=
  '"' :: s.toList.flatMap o.escape ++ ['"']

def intText (n : ℤ) : List Char :=
  (if n < 0 then ['-'] else []) ++ Nat.toDigits 10 n.natAbs

def floatText (f : Floats) : PyFloat → List Char
  | .finite x => (f.repr x).toList
  | .infinite false => ['I', 'n', 'f', 'i', 'n', 'i', 't', 'y']
  | .infinite true => ['-', 'I', 'n', 'f', 'i', 'n', 'i', 't', 'y']
  | .nan => ['N', 'a', 'N']

/-- The items of a container, between its brackets. -/
def enclose (opening closing : Char) (items : List (List Char)) : List Char :=
  opening :: [',', ' '].intercalate items ++ [closing]

def Options.order (o : Options) (members : List (String × List Char)) :
    List (String × List Char) :=
  if o.sortKeys then members.insertionSort (fun a b => a.1 ≤ b.1) else members

def memberText (o : Options) (member : String × List Char) : List Char :=
  stringText o member.1 ++ [':', ' '] ++ member.2

mutual

/-- `json.dumps`. -/
def text (f : Floats) (o : Options) : PyValue → List Char
  | .none => ['n', 'u', 'l', 'l']
  | .bool true => ['t', 'r', 'u', 'e']
  | .bool false => ['f', 'a', 'l', 's', 'e']
  | .int n => intText n
  | .float x => floatText f x
  | .str s => stringText o s
  | .list items => enclose '[' ']' (itemTexts f o items)
  | .dict items => enclose '\x7b' '\x7d' ((o.order (memberTexts f o items)).map (memberText o))

def itemTexts (f : Floats) (o : Options) : List PyValue → List (List Char)
  | [] => []
  | x :: rest => text f o x :: itemTexts f o rest

def memberTexts (f : Floats) (o : Options) : List (String × PyValue) → List (String × List Char)
  | [] => []
  | (key, x) :: rest => (key, text f o x) :: memberTexts f o rest

end

def dumps (f : Floats) (o : Options) (x : PyValue) : String := String.ofList (text f o x)

/-! ### The reader -/

def isSpace (c : Char) : Bool := c = ' ' || c = '\t' || c = '\n' || c = '\r'

def skipSpace (cs : List Char) : List Char := cs.dropWhile isSpace

def hexDigit? (c : Char) : Option ℕ :=
  if c.isDigit then some (c.toNat - 48)
  else if 'a' ≤ c ∧ c ≤ 'f' then some (c.toNat - 87)
  else if 'A' ≤ c ∧ c ≤ 'F' then some (c.toNat - 55)
  else none

/-- Four hexadecimal digits. -/
def scanUnit : List Char → Option (ℕ × List Char)
  | a :: b :: c :: d :: rest =>
      match hexDigit? a, hexDigit? b, hexDigit? c, hexDigit? d with
      | some a, some b, some c, some d => some (((a * 16 + b) * 16 + c) * 16 + d, rest)
      | _, _, _, _ => none
  | _ => none

def isHighSurrogate (unit : ℕ) : Bool := decide (0xd800 ≤ unit) && decide (unit ≤ 0xdbff)

def isLowSurrogate (unit : ℕ) : Bool := decide (0xdc00 ≤ unit) && decide (unit ≤ 0xdfff)

/-- The second half of a surrogate pair. -/
def scanLow (high : ℕ) : List Char → Option (Char × List Char)
  | '\\' :: 'u' :: cs =>
      match scanUnit cs with
      | some (low, rest) =>
          if isLowSurrogate low then
            some (Char.ofNat (0x10000 + (high - 0xd800) * 0x400 + (low - 0xdc00)), rest)
          else none
      | none => none
  | _ => none

/-- What follows `\u`. -/
def scanUnits (cs : List Char) : Option (Char × List Char) :=
  match scanUnit cs with
  | some (unit, rest) =>
      if isHighSurrogate unit then scanLow unit rest
      else if isLowSurrogate unit then none
      else some (Char.ofNat unit, rest)
  | none => none

def unescape (c : Char) : Option Char :=
  if c = '"' then some '"'
  else if c = '\\' then some '\\'
  else if c = '/' then some '/'
  else if c = 'b' then some '\x08'
  else if c = 'f' then some '\x0c'
  else if c = 'n' then some '\n'
  else if c = 'r' then some '\r'
  else if c = 't' then some '\t'
  else none

/-- What follows `\`. -/
def scanEscape : List Char → Option (Char × List Char)
  | [] => none
  | c :: rest => if c = 'u' then scanUnits rest else (unescape c).map fun c => (c, rest)

/-- The characters of a string, and what follows its closing quote. -/
def scanString : ℕ → List Char → Option (List Char × List Char)
  | 0, _ => none
  | _, [] => none
  | n + 1, c :: cs =>
      if c = '"' then some ([], cs)
      else if c = '\\' then
        match scanEscape cs with
        | some (c, rest) => (scanString n rest).map fun found => (c :: found.1, found.2)
        | none => none
      else if c < ' ' then none
      else (scanString n cs).map fun found => (c :: found.1, found.2)

/-- `-?(0|[1-9][0-9]*)`. -/
def scanUnsigned : List Char → Option (List Char × List Char)
  | [] => none
  | c :: rest =>
      if c = '0' then some (['0'], rest)
      else if c.isDigit then some (c :: rest.takeWhile Char.isDigit, rest.dropWhile Char.isDigit)
      else none

def scanInteger : List Char → Option (List Char × List Char)
  | '-' :: rest => (scanUnsigned rest).map fun found => ('-' :: found.1, found.2)
  | cs => scanUnsigned cs

/-- `(\.[0-9]+)?`. -/
def scanFraction : List Char → List Char × List Char
  | '.' :: rest =>
      if rest.takeWhile Char.isDigit = [] then ([], '.' :: rest)
      else ('.' :: rest.takeWhile Char.isDigit, rest.dropWhile Char.isDigit)
  | cs => ([], cs)

/-- `[-+]?`. -/
def scanSign : List Char → List Char × List Char
  | c :: rest => if c = '+' ∨ c = '-' then ([c], rest) else ([], c :: rest)
  | [] => ([], [])

/-- `([eE][-+]?[0-9]+)?`. -/
def scanExponent : List Char → List Char × List Char
  | [] => ([], [])
  | c :: rest =>
      if c = 'e' ∨ c = 'E' then
        let (sign, digits) := scanSign rest
        if digits.takeWhile Char.isDigit = [] then ([], c :: rest)
        else (c :: sign ++ digits.takeWhile Char.isDigit, digits.dropWhile Char.isDigit)
      else ([], c :: rest)

/-- `int` of a literal. -/
def readInt : List Char → ℤ
  | '-' :: digits => -(Nat.ofDigitChars 10 digits 0 : ℤ)
  | digits => Nat.ofDigitChars 10 digits 0

/-- The three parts of a number literal, and what follows it. -/
def scanParts (cs : List Char) : Option ((List Char × List Char × List Char) × List Char) :=
  (scanInteger cs).map fun integer =>
    let fraction := scanFraction integer.2
    let exponent := scanExponent fraction.2
    ((integer.1, fraction.1, exponent.1), exponent.2)

def readNumber (f : Floats) (parts : List Char × List Char × List Char) : PyValue :=
  if parts.2.1 = [] ∧ parts.2.2 = [] then .int (readInt parts.1)
  else .float (f.read (String.ofList (parts.1 ++ parts.2.1 ++ parts.2.2)))

def constants : List (List Char × PyValue) :=
  [(['n', 'u', 'l', 'l'], .none), (['t', 'r', 'u', 'e'], .bool true),
    (['f', 'a', 'l', 's', 'e'], .bool false), (['N', 'a', 'N'], .float .nan),
    (['I', 'n', 'f', 'i', 'n', 'i', 't', 'y'], .float (.infinite false)),
    (['-', 'I', 'n', 'f', 'i', 'n', 'i', 't', 'y'], .float (.infinite true))]

def scanConstant (cs : List Char) : Option (PyValue × List Char) :=
  constants.findSome? fun constant =>
    (cs.dropPrefix? constant.1).map fun rest => (constant.2, rest)

/-- A number or a constant. -/
def scanAtom (f : Floats) (cs : List Char) : Option (PyValue × List Char) :=
  match scanParts cs with
  | some (parts, rest) => some (readNumber f parts, rest)
  | none => scanConstant cs

mutual

/-- `scan_once`. -/
def scan (f : Floats) : ℕ → List Char → Option (PyValue × List Char)
  | 0, _ => none
  | _, [] => none
  | n + 1, c :: cs =>
      if c = '"' then (scanString n cs).map fun found => (.str (String.ofList found.1), found.2)
      else if c = '[' then
        if (skipSpace cs).head? = some ']' then some (.list [], (skipSpace cs).tail)
        else (scanItems f n (skipSpace cs)).map fun found => (.list found.1, found.2)
      else if c = '\x7b' then
        if (skipSpace cs).head? = some '\x7d' then some (.dict [], (skipSpace cs).tail)
        else
          (scanMembers f n (skipSpace cs)).map fun found =>
            (.dict (PyDict.update [] found.1), found.2)
      else scanAtom f (c :: cs)

/-- `JSONArray`, at an item. -/
def scanItems (f : Floats) : ℕ → List Char → Option (List PyValue × List Char)
  | 0, _ => none
  | n + 1, cs =>
      match scan f n cs with
      | none => none
      | some (x, rest) =>
          match skipSpace rest with
          | ']' :: rest => some ([x], rest)
          | ',' :: rest =>
              (scanItems f n (skipSpace rest)).map fun found => (x :: found.1, found.2)
          | _ => none

/-- `JSONObject`, at a key. -/
def scanMembers (f : Floats) : ℕ → List Char → Option (List (String × PyValue) × List Char)
  | n + 1, '"' :: cs =>
      match scanString n cs with
      | none => none
      | some (key, rest) =>
          match skipSpace rest with
          | ':' :: rest =>
              match scan f n (skipSpace rest) with
              | none => none
              | some (x, rest) =>
                  match skipSpace rest with
                  | '\x7d' :: rest => some ([(String.ofList key, x)], rest)
                  | ',' :: rest =>
                      (scanMembers f n (skipSpace rest)).map fun found =>
                        ((String.ofList key, x) :: found.1, found.2)
                  | _ => none
          | _ => none
  | _, _ => none

end

/-- A document, with nothing but space around it. -/
def parse (f : Floats) (cs : List Char) : Option PyValue :=
  match scan f (cs.length + 1) (skipSpace cs) with
  | some (x, rest) => if skipSpace rest = [] then some x else none
  | none => none

/-- `json.loads`. A byte order mark is refused. -/
def loads (f : Floats) (s : String) : Option PyValue :=
  if s.toList.head? = some '\ufeff' then none else parse f s.toList

end Json

/-- An interpreter with the `json` module. The text of a `JSONDecodeError` is its own. -/
def PyHost.withJson (h : PyHost) (f : Json.Floats) (explain : String → String) : PyHost :=
  { h with
    loads := fun raw =>
      match Json.loads f raw with
      | some x => .ok x
      | none => .error ⟨"JSONDecodeError", explain raw⟩ }
