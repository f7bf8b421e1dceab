import ExprFrontEnd.Decimal.Binary64
import ExprFrontEnd.Text.Hexadecimal

/-!
# `ExprFrontEnd.Toml.Scalar`: blanks, keys, texts, numbers and dates of TOML

Readers take a piece of TOML off the start of a text and give what it denotes together with the text
behind it; they fail on anything else. Numbers and dates are checked, ranges included, but their
values are not kept.
-/

set_option autoImplicit false

namespace ExprFrontEnd.Toml

/-- A reader of the start of a text. -/
abbrev Reader (α : Type) := List Char → Option (α × List Char)

/-! ### Blanks and comments -/

/-- Blanks inside of a line. -/
def isInlineBlank (c : Char) : Bool := c == ' ' || c == '\t'

/-- The text behind blanks. -/
def skipBlanks (cs : List Char) : List Char := cs.dropWhile isInlineBlank

/-- Characters that may stand in comments and texts: no controls but the tab. -/
def isPlain (c : Char) : Bool := c == '\t' || (0x20 ≤ c.toNat && c.toNat != 0x7F)

/-- The text behind a line break, if it starts with one. -/
def newline? : List Char → Option (List Char)
  | '\n' :: rest => some rest
  | '\r' :: '\n' :: rest => some rest
  | _ => none

/-- The text behind a comment, if it starts with one. -/
def skipComment (cs : List Char) : List Char :=
  match cs with
  | '#' :: rest => rest.dropWhile isPlain
  | cs => cs

/-- Takes the end of a line: blanks, perhaps a comment, and a line break or the end of the text. -/
def endOfLine (cs : List Char) : Option (List Char) :=
  match skipComment (skipBlanks cs) with
  | [] => some []
  | rest => newline? rest

/-- The text behind blanks, comments and line breaks, as between the items of an array. -/
def skipLines : Nat → List Char → List Char
  | 0, cs => cs
  | fuel + 1, cs =>
    match newline? (skipComment (skipBlanks cs)) with
    | some rest => skipLines fuel rest
    | none => skipBlanks cs

/-! ### Texts -/

/-- The character that an escape stands for; the text starts behind the backslash. -/
def escape : Reader Char
  | 'b' :: rest => some ('\x08', rest)
  | 't' :: rest => some ('\t', rest)
  | 'n' :: rest => some ('\n', rest)
  | 'f' :: rest => some ('\x0c', rest)
  | 'r' :: rest => some ('\r', rest)
  | '"' :: rest => some ('"', rest)
  | '\\' :: rest => some ('\\', rest)
  | 'u' :: rest => Text.codePoint 4 rest
  | 'U' :: rest => Text.codePoint 8 rest
  | _ => none

/-- A text in double quotes, behind the first of them. -/
def basicText : Nat → Reader (List Char)
  | 0, _ => none
  | _ + 1, '"' :: rest => some ([], rest)
  | fuel + 1, '\\' :: rest => do
    let (c, rest) ← escape rest
    let (cs, rest) ← basicText fuel rest
    return (c :: cs, rest)
  | fuel + 1, c :: rest =>
    if isPlain c then do
      let (cs, rest) ← basicText fuel rest
      return (c :: cs, rest)
    else none
  | _ + 1, [] => none

/-- A text in single quotes, behind the first of them. -/
def literalText (cs : List Char) : Option (List Char × List Char) :=
  let isInside := fun c => isPlain c && c != '\''
  match cs.dropWhile isInside with
  | '\'' :: rest => some (cs.takeWhile isInside, rest)
  | _ => none

/-- The text behind blanks and line breaks. -/
def skipBreaks : List Char → List Char
  | ' ' :: rest => skipBreaks rest
  | '\t' :: rest => skipBreaks rest
  | '\n' :: rest => skipBreaks rest
  | '\r' :: '\n' :: rest => skipBreaks rest
  | cs => cs

/-- The text behind the end of a line and all blanks and line breaks that follow. -/
def joinLines (cs : List Char) : Option (List Char) := (newline? (skipBlanks cs)).map skipBreaks

/-- Quotes inside of a text in three quotes: up to two of them belong to the text, and so do the
first one or two of four or five that end it. The result says whether the text ends. -/
def quoteRun (quote : Char) (cs : List Char) : List Char × Bool × List Char :=
  let n := min (cs.takeWhile (· == quote)).length 5
  if n < 3 then (List.replicate n quote, false, cs.drop n)
  else (List.replicate (n - 3) quote, true, cs.drop n)

/-- A text in three double quotes, behind the first of them. A backslash at the end of a line joins
the text before it to the next character that is not blank. -/
def longBasicText : Nat → Reader (List Char)
  | 0, _ => none
  | fuel + 1, cs =>
    match cs with
    | [] => none
    | '"' :: _ =>
      match quoteRun '"' cs with
      | (quotes, true, rest) => some (quotes, rest)
      | (quotes, false, rest) => do
        let (more, rest) ← longBasicText fuel rest
        return (quotes ++ more, rest)
    | '\\' :: rest =>
      match joinLines rest with
      | some rest => longBasicText fuel rest
      | none => do
        let (c, rest) ← escape rest
        let (more, rest) ← longBasicText fuel rest
        return (c :: more, rest)
    | c :: behind =>
      match newline? cs with
      | some rest => do
        let (more, rest) ← longBasicText fuel rest
        return ('\n' :: more, rest)
      | none =>
        if isPlain c then do
          let (more, rest) ← longBasicText fuel behind
          return (c :: more, rest)
        else none

/-- A text in three single quotes, behind the first of them. -/
def longLiteralText : Nat → Reader (List Char)
  | 0, _ => none
  | fuel + 1, cs =>
    match cs with
    | [] => none
    | '\'' :: _ =>
      match quoteRun '\'' cs with
      | (quotes, true, rest) => some (quotes, rest)
      | (quotes, false, rest) => do
        let (more, rest) ← longLiteralText fuel rest
        return (quotes ++ more, rest)
    | c :: behind =>
      match newline? cs with
      | some rest => do
        let (more, rest) ← longLiteralText fuel rest
        return ('\n' :: more, rest)
      | none =>
        if isPlain c then do
          let (more, rest) ← longLiteralText fuel behind
          return (c :: more, rest)
        else none

/-- A text in any of the four kinds of quotes, from its first quote on. A line break right behind
three quotes does not belong to the text. -/
def quotedText (cs : List Char) : Option (String × List Char) :=
  let fuel := cs.length
  let read := match cs with
    | '"' :: '"' :: '"' :: rest => longBasicText fuel ((newline? rest).getD rest)
    | '"' :: rest => basicText fuel rest
    | '\'' :: '\'' :: '\'' :: rest => longLiteralText fuel ((newline? rest).getD rest)
    | '\'' :: rest => literalText rest
    | _ => none
  read.map fun (text, rest) => (String.ofList text, rest)

/-! ### Keys -/

/-- Characters of keys without quotes. -/
def isKeyChar (c : Char) : Bool := c.isAlphanum || c == '_' || c == '-'

/-- A key without dots. -/
def simpleKey (cs : List Char) : Option (String × List Char) :=
  match cs with
  | '"' :: rest => (basicText cs.length rest).map fun (k, rest) => (String.ofList k, rest)
  | '\'' :: rest => (literalText rest).map fun (k, rest) => (String.ofList k, rest)
  | cs =>
    let word := cs.takeWhile isKeyChar
    if word.isEmpty then none else some (String.ofList word, cs.dropWhile isKeyChar)

/-- The parts of a dotted key of at most so many parts: those before the last, and the last. -/
def keyParts : Nat → Reader (List String × String)
  | 0, _ => none
  | most + 1, cs => do
    let (key, rest) ← simpleKey (skipBlanks cs)
    match skipBlanks rest with
    | '.' :: rest =>
      let ((path, last), rest) ← keyParts most rest
      return ((key :: path, last), rest)
    | rest => return (([], key), rest)

/-- Tables and arrays lie at most this deep inside of each other: a key has at most so many parts,
and within a value at most so many arrays and tables between braces are open at a time. -/
def nestingLimit : Nat := 79

/-- The parts of a dotted key: those before the last, and the last. -/
def dottedKey : Reader (List String × String) := keyParts nestingLimit

/-! ### Numbers -/

/-- Takes digits of a class, with single underscores between them. -/
def digits (isDigit : Char → Bool) (cs : List Char) : Option (List Char × List Char) :=
  let isPart := fun c => isDigit c || c == '_'
  let part := cs.takeWhile isPart
  let groups := part.splitOn '_'
  if groups.any List.isEmpty then none else some (groups.flatten, cs.dropWhile isPart)

/-- Takes a sign; the result says whether it is a minus. -/
def sign : List Char → Bool × List Char
  | '+' :: rest => (false, rest)
  | '-' :: rest => (true, rest)
  | cs => (false, cs)

/-- Takes a whole decimal number without sign, which has no leading zero. -/
def wholeNumber (cs : List Char) : Option (List Char × List Char) :=
  match cs with
  | '0' :: rest => some (['0'], rest)
  | cs => digits Char.isDigit cs

/-- The number that digits of a base denote. -/
def numberOfDigits (base : Nat) (ds : List Char) : Nat :=
  ds.foldl (fun n c => base * n + ((Text.hexNumber? [c]).getD 0)) 0

/-- Integers are less than this, `2 ^ 63`, and not less than its negative. -/
def integerBound : Nat := 0x8000000000000000

/-- Takes an integer with a mark of its base. -/
def basedInteger (base : Nat) (isDigit : Char → Bool) (cs : List Char) : Option (List Char) := do
  let (ds, rest) ← digits isDigit cs
  if numberOfDigits base ds < integerBound then some rest else none

/-- Takes the fraction of a number, if there is one. The result has its digits. -/
def fraction? : Reader (Option (List Char))
  | '.' :: rest => (digits Char.isDigit rest).map fun (ds, rest) => (some ds, rest)
  | cs => some (none, cs)

/-- Takes the exponent of a number, if there is one. -/
def exponent? (cs : List Char) : Option (Option Int × List Char) :=
  let read := fun (rest : List Char) =>
    let (negative, rest) := sign rest
    (digits Char.isDigit rest).map fun (ds, rest) =>
      let n : Int := numberOfDigits 10 ds
      (some (if negative then -n else n), rest)
  match cs with
  | 'e' :: rest => read rest
  | 'E' :: rest => read rest
  | cs => some (none, cs)

/-- Whether a decimal is too large for a 64-bit number. The bound lies between `10 ^ 308` and
`10 ^ 309`, so only the decimals around it are computed. -/
def overflows (ds : List Char) (exponent : Int) : Bool :=
  let ds := ds.dropWhile (· == '0')
  if ds.isEmpty then false
  else if 310 < exponent + ds.length then true
  else if exponent + ds.length < 300 then false
  else (Binary64.ofDecimal false (numberOfDigits 10 ds) exponent).isInfinite

/-- Takes a decimal number: an integer of 64 bits, or a number with a fraction or an exponent that
is not too large. -/
def decimalNumber (cs : List Char) : Option (List Char) := do
  let (negative, rest) := sign cs
  let (whole, rest) ← wholeNumber rest
  let (fraction, rest) ← fraction? rest
  let (exponent, rest) ← exponent? rest
  if fraction.isNone && exponent.isNone then
    let n := numberOfDigits 10 whole
    if n < integerBound || (negative && n == integerBound) then some rest else none
  else
    let fraction := fraction.getD []
    if !negative && overflows (whole ++ fraction) (exponent.getD 0 - fraction.length) then none
    else some rest

/-- Takes a number. -/
def number (cs : List Char) : Option (List Char) :=
  match cs with
  | '0' :: 'x' :: rest => basedInteger 16 (fun c => (Text.hexNumber? [c]).isSome) rest
  | '0' :: 'o' :: rest => basedInteger 8 (fun c => decide ('0' ≤ c) && decide (c ≤ '7')) rest
  | '0' :: 'b' :: rest => basedInteger 2 (fun c => c == '0' || c == '1') rest
  | cs =>
    match (sign cs).2 with
    | 'i' :: 'n' :: 'f' :: rest => some rest
    | 'n' :: 'a' :: 'n' :: rest => some rest
    | _ => decimalNumber cs

/-! ### Dates and times -/

/-- Takes a number of a fixed count of digits between two bounds. -/
def fixedNumber (width least greatest : Nat) (cs : List Char) : Option (Nat × List Char) :=
  let ds := cs.take width
  if ds.length = width ∧ ds.all Char.isDigit then
    let n := numberOfDigits 10 ds
    if least ≤ n ∧ n ≤ greatest then some (n, cs.drop width) else none
  else none

/-- Takes one given character. -/
def char (c : Char) : List Char → Option (List Char)
  | d :: rest => if d = c then some rest else none
  | [] => none

/-- The number of days of a month. -/
def daysOfMonth (year month : Nat) : Nat :=
  if month = 2 then
    if (year % 4 = 0 ∧ year % 100 ≠ 0) ∨ year % 400 = 0 then 29 else 28
  else if month = 4 ∨ month = 6 ∨ month = 9 ∨ month = 11 then 30
  else 31

/-- Takes a date. -/
def date (cs : List Char) : Option (List Char) := do
  let (year, rest) ← fixedNumber 4 0 9999 cs
  let (month, rest) ← fixedNumber 2 1 12 (← char '-' rest)
  let (_, rest) ← fixedNumber 2 1 (daysOfMonth year month) (← char '-' rest)
  return rest

/-- Takes a time of day, with seconds and perhaps a fraction of them. -/
def time (cs : List Char) : Option (List Char) := do
  let (_, rest) ← fixedNumber 2 0 23 cs
  let (_, rest) ← fixedNumber 2 0 59 (← char ':' rest)
  let (_, rest) ← fixedNumber 2 0 60 (← char ':' rest)
  match rest with
  | '.' :: c :: behind =>
    if c.isDigit then return behind.dropWhile Char.isDigit else return rest
  | rest => return rest

/-- Takes the distance of a time from universal time. -/
def zone (cs : List Char) : Option (List Char) :=
  let read := fun (rest : List Char) => do
    let (_, rest) ← fixedNumber 2 0 23 rest
    let (_, rest) ← fixedNumber 2 0 59 (← char ':' rest)
    return rest
  match cs with
  | 'Z' :: rest => some rest
  | 'z' :: rest => some rest
  | '+' :: rest => read rest
  | '-' :: rest => read rest
  | cs => some cs

/-- Takes a date, a time of day, or both with perhaps a zone. -/
def dateTime (cs : List Char) : Option (List Char) :=
  match date cs with
  | none => time cs
  | some rest =>
    match rest with
    | c :: behind =>
      if c == 'T' || c == 't' || c == ' ' then
        match time behind with
        | some rest => zone rest
        | none => some rest
      else some rest
    | [] => some []

/-- Whether a text starts like a date or a time of day rather than like a number. -/
def looksLikeDate (cs : List Char) : Bool :=
  let isNumber := fun n => (cs.take n).length == n && (cs.take n).all Char.isDigit
  (isNumber 4 && (cs.drop 4).head? == some '-') || (isNumber 2 && (cs.drop 2).head? == some ':')

end ExprFrontEnd.Toml
