import ExprFrontEnd.Text.Alphanumeric
import ExprFrontEnd.Text.Ascii
import ExprFrontEnd.Text.Hexadecimal

/-!
# `ExprFrontEnd.Log.Pattern`: values in a log filter

The value that a filter asks of a field is a number or a regular expression. `Pattern.fault?` finds
what is wrong with it: an expression that breaks the grammar, or one that asks for a word boundary,
which no automaton of bytes decides.

The grammar is that of expressions without a closing brace, since none can stand in a value: there
are no counted repetitions and no escapes in braces. An expression is read from left to right; it is
enough to know how many groups are open and whether there is something that can be repeated.
-/

set_option autoImplicit false

namespace ExprFrontEnd

/-- What is wrong with a value. -/
inductive PatternFault where
  | malformed
  | wordBoundary
  deriving DecidableEq, Repr

namespace PatternFault

/-- A fault in words. -/
def message : PatternFault → String
  | malformed => "error building NFA"
  | wordBoundary =>
    "unsupported regex feature for DFAs: cannot build DFAs for regexes with Unicode word " ++
    "boundaries; switch to ASCII word boundaries, or heuristically enable Unicode word " ++
    "boundaries or use a different regex engine"

end PatternFault

namespace Pattern

/-! ### Numbers -/

/-- Whether a text is empty or the exponent of a number. -/
def isExponent : List Char → Bool
  | [] => true
  | e :: rest =>
    let digits := match rest with
      | '+' :: digits => digits
      | '-' :: digits => digits
      | digits => digits
    (e == 'e' || e == 'E') && !digits.isEmpty && digits.all Char.isDigit

/-- Whether a text is a decimal number without sign. A point needs a digit on one of its sides. -/
def isDecimal (cs : List Char) : Bool :=
  let whole := cs.takeWhile Char.isDigit
  match cs.dropWhile Char.isDigit with
  | '.' :: rest =>
    let fraction := rest.takeWhile Char.isDigit
    !(whole ++ fraction).isEmpty && isExponent (rest.dropWhile Char.isDigit)
  | rest => !whole.isEmpty && isExponent rest

/-- Whether a text is a number. -/
def isNumber (cs : List Char) : Bool :=
  let cs := match cs with
    | '+' :: rest => rest
    | '-' :: rest => rest
    | cs => cs
  ["inf", "infinity", "nan"].contains (String.ofList (Text.asciiLower cs)) || isDecimal cs

/-! ### Escapes -/

/-- What an escape stands for. -/
inductive Escaped where
  | char (c : Char)
  | set
  /-- A place between characters. -/
  | place (isWordBoundary : Bool)
  deriving DecidableEq, Repr

/-- Reads an escape behind its backslash. -/
def escape : List Char → Option (Escaped × List Char)
  | [] => none
  | c :: rest =>
    match c with
    | 'a' => some (.char '\x07', rest)
    | 'f' => some (.char '\x0c', rest)
    | 't' => some (.char '\t', rest)
    | 'n' => some (.char '\n', rest)
    | 'r' => some (.char '\r', rest)
    | 'v' => some (.char '\x0b', rest)
    | 'x' => (Text.codePoint 2 rest).map fun (c, rest) => (.char c, rest)
    | 'u' => (Text.codePoint 4 rest).map fun (c, rest) => (.char c, rest)
    | 'U' => (Text.codePoint 8 rest).map fun (c, rest) => (.char c, rest)
    | 'A' => some (.place false, rest)
    | 'z' => some (.place false, rest)
    | c =>
      if ['b', 'B', '<', '>'].contains c then some (.place true, rest)
      else if ['d', 'D', 's', 'S', 'w', 'W'].contains c then some (.set, rest)
      else if ['p', 'P'].contains c then
        match rest with
        | category :: rest =>
          if ['c', 'l', 'm', 'n', 'p', 's', 'z'].contains category.toLower then some (.set, rest)
          else none
        | [] => none
      else if decide (c.toNat < 0x80) && !c.isAlphanum then some (.char c, rest)
      else none

/-! ### Classes -/

/-- The text behind the first characters of a class that stand for themselves there: dashes, or else
a closing bracket. A circumflex may stand in front of them. -/
def classStart (cs : List Char) : List Char :=
  let cs := match cs with
    | '^' :: rest => rest
    | cs => cs
  match cs with
  | ']' :: rest => rest
  | cs => cs.dropWhile (· == '-')

/-- Reads an item of a class; nothing is known of the characters of an escaped set. -/
def classItem : List Char → Option (Option Char × List Char)
  | [] => none
  | '\\' :: rest => do
    match ← escape rest with
    | (.char c, rest) => return (some c, rest)
    | (.set, rest) => return (none, rest)
    | (.place _, _) => none
  | c :: rest => some (some c, rest)

/-- Takes the items of a class and the bracket that closes it, and so many classes around it. -/
def classEnd : Nat → Nat → List Char → Option (List Char)
  | 0, _, _ => none
  | fuel + 1, around, cs =>
    match cs with
    | '[' :: rest => classEnd fuel (around + 1) (classStart rest)
    | ']' :: rest =>
      match around with
      | 0 => some rest
      | around + 1 => classEnd fuel around rest
    | '&' :: '&' :: rest => classEnd fuel around rest
    | '-' :: '-' :: rest => classEnd fuel around rest
    | '~' :: '~' :: rest => classEnd fuel around rest
    | cs => do
      let (first, rest) ← classItem cs
      match rest with
      | '-' :: ']' :: _ => classEnd fuel around rest
      | '-' :: '-' :: _ => classEnd fuel around rest
      | '-' :: behind =>
        match first, ← classItem behind with
        | some first, (some last, behind) =>
          if first ≤ last then classEnd fuel around behind else none
        | _, _ => none
      | rest => classEnd fuel around rest

/-! ### Groups -/

/-- Takes the name of a group and the bracket behind it. -/
def groupName (cs : List Char) : Option (List Char) :=
  let name := cs.takeWhile (· != '>')
  let isNameChar := fun c => Text.isAlphanumeric c || ['_', '.', '[', ']'].contains c
  let startsName := fun c => c == '_' || (Text.isAlphanumeric c && !c.isDigit)
  match cs.dropWhile (· != '>') with
  | '>' :: rest => if name.head?.any startsName && name.all isNameChar then some rest else none
  | _ => none

/-- Reads flags up to a colon, which opens a group, or up to a parenthesis, which does not. No flag
is set twice, and a flag stands behind the dash. The flags before are given, the last one first. -/
def flags (before : List Char) : List Char → Option (Bool × List Char)
  | [] => none
  | c :: rest =>
    if c == ':' || c == ')' then
      if before.head? == some '-' || (c == ')' && before.isEmpty) then none
      else some (c == ':', rest)
    else if ['i', 'm', 's', 'U', 'u', 'R', 'x', '-'].contains c && !before.contains c then
      flags (c :: before) rest
    else none

/-- Reads what stands behind an opening parenthesis before the expression in the group. The result
says whether there is a group. -/
def groupStart : List Char → Option (Bool × List Char)
  | '?' :: 'P' :: '<' :: rest => (groupName rest).map (true, ·)
  | '?' :: '<' :: rest => (groupName rest).map (true, ·)
  | '?' :: rest => flags [] rest
  | rest => some (true, rest)

/-! ### Expressions -/

/-- How far an expression is read. -/
structure Progress where
  /-- How many groups are open. -/
  groups : Nat
  /-- Whether there is something in front that can be repeated. -/
  repeatable : Bool
  /-- Whether there has been a word boundary. -/
  boundary : Bool
  deriving DecidableEq, Repr

namespace Progress

/-- One element further. -/
def step (p : Progress) : List Char → Option (Progress × List Char)
  | [] => none
  | '(' :: rest => do
    let (isGroup, rest) ← groupStart rest
    return ({ p with groups := if isGroup then p.groups + 1 else p.groups, repeatable := false },
      rest)
  | ')' :: rest =>
    match p.groups with
    | 0 => none
    | groups + 1 => some ({ p with groups := groups, repeatable := true }, rest)
  | '|' :: rest => some ({ p with repeatable := false }, rest)
  | '[' :: rest =>
    (classEnd (rest.length + 1) 0 (classStart rest)).map ({ p with repeatable := true }, ·)
  | '\x7b' :: _ => none
  | '\\' :: rest => do
    let (escaped, rest) ← escape rest
    return ({ p with repeatable := true, boundary := p.boundary || escaped == .place true }, rest)
  | c :: rest =>
    if c == '*' || c == '+' || c == '?' then
      if p.repeatable then
        some (p, match rest with
          | '?' :: rest => rest
          | rest => rest)
      else none
    else some ({ p with repeatable := true }, rest)

end Progress

/-- Reads an expression to its end. -/
def readAll : Nat → Progress → List Char → Option Progress
  | _, p, [] => if p.groups = 0 then some p else none
  | 0, _, _ => none
  | fuel + 1, p, cs => do
    let (p, rest) ← p.step cs
    readAll fuel p rest

/-- What is wrong with a value, if anything is. -/
def fault? (value : List Char) : Option PatternFault :=
  if isNumber value then none
  else
    match readAll value.length ⟨0, false, false⟩ value with
    | none => some .malformed
    | some p => if p.boundary then some .wordBoundary else none

end Pattern

end ExprFrontEnd
