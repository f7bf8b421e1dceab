/-!
# `ExprFrontEnd.Files.Path`: paths as texts

A `Path` is a text in which slashes separate components. It is kept as it was written, since that is
how it is shown; operations work on its components. Empty components and dots are of no account, but
for a dot at the start. Paths are ordered component by component (`Path.le`), which is not the order
of their texts: `a/b` comes before `a-b`.
-/

set_option autoImplicit false

namespace ExprFrontEnd

/-- A path as it was written. -/
structure Path where
  text : String
  deriving DecidableEq, Repr

namespace Path

/-- The parts of a text between its slashes. -/
def segments (cs : List Char) : List (List Char) := cs.splitOn '/'

/-- Whether a path starts at the root. -/
def isAbsolute (p : Path) : Bool := p.text.toList.head? == some '/'

/-- Whether a path starts with a dot of its own. -/
def startsWithDot (p : Path) : Bool := (segments p.text.toList).head? == some ['.']

/-- A path inside of another one. A path from the root is not inside of any other. -/
def join (base p : Path) : Path :=
  if p.isAbsolute then p
  else if base.text.isEmpty || base.text.toList.getLast? == some '/' then ⟨base.text ++ p.text⟩
  else ⟨base.text ++ "/" ++ p.text⟩

/-- Whether a part between slashes is of no account. -/
def isIdle (segment : List Char) : Bool := segment.isEmpty || segment == ['.']

/-- The first characters of a path that are not its body: the slash of the root, or the dot that it
starts with. -/
def anchor (p : Path) : List Char :=
  if p.isAbsolute then ['/'] else if p.startsWithDot then ['.'] else []

/-- The parts between slashes behind the anchor. -/
def body (p : Path) : List (List Char) := segments (p.text.toList.drop p.anchor.length)

/-- A list without the parts of no account at its end. -/
def dropIdleEnd (parts : List (List Char)) : List (List Char) :=
  (parts.reverse.dropWhile isIdle).reverse

/-- The path without its last component; nothing if there is none to take away. -/
def parent? (p : Path) : Option Path :=
  let parts := dropIdleEnd p.body
  if parts.isEmpty then
    if p.isAbsolute || p.anchor.isEmpty then none else some ⟨""⟩
  else some ⟨String.ofList (p.anchor ++ ['/'].intercalate (dropIdleEnd parts.dropLast))⟩

/-- The last component, if it is a name. -/
def name? (p : Path) : Option (List Char) :=
  match (dropIdleEnd p.body).getLast? with
  | some last => if last = ['.', '.'] then none else some last
  | none => none

/-- The part of a name behind its last dot, if something stands before that dot. -/
def extensionOf (name : List Char) : Option (List Char) :=
  let behind := name.reverse.takeWhile (· != '.')
  if behind.length + 1 < name.length then some behind.reverse else none

/-- The extension of the last component. -/
def extension? (p : Path) : Option (List Char) := p.name?.bind extensionOf

/-! ### The order of paths -/

/-- A component of a path. -/
inductive Component where
  | root
  | here
  | up
  | name (chars : List Char)
  deriving DecidableEq, Repr

/-- The components of a path. -/
def components (p : Path) : List Component :=
  let start := if p.isAbsolute then [Component.root] else if p.startsWithDot then [.here] else []
  start ++ (p.body.filter fun s => !isIdle s).map fun s => if s = ['.', '.'] then .up else .name s

/-- Text order is the order of code points, which is that of the bytes of UTF-8. -/
def charsLe : List Char → List Char → Bool
  | [], _ => true
  | _ :: _, [] => false
  | a :: as, b :: bs => if a = b then charsLe as bs else decide (a.toNat < b.toNat)

namespace Component

/-- The order of the kinds of components. -/
def rank : Component → Nat
  | root => 0
  | here => 1
  | up => 2
  | name _ => 3

/-- The order of components: by kind, and names as texts. -/
def le (a b : Component) : Bool :=
  match a, b with
  | name s, name t => charsLe s t
  | a, b => decide (a.rank ≤ b.rank)

end Component

/-- The order of lists of components. -/
def componentsLe : List Component → List Component → Bool
  | [], _ => true
  | _ :: _, [] => false
  | a :: as, b :: bs => if a = b then componentsLe as bs else a.le b

/-- The order of paths. -/
def le (p q : Path) : Bool := componentsLe p.components q.components

end Path

end ExprFrontEnd
