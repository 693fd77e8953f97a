/-!
# Paths

A path is the text that a user gives, cut at every slash. Empty segments come from doubled or
trailing slashes and from the slash in front of an absolute path; they are kept, because a message
repeats the text as it was given, and because a trailing slash asks for a directory.

`components` is the path without the segments that do not move: this is what paths are ordered by.
-/

namespace BenchGate

/-- A path, cut at its slashes. -/
structure Path where
  /-- The texts between the slashes. -/
  segments : List String
  deriving DecidableEq

namespace Path

/-- Cuts a text at its slashes. -/
def ofText (text : String) : Path := ⟨(text.toList.splitOn '/').map String.ofList⟩

/-- The text of a path. -/
def toText (p : Path) : String := "/".intercalate p.segments

/-- Whether the path starts at the root rather than in the working directory. -/
def isAbsolute (p : Path) : Bool :=
  match p.segments with
  | "" :: _ :: _ => true
  | _ => false

/-- Whether the text of the path is empty. -/
def isEmpty (p : Path) : Bool := p.segments = [""]

/-- A segment that stays where it is. -/
def stays (segment : String) : Bool := segment = "" ∨ segment = "."

/-- Follows `p` by `q`; an absolute `q` stands alone. -/
def join (p q : Path) : Path :=
  if q.isAbsolute then q
  else if p.segments.getLast? = some "" then ⟨p.segments.dropLast ++ q.segments⟩
  else ⟨p.segments ++ q.segments⟩

/-- Appends to the text of a path. -/
def appendText (p : Path) (suffix : String) : Path :=
  ⟨p.segments.dropLast ++ [p.segments.getLastD "" ++ suffix]⟩

/-! ## Components -/

/-- A step of a path. The order of the constructors is the order of paths. -/
inductive Component where
  | root
  | here
  | up
  | name (text : String)
  deriving DecidableEq

/-- The component that a segment behind the first one stands for, if it moves. -/
def componentOf? (segment : String) : Option Component :=
  if stays segment then none
  else if segment = ".." then some .up
  else some (.name segment)

/-- The steps of a path. -/
def components (p : Path) : List Component :=
  match p.segments with
  | [] => []
  | first :: rest =>
    let start :=
      if p.isAbsolute then some .root
      else if first = "." then some .here
      else componentOf? first
    start.toList ++ rest.filterMap componentOf?

/-- The name that a path ends in, unless it ends by going up or staying. -/
def fileName? (p : Path) : Option String :=
  match p.components.getLast? with
  | some (.name text) => some text
  | _ => none

/-- Drops the segments at the end that stay, but not the first segment. -/
def trimEnd : List String → List String
  | [] => []
  | first :: rest => first :: (rest.reverse.dropWhile stays).reverse

/-- The path without its last step, if there is one to take away. -/
def parent? (p : Path) : Option Path :=
  match p.components.getLast? with
  | none => none
  | some .root => none
  | some _ =>
    match trimEnd (trimEnd p.segments).dropLast with
    | [] => some ⟨[""]⟩
    | [first] => some ⟨if p.isAbsolute then [first, ""] else [first]⟩
    | segments => some ⟨segments⟩

/-! ## Order -/

/-- Places a component in the order; names follow the bytes of their text. -/
def Component.rank : Component → Nat
  | root => 0
  | here => 1
  | up => 2
  | name _ => 3

/-- Whether a component comes before another one or is equal to it. -/
def Component.le : Component → Component → Bool
  | name s, name t => s ≤ t
  | a, b => a.rank ≤ b.rank

/-- Whether a list of components comes before another one or is equal to it. -/
def componentsLe : List Component → List Component → Bool
  | [], _ => true
  | _ :: _, [] => false
  | a :: as, b :: bs => if a = b then componentsLe as bs else a.le b

/-- The order of paths, component by component. -/
def le (p q : Path) : Bool := componentsLe p.components q.components

end Path

end BenchGate
