/-!
# Lines on a terminal

What a run prints is a list of lines, and a line a list of spans of one style. Whether the terminal
shows colours is decided only when the lines are rendered.
-/

namespace BenchGate

/-- How a span is shown. -/
inductive Style where
  | plain
  /-- A heading: bright white. -/
  | heading
  /-- A success: bold bright green. -/
  | good
  /-- A failure: bold bright red. -/
  | bad
  /-- A warning: bold bright yellow. -/
  | caution
  /-- A raised flag: bright red. -/
  | raised
  /-- A flag that is not raised: green. -/
  | lowered
  deriving DecidableEq

/-- The terminal code of a style that has one. -/
def Style.code? : Style → Option String
  | plain => none
  | heading => some "97"
  | good => some "1;92"
  | bad => some "1;91"
  | caution => some "1;93"
  | raised => some "91"
  | lowered => some "32"

/-- A piece of a line in one style. -/
structure Span where
  style : Style
  text : String
  deriving DecidableEq

/-- A line, without its end. -/
abbrev Line := List Span

/-- A line in the plain style. -/
def plainLine (text : String) : Line := [⟨.plain, text⟩]

/-- A line with nothing in it. -/
def blankLine : Line := []

/-- A span with or without its colour. -/
def Span.render (colour : Bool) (s : Span) : String :=
  match s.style.code? with
  | some code => if colour then s!"\x1b[{code}m{s.text}\x1b[0m" else s.text
  | none => s.text

/-- A line with its end. -/
def renderLine (colour : Bool) (line : Line) : String :=
  String.join (line.map (Span.render colour)) ++ "\n"

/-- Lines, each with its end. -/
def renderLines (colour : Bool) (lines : List Line) : String :=
  String.join (lines.map (renderLine colour))

/--
Whether to show colours: as the environment forces or forbids them, else on a terminal that is not
asked to do without. A setting counts as off when it is zero.
-/
def wantsColour (force forbid allow : Option String) (onTerminal : Bool) : Bool :=
  if force.isSome ∧ force ≠ some "0" then true
  else if forbid.isSome then false
  else allow ≠ some "0" && onTerminal

/-- Texts with numbers in front, from one. -/
def numberedFrom (n : Nat) : List String → List String
  | [] => []
  | text :: texts => s!"{n}. {text}" :: numberedFrom (n + 1) texts

/-- Texts with numbers in front. -/
def numbered (texts : List String) : List String := numberedFrom 1 texts

/-- A rule of a number of signs. -/
def rule (width : Nat) : String := String.ofList (List.replicate width '=')

end BenchGate
