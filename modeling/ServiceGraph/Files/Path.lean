import ServiceGraph.Text.Parts

/-!
# Paths as text

A path is a row of names between slashes. A single dot stands for the directory that has been
reached, two dots for the one above it.

* `Path.ofText`: a path taken apart;
* `Path.join`: a path seen from a directory; a path that starts at the root stands for itself;
* `Path.steps`, `Path.parent?`: the names without idle dots, and all of them but the last;
* `Path.absolute?`: the same path from the root on, its double dots kept;
* `Path.comesFirst`: the order of paths, name by name.
-/

namespace ServiceGraph

/-- a path taken apart -/
structure Path where
  rooted : Bool
  /-- the names in order, dots among them -/
  names : List String
  /-- a slash stands at its end, so that it means a directory -/
  closed : Bool
deriving DecidableEq, Repr

namespace Path

def ofText (text : String) : Path :=
  let cs := text.toList
  { rooted := cs.head? = some '/'
    names := ((Text.parts '/' cs).filter (· ≠ [])).map String.ofList
    closed := cs.getLast? = some '/' }

/-- a path seen from a directory -/
def join (base path : String) : String :=
  if path.toList.head? = some '/' then path
  else if base.toList = [] ∨ base.toList.getLast? = some '/' then base ++ path
  else base ++ "/" ++ path

/-- the name stands for a directory that is known without it -/
def isDots (name : String) : Bool := name = "." || name = ".."

/-- the names that lead somewhere; a dot counts only as the start of a path -/
def steps (p : Path) : List String :=
  match p.rooted, p.names with
  | false, "." :: rest => "." :: rest.filter (· ≠ ".")
  | _, names => names.filter (· ≠ ".")

def parent? (p : Path) : Option Path :=
  if p.steps = [] then none else some { p with names := p.steps.dropLast, closed := false }

/-- the same path from the root on, seen from a directory; an empty path has none -/
def absolute? (here path : String) : Option String :=
  let p := ofText path
  let start :=
    if p.rooted then
      match path.toList with
      | '/' :: '/' :: '/' :: _ => "/"
      | '/' :: '/' :: _ => "//"
      | _ => "/"
    else here
  let whole := (p.names.filter (· ≠ ".")).foldl join start
  if path = "" then none else some (if p.closed then join whole "" else whole)

/-- rows of names in order: double dots come before every name -/
def comesFirst : List String → List String → Bool
  | [], _ => true
  | _ :: _, [] => false
  | a :: as, b :: bs =>
    if a = b then comesFirst as bs else a = ".." || (b ≠ ".." && decide (a < b))

end Path
end ServiceGraph
