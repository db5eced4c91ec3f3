import ServiceGraph.Text.Quoted

/-!
# Templates of source text

A template is text with numbered slots: `$1` takes the fragment with index one, `$*1` takes the
items of a list fragment with commas between them, and `$$` is a dollar sign.

* `Template.Part`: a stretch of text, a slot or a splice;
* `Template.parse`: the parts of a template, or the first dollar sign that begins no token;
* `Template.print`: a template whose parts are the given ones;
* `Template.render`: the parts with fragments in the slots;
* `Fragment`: rendered source, a string still to be quoted, or a list of rendered sources.

A string is quoted when it enters a slot and never again.
-/

namespace ServiceGraph

inductive TemplateError where
  /-- a dollar sign begins no token, at this byte of the template -/
  | invalidToken (position : Nat) (template : String)
  | missing (index : Nat)
  /-- a list stands in a slot -/
  | listInSlot (index : Nat)
  /-- a fragment that is no list is spliced -/
  | scalarInSplice (index : Nat)
deriving DecidableEq, Repr

namespace TemplateError

def message : TemplateError → String
  | invalidToken position template =>
    "invalid token at byte " ++ toString position ++ " in template '" ++ template ++ "'"
  | missing index => "template slot $" ++ toString index ++ " has no fragment"
  | listInSlot index =>
    "fragment " ++ toString index ++ " is a list and must be spliced with $*" ++ toString index
  | scalarInSplice index =>
    "fragment " ++ toString index ++ " is not a list and cannot be spliced"

end TemplateError

inductive Fragment where
  | code (source : String)
  | str (text : String)
  | spread (sources : List String)
deriving DecidableEq, Repr

namespace Template

inductive Part where
  | text (s : String)
  | slot (index : Nat)
  | splice (index : Nat)
deriving DecidableEq, Repr

/-- what follows a dollar sign: a second one, or a slot or splice with the number of characters
it takes -/
inductive Token where
  | dollar
  | part (p : Part) (used : Nat)
deriving DecidableEq, Repr

/-- the number that digits write, when a machine word holds it -/
def index? (digits : List Char) : Option Nat :=
  let n := digits.foldl (fun acc c => acc * 10 + (c.toNat - '0'.toNat)) 0
  if digits = [] then none else if n < Nat.pow 2 64 then some n else none

/-- read what follows a dollar sign -/
def token? : List Char → Option Token
  | '$' :: _ => some .dollar
  | '*' :: rest =>
    let digits := rest.takeWhile Char.isDigit
    (index? digits).map fun i => .part (.splice i) (digits.length + 1)
  | rest =>
    let digits := rest.takeWhile Char.isDigit
    (index? digits).map fun i => .part (.slot i) digits.length

/-- a stretch of text, last character first, as a part unless it is empty -/
def flush (text : List Char) : List Part :=
  if text = [] then [] else [.text (String.ofList text.reverse)]

/-- read the parts from byte `position` on. `skip` characters belong to a token already read,
`text` is the stretch of text so far, last character first. -/
def scan (template : String) (skip position : Nat) (text : List Char) :
    List Char → Except TemplateError (List Part)
  | [] => .ok (flush text)
  | c :: rest =>
    let next := position + c.utf8Size
    match skip with
    | skip + 1 => scan template skip next text rest
    | 0 =>
      if c ≠ '$' then scan template 0 next (c :: text) rest
      else match token? rest with
        | none => .error (.invalidToken position template)
        | some .dollar => scan template 1 next ('$' :: text) rest
        | some (.part p used) => do
          return flush text ++ p :: (← scan template used next [] rest)

def parse (template : String) : Except TemplateError (List Part) :=
  scan template 0 0 [] template.toList

def Part.print : Part → List Char
  | .text s => s.toList.flatMap fun c => if c = '$' then ['$', '$'] else [c]
  | .slot i => '$' :: (toString i).toList
  | .splice i => '$' :: '*' :: (toString i).toList

def print (parts : List Part) : String :=
  String.ofList (parts.flatMap Part.print)

def fillPart (fragments : List Fragment) : Part → Except TemplateError String
  | .text s => .ok s
  | .slot i =>
    match fragments[i]? with
    | some (.code source) => .ok source
    | some (.str s) => .ok (Text.quoted s)
    | some (.spread _) => .error (.listInSlot i)
    | none => .error (.missing i)
  | .splice i =>
    match fragments[i]? with
    | some (.spread sources) => .ok (", ".intercalate sources)
    | some _ => .error (.scalarInSplice i)
    | none => .error (.missing i)

def render (fragments : List Fragment) : List Part → Except TemplateError String
  | [] => .ok ""
  | p :: rest => return (← fillPart fragments p) ++ (← render fragments rest)

def fill (template : String) (fragments : List Fragment) : Except TemplateError String := do
  render fragments (← parse template)

end Template
end ServiceGraph
