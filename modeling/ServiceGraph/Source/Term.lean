import ServiceGraph.Live.Heap
import ServiceGraph.Text.Quoted
import ServiceGraph.Decimal.Numeral

/-!
# Terms of generated source

The expressions that a generated container consists of.

* `Term`: plain data, revived objects, parameters, services, and calls;
* `Term.render`: the text of a term; `library` is the path to the types it uses;
* `Term.ofValueWith`: the term of a value, given the terms of its live objects;
* `Term.unfold`: the term of a live object. An object is written as its exported state, and so are
  the objects in it. No object of a finite heap can be passed twice on the way down unless the
  unfolding has no end, and then there is no term;
* `Term.static`: the term of a value that must not hold live objects.
-/

namespace ServiceGraph

/-- an expression of generated source -/
inductive Term where
  | null
  | bool (b : Bool)
  | int (n : Int64)
  | float (x : Binary64)
  | str (s : String)
  | list (items : List Term)
  | map (entries : List (String × Term))
  | revive (typeName : String) (state : Term)
  | parameter (key : String)
  | service (method : String)
  | construct (name : String) (args : List Term)
  | invoke (receiver : Term) (method : String) (args : List Term)
  | fluent (receiver : Term) (method : String) (args : List Term)
deriving Inhabited

namespace Term

/-- the text of an integer; the least one has no literal -/
def intText (n : Int64) : String :=
  if n = Int64.minValue then "i64::MIN" else toString n.toInt

def floatText (x : Binary64) : String :=
  if x.isNaN then "f64::NAN"
  else if x.isInfinite then (if x.negative then "f64::NEG_INFINITY" else "f64::INFINITY")
  else x.render .literal ++ "_f64"

def commas (parts : List String) : String := ", ".intercalate parts

/-- the text of a map with these pairs; without pairs it has a name of its own -/
def mapText (library : String) (pairs : List String) : String :=
  if pairs = [] then library ++ "::Value::empty_map()"
  else library ++ "::Value::map([" ++ commas pairs ++ "])"

def pairText (key value : String) : String := "(" ++ Text.quoted key ++ ", " ++ value ++ ")"

def callText (function name : String) (args : List String) : String :=
  function ++ "(" ++ Text.quoted name ++ ", vec![" ++ commas args ++ "])?"

mutual

def render (library : String) : Term → String
  | null => library ++ "::Value::Null"
  | bool b => library ++ "::Value::Bool(" ++ (if b then "true" else "false") ++ ")"
  | int n => library ++ "::Value::Int(" ++ intText n ++ ")"
  | float x => library ++ "::Value::Float(" ++ floatText x ++ ")"
  | str s => library ++ "::Value::from(" ++ Text.quoted s ++ ")"
  | list items => library ++ "::Value::List(vec![" ++ commas (renderAll library items) ++ "])"
  | map entries => mapText library (renderEntries library entries)
  | revive typeName state =>
    "self.factories.revive(self, " ++ Text.quoted typeName ++ ", " ++ render library state ++ ")?"
  | parameter key => "self.parameters.get(" ++ Text.quoted key ++ ")?"
  | service method => "self." ++ method ++ "()?"
  | construct name args =>
    "self.factories.invoke(self, " ++ Text.quoted name ++ ", vec![" ++
      commas (renderAll library args) ++ "])?"
  | invoke receiver method args =>
    callText (render library receiver ++ ".invoke") method (renderAll library args)
  | fluent receiver method args =>
    callText (render library receiver ++ ".fluent") method (renderAll library args)

def renderAll (library : String) : List Term → List String
  | [] => []
  | t :: ts => render library t :: renderAll library ts

def renderEntries (library : String) : List (String × Term) → List String
  | [] => []
  | (k, t) :: ts => pairText k (render library t) :: renderEntries library ts

end

/-! ## terms of values -/

mutual

/-- the term of a value; `object` gives the terms of live objects -/
def ofValueWith (object : ObjectId → Option Term) : Value → Option Term
  | .null => some null
  | .bool b => some (bool b)
  | .int n => some (int n)
  | .float x => some (float x)
  | .str s => some (str s)
  | .list items => return list (← ofItems object items)
  | .map entries => return map (← ofEntries object entries)
  | .service id => object id

def ofItems (object : ObjectId → Option Term) : List Value → Option (List Term)
  | [] => some []
  | v :: vs => return (← ofValueWith object v) :: (← ofItems object vs)

def ofEntries (object : ObjectId → Option Term) :
    List (String × Value) → Option (List (String × Term))
  | [] => some []
  | (k, v) :: vs => return (k, ← ofValueWith object v) :: (← ofEntries object vs)

end

/-- the term of a live object, with at most `room` objects inside each other -/
def unfold {σ : Type} (s : Services σ) (h : Heap σ) : (room : Nat) → ObjectId → Option Term
  | 0, _ => none
  | room + 1, id =>
    (ofValueWith (unfold s h room) (h.exportedBy s id)).map (revive (h.typeNameOf s id))

/-- the term of a live object; none when it would hold itself -/
def ofObject {σ : Type} (s : Services σ) (h : Heap σ) : ObjectId → Option Term :=
  unfold s h h.objects.length

mutual

/-- the term of a value without live objects; otherwise the dotted key of the first one, below the
key of the value -/
def static (key : String) : Value → Except String Term
  | .null => .ok null
  | .bool b => .ok (bool b)
  | .int n => .ok (int n)
  | .float x => .ok (float x)
  | .str s => .ok (str s)
  | .list items => return list (← staticItems key items)
  | .map entries => return map (← staticEntries key entries)
  | .service _ => .error key

def staticItems (key : String) : List Value → Except String (List Term)
  | [] => .ok []
  | v :: vs => return (← static key v) :: (← staticItems key vs)

def staticEntries (key : String) : List (String × Value) → Except String (List (String × Term))
  | [] => .ok []
  | (k, v) :: vs => return (k, ← static (key ++ "." ++ k) v) :: (← staticEntries key vs)

end

end Term
end ServiceGraph
