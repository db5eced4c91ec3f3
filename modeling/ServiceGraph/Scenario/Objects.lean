import ServiceGraph.Container.Basic

/-!
# Objects for scenarios

Two kinds of live objects with which a scenario fills a container.

* `SampleObject.bag`: a named list of values. It grows by `push`, is read by `len`, `items` and
  `get`, makes other bags by `make`, passes a call on by `call`, and refuses by `fail`;
* `SampleObject.plain`: an object without state that answers no call;
* `Sample.services`: how both behave;
* `SampleBehavior`: constructors that give values and such objects.
-/

namespace ServiceGraph

inductive SampleObject where
  | bag (typeName : String) (items : List Value)
  | plain (typeName : String)
deriving Repr

namespace SampleObject

def typeName : SampleObject → String
  | bag typeName _ => typeName
  | plain typeName => typeName

def exported : SampleObject → Value
  | bag _ items => .list items
  | plain _ => .null

def itemAt (items : List Value) (position : Option Value) : Value :=
  match position.bind Value.int? with
  | some n => if 0 ≤ n then (items[n.toInt.toNat]?).getD .null else .null
  | none => .null

def firstText (args : List Value) (missing : String) : String :=
  (args.head?.bind Value.text?).getD missing

/-- answer a call. `room` bounds how often the call is passed on; each time takes two of the
arguments away. -/
def answer : (room : Nat) → (busy : List ObjectId) → ObjectId → SampleObject → String →
    List Value → Heap SampleObject → Heap.Outcome SampleObject
  | room, busy, self, bag name items, method, args, h =>
    match method with
    | "push" => (.ok .null, h.put self (.custom (bag name (items ++ args))))
    | "len" => (.ok (.int (Int64.ofNat items.length)), h)
    | "items" => (.ok (.list items), h)
    | "get" => (.ok (itemAt items args.head?), h)
    | "make" => h.create (.custom (bag (name ++ ".made") args))
    | "call" =>
      match room with
      | 0 => (.error (.notAService "" Value.null.kind), h)
      | room + 1 =>
        h.invokeWith (answer room) busy (args.head?.getD .null) (firstText (args.drop 1) "")
          (args.drop 2)
    | "fail" => (.error (.invalidArgument (name ++ "::fail") (firstText args "failed")), h)
    | _ => (.error (.unknownMethod name method), h)
  | _, _, _, plain name, method, _, h => (.error (.unknownMethod name method), h)

end SampleObject

def Sample.services : Services SampleObject :=
  { typeName := SampleObject.typeName
    exported := SampleObject.exported
    call := fun busy self o method args h => o.answer (args.length + 1) busy self method args h }

/-- what a constructor of a scenario gives -/
inductive SampleBehavior where
  | list
  | first
  | null
  | bag
  | plain
  /-- a bag of the items of the first argument -/
  | revive
  /-- a refusal worded by the first argument -/
  | fail
  /-- what the container answers to the question that the arguments ask -/
  | lookup
deriving DecidableEq, Repr

namespace SampleBehavior

def ofName? (name : String) : Option SampleBehavior :=
  match name with
  | "list" => some list
  | "first" => some first
  | "null" => some null
  | "bag" => some bag
  | "plain" => some plain
  | "revive" => some revive
  | "fail" => some fail
  | "lookup" => some lookup
  | _ => none

def ask (l : Lookup) (question argument : String) : Construction SampleObject :=
  match question with
  | "get" => .get argument .done
  | "has" => .done (.ok (.bool (l.has argument)))
  | "tagged" => .done (.ok (.map (l.tagged argument)))
  | "ids_by_type" => .done (.ok (.list ((l.idsByType argument).map .str)))
  | "parameter" => .done (l.parameter argument)
  | "unique_by_type" => .done ((l.uniqueByType argument).map .str)
  | "commands" => .done (.ok (.list (l.commands.map .str)))
  | "get_by_type" =>
    match l.uniqueByType argument with
    | .ok id => .get id .done
    | .error e => .done (.error e)
  | _ => .done (.ok .null)

def run (name : String) (b : SampleBehavior) (l : Lookup) (args : List Value) :
    Construction SampleObject :=
  match b with
  | list => .done (.ok (.list args))
  | first => .done (.ok (args.head?.getD .null))
  | null => .done (.ok .null)
  | bag => .create (.custom (.bag name args))
  | plain => .create (.custom (.plain name))
  | revive => .create (.custom (.bag name ((args.head?.map Value.items).getD [])))
  | fail =>
    .done (.error (.invalidArgument name (SampleObject.firstText args "failed")))
  | lookup => ask l (SampleObject.firstText args "") (SampleObject.firstText (args.drop 1) "")

def constructor (name : String) (arity : Arity) (b : SampleBehavior) :
    Constructor SampleObject :=
  ⟨arity, b.run name⟩

end SampleBehavior
end ServiceGraph
