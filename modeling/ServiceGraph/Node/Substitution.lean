import ServiceGraph.Node.Basic
import ServiceGraph.Parameters.Expansion

/-!
# Putting parameters into nodes

* `Node.substitute`: every parameter node becomes the literal of its value, and every string in a
  literal is expanded; references, callables and methods stay as they are.
-/

namespace ServiceGraph.Node

mutual

/-- a node without parameters -/
def substitute (p : Parameters) : Node → Expansion Node
  | literal v => return literal (← p.expand v)
  | parameter key => return literal (← p.get key)
  | reference id optional => .ok (reference id optional)
  | statement callable args calls => do
    let callable ← match callable with
      | .method target name => do pure (.method (← substitute p target) name)
      | .named name => pure (.named name)
      | .array => pure .array
      | .record keys => pure (.record keys)
    let args ← substituteAll p args
    let calls ← substituteCalls p calls
    return statement callable args calls

def substituteAll (p : Parameters) : List Node → Expansion (List Node)
  | [] => .ok []
  | n :: ns => return (← substitute p n) :: (← substituteAll p ns)

def substituteCalls (p : Parameters) : List MethodCall → Expansion (List MethodCall)
  | [] => .ok []
  | .mk method args :: calls => do
    let args ← substituteAll p args
    return .mk method args :: (← substituteCalls p calls)

end

end ServiceGraph.Node
