import ServiceGraph.Scenario.Reply

/-!
# Scenarios of parameters

* `ParameterStep`: a step on parameters;
* `ParameterStep.perform`: a step carried out.
-/

namespace ServiceGraph

inductive ParameterStep where
  | set (key : String) (value : Value)
  | merge (incoming : OrderedMap Value)
  | get (key : String)
  | raw (key : String)
  | expand (v : Value)
  | expandText (template : String)
  | resolve
  | resolveInPlace
  /-- begin again with the parameters that a value writes -/
  | ofValue (v : Value)
  | ofResolved (v : Value)
  | tree
  | isEmpty

namespace ParameterStep

def perform (s : ParameterStep) (p : Parameters) : Except Fault Reply × Parameters :=
  let replace (p : Parameters) : Except Fault Reply × Parameters := (.ok (.parameters p), p)
  let value (result : Expansion Value) : Except Fault Reply × Parameters :=
    ((result.mapError .parameter).map .value, p)
  match s with
  | set key v => replace (p.set key v)
  | merge incoming => replace (p.merge incoming)
  | get key => value (p.get key)
  | raw key => (.ok (.list ((p.raw? key).toList.map .value)), p)
  | expand v => value (p.expand v)
  | expandText template => value (p.expandText template)
  | resolve => ((p.resolve.mapError .parameter).map .parameters, p)
  | resolveInPlace =>
    match p.resolve with
    | .ok p => replace p
    | .error e => (.error (.parameter e), p)
  | ofValue v => replace (Parameters.ofValue v)
  | ofResolved v => replace (Parameters.ofResolved v)
  | tree => (.ok (.parameters p), p)
  | isEmpty => (.ok (.flag p.isEmpty), p)

/-- carry a step out next to live objects, which stay as they are -/
def answer (h : Heap SampleObject) (s : ParameterStep) (p : Parameters) : Answer × Parameters :=
  let (result, p) := s.perform p
  (.of h result, p)

end ParameterStep
end ServiceGraph
