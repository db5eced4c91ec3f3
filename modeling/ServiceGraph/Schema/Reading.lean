import ServiceGraph.Schema
import ServiceGraph.Yaml.Reading

/-!
# Schemas written as documents

A document maps the names of fields to maps with the keys `type`, `required`, `default`, `min`,
`max`, `choices` and `fields`. Only `type` is needed, and other keys are passed over.

* `Schema.ofText?`: the schema that a text holds.
-/

namespace ServiceGraph.Schema

open Yaml (Document Tree Reading)

/-- a shape: its name as a scalar, or as a tag of nothing -/
def readShape (d : Document) (t : Tree) : Reading Shape := do
  match ← Reading.follow d t with
  | .scalar text style tag =>
    if Reading.isLocal tag then
      if style = .plain ∧ Yaml.Plain.isAbsent text then
        StateT.lift (tag.bind fun t => Shape.ofName? (String.ofList (t.toList.drop 1)))
      else failure
    else StateT.lift (Shape.ofName? text)
  | _ => failure

/-- a schema, where lists and maps may be nested `depth` deep -/
def read (d : Document) : (depth : Nat) → Tree → Reading Schema
  | depth + 2, t => do
    let fields ← (← Reading.entries d (depth + 2) t).mapM fun (name, t) => do
      let es ← Reading.entries d (depth + 1) t
      let shape ← Reading.field es "type" none (readShape d)
      let _ ← Reading.field es "description" (some none) (Reading.optional d (Reading.text d))
      let required ← Reading.field es "required" (some false) (Reading.bool d)
      let default ← Reading.field es "default" (some none)
        (Reading.optional d (Reading.value d depth))
      let min ← Reading.field es "min" (some none) (Reading.optional d (Reading.int d))
      let max ← Reading.field es "max" (some none) (Reading.optional d (Reading.int d))
      let choices ← Reading.field es "choices" (some []) fun t => do
        (← Reading.items d depth t).mapM (Reading.text d)
      let fields ← Reading.field es "fields" (some none) (Reading.optional d (read d depth))
      return (name, Field.mk shape required default min max choices fields)
    return OrderedMap.ofList fields
  | depth, t => do
    if (← Reading.entries d depth t).isEmpty then return [] else failure

def ofText? (text : String) : Option Schema :=
  Document.read? (fun d => read d Reading.depth) text

end ServiceGraph.Schema
