import ServiceGraph.Config.Basic
import ServiceGraph.Yaml.Reading

/-!
# Configurations written as documents

The keys `parameters` and `includes` of a document have their own meaning; every other key is a
section.

* `AppConfig.ofText`: the configuration that a text holds. A blank text holds an empty one.
-/

namespace ServiceGraph.AppConfig

open Yaml (Document Tree Reading)

def read (d : Document) (t : Tree) : Reading AppConfig := do
  let es ← Reading.entries d Reading.depth t
  let parameters ← Reading.field es "parameters" (some []) fun t => do
    (← Reading.entries d (Reading.depth - 1) t).mapM fun (k, t) => do
      return (k, ← Reading.value d (Reading.depth - 2) t)
  let includes ← Reading.field es "includes" (some []) fun t => do
    (← Reading.items d (Reading.depth - 1) t).mapM (Reading.text d)
  let sections := es.filter fun e => !(["parameters", "includes"].contains e.1)
  let sections ← sections.mapM fun (k, t) => do
    return (k, ← Reading.value d (Reading.depth - 1) t)
  return {
    parameters := OrderedMap.ofList parameters
    includes
    sections := OrderedMap.ofList sections
    sources := [] }

/-- a character that may fill a blank text -/
def isSpace (c : Char) : Bool :=
  let n := c.toNat
  (9 ≤ n && n ≤ 13) || n == 0x20 || n == 0x85 || n == 0xa0 || n == 0x1680 ||
    (0x2000 ≤ n && n ≤ 0x200a) || n == 0x2028 || n == 0x2029 || n == 0x202f || n == 0x205f ||
    n == 0x3000

/-- the configuration that a text holds; errors name the origin of the text -/
def ofText (origin text : String) : Except LoadError AppConfig :=
  if text.toList.all isSpace then .ok empty
  else match Document.read? read text with
    | some c => .ok c
    | none => .error (.yaml origin)

end ServiceGraph.AppConfig
