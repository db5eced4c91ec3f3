import ServiceGraph.Files.Tree

/-!
# Patterns of file names

In a pattern `?` stands for one character, `*` for any row of characters, `[..]` for one of some
characters and `[!..]` for one of the others; a `**` between slashes stands for any number of
directories.

* `PatternToken`, `PatternToken.accepts`: what one name has to look like;
* `PatternPart`, `PatternPart.ofName?`: the parts of a pattern between its slashes; a part may be
  malformed;
* `Files.matching?`: what a pattern names, in the order of paths.
-/

namespace ServiceGraph

/-- a piece of the pattern of a name -/
inductive PatternToken where
  | char (c : Char)
  | one
  | many
  /-- a character in one of the ranges, or in none of them -/
  | among (wanted : Bool) (ranges : List (Char × Char))
deriving DecidableEq, Repr

namespace PatternToken

def inRanges (ranges : List (Char × Char)) (c : Char) : Bool :=
  ranges.any fun r => decide (r.1 ≤ c) && decide (c ≤ r.2)

/-- what is left of a text after each number of characters -/
def rests : List Char → List (List Char)
  | [] => [[]]
  | c :: cs => (c :: cs) :: rests cs

def accepts : List PatternToken → List Char → Bool
  | [], name => name.isEmpty
  | many :: ts, name => (rests name).any (accepts ts)
  | _ :: _, [] => false
  | char x :: ts, c :: cs => x == c && accepts ts cs
  | one :: ts, _ :: cs => accepts ts cs
  | among wanted ranges :: ts, c :: cs => inRanges ranges c == wanted && accepts ts cs

def ranges : List Char → List (Char × Char)
  | low :: '-' :: high :: rest => (low, high) :: ranges rest
  | c :: rest => (c, c) :: ranges rest
  | [] => []

/-- cut at the bracket that closes; a bracket in front does not -/
def closing? : List Char → Option (List Char × List Char)
  | [] => none
  | c :: rest =>
    match rest.dropWhile (· ≠ ']') with
    | [] => none
    | _ :: after => some (c :: rest.takeWhile (· ≠ ']'), after)

theorem closing?_shorter {s body after : List Char} (h : closing? s = some (body, after)) :
    after.length < s.length := by
  cases s with
  | nil => simp [closing?] at h
  | cons c rest =>
    have hl := (List.dropWhile_sublist (· ≠ ']') (l := rest)).length_le
    simp only [closing?] at h
    split at h
    · simp at h
    · next d r he =>
      rw [he] at hl
      simp only [Option.some.injEq, Prod.mk.injEq] at h
      rw [← h.2]
      simp only [List.length_cons] at hl ⊢
      omega

def brackets? : List Char → Option (PatternToken × List Char)
  | '!' :: rest => (closing? rest).map fun (body, after) => (among false (ranges body), after)
  | rest => (closing? rest).map fun (body, after) => (among true (ranges body), after)

theorem brackets?_shorter {s after : List Char} {t : PatternToken}
    (h : brackets? s = some (t, after)) : after.length < s.length := by
  unfold brackets? at h
  split at h <;> simp only [Option.map_eq_some_iff, Prod.mk.injEq, Prod.exists] at h
  · obtain ⟨body, r, hc, _, rfl⟩ := h
    have := closing?_shorter hc
    simp only [List.length_cons]
    omega
  · obtain ⟨body, r, hc, _, rfl⟩ := h
    exact closing?_shorter hc

/-- the pattern that a name writes; two stars in a row are malformed here -/
def ofName? : List Char → Option (List PatternToken)
  | [] => some []
  | '?' :: rest => (ofName? rest).map (one :: ·)
  | '*' :: '*' :: _ => none
  | '*' :: rest => (ofName? rest).map (many :: ·)
  | '[' :: rest =>
    match h : brackets? rest with
    | none => none
    | some (t, after) =>
      have := brackets?_shorter h
      (ofName? after).map (t :: ·)
  | c :: rest => (ofName? rest).map (char c :: ·)
termination_by s => s.length

/-- the only name that looks like this, if no other character could stand in it -/
def literal? : List PatternToken → Option (List Char)
  | [] => some []
  | char c :: ts => (literal? ts).map (c :: ·)
  | _ => none

end PatternToken

/-- what stands between two slashes of a pattern -/
inductive PatternPart where
  | literal (name : String)
  | wild (tokens : List PatternToken)
  /-- any number of directories -/
  | deep
deriving DecidableEq, Repr

namespace PatternPart

def ofName? (name : List Char) : Option PatternPart :=
  if name = ['*', '*'] then some deep
  else (PatternToken.ofName? name).map fun tokens =>
    match PatternToken.literal? tokens with
    | some name => literal (String.ofList name)
    | none => wild tokens

def ofPattern? (pattern : String) : Option (List PatternPart) :=
  let names := Text.parts '/' pattern.toList.tail
  (if names.getLast? = some [] then names.dropLast else names).mapM ofName?

def accepts : PatternPart → String → Bool
  | literal expected, name => expected == name
  | wild tokens, name => PatternToken.accepts tokens name.toList
  | deep, _ => true

/-- the single and double dots that a part names; only one with a dot in front names them -/
def dots : PatternPart → List String
  | wild (.char '.' :: tokens) =>
    [".", ".."].filter fun name => PatternToken.accepts (.char '.' :: tokens) name.toList
  | _ => []

end PatternPart

namespace Files

/-- what is below a directory, each with the names on the way to it -/
def belowPath (f : Files) (path : String) : List (List String × Entry) :=
  match f.locate path with
  | .ok place => if f.entry? place = some .directory then f.below place else []
  | .error _ => []

/-- the paths that parts of a pattern name, seen from a directory -/
def find (f : Files) : List PatternPart → String → List String
  | [], path => [path]
  | .literal name :: rest, path =>
    let next := Path.join path name
    if (if Path.isDots name then f.isDirectory path else f.exists? next) then f.find rest next
    else []
  | .deep :: .deep :: rest, path => f.find (.deep :: rest) path
  | [.deep], path =>
    (f.belowPath path).filterMap fun (names, entry) =>
      if entry = .directory then some (names.foldl Path.join path) else none
  | .deep :: part :: rest, path =>
    (f.belowPath path).flatMap fun (names, _) =>
      if (names.getLast?.map part.accepts).getD false then
        f.find rest (names.foldl Path.join path) else []
  | part :: rest, path =>
    let children := (f.belowPath path).filterMap fun (names, _) =>
      match names with
      | [name] => if part.accepts name then some name else none
      | _ => none
    let dots := if f.isDirectory path then part.dots else []
    (children ++ dots).flatMap fun name => f.find rest (Path.join path name)

/-- what a pattern that starts at the root names, in order; nothing is given for a malformed
pattern -/
def matching? (f : Files) (pattern : String) : Option (List String) := do
  let parts ← PatternPart.ofPattern? pattern
  let found := if parts = [] then [] else f.find parts "/"
  let found := if (Path.ofText pattern).closed then found.filter f.isDirectory else found
  return found.mergeSort fun a b => Path.comesFirst (Path.ofText a).steps (Path.ofText b).steps

end Files
end ServiceGraph
