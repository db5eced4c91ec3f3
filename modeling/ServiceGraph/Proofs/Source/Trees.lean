import ServiceGraph.Proofs.Source.Tokens

/-!
# Source text as trees

What stands between two brackets is read as one tree.

* `Source.Tree`: a token, or trees between brackets; `Tree.flat` are its tokens;
* `Source.grow?`, `Source.trees?`: the trees of tokens and of a text;
* `Source.Reads.trees?_eq`: a text that reads as the tokens of trees has these trees;
* `Source.segments`: what stands between separators;
* `Source.blocks`: what stands between curly brackets, with what stands before them.
-/

namespace ServiceGraph.Source

/-- a token that is no bracket, or what stands between brackets -/
inductive Tree where
  | word (s : String)
  | literal (s : String)
  | mark (c : Char)
  | group (b : Bracket) (inner : List Tree)

mutual

def Tree.flat : Tree → List Token
  | .word s => [.word s]
  | .literal s => [.literal s]
  | .mark c => [.mark c]
  | .group b inner => .opening b :: (flat inner ++ [Token.closing b])

def flat : List Tree → List Token
  | [] => []
  | t :: ts => t.flat ++ flat ts

end

/-- the trees of tokens: around are the brackets that are open, each behind what stands before it -/
def grow? : List (Bracket × List Tree) → List Tree → List Token → Option (List Tree)
  | [], done, [] => some done
  | _ :: _, _, [] => none
  | around, done, .word s :: ts => grow? around (done ++ [Tree.word s]) ts
  | around, done, .literal s :: ts => grow? around (done ++ [.literal s]) ts
  | around, done, .mark c :: ts => grow? around (done ++ [Tree.mark c]) ts
  | around, done, .opening b :: ts => grow? ((b, done) :: around) [] ts
  | [], _, .closing _ :: _ => none
  | (b, before) :: around, done, .closing b' :: ts =>
    if b = b' then grow? around (before ++ [.group b done]) ts else none

/-- the trees of a text whose brackets match -/
def trees? (source : String) : Option (List Tree) := (tokens? source).bind (grow? [] [])

/-! ## tokens of trees -/

@[simp] theorem flat_nil : flat [] = [] := rfl

@[simp] theorem flat_cons (t : Tree) (ts : List Tree) : flat (t :: ts) = t.flat ++ flat ts := rfl

@[simp] theorem flat_word (s : String) : (Tree.word s).flat = [.word s] := rfl

@[simp] theorem flat_literal (s : String) : (Tree.literal s).flat = [.literal s] := rfl

@[simp] theorem flat_mark (c : Char) : (Tree.mark c).flat = [.mark c] := rfl

@[simp] theorem flat_group (b : Bracket) (inner : List Tree) :
    (Tree.group b inner).flat = .opening b :: (flat inner ++ [Token.closing b]) := rfl

@[simp] theorem flat_append (ts us : List Tree) : flat (ts ++ us) = flat ts ++ flat us := by
  induction ts with
  | nil => rfl
  | cons t ts ih => rw [List.cons_append, flat_cons, flat_cons, ih, List.append_assoc]

theorem flat_flatMap {α : Type} (f : α → List Tree) (xs : List α) :
    flat (xs.flatMap f) = xs.flatMap fun x => flat (f x) := by
  induction xs with
  | nil => rfl
  | cons x xs ih => rw [List.flatMap_cons, flat_append, ih, List.flatMap_cons]

theorem flat_intercalate (sep : List Tree) (parts : List (List Tree)) :
    flat (sep.intercalate parts) = (flat sep).intercalate (parts.map flat) := by
  induction parts with
  | nil => rfl
  | cons part parts ih =>
    cases parts with
    | nil => rw [List.map_singleton, List.intercalate_singleton, List.intercalate_singleton]
    | cons next parts =>
      rw [List.intercalate_cons_cons, flat_append, flat_append, ih]
      exact List.intercalate_cons_cons.symm

mutual

theorem grow?_tree (t : Tree) (around : List (Bracket × List Tree)) (done : List Tree)
    (rest : List Token) :
    grow? around done (t.flat ++ rest) = grow? around (done ++ [t]) rest := by
  cases t with
  | word s => rw [flat_word, List.singleton_append, grow?]
  | literal s => rw [flat_literal, List.singleton_append, grow?]
  | mark c => rw [flat_mark, List.singleton_append, grow?]
  | group b inner =>
    rw [flat_group, List.cons_append, List.append_assoc, grow?, grow?_trees inner, List.nil_append,
      List.singleton_append, grow?, if_pos rfl]

theorem grow?_trees (ts : List Tree) (around : List (Bracket × List Tree)) (done : List Tree)
    (rest : List Token) :
    grow? around done (flat ts ++ rest) = grow? around (done ++ ts) rest := by
  cases ts with
  | nil => rw [flat_nil, List.nil_append, List.append_nil]
  | cons t ts =>
    rw [flat_cons, List.append_assoc, grow?_tree t, grow?_trees ts, List.append_assoc,
      List.singleton_append]

end

/-- a text that reads as the tokens of trees has these trees -/
theorem Reads.trees?_eq {s : String} {ts : List Tree} (h : Reads s (flat ts)) :
    trees? s = some ts := by
  have hgrow := grow?_trees ts [] [] []
  rw [List.append_nil, List.nil_append] at hgrow
  rw [trees?, h.tokens?_eq, Option.bind_some, hgrow]
  rfl

/-! ## separators -/

/-- what stands between separators, going on with a segment; nothing behind the last one does not
count -/
def segmentsFrom (sep : Char) (segment : List Tree) : List Tree → List (List Tree)
  | [] => if segment.isEmpty then [] else [segment]
  | .mark c :: ts =>
    if c = sep then segment :: segmentsFrom sep [] ts
    else segmentsFrom sep (segment ++ [Tree.mark c]) ts
  | t :: ts => segmentsFrom sep (segment ++ [t]) ts

def segments (sep : Char) (ts : List Tree) : List (List Tree) := segmentsFrom sep [] ts

theorem segmentsFrom_append {sep : Char} {ts : List Tree} (h : .mark sep ∉ ts)
    (segment rest : List Tree) :
    segmentsFrom sep segment (ts ++ rest) = segmentsFrom sep (segment ++ ts) rest := by
  induction ts generalizing segment with
  | nil => rw [List.nil_append, List.append_nil]
  | cons t ts ih =>
    have htail := ih (fun hmem => h (List.mem_cons_of_mem _ hmem)) (segment ++ [t])
    rw [List.append_assoc, List.singleton_append] at htail
    rw [List.cons_append, ← htail]
    cases t with
    | mark c =>
      have hc : c ≠ sep := by
        rintro rfl
        exact h (List.mem_cons_self ..)
      rw [segmentsFrom, if_neg hc]
    | word s => rfl
    | literal s => rfl
    | group b inner => rfl

theorem segments_append {sep : Char} {ts : List Tree} (h : .mark sep ∉ ts) (rest : List Tree) :
    segments sep (ts ++ .mark sep :: rest) = ts :: segments sep rest := by
  rw [segments, segmentsFrom_append h, List.nil_append, segmentsFrom, if_pos rfl, segments]

/-- one segment without a separator behind it -/
theorem segments_last {sep : Char} {ts : List Tree} (h : .mark sep ∉ ts) (hne : ts ≠ []) :
    segments sep ts = [ts] := by
  have hlast := segmentsFrom_append h [] []
  rw [List.append_nil, List.nil_append] at hlast
  rw [segments, hlast, segmentsFrom, List.isEmpty_eq_false_iff.mpr hne]
  rfl

/-- segments each of which ends with a separator -/
theorem segments_flatMap {α : Type} {sep : Char} {f : α → List Tree} {xs : List α}
    (h : ∀ x ∈ xs, .mark sep ∉ f x) (rest : List Tree) :
    segments sep ((xs.flatMap fun x => f x ++ [Tree.mark sep]) ++ rest) =
      xs.map f ++ segments sep rest := by
  induction xs with
  | nil => rfl
  | cons x xs ih =>
    rw [List.flatMap_cons, List.append_assoc, List.append_assoc, List.singleton_append,
      segments_append (h x (List.mem_cons_self ..)),
      ih fun y hy => h y (List.mem_cons_of_mem _ hy)]
    rfl

/-- segments with separators between them -/
theorem segments_intercalate {sep : Char} {parts : List (List Tree)}
    (h : ∀ part ∈ parts, part ≠ [] ∧ .mark sep ∉ part) :
    segments sep ([Tree.mark sep].intercalate parts) = parts := by
  induction parts with
  | nil => rfl
  | cons part parts ih =>
    obtain ⟨hne, hfree⟩ := h part (List.mem_cons_self ..)
    cases parts with
    | nil => rw [List.intercalate_singleton, segments_last hfree hne]
    | cons next parts =>
      rw [List.intercalate_cons_cons, List.append_assoc, List.singleton_append,
        segments_append hfree, ih fun p hp => h p (List.mem_cons_of_mem _ hp)]

/-! ## blocks -/

/-- what stands between curly brackets behind a header, going on with a header -/
def blocksFrom (header : List Tree) : List Tree → List (List Tree × List Tree)
  | [] => []
  | .group .curly inner :: ts => (header, inner) :: blocksFrom [] ts
  | t :: ts => blocksFrom (header ++ [t]) ts

/-- what stands between curly brackets, behind its header -/
def blocks (ts : List Tree) : List (List Tree × List Tree) := blocksFrom [] ts

/-- nothing here stands between curly brackets -/
def Flowing (ts : List Tree) : Prop := ∀ inner, .group .curly inner ∉ ts

theorem blocksFrom_append {header' : List Tree} (h : Flowing header')
    (header inner rest : List Tree) :
    blocksFrom header (header' ++ .group .curly inner :: rest) =
      (header ++ header', inner) :: blocks rest := by
  induction header' generalizing header with
  | nil => rw [List.nil_append, List.append_nil, blocksFrom, blocks]
  | cons t ts ih =>
    have htail := ih (fun inner hmem => h inner (List.mem_cons_of_mem _ hmem)) (header ++ [t])
    rw [List.append_assoc, List.singleton_append] at htail
    rw [List.cons_append, ← htail]
    cases t with
    | group b inner' =>
      cases b with
      | curly => exact absurd (List.mem_cons_self ..) (h inner')
      | round => rfl
      | square => rfl
    | word s => rfl
    | literal s => rfl
    | mark c => rfl

theorem blocks_append {header : List Tree} (h : Flowing header) (inner rest : List Tree) :
    blocks (header ++ .group .curly inner :: rest) = (header, inner) :: blocks rest :=
  blocksFrom_append h [] inner rest

/-- nothing stands between curly brackets -/
theorem blocks_of_flowing {ts : List Tree} (h : Flowing ts) : blocks ts = [] := by
  have hfrom : ∀ header, blocksFrom header ts = [] := by
    induction ts with
    | nil => exact fun header => rfl
    | cons t ts ih =>
      intro header
      have htail := ih (fun inner hmem => h inner (List.mem_cons_of_mem _ hmem)) (header ++ [t])
      cases t with
      | group b inner =>
        cases b with
        | curly => exact absurd (List.mem_cons_self ..) (h inner)
        | round => exact htail
        | square => exact htail
      | word s => exact htail
      | literal s => exact htail
      | mark c => exact htail
  exact hfrom []

end ServiceGraph.Source
