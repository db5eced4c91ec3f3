import Mathlib.Data.List.Find
import Mathlib.Data.List.Induction
import ServiceGraph.Registry.Change

/-!
# The final order of a pipeline

The final order can be read off the contributions. A node stands where it was appended, a key where
it first came and with its last node, an anchor where it was first claimed and with the content
supplied last. When content is supplied does not show.

* `claimed`, `supplies`, `keyedNodes`: the contributions to anchors and under keys; `lastUnder?` is the
  last of those under a name;
* `placedAfter`, `placed`: what stands in the final order;
* `Pipeline.Filled ops`: a pipeline holds what these contributions make; `Filled.change` is one more
  contribution and `filled_of_run` all of them;
* `Pipeline.Filled.outcome`: the final order, or the anchor that prevents it;
* `Pipeline.assembled_in_order`: the result.
-/

namespace ServiceGraph

/-! ## contributions -/

namespace PipelineChange

def claim? : PipelineChange → Option String
  | anchor name => some name
  | _ => none

def supply? : PipelineChange → Option (String × List Node)
  | resolveAnchor name content => some (name, content)
  | _ => none

def keyed? : PipelineChange → Option (String × Node)
  | appendKeyed key node => some (key, node)
  | _ => none

def mention? : PipelineChange → Option String
  | anchor name | resolveAnchor name _ => some name
  | _ => none

end PipelineChange

variable {ops before rest : List PipelineChange} {op : PipelineChange} {name key : String}

def claimed (ops : List PipelineChange) : List String := ops.filterMap PipelineChange.claim?

def supplies (ops : List PipelineChange) : List (String × List Node) :=
  ops.filterMap PipelineChange.supply?

def keyedNodes (ops : List PipelineChange) : List (String × Node) :=
  ops.filterMap PipelineChange.keyed?

/-- the contributions that take a position -/
def placing (ops : List PipelineChange) : List PipelineChange :=
  ops.filter (·.supply?.isNone)

/-- the last value under a name -/
def lastUnder? {α : Type} (pairs : List (String × α)) (name : String) : Option α :=
  pairs.reverse.lookup name

theorem lastUnder?_concat {α : Type} (pairs : List (String × α)) (p : String × α) (name : String) :
    lastUnder? (pairs ++ [p]) name = if p.1 = name then some p.2 else lastUnder? pairs name := by
  rw [lastUnder?, List.reverse_concat, List.lookup_cons]
  by_cases h : p.1 = name
  · rw [if_pos h, beq_iff_eq.mpr h.symm]
  · rw [if_neg h, beq_eq_false_iff_ne.mpr (Ne.symm h), lastUnder?]

theorem lastUnder?_eq_none_iff {α : Type} {pairs : List (String × α)} :
    lastUnder? pairs name = none ↔ name ∉ pairs.map Prod.fst := by
  rw [lastUnder?, List.lookup_eq_none_iff]
  simp only [List.mem_reverse, bne_iff_ne, List.mem_map, not_exists, not_and, ne_comm]

/-! ## the order that they make -/

/-- what a contribution puts at its position, when these are the last nodes under keys and the contents
supplied last, and `before` came before -/
def PipelineChange.standing (node? : String → Option Node) (content? : String → Option (List Node))
    (before : List PipelineChange) : PipelineChange → List Node
  | append node => [node]
  | appendKeyed key _ =>
    if key ∈ (keyedNodes before).map Prod.fst then [] else (node? key).toList
  | anchor name => if name ∈ claimed before then [] else (content? name).getD []
  | resolveAnchor _ _ | touch => []

/-- what the contributions `rest` put at their positions after those `before` -/
def placedAfter (node? : String → Option Node) (content? : String → Option (List Node))
    (before : List PipelineChange) : List PipelineChange → List Node
  | [] => []
  | op :: rest => op.standing node? content? before ++ placedAfter node? content? (before ++ [op]) rest

/-- the final order: nodes where they were appended, each key where it first came and with its last node,
each anchor where it was first claimed and with the content supplied last -/
def placed (ops : List PipelineChange) : List Node :=
  placedAfter (lastUnder? (keyedNodes ops)) (lastUnder? (supplies ops)) [] ops

theorem keyedNodes_placing (ops : List PipelineChange) : keyedNodes (placing ops) = keyedNodes ops := by
  induction ops with
  | nil => rfl
  | cons op ops ih =>
    cases op with
    | resolveAnchor name content => exact ih
    | touch => exact ih
    | append node => exact ih
    | appendKeyed key node => exact congrArg ((key, node) :: ·) ih
    | anchor name => exact ih

theorem claimed_placing (ops : List PipelineChange) : claimed (placing ops) = claimed ops := by
  induction ops with
  | nil => rfl
  | cons op ops ih =>
    cases op with
    | resolveAnchor name content => exact ih
    | touch => exact ih
    | append node => exact ih
    | appendKeyed key node => exact ih
    | anchor name => exact congrArg (name :: ·) ih

/-- supplying content takes no position -/
theorem placedAfter_placing (node? : String → Option Node) (content? : String → Option (List Node))
    (before rest : List PipelineChange) :
    placedAfter node? content? (placing before) (placing rest) =
      placedAfter node? content? before rest := by
  induction rest generalizing before with
  | nil => rfl
  | cons op rest ih =>
    have hstanding : op.standing node? content? (placing before) =
        op.standing node? content? before := by
      cases op <;> simp only [PipelineChange.standing, keyedNodes_placing, claimed_placing]
    have hbefore : placing (before ++ [op]) = placing before ++ placing [op] := List.filter_append ..
    rw [placedAfter, ← ih (before ++ [op]), hbefore]
    cases op with
    | resolveAnchor name content =>
      show placedAfter node? content? (placing before) (placing rest) =
        placedAfter node? content? (placing before ++ []) (placing rest)
      rw [List.append_nil]
    | touch | append | appendKeyed | anchor =>
      rw [← hstanding]
      rfl

theorem placed_eq_of_placing {ops' : List PipelineChange} (hplacing : placing ops' = placing ops)
    (hsupplies : ∀ a, lastUnder? (supplies ops') a = lastUnder? (supplies ops) a) :
    placed ops' = placed ops := by
  rw [placed, placed, ← placedAfter_placing, ← placedAfter_placing _ _ [] ops, hplacing,
    ← keyedNodes_placing ops', hplacing, keyedNodes_placing, funext hsupplies]

namespace Pipeline

variable {p p' : Pipeline} {done : List String} {node? : String → Option Node}

/-! ## the entries that they make -/

/-- the entry of a contribution, when these are the last nodes under keys and `before` came before -/
def entryOf (node? : String → Option Node) (before : List PipelineChange) :
    PipelineChange → List Entry
  | .append node => [.item none node]
  | .appendKeyed key _ =>
    if key ∈ (keyedNodes before).map Prod.fst then [] else ((node? key).map (.item (some key))).toList
  | .anchor name => [.anchor name]
  | .resolveAnchor _ _ | .touch => []

/-- the entries of the contributions `rest` after those `before` -/
def entriesAfter (node? : String → Option Node) (before : List PipelineChange) :
    List PipelineChange → List Entry
  | [] => []
  | op :: rest => entryOf node? before op ++ entriesAfter node? (before ++ [op]) rest

theorem entriesAfter_append (node? : String → Option Node) (before rest more : List PipelineChange) :
    entriesAfter node? before (rest ++ more) =
      entriesAfter node? before rest ++ entriesAfter node? (before ++ rest) more := by
  induction rest generalizing before with
  | nil => simp [entriesAfter]
  | cons op rest ih => simp [entriesAfter, ih]

theorem keyedNodes_concat (ops : List PipelineChange) (op : PipelineChange) :
    keyedNodes (ops ++ [op]) = keyedNodes ops ++ op.keyed?.toList := by
  rw [keyedNodes, List.filterMap_append]
  cases op <;> rfl

/-- where a key has its position already, another node under it changes no entry -/
theorem entriesAfter_update {node : Node}
    (hkey : key ∈ (keyedNodes rest).map Prod.fst → key ∈ (keyedNodes before).map Prod.fst) :
    entriesAfter (Function.update node? key (some node)) before rest =
      entriesAfter node? before rest := by
  induction rest generalizing before with
  | nil => rfl
  | cons op rest ih =>
    have hhere : entryOf (Function.update node? key (some node)) before op =
        entryOf node? before op := by
      cases op with
      | appendKeyed k old =>
        by_cases hk : k = key
        · subst hk
          have hbefore := hkey List.mem_cons_self
          rw [entryOf, entryOf, if_pos hbefore, if_pos hbefore]
        · rw [entryOf, entryOf, Function.update_of_ne hk]
      | touch | append | anchor | resolveAnchor => rfl
    rw [entriesAfter, entriesAfter, hhere, ih]
    intro hrest
    rw [keyedNodes_concat, List.map_append]
    apply List.mem_append_left
    apply hkey
    cases op with
    | appendKeyed k old => exact List.mem_cons_of_mem _ hrest
    | touch | append | anchor | resolveAnchor => exact hrest

/-- a node under a key that is there takes its position -/
theorem placeKeyed_of_mem {node : Node} (hsome : (node? key).isSome)
    (hbefore : key ∉ (keyedNodes before).map Prod.fst) (hrest : key ∈ (keyedNodes rest).map Prod.fst) :
    placeKeyed key node (entriesAfter node? before rest) =
      entriesAfter (Function.update node? key (some node)) before rest := by
  induction rest generalizing before with
  | nil => cases hrest
  | cons op rest ih =>
    cases op with
    | appendKeyed k old =>
      by_cases hk : k = key
      · obtain ⟨last, hlast⟩ := Option.isSome_iff_exists.mp hsome
        have hlater : key ∈ (keyedNodes (before ++ [PipelineChange.appendKeyed key old])).map Prod.fst := by
          rw [keyedNodes_concat, List.map_append]
          exact List.mem_append_right _ (List.mem_singleton_self key)
        rw [hk, entriesAfter, entriesAfter, entryOf, entryOf, if_neg hbefore, if_neg hbefore, hlast,
          Function.update_self, entriesAfter_update fun _ => hlater]
        simp [placeKeyed]
      · have hbefore' : key ∉ (keyedNodes (before ++ [PipelineChange.appendKeyed k old])).map Prod.fst := by
          rw [keyedNodes_concat, List.map_append]
          simpa [PipelineChange.keyed?, Ne.symm hk] using hbefore
        have hrest' : key ∈ (keyedNodes rest).map Prod.fst := by
          simpa [keyedNodes, PipelineChange.keyed?, Ne.symm hk] using hrest
        rw [entriesAfter, entriesAfter, entryOf, entryOf, Function.update_of_ne hk, ← ih hbefore' hrest']
        split
        · rfl
        · cases node? k with
          | none => rfl
          | some last => simp [placeKeyed, hk]
    | touch | append | anchor | resolveAnchor =>
      rw [entriesAfter, entriesAfter, ← ih _ hrest]
      · rfl
      · rw [keyedNodes_concat]
        simpa [PipelineChange.keyed?] using hbefore

/-- a node under a new key goes last -/
theorem placeKeyed_of_not_mem {node : Node} {entries : List Entry}
    (hnew : ∀ old, .item (some key) old ∉ entries) :
    placeKeyed key node entries = entries ++ [Entry.item (some key) node] := by
  induction entries with
  | nil => rfl
  | cons e entries ih =>
    have hrest : ∀ old, .item (some key) old ∉ entries :=
      fun old hold => hnew old (List.mem_cons_of_mem _ hold)
    cases e with
    | anchor name => rw [placeKeyed, ih hrest, List.cons_append]
    | item k old =>
      have hk : k ≠ some key := by
        rintro rfl
        exact hnew old List.mem_cons_self
      rw [placeKeyed, if_neg hk, ih hrest, List.cons_append]

/-! ## what the contributions make -/

/-- the pipeline is open and holds the entries that the contributions make, and of each anchor the content
supplied last. The anchors are known in the order in which they were first mentioned. -/
structure Filled (name : String) (ops : List PipelineChange) (p : Pipeline) : Prop where
  isOpen : p.assembled = false
  name : p.name = name
  entries : p.entries = entriesAfter (lastUnder? (keyedNodes ops)) [] ops
  distinct : p.anchors.Distinct
  content : ∀ a, (p.anchorOf a).content = lastUnder? (supplies ops) a
  mentioned : ∀ q : String → Bool,
    p.anchors.keys.find? q = (ops.filterMap PipelineChange.mention?).find? q

theorem filled_empty (name : String) : Filled name [] (.empty name) where
  isOpen := rfl
  name := rfl
  entries := rfl
  distinct := List.nodup_nil
  content _ := rfl
  mentioned _ := rfl

theorem anchorOf_insert (p : Pipeline) (name : String) (anchor : Anchor) (a : String) :
    anchorOf { p with anchors := p.anchors.insert name anchor } a =
      if name = a then anchor else p.anchorOf a := by
  rw [anchorOf, OrderedMap.get?_insert]
  by_cases h : name = a
  · rw [if_pos h, if_pos h, Option.getD_some]
  · rw [if_neg h, if_neg h, anchorOf]

/-- an entry for a contribution that puts nothing under a key -/
theorem entriesAfter_concat (hkeyed : op.keyed? = none) :
    entriesAfter (lastUnder? (keyedNodes (ops ++ [op]))) [] (ops ++ [op]) =
      entriesAfter (lastUnder? (keyedNodes ops)) [] ops ++
        entryOf (lastUnder? (keyedNodes ops)) ops op := by
  rw [keyedNodes_concat, hkeyed, Option.toList_none, List.append_nil, entriesAfter_append]
  simp [entriesAfter]

theorem not_mem_entriesAfter (hkey : key ∉ (keyedNodes rest).map Prod.fst) (node : Node) :
    .item (some key) node ∉ entriesAfter node? before rest := by
  induction rest generalizing before with
  | nil => exact List.not_mem_nil
  | cons op rest ih =>
    rw [entriesAfter, List.mem_append, not_or]
    cases op with
    | appendKeyed k old =>
      have hsplit : key ≠ k ∧ key ∉ (keyedNodes rest).map Prod.fst := by
        simpa [keyedNodes, PipelineChange.keyed?] using hkey
      refine ⟨?_, ih hsplit.2⟩
      rw [entryOf]
      split
      · exact List.not_mem_nil
      · cases node? k <;> simp [hsplit.1]
    | touch | append | anchor | resolveAnchor =>
      refine ⟨?_, ih hkey⟩
      simp [entryOf]

/-- an entry for a node under a key -/
theorem placeKeyed_concat (key : String) (node : Node) (ops : List PipelineChange) :
    placeKeyed key node (entriesAfter (lastUnder? (keyedNodes ops)) [] ops) =
      entriesAfter (lastUnder? (keyedNodes (ops ++ [PipelineChange.appendKeyed key node]))) []
        (ops ++ [PipelineChange.appendKeyed key node]) := by
  have hlast : lastUnder? (keyedNodes (ops ++ [PipelineChange.appendKeyed key node])) =
      Function.update (lastUnder? (keyedNodes ops)) key (some node) := by
    funext k
    rw [keyedNodes_concat]
    show lastUnder? (keyedNodes ops ++ [(key, node)]) k = _
    rw [lastUnder?_concat]
    by_cases hk : key = k
    · rw [if_pos hk, hk, Function.update_self]
    · rw [if_neg hk, Function.update_of_ne (Ne.symm hk)]
  rw [hlast, entriesAfter_append, List.nil_append]
  by_cases hkey : key ∈ (keyedNodes ops).map Prod.fst
  · have hsome : (lastUnder? (keyedNodes ops) key).isSome := by
      rw [← Option.ne_none_iff_isSome, ne_eq, lastUnder?_eq_none_iff, Classical.not_not]
      exact hkey
    rw [placeKeyed_of_mem hsome List.not_mem_nil hkey]
    simp [entriesAfter, entryOf, hkey]
  · have hsame : entriesAfter (Function.update (lastUnder? (keyedNodes ops)) key (some node)) [] ops =
        entriesAfter (lastUnder? (keyedNodes ops)) [] ops :=
      entriesAfter_update fun hmem => absurd hmem hkey
    rw [placeKeyed_of_not_mem (not_mem_entriesAfter hkey), hsame]
    simp [entriesAfter, entryOf, hkey]

/-- one more contribution; an open pipeline accepts every one -/
theorem Filled.change (h : Filled name ops p) (op : PipelineChange) :
    ∃ p', p.change op = .ok p' ∧ Filled name (ops ++ [op]) p' := by
  have hopen : p.ensureOpen = .ok () := by
    rw [ensureOpen, h.isOpen]
    rfl
  have hentries : op.keyed? = none → p.entries ++ entryOf (lastUnder? (keyedNodes ops)) ops op =
      entriesAfter (lastUnder? (keyedNodes (ops ++ [op]))) [] (ops ++ [op]) := by
    intro hkeyed
    rw [entriesAfter_concat hkeyed, h.entries]
  have hsupplies : supplies (ops ++ [op]) = supplies ops ++ op.supply?.toList := by
    rw [supplies, List.filterMap_append]
    cases op <;> rfl
  have hmentions : (ops ++ [op]).filterMap PipelineChange.mention? =
      ops.filterMap PipelineChange.mention? ++ op.mention?.toList := by
    rw [List.filterMap_append]
    cases op <;> rfl
  have hcontent : op.supply? = none →
      ∀ a, (p.anchorOf a).content = lastUnder? (supplies (ops ++ [op])) a := by
    intro hnone a
    rw [hsupplies, hnone, Option.toList_none, List.append_nil]
    exact h.content a
  have hmentioned : op.mention? = none → ∀ q, p.anchors.keys.find? q =
      ((ops ++ [op]).filterMap PipelineChange.mention?).find? q := by
    intro hnone q
    rw [hmentions, hnone, Option.toList_none, List.append_nil]
    exact h.mentioned q
  have hinserted : ∀ a anchor, op.mention? = some a → ∀ q,
      (p.anchors.insert a anchor).keys.find? q =
        ((ops ++ [op]).filterMap PipelineChange.mention?).find? q := by
    intro a anchor hsome q
    rw [hmentions, hsome, Option.toList_some, OrderedMap.find?_keys_insert, List.find?_append, h.mentioned,
      List.find?_append]
  -- `touch` leaves the pipeline alone; the others differ in which of the three logs they enter
  cases op with
  | touch =>
    refine ⟨p, rfl, h.isOpen, h.name, ?_, h.distinct, hcontent rfl, hmentioned rfl⟩
    rw [← hentries rfl]
    exact (List.append_nil _).symm
  | append node =>
    refine ⟨{ p with entries := p.entries ++ [Entry.item none node] }, ?_, h.isOpen, h.name, hentries rfl,
      h.distinct, hcontent rfl, hmentioned rfl⟩
    rw [Pipeline.change, append, hopen]
    rfl
  | appendKeyed key node =>
    refine ⟨{ p with entries := placeKeyed key node p.entries }, ?_, h.isOpen, h.name, ?_, h.distinct,
      hcontent rfl, hmentioned rfl⟩
    · rw [Pipeline.change, appendKeyed, hopen]
      rfl
    · show placeKeyed key node p.entries = _
      rw [h.entries, placeKeyed_concat]
  | anchor a =>
    refine ⟨{ p with
        entries := p.entries ++ [Entry.anchor a]
        anchors := p.anchors.insert a (p.anchorOf a) }, ?_, h.isOpen, h.name, hentries rfl,
      h.distinct.insert _ _, fun b => ?_, hinserted a _ rfl⟩
    · rw [Pipeline.change, anchor, hopen]
      rfl
    · rw [← hcontent rfl b]
      have hsame := anchorOf_insert { p with entries := p.entries ++ [Entry.anchor a] } a (p.anchorOf a) b
      rw [hsame]
      by_cases hb : a = b
      · rw [if_pos hb, hb]
      · rw [if_neg hb]
        rfl
  | resolveAnchor a nodes =>
    refine ⟨{ p with anchors := p.anchors.insert a ⟨some nodes, .resolved⟩ }, ?_, h.isOpen, h.name, ?_,
      h.distinct.insert _ _, fun b => ?_, hinserted a _ rfl⟩
    · rw [Pipeline.change, resolveAnchor, hopen]
      rfl
    · rw [← hentries rfl]
      exact (List.append_nil _).symm
    · rw [anchorOf_insert, hsupplies]
      show _ = lastUnder? (supplies ops ++ [(a, nodes)]) b
      rw [lastUnder?_concat]
      by_cases hb : a = b
      · rw [if_pos hb, if_pos hb]
      · rw [if_neg hb, if_neg hb, h.content]

def run (name : String) (ops : List PipelineChange) : Except AssemblyError Pipeline :=
  ops.foldlM Pipeline.change (.empty name)

theorem exists_run (name : String) (ops : List PipelineChange) :
    ∃ p, run name ops = .ok p ∧ Filled name ops p := by
  induction ops using List.reverseRecOn with
  | nil => exact ⟨.empty name, rfl, filled_empty name⟩
  | append_singleton ops op ih =>
    obtain ⟨p, hp, hfilled⟩ := ih
    obtain ⟨p', hp', hfilled'⟩ := hfilled.change op
    refine ⟨p', ?_, hfilled'⟩
    rw [run, List.foldlM_append]
    show (run name ops >>= fun p => [op].foldlM Pipeline.change p) = _
    rw [hp]
    show (p.change op >>= fun p => pure p) = _
    rw [hp']
    rfl

/-! ## the final order -/

theorem mem_entriesAfter_iff {a : String} :
    .anchor a ∈ entriesAfter node? before rest ↔ a ∈ claimed rest := by
  induction rest generalizing before with
  | nil => simp [entriesAfter, claimed]
  | cons op rest ih =>
    rw [entriesAfter, List.mem_append, ih]
    cases op with
    | anchor b => simp [entryOf, claimed, PipelineChange.claim?]
    | appendKeyed key node =>
      have hitems : .anchor a ∉ entryOf node? before (.appendKeyed key node) := by
        rw [entryOf]
        split
        · exact List.not_mem_nil
        · cases node? key <;> simp
      simp [hitems, claimed, PipelineChange.claim?]
    | touch | append | resolveAnchor => simp [entryOf, claimed, PipelineChange.claim?]

/-- of the anchors that are mentioned, those that were claimed do not count -/
theorem find?_mentioned {q : String → Bool} (hclaimed : ∀ a ∈ claimed ops, q a = false) :
    (ops.filterMap PipelineChange.mention?).find? q = ((supplies ops).map Prod.fst).find? q := by
  induction ops with
  | nil => rfl
  | cons op ops ih =>
    cases op with
    | anchor a =>
      obtain ⟨ha, hops⟩ := List.forall_mem_cons.mp hclaimed
      show (a :: ops.filterMap PipelineChange.mention?).find? q = ((supplies ops).map Prod.fst).find? q
      rw [List.find?_cons_of_neg (by simpa using ha)]
      exact ih hops
    | resolveAnchor a nodes =>
      show (a :: ops.filterMap PipelineChange.mention?).find? q =
        (a :: (supplies ops).map Prod.fst).find? q
      rw [List.find?_cons, List.find?_cons, ih hclaimed]
    | touch | append | appendKeyed => exact ih hclaimed

/-- the first anchor that was given content and never claimed -/
theorem Filled.unreferenced?_eq (h : Filled name ops p) :
    p.unreferenced? = ((supplies ops).map Prod.fst).find? (· ∉ claimed ops) := by
  let q : String → Bool := fun a => (lastUnder? (supplies ops) a).isSome && decide (a ∉ claimed ops)
  have hanchors : ∀ x ∈ p.anchors, (x.2.content.isSome && !p.references x.1) = q x.1 := by
    intro x hx
    have hcontent : x.2.content = lastUnder? (supplies ops) x.1 := by
      rw [← h.content, anchorOf, h.distinct.get?_of_mem hx, Option.getD_some]
    have hreferences : p.references x.1 = decide (x.1 ∈ claimed ops) := by
      rw [references, List.contains_eq_mem, h.entries]
      exact decide_eq_decide.mpr mem_entriesAfter_iff
    simp [q, hcontent, hreferences]
  have hclaimed : ∀ a ∈ claimed ops, q a = false := by
    intro a ha
    simp [q, ha]
  have hsupplied : ∀ a ∈ (supplies ops).map Prod.fst, q a = decide (a ∉ claimed ops) := by
    intro a ha
    have hsome : (lastUnder? (supplies ops) a).isSome := by
      rw [← Option.ne_none_iff_isSome, ne_eq, lastUnder?_eq_none_iff, Classical.not_not]
      exact ha
    simp [q, hsome]
  calc p.unreferenced?
      = (p.anchors.find? (q ∘ Prod.fst)).map Prod.fst := by
        rw [unreferenced?, List.find?_congr hanchors]
        rfl
    _ = p.anchors.keys.find? q := by rw [OrderedMap.keys, List.find?_map]
    _ = (ops.filterMap PipelineChange.mention?).find? q := h.mentioned q
    _ = ((supplies ops).map Prod.fst).find? q := find?_mentioned hclaimed
    _ = ((supplies ops).map Prod.fst).find? (· ∉ claimed ops) := List.find?_congr hsupplied

/-- these nodes, or the anchor that has no content -/
def placedUnless (name : String) (missing? : Option String) (nodes : List Node) :
    Except AssemblyError (List Node) :=
  match missing? with
  | some a => .error (.unresolvedAnchor name a)
  | none => .ok nodes

theorem map_placedUnless (name : String) (missing? : Option String) (first nodes : List Node) :
    (placedUnless name missing? nodes).map (first ++ ·) =
      placedUnless name missing? (first ++ nodes) := by
  cases missing? <;> rfl

theorem spliced_item (p : Pipeline) (done : List String) (k : Option String) (node : Node)
    (entries : List Entry) :
    p.spliced done (.item k node :: entries) = (p.spliced done entries).map ([node] ++ ·) := by
  rw [spliced]
  cases p.spliced done entries <;> rfl

theorem spliced_anchor {a : String} (hnew : a ∉ done) (entries : List Entry) :
    p.spliced done (.anchor a :: entries) =
      match (p.anchorOf a).content with
      | none => .error (.unresolvedAnchor p.name a)
      | some nodes => (p.spliced (a :: done) entries).map (nodes ++ ·) := by
  rw [spliced, if_neg (by simpa using hnew)]
  cases (p.anchorOf a).content with
  | none => rfl
  | some nodes =>
    dsimp only
    cases p.spliced (a :: done) entries <;> rfl

/-- splicing the contents in gives the final order, or the first anchor that has none; `done` are the
anchors claimed before -/
theorem spliced_entriesAfter {content? : String → Option (List Node)}
    (hcontent : ∀ a, (p.anchorOf a).content = content? a)
    (hdone : ∀ a, a ∈ done ↔ a ∈ claimed before) (hsome : ∀ a ∈ done, (content? a).isSome) :
    p.spliced done (entriesAfter node? before rest) =
      placedUnless p.name ((claimed rest).find? fun a => (content? a).isNone)
        (placedAfter node? content? before rest) := by
  -- by induction on the contributions to come; the claims of `done` are those of `before`
  induction rest generalizing before done with
  | nil => rfl
  | cons op rest ih =>
    have hclaimed : claimed (before ++ [op]) = claimed before ++ claimed [op] :=
      List.filterMap_append ..
    have hkeep : claimed [op] = [] → ∀ a, a ∈ done ↔ a ∈ claimed (before ++ [op]) := by
      intro hnone a
      rw [hclaimed, hnone, List.append_nil]
      exact hdone a
    rw [entriesAfter, placedAfter]
    cases op with
    | touch | resolveAnchor => exact ih (hkeep rfl) hsome
    | append node =>
      rw [entryOf, List.singleton_append, spliced_item, ih (hkeep rfl) hsome, map_placedUnless]
      rfl
    | appendKeyed key node =>
      rw [entryOf, PipelineChange.standing]
      split
      · exact ih (hkeep rfl) hsome
      · cases node? key with
        | none => exact ih (hkeep rfl) hsome
        | some last =>
          rw [Option.map_some, Option.toList_some, List.singleton_append, spliced_item,
            ih (hkeep rfl) hsome, map_placedUnless]
          rfl
    | anchor a =>
      rw [entryOf, List.singleton_append, PipelineChange.standing]
      show _ = placedUnless p.name ((a :: claimed rest).find? fun a => (content? a).isNone) _
      by_cases ha : a ∈ done
      -- claimed before: it stands already, and its contents are known
      · obtain ⟨nodes, hnodes⟩ := Option.isSome_iff_exists.mp (hsome a ha)
        have hdone' : ∀ b, b ∈ done ↔ b ∈ claimed (before ++ [PipelineChange.anchor a]) := by
          intro b
          rw [hclaimed, List.mem_append, ← hdone b]
          refine ⟨.inl, fun hb => hb.elim id fun hb => ?_⟩
          rw [List.mem_singleton.mp hb]
          exact ha
        rw [spliced, if_pos (by simpa using ha), if_pos ((hdone a).mp ha), List.nil_append,
          List.find?_cons_of_neg (by simp [hnodes])]
        exact ih hdone' hsome
      -- claimed here first, so its contents are what decides
      · have hnew : a ∉ claimed before := fun hmem => ha ((hdone a).mpr hmem)
        rw [spliced_anchor ha, if_neg hnew, hcontent]
        cases hnodes : content? a with
        | none =>
          rw [List.find?_cons_of_pos (by simp [hnodes])]
          rfl
        | some nodes =>
          have hdone' : ∀ b, b ∈ a :: done ↔ b ∈ claimed (before ++ [PipelineChange.anchor a]) := by
            intro b
            rw [hclaimed, List.mem_append, ← hdone b, List.mem_cons, Or.comm]
            exact or_congr_right List.mem_singleton.symm
          have hsome' : ∀ b ∈ a :: done, (content? b).isSome := by
            refine List.forall_mem_cons.mpr ⟨?_, hsome⟩
            rw [hnodes]
            rfl
          dsimp only
          rw [ih hdone' hsome', map_placedUnless, List.find?_cons_of_neg (by simp [hnodes])]
          rfl

/-- the final order of what the contributions make, or the anchor that prevents it -/
theorem Filled.outcome (h : Filled name ops p) : p.assemble.map Prod.fst =
    match ((supplies ops).map Prod.fst).find? (· ∉ claimed ops) with
    | some a => .error (.unreferencedAnchor name a)
    | none =>
      placedUnless name ((claimed ops).find? fun a => (lastUnder? (supplies ops) a).isNone)
        (placed ops) := by
  have hopen : p.ensureOpen = .ok () := by
    rw [ensureOpen, h.isOpen]
    rfl
  have hspliced : p.spliced [] p.entries =
      placedUnless p.name ((claimed ops).find? fun a => (lastUnder? (supplies ops) a).isNone)
        (placed ops) := by
    rw [h.entries]
    exact spliced_entriesAfter h.content (fun a => Iff.rfl) nofun
  rw [assemble, hopen, ← h.unreferenced?_eq, ← h.name, ← hspliced]
  show Except.map Prod.fst (match p.unreferenced? with
    | some name => _
    | none => _) = _
  cases p.unreferenced? with
  | some a => rfl
  | none =>
    dsimp only
    cases p.spliced [] p.entries <;> rfl

/-- there is a final order when the anchors that are claimed are those that were given content -/
theorem Filled.assemble_eq_ok_iff (h : Filled name ops p) {nodes : List Node} :
    p.assemble.map Prod.fst = .ok nodes ↔
      (∀ a, a ∈ claimed ops ↔ a ∈ (supplies ops).map Prod.fst) ∧ nodes = placed ops := by
  have hclaimed : (((supplies ops).map Prod.fst).find? (· ∉ claimed ops)) = none ↔
      ∀ a ∈ (supplies ops).map Prod.fst, a ∈ claimed ops := by
    simp only [List.find?_eq_none, decide_eq_true_eq, Classical.not_not]
  have hsupplied : ((claimed ops).find? fun a => (lastUnder? (supplies ops) a).isNone) = none ↔
      ∀ a ∈ claimed ops, a ∈ (supplies ops).map Prod.fst := by
    simp only [List.find?_eq_none, Option.isNone_iff_eq_none, lastUnder?_eq_none_iff,
      Classical.not_not]
  have hboth : (∀ a, a ∈ claimed ops ↔ a ∈ (supplies ops).map Prod.fst) ↔
      (∀ a ∈ (supplies ops).map Prod.fst, a ∈ claimed ops) ∧
        ∀ a ∈ claimed ops, a ∈ (supplies ops).map Prod.fst :=
    ⟨fun h => ⟨fun a => (h a).mpr, fun a => (h a).mp⟩, fun h a => ⟨h.2 a, h.1 a⟩⟩
  rw [h.outcome, hboth, ← hclaimed, ← hsupplied]
  cases ((supplies ops).map Prod.fst).find? (· ∉ claimed ops) with
  | some a => exact ⟨nofun, nofun⟩
  | none =>
    dsimp only
    cases (claimed ops).find? fun a => (lastUnder? (supplies ops) a).isNone with
    | some a => exact ⟨nofun, nofun⟩
    | none => exact ⟨fun h => ⟨⟨rfl, rfl⟩, (Except.ok.inj h).symm⟩, fun h => congrArg _ h.2.symm⟩

/-- when contents were supplied does not show, if the last of each anchor is the same -/
theorem Filled.toOption_eq {ops' : List PipelineChange} (h : Filled name ops p)
    (h' : Filled name ops' p') (hplacing : placing ops' = placing ops)
    (hsupplies : ∀ a, lastUnder? (supplies ops') a = lastUnder? (supplies ops) a) :
    (p'.assemble.map Prod.fst).toOption = (p.assemble.map Prod.fst).toOption := by
  have hclaimed : claimed ops' = claimed ops := by
    rw [← claimed_placing, hplacing, claimed_placing]
  have hsupplied : ∀ a, a ∈ (supplies ops').map Prod.fst ↔ a ∈ (supplies ops).map Prod.fst := by
    intro a
    rw [← not_iff_not, ← lastUnder?_eq_none_iff, ← lastUnder?_eq_none_iff, hsupplies]
  have hsome : ∀ {x : Except AssemblyError (List Node)} {nodes : List Node},
      x.toOption = some nodes ↔ x = .ok nodes := by
    intro x nodes
    cases x <;> simp [Except.toOption]
  apply Option.ext
  intro nodes
  rw [hsome, hsome, h.assemble_eq_ok_iff, h'.assemble_eq_ok_iff, hclaimed,
    placed_eq_of_placing hplacing hsupplies]
  simp only [hsupplied]

/-- when contents were supplied does not show at all, if they came in the same order -/
theorem Filled.assemble_eq {ops' : List PipelineChange} (h : Filled name ops p)
    (h' : Filled name ops' p') (hplacing : placing ops' = placing ops)
    (hsupplies : supplies ops' = supplies ops) :
    p'.assemble.map Prod.fst = p.assemble.map Prod.fst := by
  have hclaimed : claimed ops' = claimed ops := by
    rw [← claimed_placing, hplacing, claimed_placing]
  rw [h.outcome, h'.outcome, hclaimed, hsupplies,
    placed_eq_of_placing hplacing fun a => by rw [hsupplies]]

/-- **The final order is that of the contributions.** A new pipeline accepts any contributions. It can be
assembled exactly when the anchors that are claimed are those that were given content, and the final order
is then the one that is placed. Contributions that differ in when contents are supplied give the same
order, or none in both cases, and where the contents come in the same order also the same error. -/
theorem assembled_in_order (name : String) (ops : List PipelineChange) :
    ∃ p, run name ops = .ok p ∧
      ((∃ r, p.assemble = .ok r) ↔ ∀ a, a ∈ claimed ops ↔ a ∈ (supplies ops).map Prod.fst) ∧
      (∀ nodes last, p.assemble = .ok (nodes, last) → nodes = placed ops) ∧
      ∀ ops' p', run name ops' = .ok p' → placing ops' = placing ops →
        ((∀ a, lastUnder? (supplies ops') a = lastUnder? (supplies ops) a) →
          (p'.assemble.map Prod.fst).toOption = (p.assemble.map Prod.fst).toOption) ∧
        (supplies ops' = supplies ops → p'.assemble.map Prod.fst = p.assemble.map Prod.fst) := by
  obtain ⟨p, hp, h⟩ := exists_run name ops
  refine ⟨p, hp, ⟨?_, ?_⟩, ?_, ?_⟩
  · rintro ⟨⟨nodes, last⟩, hok⟩
    exact (h.assemble_eq_ok_iff.mp (congrArg (Except.map Prod.fst) hok)).1
  · intro hiff
    have hok := h.assemble_eq_ok_iff.mpr ⟨hiff, rfl⟩
    cases hr : p.assemble with
    | ok r => exact ⟨r, rfl⟩
    | error e =>
      rw [hr] at hok
      cases hok
  · intro nodes last hok
    exact (h.assemble_eq_ok_iff.mp (congrArg (Except.map Prod.fst) hok)).2
  · intro ops' p' hp' hplacing
    obtain ⟨q, hq, h'⟩ := exists_run name ops'
    cases hp'.symm.trans hq
    exact ⟨h.toOption_eq h' hplacing, h.assemble_eq h' hplacing⟩

/-- `auth` is replaced in place, and the content of `x` comes after its first claim and is replaced -/
def suppliedLate : List PipelineChange :=
  [ .appendKeyed "auth" (.literal (.int 1)), .anchor "x", .append (.literal (.int 2)),
    .resolveAnchor "x" [.literal (.int 8)], .anchor "x", .appendKeyed "auth" (.literal (.int 3)),
    .resolveAnchor "x" [.literal (.int 9), .literal (.int 10)] ]

/-- the same, where the content of `x` comes first -/
def suppliedEarly : List PipelineChange :=
  [ .resolveAnchor "x" [.literal (.int 9), .literal (.int 10)],
    .appendKeyed "auth" (.literal (.int 1)), .anchor "x", .append (.literal (.int 2)), .anchor "x",
    .appendKeyed "auth" (.literal (.int 3)) ]

theorem supplied_early_and_late : ∃ p p',
    run "http" suppliedLate = .ok p ∧ run "http" suppliedEarly = .ok p' ∧
      (p'.assemble.map Prod.fst).toOption = (p.assemble.map Prod.fst).toOption ∧
      p.assemble.map Prod.fst = .ok [.literal (.int 3), .literal (.int 9), .literal (.int 10),
        .literal (.int 2)] := by
  obtain ⟨p, hp, -, -, hlate⟩ := assembled_in_order "http" suppliedLate
  obtain ⟨p', hp', -⟩ := assembled_in_order "http" suppliedEarly
  have hsame := hlate suppliedEarly p' hp' rfl
  have hsupplied : supplies suppliedLate =
      [("x", [.literal (.int 8)]), ("x", [.literal (.int 9), .literal (.int 10)])] := rfl
  have hsupplied' : supplies suppliedEarly = [("x", [.literal (.int 9), .literal (.int 10)])] := rfl
  refine ⟨p, p', hp, hp', hsame.1 fun a => ?_, ?_⟩
  · rw [hsupplied, hsupplied']
    by_cases ha : a = "x"
    · rw [ha]
      rfl
    · simp [lastUnder?, List.lookup_cons, beq_eq_false_iff_ne.mpr ha]
  · cases hp
    rfl

end Pipeline
end ServiceGraph
