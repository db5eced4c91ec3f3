import ServiceGraph.Proofs.Node.Shorthand

/-!
# Values that are taken as they are written

In a configuration `@` and `%` have a meaning at two levels: the one at the start of a string says what
node the string is, the other stands for parameters inside of it. A value of any content can be written
all the same, by escaping both in each of its strings.

* `Reading.doubled`: a text with every percent sign doubled;
* `Value.escaped`: a value with every percent sign in its strings doubled, and one more `@` in front of
  the strings that begin with one;
* `Reading.segments_doubled`, `Parameters.expand_doubled`: doubled percent signs are halved again and
  begin no reference;
* `Node.ofText_escapedText`: an escaped string is a literal;
* `Node.substitute_escaped`: an escaped value is one literal, and becomes the value itself.
-/

namespace ServiceGraph

namespace Reading

variable {look : String → Expansion Value} {template : String}

/-- a text with every percent sign doubled -/
def doubled : List Char → List Char
  | [] => []
  | c :: cs => if c = '%' then '%' :: '%' :: doubled cs else c :: doubled cs

theorem doubled_percent (cs : List Char) : doubled ('%' :: cs) = '%' :: '%' :: doubled cs := rfl

theorem doubled_other {c : Char} (hc : c ≠ '%') (cs : List Char) :
    doubled (c :: cs) = c :: doubled cs := if_neg hc

theorem head?_doubled (cs : List Char) : (doubled cs).head? = cs.head? := by
  cases cs with
  | nil => rfl
  | cons c cs =>
    by_cases hc : c = '%'
    · subst hc
      rfl
    · rw [doubled_other hc, List.head?_cons, List.head?_cons]

theorem segments_doubled (cs before : List Char) :
    segments look template 0 before (doubled cs) = .ok (flush (cs.reverse ++ before)) := by
  induction cs generalizing before with
  | nil => rfl
  | cons c cs ih =>
    rw [List.reverse_cons, List.append_assoc, List.singleton_append]
    by_cases hc : c = '%'
    · subst hc
      rw [doubled_percent, segments, if_neg (not_not.mpr rfl), List.head?_cons, if_pos rfl]
      exact ih _
    · rw [doubled_other hc, segments, if_pos hc]
      exact ih _

end Reading

theorem Parameters.expand_doubled (p : Parameters) (cs : List Char) :
    p.expand (.str (String.ofList (Reading.doubled cs))) = .ok (.str (String.ofList cs)) := by
  have hflush : Reading.segments p.find (String.ofList (Reading.doubled cs)) 0 []
      (String.ofList (Reading.doubled cs)).toList = .ok (Reading.flush cs.reverse) := by
    rw [String.toList_ofList, Reading.segments_doubled, List.append_nil]
  rw [expand_str, expandText, Reading.interpolate_of_flush hflush, List.reverse_reverse]

/-- a string with every percent sign doubled, and one more `@` in front of it if it begins with one -/
def escapedText (s : String) : String :=
  match s.toList with
  | '@' :: rest => String.ofList ('@' :: '@' :: Reading.doubled rest)
  | cs => String.ofList (Reading.doubled cs)

namespace Value

mutual

/-- a value with every string in it escaped; the keys of maps stay -/
def escaped : Value → Value
  | str s => str (escapedText s)
  | list items => list (escapedItems items)
  | map entries => map (escapedEntries entries)
  | v => v

def escapedItems : List Value → List Value
  | [] => []
  | v :: vs => escaped v :: escapedItems vs

def escapedEntries : List (String × Value) → List (String × Value)
  | [] => []
  | (k, v) :: vs => (k, escaped v) :: escapedEntries vs

end

end Value

namespace Node

theorem wholeKey?_doubled (cs : List Char) : wholeKey? (Reading.doubled cs) = none := by
  rw [Option.eq_none_iff_forall_ne_some]
  intro key hkey
  obtain ⟨heq, hne, hchars⟩ := wholeKey?_eq_some_iff.mp hkey
  cases cs with
  | nil => cases heq
  | cons c cs =>
    by_cases hc : c = '%'
    · -- the second percent sign would be the first character of the key
      subst hc
      obtain ⟨first, rest, hfirst⟩ := List.exists_cons_of_ne_nil hne
      rw [Reading.doubled_percent, hfirst] at heq
      have hpercent : '%' = first := (List.cons.inj (List.cons.inj heq).2).1
      exact Reading.ne_percent (hchars first (hfirst ▸ List.mem_cons_self)) hpercent.symm
    · rw [Reading.doubled_other hc] at heq
      exact hc (List.cons.inj heq).1

/-- an escaped string is a literal, in which the percent signs are doubled still -/
theorem ofText_escapedText (s : String) :
    ofText (escapedText s) = literal (.str (String.ofList (Reading.doubled s.toList))) := by
  rw [escapedText]
  split
  case h_1 rest hs =>
    rw [hs, ofText, String.toList_ofList]
    rfl
  case h_2 hs =>
    have hhead : s.toList.head? ≠ some '@' := by
      intro h
      obtain ⟨rest, hrest⟩ := List.head?_eq_some_iff.mp h
      exact hs rest hrest
    rw [ofText_of_head, String.toList_ofList, wholeKey?_doubled]
    rwa [String.toList_ofList, Reading.head?_doubled]

mutual

theorem exists_ofValue_escaped (p : Parameters) (v : Value) :
    ∃ w, ofValue v.escaped = literal w ∧ p.expand w = .ok v := by
  cases v with
  | str s =>
    refine ⟨.str (String.ofList (Reading.doubled s.toList)), ofText_escapedText s, ?_⟩
    rw [Parameters.expand_doubled, String.ofList_toList]
  | list items =>
    obtain ⟨ws, hws, hexpand⟩ := exists_ofValues_escaped p items
    refine ⟨.list ws, ?_, ?_⟩
    · rw [Value.escaped, ofValue, hws, ofItems_literals]
    · rw [Parameters.expand, Value.expandWith, hexpand]
      rfl
  | map entries =>
    obtain ⟨ws, hws, hexpand⟩ := exists_ofFields_escaped p entries
    refine ⟨.map ws, ?_, ?_⟩
    · rw [Value.escaped, ofValue, hws, ofEntries_literals]
    · rw [Parameters.expand, Value.expandWith, hexpand]
      rfl
  | null | bool _ | int _ | float _ | service _ => exact ⟨_, rfl, rfl⟩

theorem exists_ofValues_escaped (p : Parameters) (vs : List Value) :
    ∃ ws, ofValues (Value.escapedItems vs) = ws.map literal ∧ Value.expandItems p.find ws = .ok vs := by
  cases vs with
  | nil => exact ⟨[], rfl, rfl⟩
  | cons v vs =>
    obtain ⟨w, hw, hv⟩ := exists_ofValue_escaped p v
    obtain ⟨ws, hws, hvs⟩ := exists_ofValues_escaped p vs
    refine ⟨w :: ws, ?_, ?_⟩
    · rw [Value.escapedItems, ofValues, hw, hws, List.map_cons]
    · rw [Parameters.expand] at hv
      rw [Value.expandItems, hv, hvs]
      rfl

theorem exists_ofFields_escaped (p : Parameters) (entries : List (String × Value)) :
    ∃ ws, ofFields (Value.escapedEntries entries) = ws.map literalEntry ∧
      Value.expandEntries p.find ws = .ok entries := by
  cases entries with
  | nil => exact ⟨[], rfl, rfl⟩
  | cons e entries =>
    cases e with
    | mk k v =>
      obtain ⟨w, hw, hv⟩ := exists_ofValue_escaped p v
      obtain ⟨ws, hws, hvs⟩ := exists_ofFields_escaped p entries
      refine ⟨(k, w) :: ws, ?_, ?_⟩
      · rw [Value.escapedEntries, ofFields, hw, hws, List.map_cons, literalEntry]
      · rw [Parameters.expand] at hv
        rw [Value.expandEntries, hv, hvs]
        rfl

end

/-- **Every value can be written.** An escaped value is one literal, and with any parameters put in
the literal is the value. -/
theorem substitute_escaped (v : Value) (p : Parameters) :
    ∃ w, ofValue v.escaped = literal w ∧ (literal w).substitute p = .ok (literal v) := by
  obtain ⟨w, hw, hexpand⟩ := exists_ofValue_escaped p v
  refine ⟨w, hw, ?_⟩
  rw [substitute, hexpand]
  rfl

/-- what looks like a reference, an optional one, a parameter and nested parameters -/
example :
    Value.escaped (.list [.str "@a", .str "@?a", .map [("%k%", .str "%k%")], .str "%%a.%b%%"]) =
      .list [.str "@@a", .str "@@?a", .map [("%k%", .str "%%k%%")], .str "%%%%a.%%b%%%%"] := by
  decide +kernel

end Node
end ServiceGraph
