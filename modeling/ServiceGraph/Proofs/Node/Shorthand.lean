import ServiceGraph.Node.Reading
import ServiceGraph.Node.Substitution
import ServiceGraph.Proofs.Parameters.KeyExpression

/-!
# Strings that are one parameter

A string `%key%` writes the parameter node of the key; any other string, unless it begins with `@`, writes
itself as a literal. Substitution looks up the key of a parameter node and expands a literal.

* `Node.Dangling`: a string `%key%` whose key ends in a dot, which expansion does not take for a reference;
* `Reading.interpolate_of_plain`, `Parameters.expand_str`: a string without references, and as a value;
* `Node.substitute_ofText_iff`: a string's node becomes the literal of the expanded string, unless the
  string is dangling;
* `Node.dangling_substituted`: a dangling string.
-/

namespace ServiceGraph

namespace Reading

variable {look : String → Expansion Value} {template : String}

theorem segments_of_plain {cs : List Char} (h : '%' ∉ cs) (before : List Char) :
    segments look template 0 before cs = .ok (flush (cs.reverse ++ before)) := by
  induction cs generalizing before with
  | nil => rfl
  | cons c cs ih =>
    obtain ⟨hc, hcs⟩ := not_or.mp (mt List.mem_cons.mpr h)
    rw [segments, if_pos (Ne.symm hc), ih hcs, List.reverse_cons, List.append_assoc]
    rfl

/-- a string without percent signs stands for itself -/
theorem interpolate_of_plain {s : String} (h : '%' ∉ s.toList) : interpolate look s = .ok (.str s) := by
  rw [interpolate_of_flush (segments_of_plain h []), List.append_nil, List.reverse_reverse,
    String.ofList_toList]

end Reading

namespace Parameters

/-- a string as a value is expanded as it is on its own -/
theorem expand_str (p : Parameters) (s : String) : p.expand (.str s) = p.expandText s := by
  rw [expand, Value.expandWith, expandText]
  split
  case isTrue => rfl
  case isFalse h => exact (Reading.interpolate_of_plain (by simpa using h)).symm

end Parameters

namespace Node

/-- a string `%key%` whose key ends in a dot -/
def Dangling (s key : String) : Prop :=
  s.toList = '%' :: (key.toList ++ ['%']) ∧ key.toList.getLast? = some '.' ∧
    ∀ c ∈ key.toList, Reading.keyChar c

theorem wholeKey?_eq_some_iff {cs : List Char} {key : String} :
    wholeKey? cs = some key ↔
      cs = '%' :: (key.toList ++ ['%']) ∧ key.toList ≠ [] ∧ ∀ c ∈ key.toList, Reading.keyChar c := by
  constructor
  · intro h
    unfold wholeKey? at h
    split at h
    case h_2 => cases h
    case h_1 rest =>
      obtain ⟨⟨hlast, hne, hall⟩, hkey⟩ := Option.ite_none_right_eq_some.mp h
      obtain ⟨body, rfl⟩ := List.getLast?_eq_some_iff.mp hlast
      rw [List.dropLast_concat] at hne hall hkey
      cases hkey
      rw [String.toList_ofList]
      exact ⟨rfl, hne, List.all_eq_true.mp hall⟩
  · rintro ⟨rfl, hne, hall⟩
    rw [wholeKey?, if_pos, List.dropLast_concat, String.ofList_toList]
    rw [List.dropLast_concat]
    exact ⟨List.getLast?_concat, hne, List.all_eq_true.mpr hall⟩

/-- only a string that begins with `@` writes something else -/
theorem ofText_of_head {s : String} (h : s.toList.head? ≠ some '@') :
    ofText s = match wholeKey? s.toList with
      | some key => parameter key
      | none => literal (.str s) := by
  rw [ofText]
  split
  case h_1 hs => exact absurd (by rw [hs]; rfl) h
  case h_2 hs => exact absurd (by rw [hs]; rfl) h
  case h_3 hs => exact absurd (by rw [hs]; rfl) h
  case h_4 => rfl

/-- the node of a string `%key%` becomes the literal of the key's value, and its expansion is that value
unless the key ends in a dot -/
theorem substitute_whole {s key : String} (hs : s.toList.head? ≠ some '@')
    (hkey : wholeKey? s.toList = some key) (p : Parameters) :
    (ofText s).substitute p = literal <$> p.find key ∧
    p.expandText s = if key.toList.getLast? = some '.' then .ok (.str s) else p.find key := by
  obtain ⟨htext, hne, hchars⟩ := wholeKey?_eq_some_iff.mp hkey
  have hplain : '%' ∉ key.toList := fun hmem => Reading.ne_percent (hchars _ hmem) rfl
  constructor
  · rw [ofText_of_head hs, hkey]
    show (parameter key).substitute p = _
    rw [substitute, Parameters.get_eq_find hplain]
    rfl
  · have hbody : (KeyExpression.chars key .done).text = key.toList := by
      rw [KeyExpression.text_chars, KeyExpression.text, List.append_nil]
    have hwhole : s = String.ofList (KeyExpression.chars key .done).bracketed.text := by
      rw [KeyExpression.bracketed, KeyExpression.text, hbody, KeyExpression.text, ← htext,
        String.ofList_toList]
    rw [hwhole, Parameters.expandText, KeyExpression.interpolate_bracketed
      (KeyExpression.formed_chars hne hchars) (KeyExpression.undotted_chars key),
      KeyExpression.spelled_of_plain (hbody.symm ▸ hplain), hbody, ← hwhole]
    show (if _ then _ else _) = _
    rw [← htext, String.ofList_toList, String.ofList_toList]
    rfl

theorem Dangling.wholeKey?_eq {s key : String} (h : Dangling s key) : wholeKey? s.toList = some key := by
  refine wholeKey?_eq_some_iff.mpr ⟨h.1, ?_, h.2.2⟩
  rintro hnil
  exact absurd h.2.1 (by rw [hnil]; exact nofun)

/-- **A string that is one parameter.** A string's node becomes the literal of the expanded string unless it
is dangling. A dangling string is expanded to itself, and its node becomes the literal of the key's value. -/
theorem substitute_ofText_iff (s : String) (hs : s.toList.head? ≠ some '@') (p : Parameters) :
    ((ofText s).substitute p = literal <$> p.expandText s ↔
      ∀ key, Dangling s key → p.find key = .ok (.str s)) ∧
    ∀ key, Dangling s key →
      (ofText s).substitute p = literal <$> p.find key ∧ p.expandText s = .ok (.str s) := by
  have hdangling : ∀ key, Dangling s key →
      (ofText s).substitute p = literal <$> p.find key ∧ p.expandText s = .ok (.str s) := by
    intro key hkey
    obtain ⟨hnode, htext⟩ := substitute_whole hs hkey.wholeKey?_eq p
    rw [if_pos hkey.2.1] at htext
    exact ⟨hnode, htext⟩
  refine ⟨⟨fun h key hkey => ?_, fun h => ?_⟩, hdangling⟩
  · obtain ⟨hnode, htext⟩ := hdangling key hkey
    rw [hnode, htext] at h
    cases hfind : p.find key with
    | error e => rw [hfind] at h; cases h
    | ok v => rw [hfind] at h; cases h; rfl
  · cases hwhole : wholeKey? s.toList with
    | none =>
      rw [ofText_of_head hs, hwhole]
      show (literal (.str s)).substitute p = _
      rw [substitute, Parameters.expand_str]
      rfl
    | some key =>
      obtain ⟨hnode, htext⟩ := substitute_whole hs hwhole p
      rw [hnode, htext]
      split
      case isFalse => rfl
      case isTrue hdot =>
        obtain ⟨hlist, -, hchars⟩ := wholeKey?_eq_some_iff.mp hwhole
        rw [h key ⟨hlist, hdot, hchars⟩]

def hosted : Parameters := .ofTree [("db", .map [("host", .str "h")])]

theorem hosted_substituted :
    "%db.host%".toList.head? ≠ some '@' ∧
    (ofText "%db.host%").substitute hosted = literal <$> hosted.expandText "%db.host%" ∧
    hosted.expandText "%db.host%" = .ok (.str "h") := by
  have hhead : "%db.host%".toList.head? ≠ some '@' := by decide +kernel
  refine ⟨hhead, (substitute_ofText_iff "%db.host%" hhead hosted).1.mpr fun key hkey => ?_,
    by decide +kernel⟩
  have hwhole : wholeKey? "%db.host%".toList = some "db.host" := by decide +kernel
  obtain rfl := Option.some.inj (hwhole.symm.trans hkey.wholeKey?_eq)
  exact absurd hkey.2.1 (by decide +kernel)

theorem dangling_substituted :
    "%db.%".toList.head? ≠ some '@' ∧
    (ofText "%db.%").substitute .empty = .error (.unknown "db.") ∧
    Parameters.empty.expandText "%db.%" = .ok (.str "%db.%") :=
  ⟨by decide +kernel, rfl, by decide +kernel⟩

end Node
end ServiceGraph
