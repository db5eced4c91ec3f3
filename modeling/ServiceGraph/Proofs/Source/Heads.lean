import ServiceGraph.Proofs.Source.Names
import ServiceGraph.Proofs.Source.Spelled
import Mathlib.Data.List.Infix

/-!
# How a term begins

A term is a value, something that the container is asked for, or calls on one of these. The text
begins accordingly.

* `Term.Legible`: no float in a term is NaN, and its services are called by method names;
* `Term.Head`, `Term.head`: what a term begins with;
* `Term.head_eq`: two texts that begin alike begin with the same head;
* `PostCall`, `Term.extend`: a term with calls on it;
* `Term.exists_extend`: every term is one without calls, with calls on it.
-/

namespace ServiceGraph

/-- a call on a term: whether its result is what goes on, the method and the arguments -/
structure PostCall where
  fluent : Bool
  method : String
  args : List Term

namespace Term

mutual

/-- a term with numbers and method names in it -/
def Legible : Term → Prop
  | null | bool _ | int _ | str _ | parameter _ => True
  | float x => x.isNaN = false
  | service m => Compile.MethodName m
  | revive _ state => Legible state
  | list ts | construct _ ts => LegibleAll ts
  | map es => LegibleEntries es
  | invoke receiver _ ts | fluent receiver _ ts => Legible receiver ∧ LegibleAll ts

def LegibleAll : List Term → Prop
  | [] => True
  | t :: ts => Legible t ∧ LegibleAll ts

def LegibleEntries : List (String × Term) → Prop
  | [] => True
  | (_, t) :: es => Legible t ∧ LegibleEntries es

end

/-! ## the head of a term -/

/-- what the text of a term begins with -/
inductive Head where
  | null
  | bool
  | int
  | float
  | str
  | list
  | emptyMap
  | map
  | revive
  | parameter
  | service
  | construct
deriving DecidableEq

namespace Head

/-- a value is built with the library, anything else with the container itself -/
def ofLibrary : Head → Bool
  | null | bool | int | float | str | list | emptyMap | map => true
  | revive | parameter | service | construct => false

/-- what follows the library or the container -/
def word : Head → List Char
  | null => ":Value::Null".toList
  | bool => ":Value::Bool(".toList
  | int => ":Value::Int(".toList
  | float => ":Value::Float(".toList
  | str => ":Value::from(".toList
  | list => ":Value::List(".toList
  | emptyMap => ":Value::empty_map()".toList
  | map => ":Value::map(".toList
  | revive => "factories.revive(".toList
  | parameter => "parameters.get(".toList
  | service => "service_".toList
  | construct => "factories.invoke(".toList

/-- the text up to where heads differ -/
def opening (lib : List Char) (h : Head) (rest : List Char) : List Char :=
  if h.ofLibrary then lib ++ ':' :: (h.word ++ rest) else "self.".toList ++ (h.word ++ rest)

/-- on either side no word begins like another one -/
theorem eq_of_word_begins (h k : Head) :
    h.ofLibrary = k.ofLibrary → h.word <+: k.word → h = k := by
  cases h <;> cases k <;> decide

theorem library_ne_self {library : String} (hlib : IsPath library) (a b : List Char) :
    library.toList ++ ':' :: a ≠ "self.".toList ++ b :=
  append_stop_ne_self (fun c hc => (hlib c hc).1) (by decide) a b

theorem opening_inj {library : String} (hlib : IsPath library) {h k : Head} {a b : List Char}
    (heq : h.opening library.toList a = k.opening library.toList b) : h = k := by
  have hwords : h.ofLibrary = k.ofLibrary ∧ h.word ++ a = k.word ++ b := by
    unfold opening at heq
    split at heq
    · next hh =>
      split at heq
      · next hk => exact ⟨hh.trans hk.symm, (List.cons.inj (List.append_cancel_left heq)).2⟩
      · exact absurd heq (library_ne_self hlib _ _)
    · next hh =>
      split at heq
      · exact absurd heq.symm (library_ne_self hlib _ _)
      · next hk =>
        refine ⟨?_, List.append_cancel_left heq⟩
        rw [Bool.not_eq_true] at hh hk
        exact hh.trans hk.symm
  obtain ⟨hside, hwords⟩ := hwords
  have hh : h.word <+: k.word ++ b := hwords ▸ List.prefix_append _ _
  rcases List.prefix_or_prefix_of_prefix hh (List.prefix_append _ _) with hp | hp
  · exact eq_of_word_begins h k hside hp
  · exact (eq_of_word_begins k h hside.symm hp).symm

end Head

/-- what the text of a term begins with; calls stand behind -/
def head : Term → Head
  | null => .null
  | bool _ => .bool
  | int _ => .int
  | float _ => .float
  | str _ => .str
  | list _ => .list
  | map es => if es.isEmpty then .emptyMap else .map
  | revive _ _ => .revive
  | parameter _ => .parameter
  | service _ => .service
  | construct _ _ => .construct
  | invoke receiver _ _ | fluent receiver _ _ => head receiver

theorem exists_opening (lib : List Char) : (t : Term) → t.Legible → (r : List Char) →
    ∃ rest, t.write lib r = t.head.opening lib rest
  | null, _, r => ⟨r, rfl⟩
  | bool _, _, _ => ⟨_, rfl⟩
  | int _, _, _ => ⟨_, rfl⟩
  | float _, _, _ => ⟨_, rfl⟩
  | str _, _, _ => ⟨_, rfl⟩
  | list ts, _, r => ⟨"vec![".toList ++ writeItems lib ts (']' :: ')' :: r), rfl⟩
  | map [], _, r => ⟨r, rfl⟩
  | map (e :: es), _, r => ⟨'[' :: writeEntries lib (e :: es) (']' :: ')' :: r), rfl⟩
  | revive typeName state, _, r =>
    ⟨"self, ".toList ++ ((Text.quoted typeName).toList ++
      (", ".toList ++ state.write lib (')' :: '?' :: r))), rfl⟩
  | parameter _, _, _ => ⟨_, rfl⟩
  | service m, hm, r => by
    obtain ⟨rest, hrest, -⟩ := hm
    refine ⟨rest ++ ("()?".toList ++ r), ?_⟩
    show "self.".toList ++ (m.toList ++ ("()?".toList ++ r)) = _
    rw [hrest, List.append_assoc]
    rfl
  | construct name ts, _, r =>
    ⟨"self, ".toList ++ ((Text.quoted name).toList ++
      (", vec![".toList ++ writeItems lib ts (']' :: ')' :: '?' :: r))), rfl⟩
  | invoke receiver _ _, h, _ => exists_opening lib receiver h.1 _
  | fluent receiver _ _, h, _ => exists_opening lib receiver h.1 _

/-- two terms in front of one text have one head -/
theorem head_eq {library : String} (hlib : IsPath library) {t u : Term} (ht : t.Legible)
    (hu : u.Legible) {a b : List Char}
    (h : t.write library.toList a = u.write library.toList b) : t.head = u.head := by
  obtain ⟨x, hx⟩ := exists_opening library.toList t ht a
  obtain ⟨y, hy⟩ := exists_opening library.toList u hu b
  exact Head.opening_inj hlib (hx.symm.trans (h.trans hy))

/-- a term does not begin like the end of a list -/
theorem write_ne_close {library : String} (hlib : IsPath library) {t : Term} (ht : t.Legible)
    (a b : List Char) : t.write library.toList a ≠ ']' :: b := by
  obtain ⟨x, hx⟩ := exists_opening library.toList t ht a
  have hclose : ∀ c ∈ library.toList, c ≠ ']' := fun c hc => (hlib c hc).2.2
  rw [hx]
  unfold Head.opening
  split
  · match library.toList, hclose with
    | [], _ => exact fun h => nomatch h
    | c :: _, hclose => exact fun h => hclose c (by simp) (List.cons.inj h).1
  · exact fun h => nomatch h

/-! ## calls on a term -/

def call (t : Term) : PostCall → Term
  | ⟨false, method, ts⟩ => invoke t method ts
  | ⟨true, method, ts⟩ => fluent t method ts

def extend (t : Term) (calls : List PostCall) : Term := calls.foldl call t

def callWord : Bool → List Char
  | false => ".invoke(".toList
  | true => ".fluent(".toList

def writeCall (lib : List Char) (c : PostCall) (r : List Char) : List Char :=
  callWord c.fluent ++ ((Text.quoted c.method).toList ++
    (", vec![".toList ++ writeItems lib c.args (']' :: ')' :: '?' :: r)))

theorem exists_callWord (fluent : Bool) (r : List Char) :
    ∃ r', callWord fluent ++ r = '.' :: r' := by
  cases fluent
  · exact ⟨"invoke(".toList ++ r, rfl⟩
  · exact ⟨"fluent(".toList ++ r, rfl⟩

theorem callWord_inj {fluent fluent' : Bool} {a b : List Char}
    (h : callWord fluent ++ a = callWord fluent' ++ b) : fluent = fluent' ∧ a = b := by
  have hkind : (callWord fluent)[1]? = (callWord fluent')[1]? := by
    have hsecond := congrArg (fun l : List Char => l[1]?) h
    cases fluent <;> cases fluent' <;> exact hsecond
  cases fluent <;> cases fluent'
  · exact ⟨rfl, List.append_cancel_left h⟩
  · exact absurd hkind (by decide)
  · exact absurd hkind (by decide)
  · exact ⟨rfl, List.append_cancel_left h⟩

def writeCalls (lib : List Char) (calls : List PostCall) (r : List Char) : List Char :=
  calls.foldr (writeCall lib) r

theorem write_call (lib : List Char) (t : Term) (c : PostCall) (r : List Char) :
    (t.call c).write lib r = t.write lib (writeCall lib c r) := by
  obtain ⟨fluent, method, ts⟩ := c
  cases fluent
  · exact write_invoke lib r t method ts
  · exact write_fluent lib r t method ts

theorem write_extend (lib : List Char) (t : Term) (calls : List PostCall) (r : List Char) :
    (t.extend calls).write lib r = t.write lib (writeCalls lib calls r) := by
  induction calls generalizing t with
  | nil => rfl
  | cons c calls ih =>
    show ((t.call c).extend calls).write lib r = _
    rw [ih, write_call]
    rfl

theorem extend_append (t : Term) (calls more : List PostCall) :
    t.extend (calls ++ more) = (t.extend calls).extend more := List.foldl_append

theorem legible_call {t : Term} {c : PostCall} (h : (t.call c).Legible) :
    t.Legible ∧ LegibleAll c.args := by
  obtain ⟨fluent, method, ts⟩ := c
  cases fluent <;> exact h

theorem legible_extend {t : Term} {calls : List PostCall} (h : (t.extend calls).Legible) :
    t.Legible ∧ ∀ c ∈ calls, LegibleAll c.args := by
  induction calls generalizing t with
  | nil => exact ⟨h, fun c hc => nomatch hc⟩
  | cons c calls ih =>
    obtain ⟨hcall, hcalls⟩ := ih (t := t.call c) h
    obtain ⟨ht, hc⟩ := legible_call hcall
    exact ⟨ht, List.forall_mem_cons.mpr ⟨hc, hcalls⟩⟩

/-- no call stands on a term -/
def Bare : Term → Prop
  | invoke _ _ _ | fluent _ _ _ => False
  | _ => True

/-- a bare term with a head -/
def Head.Shape : Head → Term → Prop
  | .null, t => t = .null
  | .bool, t => ∃ b, t = .bool b
  | .int, t => ∃ n, t = .int n
  | .float, t => ∃ x, t = .float x
  | .str, t => ∃ s, t = .str s
  | .list, t => ∃ ts, t = .list ts
  | .emptyMap, t => t = .map []
  | .map, t => ∃ e es, t = .map (e :: es)
  | .revive, t => ∃ typeName state, t = .revive typeName state
  | .parameter, t => ∃ key, t = .parameter key
  | .service, t => ∃ m, t = .service m
  | .construct, t => ∃ name ts, t = .construct name ts

theorem shape_head {t : Term} (h : t.Bare) : t.head.Shape t := by
  cases t with
  | null => rfl
  | map es =>
    cases es with
    | nil => rfl
    | cons e es => exact ⟨e, es, rfl⟩
  | revive typeName state => exact ⟨typeName, state, rfl⟩
  | construct name ts => exact ⟨name, ts, rfl⟩
  | invoke receiver m ts => exact h.elim
  | fluent receiver m ts => exact h.elim
  | bool _ | int _ | float _ | str _ | list _ | parameter _ | service _ => exact ⟨_, rfl⟩

/-- every term is a bare one with calls on it -/
theorem exists_extend : (t : Term) → ∃ u calls, t = extend u calls ∧ u.Bare
  | null => ⟨null, [], rfl, trivial⟩
  | bool b => ⟨bool b, [], rfl, trivial⟩
  | int n => ⟨int n, [], rfl, trivial⟩
  | float x => ⟨float x, [], rfl, trivial⟩
  | str s => ⟨str s, [], rfl, trivial⟩
  | list ts => ⟨list ts, [], rfl, trivial⟩
  | map es => ⟨map es, [], rfl, trivial⟩
  | revive typeName state => ⟨revive typeName state, [], rfl, trivial⟩
  | parameter key => ⟨parameter key, [], rfl, trivial⟩
  | service m => ⟨service m, [], rfl, trivial⟩
  | construct name ts => ⟨construct name ts, [], rfl, trivial⟩
  | invoke receiver m ts => by
    obtain ⟨u, calls, hu, hbare⟩ := exists_extend receiver
    exact ⟨u, calls ++ [⟨false, m, ts⟩], by rw [extend_append, ← hu]; rfl, hbare⟩
  | fluent receiver m ts => by
    obtain ⟨u, calls, hu, hbare⟩ := exists_extend receiver
    exact ⟨u, calls ++ [⟨true, m, ts⟩], by rw [extend_append, ← hu]; rfl, hbare⟩

end Term
end ServiceGraph
