import ServiceGraph.Proofs.Decimal.Digits
import ServiceGraph.Source.Term

/-!
# The text of a term, in front of a rest

The text of a term is followed by other text, and how far it reaches shows only there. So it is
spelled in front of a rest.

* `Term.write lib t rest`: the characters of `t`, followed by `rest`;
* `Term.writeItems`, `writeEntries`: the same for items and entries with commas between them;
* `Term.toList_render_append`: this is the text that is rendered;
* `Term.IsPath`: a library is named by a path, in which no dot, quote or bracket stands.
-/

namespace ServiceGraph.Term

/-- no dot, quote or closing bracket stands in a path -/
def IsPath (library : String) : Prop :=
  ∀ c ∈ library.toList, c ≠ '.' ∧ c ≠ '"' ∧ c ≠ ']'

instance (library : String) : Decidable (IsPath library) :=
  inferInstanceAs (Decidable (∀ c ∈ library.toList, c ≠ '.' ∧ c ≠ '"' ∧ c ≠ ']'))

/-- a text without a dot, up to a character of its own, does not ask the container for anything -/
theorem append_stop_ne_self {xs : List Char} {stop : Char} (hdot : ∀ c ∈ xs, c ≠ '.')
    (hstop : stop ∉ "self.".toList) (a b : List Char) :
    xs ++ stop :: a ≠ "self.".toList ++ b := by
  intro h
  rcases List.append_eq_append_iff.mp h with ⟨rest, hself, hrest⟩ | ⟨rest, hxs, -⟩
  · cases rest with
    | nil =>
      rw [List.append_nil] at hself
      exact hdot '.' (hself ▸ by decide) rfl
    | cons c rest =>
      obtain ⟨rfl, -⟩ := List.cons.inj hrest
      exact hstop (hself ▸ List.mem_append_right _ (List.mem_cons_self ..))
  · exact hdot '.' (hxs ▸ List.mem_append_left _ (by decide)) rfl

mutual

/-- the characters of a term in front of a rest -/
def write (lib : List Char) : Term → List Char → List Char
  | null, r => lib ++ ("::Value::Null".toList ++ r)
  | bool b, r =>
    lib ++ ("::Value::Bool(".toList ++ ((if b then "true" else "false").toList ++ ')' :: r))
  | int n, r => lib ++ ("::Value::Int(".toList ++ ((intText n).toList ++ ')' :: r))
  | float x, r => lib ++ ("::Value::Float(".toList ++ ((floatText x).toList ++ ')' :: r))
  | str s, r => lib ++ ("::Value::from(".toList ++ ((Text.quoted s).toList ++ ')' :: r))
  | list ts, r => lib ++ ("::Value::List(vec![".toList ++ writeItems lib ts (']' :: ')' :: r))
  | map es, r =>
    if es.isEmpty then lib ++ ("::Value::empty_map()".toList ++ r)
    else lib ++ ("::Value::map([".toList ++ writeEntries lib es (']' :: ')' :: r))
  | revive typeName state, r =>
    "self.factories.revive(self, ".toList ++ ((Text.quoted typeName).toList ++
      (", ".toList ++ write lib state (')' :: '?' :: r)))
  | parameter key, r =>
    "self.parameters.get(".toList ++ ((Text.quoted key).toList ++ ')' :: '?' :: r)
  | service method, r => "self.".toList ++ (method.toList ++ ("()?".toList ++ r))
  | construct name ts, r =>
    "self.factories.invoke(self, ".toList ++ ((Text.quoted name).toList ++
      (", vec![".toList ++ writeItems lib ts (']' :: ')' :: '?' :: r)))
  | invoke receiver method ts, r =>
    write lib receiver (".invoke(".toList ++ ((Text.quoted method).toList ++
      (", vec![".toList ++ writeItems lib ts (']' :: ')' :: '?' :: r))))
  | fluent receiver method ts, r =>
    write lib receiver (".fluent(".toList ++ ((Text.quoted method).toList ++
      (", vec![".toList ++ writeItems lib ts (']' :: ')' :: '?' :: r))))

def writeItems (lib : List Char) : List Term → List Char → List Char
  | [], r => r
  | t :: ts, r => write lib t (writeMore lib ts r)

def writeMore (lib : List Char) : List Term → List Char → List Char
  | [], r => r
  | t :: ts, r => ',' :: ' ' :: write lib t (writeMore lib ts r)

def writeEntries (lib : List Char) : List (String × Term) → List Char → List Char
  | [], r => r
  | (k, t) :: es, r =>
    '(' :: ((Text.quoted k).toList ++ ',' :: ' ' :: write lib t (')' :: writeMoreEntries lib es r))

def writeMoreEntries (lib : List Char) : List (String × Term) → List Char → List Char
  | [], r => r
  | (k, t) :: es, r =>
    ',' :: ' ' :: '(' :: ((Text.quoted k).toList ++ ',' :: ' ' ::
      write lib t (')' :: writeMoreEntries lib es r))

end

section
variable (lib : List Char) (r : List Char)

theorem write_null : null.write lib r = lib ++ ("::Value::Null".toList ++ r) := rfl

theorem write_bool (b : Bool) : (bool b).write lib r =
    lib ++ ("::Value::Bool(".toList ++ ((if b then "true" else "false").toList ++ ')' :: r)) := rfl

theorem write_int (n : Int64) : (int n).write lib r =
    lib ++ ("::Value::Int(".toList ++ ((intText n).toList ++ ')' :: r)) := rfl

theorem write_float (x : Binary64) : (float x).write lib r =
    lib ++ ("::Value::Float(".toList ++ ((floatText x).toList ++ ')' :: r)) := rfl

theorem write_str (s : String) : (str s).write lib r =
    lib ++ ("::Value::from(".toList ++ ((Text.quoted s).toList ++ ')' :: r)) := rfl

theorem write_list (ts : List Term) : (list ts).write lib r =
    lib ++ ("::Value::List(vec![".toList ++ writeItems lib ts (']' :: ')' :: r)) := rfl

theorem write_emptyMap : (map []).write lib r =
    lib ++ ("::Value::empty_map()".toList ++ r) := rfl

theorem write_map (e : String × Term) (es : List (String × Term)) : (map (e :: es)).write lib r =
    lib ++ ("::Value::map([".toList ++ writeEntries lib (e :: es) (']' :: ')' :: r)) := rfl

theorem write_service (m : String) : (service m).write lib r =
    "self.".toList ++ (m.toList ++ ("()?".toList ++ r)) := rfl

theorem write_revive (typeName : String) (state : Term) :
    (revive typeName state).write lib r = "self.factories.revive(self, ".toList ++
      ((Text.quoted typeName).toList ++ (", ".toList ++ state.write lib (')' :: '?' :: r))) := rfl

theorem write_parameter (key : String) : (parameter key).write lib r =
    "self.parameters.get(".toList ++ ((Text.quoted key).toList ++ ')' :: '?' :: r) := rfl

theorem write_construct (name : String) (ts : List Term) :
    (construct name ts).write lib r = "self.factories.invoke(self, ".toList ++
      ((Text.quoted name).toList ++ (", vec![".toList ++
        writeItems lib ts (']' :: ')' :: '?' :: r))) := rfl

theorem write_invoke (t : Term) (m : String) (ts : List Term) :
    (invoke t m ts).write lib r = t.write lib (".invoke(".toList ++ ((Text.quoted m).toList ++
      (", vec![".toList ++ writeItems lib ts (']' :: ')' :: '?' :: r)))) := rfl

theorem write_fluent (t : Term) (m : String) (ts : List Term) :
    (fluent t m ts).write lib r = t.write lib (".fluent(".toList ++ ((Text.quoted m).toList ++
      (", vec![".toList ++ writeItems lib ts (']' :: ')' :: '?' :: r)))) := rfl

theorem writeEntries_cons (k : String) (t : Term) (es : List (String × Term)) :
    writeEntries lib ((k, t) :: es) r = '(' :: ((Text.quoted k).toList ++ ',' :: ' ' ::
      t.write lib (')' :: writeMoreEntries lib es r)) := rfl

theorem writeMoreEntries_cons (k : String) (t : Term) (es : List (String × Term)) :
    writeMoreEntries lib ((k, t) :: es) r = ',' :: ' ' :: '(' :: ((Text.quoted k).toList ++
      ',' :: ' ' :: t.write lib (')' :: writeMoreEntries lib es r)) := rfl

end

/-! ## this is what is rendered -/

theorem commas_cons (x : String) (xs : List String) :
    (commas (x :: xs)).toList = x.toList ++ xs.flatMap fun y => ',' :: ' ' :: y.toList := by
  induction xs generalizing x with
  | nil =>
    rw [commas, String.intercalate_singleton, List.flatMap_nil, List.append_nil]
  | cons y ys ih =>
    rw [commas, String.intercalate_cons_cons, String.toList_append, String.toList_append,
      List.flatMap_cons, List.append_assoc]
    exact congrArg (x.toList ++ ',' :: ' ' :: ·) (ih y)

mutual

theorem toList_render_append (library : String) (t : Term) (r : List Char) :
    (t.render library).toList ++ r = t.write library.toList r := by
  cases t with
  | null =>
    show (library ++ "::Value::Null").toList ++ r = _
    rw [String.toList_append, List.append_assoc]
    rfl
  | bool b =>
    show (library ++ "::Value::Bool(" ++ (if b then "true" else "false") ++ ")").toList ++ r = _
    simp only [String.toList_append, List.append_assoc]
    rfl
  | int n =>
    show (library ++ "::Value::Int(" ++ intText n ++ ")").toList ++ r = _
    simp only [String.toList_append, List.append_assoc]
    rfl
  | float x =>
    show (library ++ "::Value::Float(" ++ floatText x ++ ")").toList ++ r = _
    simp only [String.toList_append, List.append_assoc]
    rfl
  | str s =>
    show (library ++ "::Value::from(" ++ Text.quoted s ++ ")").toList ++ r = _
    simp only [String.toList_append, List.append_assoc]
    rfl
  | list ts =>
    show (library ++ "::Value::List(vec![" ++ commas (renderAll library ts) ++ "])").toList ++ r = _
    simp only [String.toList_append, List.append_assoc]
    rw [toList_commas_append library ts]
    rfl
  | map es =>
    cases es with
    | nil =>
      show (library ++ "::Value::empty_map()").toList ++ r = _
      rw [String.toList_append, List.append_assoc]
      rfl
    | cons e es =>
      show (library ++ "::Value::map([" ++ commas (renderEntries library (e :: es)) ++ "])").toList
        ++ r = _
      simp only [String.toList_append, List.append_assoc]
      rw [toList_commas_entries library (e :: es)]
      rfl
  | revive typeName state =>
    show ("self.factories.revive(self, " ++ Text.quoted typeName ++ ", " ++ render library state ++
      ")?").toList ++ r = _
    simp only [String.toList_append, List.append_assoc]
    rw [toList_render_append library state]
    rfl
  | parameter key =>
    show ("self.parameters.get(" ++ Text.quoted key ++ ")?").toList ++ r = _
    simp only [String.toList_append, List.append_assoc]
    rfl
  | service method =>
    show ("self." ++ method ++ "()?").toList ++ r = _
    simp only [String.toList_append, List.append_assoc]
    rfl
  | construct name ts =>
    show ("self.factories.invoke(self, " ++ Text.quoted name ++ ", vec![" ++
      commas (renderAll library ts) ++ "])?").toList ++ r = _
    simp only [String.toList_append, List.append_assoc]
    rw [toList_commas_append library ts]
    rfl
  | invoke receiver method ts =>
    show (render library receiver ++ ".invoke" ++ "(" ++ Text.quoted method ++ ", vec![" ++
      commas (renderAll library ts) ++ "])?").toList ++ r = _
    simp only [String.toList_append, List.append_assoc]
    rw [toList_commas_append library ts, toList_render_append library receiver]
    rfl
  | fluent receiver method ts =>
    show (render library receiver ++ ".fluent" ++ "(" ++ Text.quoted method ++ ", vec![" ++
      commas (renderAll library ts) ++ "])?").toList ++ r = _
    simp only [String.toList_append, List.append_assoc]
    rw [toList_commas_append library ts, toList_render_append library receiver]
    rfl

theorem toList_commas_append (library : String) (ts : List Term) (r : List Char) :
    (commas (renderAll library ts)).toList ++ r = writeItems library.toList ts r := by
  cases ts with
  | nil => rfl
  | cons t ts =>
    show (commas (render library t :: renderAll library ts)).toList ++ r = _
    rw [commas_cons, List.append_assoc, toList_more_append library ts,
      toList_render_append library t]
    rfl

theorem toList_more_append (library : String) (ts : List Term) (r : List Char) :
    ((renderAll library ts).flatMap fun y => ',' :: ' ' :: y.toList) ++ r =
      writeMore library.toList ts r := by
  cases ts with
  | nil => rfl
  | cons t ts =>
    show ((render library t :: renderAll library ts).flatMap fun y => ',' :: ' ' :: y.toList) ++ r
      = _
    rw [List.flatMap_cons, List.append_assoc, toList_more_append library ts]
    show ',' :: ' ' :: ((render library t).toList ++ _) = _
    rw [toList_render_append library t]
    rfl

theorem toList_commas_entries (library : String) (es : List (String × Term)) (r : List Char) :
    (commas (renderEntries library es)).toList ++ r = writeEntries library.toList es r := by
  cases es with
  | nil => rfl
  | cons e es =>
    cases e with
    | mk k t =>
      show (commas (("(" ++ Text.quoted k ++ ", " ++ render library t ++ ")") ::
        renderEntries library es)).toList ++ r = _
      rw [commas_cons, List.append_assoc, toList_more_entries library es]
      simp only [String.toList_append, List.append_assoc]
      rw [toList_render_append library t]
      rfl

theorem toList_more_entries (library : String) (es : List (String × Term)) (r : List Char) :
    ((renderEntries library es).flatMap fun y => ',' :: ' ' :: y.toList) ++ r =
      writeMoreEntries library.toList es r := by
  cases es with
  | nil => rfl
  | cons e es =>
    cases e with
    | mk k t =>
      show ((("(" ++ Text.quoted k ++ ", " ++ render library t ++ ")") ::
        renderEntries library es).flatMap fun y => ',' :: ' ' :: y.toList) ++ r = _
      rw [List.flatMap_cons, List.append_assoc, toList_more_entries library es]
      simp only [String.toList_append, List.append_assoc, List.cons_append]
      rw [toList_render_append library t]
      rfl

end

theorem toList_render (library : String) (t : Term) :
    (t.render library).toList = t.write library.toList [] := by
  rw [← toList_render_append, List.append_nil]

end ServiceGraph.Term
