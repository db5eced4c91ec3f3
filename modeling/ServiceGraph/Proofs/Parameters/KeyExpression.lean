import ServiceGraph.Proofs.Parameters.Resolved
import ServiceGraph.Proofs.Node.Substituted

/-!
# Keys with references in them

A key may hold references, each after a dot, and these may hold references again: `db.%env.%site%%.host`.
Such a key is read in two ways. Between percent signs it is read from left to right, and the text of a
reference joins the key as soon as that reference is read. On its own the key is first cut into texts and
references, which expands the references inside its references, and only then its own references.

* `KeyExpression`: a key as a tree, its `text`, and the `Formed` ones: a reference follows a dot, and no
  key is empty; in a `Proper` one, no key ends in a dot that is written in it;
* `KeyExpression.spelled`: the key that comes out; `Undotted`: no reference comes to end in a dot;
* `KeyExpression.reference_text`, `segments_text`: what the two ways of reading make of the text;
* `KeyExpression.toOption_joined`: the parts joined again are the key that comes out;
* `KeyExpression.Fault`: an error that one of the references meets;
* `Parameters.bracketed_eq_get`: the value between percent signs and the value of the key on its own;
* `Parameters.dangling_apart`: a key that comes to end in a dot.
-/

namespace ServiceGraph

theorem Expansion.toOption_bind {α β : Type} (x : Expansion α) (f : α → Expansion β) :
    (x >>= f).toOption = x.toOption.bind fun a => (f a).toOption := by
  cases x <;> rfl

theorem Expansion.toOption_eq_some {α : Type} {x : Expansion α} {a : α} :
    x.toOption = some a ↔ x = .ok a := by
  cases x <;> simp [Except.toOption]

theorem Expansion.toOption_eq_none {α : Type} {x : Expansion α} :
    x.toOption = none ↔ ∃ e, x = .error e := by
  cases x <;> simp [Except.toOption]

/-- the error without the string that the reference stands in -/
def ParameterError.unplaced : ParameterError → ParameterError
  | nonScalar key kind _ => nonScalar key kind ""
  | e => e

namespace Reading

/-- the text that a key leaves inside a longer string -/
def piece (look : String → Expansion Value) (template name : String) : Expansion String := do
  spliced name template (← look name)

variable {look : String → Expansion Value} {template : String} {outer : List (List Char)} {used : Nat}
  {rest : List Char}

theorem ne_percent {c : Char} (hc : keyChar c) : c ≠ '%' := by
  rintro rfl
  exact absurd hc (by decide)

theorem reference_char {c : Char} (hc : keyChar c) (key : List Char) :
    reference look template outer key used (c :: rest) =
      reference look template outer (c :: key) (used + 1) rest := by
  cases key <;> simp only [reference, if_neg (ne_percent hc), if_pos hc]

/-- a percent sign after a dot opens a reference -/
theorem reference_opens (key : List Char) :
    reference look template outer ('.' :: key) used ('%' :: rest) =
      reference look template (('.' :: key) :: outer) [] (used + 1) rest := by
  simp only [reference, ↓reduceIte]

theorem exists_last {name : List Char} (hne : name ≠ []) (hdot : name.getLast? ≠ some '.') :
    ∃ last key, name.reverse = last :: key ∧ last ≠ '.' := by
  obtain ⟨last, key, hkey⟩ := List.exists_cons_of_ne_nil (List.reverse_ne_nil_iff.mpr hne)
  refine ⟨last, key, hkey, ?_⟩
  rintro rfl
  exact hdot (by rw [← List.head?_reverse, hkey]; rfl)

/-- a percent sign after another character closes the key -/
theorem reference_closes {name : List Char} (hne : name ≠ []) (hdot : name.getLast? ≠ some '.') :
    reference look template [] name.reverse used ('%' :: rest) =
      .ok (some (String.ofList name, used + 1)) := by
  obtain ⟨last, key, hkey, hlast⟩ := exists_last hne hdot
  rw [hkey, reference, if_pos rfl]
  simp only [if_neg hlast, ← hkey, List.reverse_reverse]

/-- a closed key in another one leaves its text there -/
theorem reference_splices {name : List Char} (hne : name ≠ []) (hdot : name.getLast? ≠ some '.')
    (around : List Char) :
    reference look template (around :: outer) name.reverse used ('%' :: rest) = (do
      let text ← piece look template (String.ofList name)
      reference look template outer (text.toList.reverse ++ around) (used + 1) rest) := by
  obtain ⟨last, key, hkey, hlast⟩ := exists_last hne hdot
  rw [hkey, reference, if_pos rfl]
  simp only [if_neg hlast, ← hkey, List.reverse_reverse, piece, bind_assoc]

/-- a percent sign after a dot, with nothing behind it, is no end of a reference -/
theorem reference_dangles {name : List Char} (hdot : name.getLast? = some '.') :
    reference look template [] name.reverse used ['%'] = .ok none := by
  obtain ⟨key, hkey⟩ : ∃ key, name.reverse = '.' :: key := by
    rw [← List.head?_reverse] at hdot
    exact List.head?_eq_some_iff.mp hdot
  rw [hkey, reference_opens, reference]

/-- a percent sign that opens no reference is text -/
theorem segments_of_none {before : List Char} (hhead : rest.head? ≠ some '%')
    (h : reference look template [] [] 0 rest = .ok none) :
    segments look template 0 before ('%' :: rest) = segments look template 0 ('%' :: before) rest := by
  rw [segments, if_neg (not_not_intro rfl), if_neg hhead, h]
  rfl

theorem segments_of_some {before : List Char} {key : String} (hhead : rest.head? ≠ some '%')
    (h : reference look template [] [] 0 rest = .ok (some (key, used))) :
    segments look template 0 before ('%' :: rest) = (do
      return flush before ++ .reference key :: (← segments look template used [] rest)) := by
  rw [segments, if_neg (not_not_intro rfl), if_neg hhead, h]
  rfl

theorem segments_of_error {before : List Char} {e : ParameterError} (hhead : rest.head? ≠ some '%')
    (h : reference look template [] [] 0 rest = .error e) :
    segments look template 0 before ('%' :: rest) = .error e := by
  rw [segments, if_neg (not_not_intro rfl), if_neg hhead, h]
  rfl

theorem segments_skip (cs rest before : List Char) :
    segments look template cs.length before (cs ++ rest) = segments look template 0 before rest := by
  induction cs with
  | nil => rfl
  | cons c cs ih => exact ih

theorem spell_flush (before : List Char) (ps : List Segment) :
    spell look template (flush before ++ ps) = (do
      return String.ofList before.reverse ++ (← spell look template ps)) := by
  rw [flush]
  split
  case isTrue h =>
    rw [h, List.nil_append]
    cases spell look template ps <;> simp
  case isFalse => rfl

/-- a string in which no reference is found stands for its text -/
theorem interpolate_of_flush {text : List Char}
    (h : segments look template 0 [] template.toList = .ok (flush text)) :
    interpolate look template = .ok (.str (String.ofList text.reverse)) := by
  rw [interpolate, h]
  have hspell : spell look template (flush text) = .ok (String.ofList text.reverse) := by
    rw [← List.append_nil (flush _), spell_flush]
    exact congrArg Except.ok String.append_empty
  by_cases htext : text = []
  · rw [flush, if_pos htext] at hspell ⊢
    show (do return Value.str (← spell look template [])) = _
    rw [hspell]
    rfl
  · rw [flush, if_neg htext] at hspell ⊢
    show (do return Value.str (← spell look template [.text _])) = _
    rw [hspell]
    rfl

end Reading

/-- a key in which references are nested -/
inductive KeyExpression where
  | done
  | char (c : Char) (rest : KeyExpression)
  | nested (inner rest : KeyExpression)
deriving DecidableEq, Repr

namespace KeyExpression

open Reading
open Expansion (toOption_bind bind_eq_error)

def text : KeyExpression → List Char
  | done => []
  | char c rest => c :: rest.text
  | nested inner rest => '%' :: (inner.text ++ '%' :: rest.text)

/-- what may be written after a character (none at the start of a key): a reference after a dot only -/
def FormedAfter : Option Char → KeyExpression → Prop
  | last, done => last ≠ none
  | _, char c rest => keyChar c ∧ rest.FormedAfter (some c)
  | last, nested inner rest => last = some '.' ∧ inner.FormedAfter none ∧ rest.FormedAfter (some '%')

def ProperAfter : Option Char → KeyExpression → Prop
  | last, done => last ≠ none ∧ last ≠ some '.'
  | _, char c rest => keyChar c ∧ rest.ProperAfter (some c)
  | last, nested inner rest => last = some '.' ∧ inner.ProperAfter none ∧ rest.ProperAfter (some '%')

instance decidableProperAfter : ∀ (last : Option Char) (e : KeyExpression), Decidable (e.ProperAfter last)
  | last, done => inferInstanceAs (Decidable (last ≠ none ∧ last ≠ some '.'))
  | _, char c rest =>
    have := decidableProperAfter (some c) rest
    inferInstanceAs (Decidable (keyChar c ∧ rest.ProperAfter (some c)))
  | last, nested inner rest =>
    have := decidableProperAfter none inner
    have := decidableProperAfter (some '%') rest
    inferInstanceAs (Decidable (last = some '.' ∧ inner.ProperAfter none ∧ rest.ProperAfter (some '%')))

/-- a key where each reference follows a dot, and neither the key nor one in it is empty -/
def Formed (e : KeyExpression) : Prop := e.FormedAfter none

/-- a key where each reference follows a dot; neither the key nor one in it is empty or ends in a dot -/
def Proper (e : KeyExpression) : Prop := e.ProperAfter none

instance (e : KeyExpression) : Decidable e.Proper := decidableProperAfter none e

theorem ProperAfter.formed {last : Option Char} {e : KeyExpression} (he : e.ProperAfter last) :
    e.FormedAfter last := by
  induction e generalizing last with
  | done => exact he.1
  | char c rest ih => exact ⟨he.1, ih he.2⟩
  | nested inner rest ihInner ihRest => exact ⟨he.1, ihInner he.2.1, ihRest he.2.2⟩

def chars (s : String) (rest : KeyExpression) : KeyExpression := s.toList.foldr char rest

def bracketed (e : KeyExpression) : KeyExpression := nested e done

/-- no reference holds a reference -/
def Flat : KeyExpression → Prop
  | done => True
  | char _ rest => rest.Flat
  | nested inner rest => '%' ∉ inner.text ∧ rest.Flat

variable (look : String → Expansion Value) (template : String)

/-- the key with the text of every reference in its place, from left to right -/
def spelled : KeyExpression → Expansion (List Char)
  | done => .ok []
  | char c rest => return c :: (← rest.spelled)
  | nested inner rest => do
    let name ← inner.spelled
    let text ← piece look template (String.ofList name)
    return text.toList ++ (← rest.spelled)

/-- the key with the text of every reference in its place, when all have one -/
def spelled? (e : KeyExpression) : Option (List Char) :=
  (e.spelled look "").toOption

/-- no key between two percent signs comes to end in a dot -/
def Undotted : KeyExpression → Prop
  | done => True
  | char _ rest => rest.Undotted
  | nested inner rest =>
    (∀ name ∈ inner.spelled? look, name.getLast? ≠ some '.') ∧ inner.Undotted ∧ rest.Undotted

instance decidableUndotted : ∀ e : KeyExpression, Decidable (e.Undotted look)
  | done => .isTrue trivial
  | char _ rest => decidableUndotted rest
  | nested inner rest =>
    have := decidableUndotted inner
    have := decidableUndotted rest
    inferInstanceAs (Decidable ((∀ name ∈ inner.spelled? look, name.getLast? ≠ some '.') ∧
      inner.Undotted look ∧ rest.Undotted look))

/-- the texts and references of a key between two texts; that before it has its last character first -/
def parts (after : List Char) : List Char → KeyExpression → Expansion (List Segment)
  | before, done => .ok (flush (after.reverse ++ before))
  | before, char c rest => rest.parts after (c :: before)
  | before, nested inner rest => do
    let name ← inner.spelled look template
    return flush before ++ .reference (String.ofList name) :: (← rest.parts after [])

/-- the key cut into its parts and joined again with the texts of its references, between two texts -/
def joined (after before : List Char) (e : KeyExpression) : Expansion String := do
  spell look template (← e.parts look template after before)

/-- a reference in the key has no text for this reason -/
def Fault : KeyExpression → ParameterError → Prop
  | done, _ => False
  | char _ rest, e => rest.Fault e
  | nested inner rest, e =>
    inner.Fault e ∨
    (∃ name ∈ inner.spelled? look, ∃ template, piece look template (String.ofList name) = .error e) ∨
    rest.Fault e

/-! ## the key that comes out -/

section

variable {look template} {e : KeyExpression}

theorem toOption_piece (template other name : String) :
    (piece look template name).toOption = (piece look other name).toOption := by
  rw [piece, piece, toOption_bind, toOption_bind]
  congr 1
  funext v
  rw [spliced, spliced]
  cases v.interpolated? <;> rfl

theorem toOption_spelled (template other : String) (e : KeyExpression) :
    (e.spelled look template).toOption = (e.spelled look other).toOption := by
  induction e with
  | done => rfl
  | char c rest ih => rw [spelled, spelled, toOption_bind, toOption_bind, ih]
  | nested inner rest ihInner ihRest =>
    simp only [spelled, toOption_bind, ihInner, ihRest, toOption_piece template other]

theorem spelled?_char (c : Char) (rest : KeyExpression) :
    (char c rest).spelled? look = (rest.spelled? look).map (c :: ·) := by
  rw [spelled?, spelled, toOption_bind, Option.map_eq_bind]
  rfl

theorem spelled?_nested (inner rest : KeyExpression) :
    (nested inner rest).spelled? look = (inner.spelled? look).bind fun name =>
      (piece look "" (String.ofList name)).toOption.bind fun text =>
        (rest.spelled? look).map (text.toList ++ ·) := by
  simp only [spelled?, spelled, toOption_bind, Option.map_eq_bind]
  rfl

/-- a key comes out the same in every string -/
theorem mem_spelled?_iff {name : List Char} :
    name ∈ e.spelled? look ↔ e.spelled look template = .ok name := by
  rw [spelled?, toOption_spelled "" template, Option.mem_def, Expansion.toOption_eq_some]

theorem text_chars (s : String) (rest : KeyExpression) : (chars s rest).text = s.toList ++ rest.text := by
  rw [chars]
  induction s.toList with
  | nil => rfl
  | cons c cs ih => rw [List.foldr_cons, text, ih, List.cons_append]

theorem undotted_chars (s : String) : (chars s done).Undotted look := by
  rw [chars]
  induction s.toList with
  | nil => trivial
  | cons c cs ih => exact ih

theorem formedAfter_foldr {cs : List Char} (hkey : ∀ c ∈ cs, keyChar c) {last : Option Char}
    (hlast : last = none → cs ≠ []) : (cs.foldr char done).FormedAfter last := by
  induction cs generalizing last with
  | nil => exact fun hnone => hlast hnone rfl
  | cons c cs ih =>
    exact ⟨hkey c List.mem_cons_self,
      ih (fun d hd => hkey d (List.mem_cons_of_mem c hd)) (fun h => nomatch h)⟩

/-- characters that may stand in a key are a key -/
theorem formed_chars {s : String} (hne : s.toList ≠ []) (hkey : ∀ c ∈ s.toList, keyChar c) :
    (chars s done).Formed :=
  formedAfter_foldr hkey fun _ => hne

/-! ## reading the text -/

/-- the text of a key begins with no percent sign -/
theorem head?_text_append (he : e.Formed) (rest : List Char) :
    (e.text ++ rest).head? ≠ some '%' := by
  cases e with
  | done => exact absurd rfl he
  | char c tail => exact fun h => ne_percent he.1 (Option.some.inj h)
  | nested inner tail => cases he.1

/-- a key that comes out is not empty -/
theorem ne_nil_of_spelled (he : e.Formed) {name : List Char}
    (h : e.spelled look template = .ok name) : name ≠ [] := by
  cases e with
  | done => exact absurd rfl he
  | char c rest =>
    obtain ⟨tail, -, h⟩ := Expansion.bind_eq_ok h
    cases h
    exact List.cons_ne_nil c tail
  | nested inner rest => cases he.1

/-- **Reading a key after an opening percent sign.** The text of a key leads the reading to the key that
comes out, with what follows still to be read. -/
theorem reference_text {last : Option Char} (he : e.FormedAfter last) (hdots : e.Undotted look)
    (outer : List (List Char)) (key : List Char) (hkey : last = some '.' → key.head? = some '.')
    (used : Nat) (rest : List Char) :
    reference look template outer key used (e.text ++ rest) = (do
      let name ← e.spelled look template
      reference look template outer (name.reverse ++ key) (used + e.text.length) rest) := by
  induction e generalizing last outer key used rest with
  | done => rfl
  | char c tail ih =>
    rw [text, List.cons_append, reference_char he.1, ih he.2 hdots outer (c :: key) id, spelled, bind_assoc]
    refine bind_congr fun name => ?_
    rw [pure_bind, List.reverse_cons, List.append_assoc, List.length_cons, Nat.add_right_comm, Nat.add_assoc]
    rfl
  | nested inner tail ihInner ihTail =>
    obtain ⟨rfl, hinner, htail⟩ := he
    obtain ⟨key, rfl⟩ : ∃ key', key = '.' :: key' := by
      cases key with
      | nil => cases hkey rfl
      | cons c key => cases hkey rfl; exact ⟨key, rfl⟩
    -- the reference is read as a key of its own, and its text joins the key around it
    have hnested : reference look template outer ('.' :: key) used
        ('%' :: (inner.text ++ '%' :: (tail.text ++ rest))) = (do
          let name ← inner.spelled look template
          let text ← piece look template (String.ofList name)
          reference look template outer (text.toList.reverse ++ '.' :: key)
            (used + (inner.text.length + 2)) (tail.text ++ rest)) := by
      rw [reference_opens, ihInner hinner hdots.2.1 _ [] (fun h => nomatch h)]
      cases hname : inner.spelled look template with
      | error e => rfl
      | ok name =>
        show reference look template _ (name.reverse ++ []) _ _ = _
        rw [List.append_nil, reference_splices (ne_nil_of_spelled hinner hname)
          (hdots.1 name (mem_spelled?_iff.mpr hname)), Nat.add_assoc, Nat.add_assoc, Nat.add_comm 1]
        rfl
    rw [text, List.cons_append, List.append_assoc, List.cons_append, hnested, spelled, bind_assoc]
    refine bind_congr fun name => ?_
    rw [bind_assoc]
    refine bind_congr fun written => ?_
    rw [bind_assoc, ihTail htail hdots.2.2 outer _ (fun h => nomatch h)]
    refine bind_congr fun after => ?_
    rw [pure_bind, List.reverse_append, List.append_assoc, List.length_cons, List.length_append,
      List.length_cons, Nat.add_assoc]
    congr 2
    omega

/-- a reference that no key stands around is its key and the length of its text -/
theorem reference_closed (he : e.Formed) (hdots : e.bracketed.Undotted look) (rest : List Char) :
    reference look template [] [] 0 (e.text ++ '%' :: rest) = (do
      let name ← e.spelled look template
      return some (String.ofList name, e.text.length + 1)) := by
  rw [reference_text he hdots.2.1 [] [] (fun h => nomatch h)]
  cases hname : e.spelled look template with
  | error err => rfl
  | ok name =>
    show reference look template [] (name.reverse ++ []) _ _ = _
    rw [List.append_nil, reference_closes (ne_nil_of_spelled he hname)
      (hdots.1 name (mem_spelled?_iff.mpr hname)), Nat.zero_add]
    rfl

/-- **Cutting a key.** The text of a key falls into its texts and its references. -/
theorem segments_text {last : Option Char} (he : e.FormedAfter last) (hdots : e.Undotted look)
    {after : List Char} (hafter : ∀ before,
      segments look template 0 before after = .ok (flush (after.reverse ++ before)))
    (before : List Char) :
    segments look template 0 before (e.text ++ after) = e.parts look template after before := by
  induction e generalizing last before with
  | done => exact hafter before
  | char c tail ih =>
    rw [text, List.cons_append, segments, if_pos (ne_percent he.1), ih he.2 hdots, parts]
  | nested inner tail ihInner ihTail =>
    obtain ⟨-, hinner, htail⟩ := he
    have hskip : segments look template (inner.text.length + 1) []
        (inner.text ++ '%' :: (tail.text ++ after)) = tail.parts look template after [] := by
      rw [← ihTail htail hdots.2.2 [], ← segments_skip (inner.text ++ ['%']) (tail.text ++ after) [],
        List.length_append, List.append_assoc]
      rfl
    rw [text, List.cons_append, List.append_assoc, List.cons_append, segments,
      if_neg (not_not_intro rfl), if_neg (head?_text_append hinner _),
      reference_closed hinner ⟨hdots.1, hdots.2.1, trivial⟩, parts, bind_assoc]
    refine bind_congr fun name => ?_
    rw [pure_bind, ← hskip]

/-! ## the parts joined again -/

variable {after before : List Char}

theorem joined_done :
    done.joined look template after before = .ok (String.ofList (before.reverse ++ after)) := by
  rw [joined, parts]
  show spell look template (flush (after.reverse ++ before)) = _
  rw [← List.append_nil (flush _), spell_flush, spell, List.reverse_append, List.reverse_reverse]
  exact congrArg Except.ok String.append_empty

theorem joined_char (c : Char) (rest : KeyExpression) :
    (char c rest).joined look template after before = rest.joined look template after (c :: before) := rfl

theorem joined_nested (inner rest : KeyExpression) :
    (nested inner rest).joined look template after before = (do
      let name ← inner.spelled look template
      let ps ← rest.parts look template after []
      let text ← piece look template (String.ofList name)
      return String.ofList before.reverse ++ (text ++ (← spell look template ps))) := by
  simp only [joined, parts, bind_assoc, pure_bind, spell_flush, spell, piece]

/-- the joined parts are the key that comes out, when all references have a text -/
theorem toOption_joined (e : KeyExpression) :
    (e.joined look template after before).toOption =
      (e.spelled? look).map fun name => String.ofList (before.reverse ++ (name ++ after)) := by
  induction e generalizing before with
  | done => rw [joined_done]; rfl
  | char c rest ih =>
    rw [joined_char, ih, spelled?_char, Option.map_map]
    congr 1
    funext name
    simp [String.append_assoc]
  | nested inner rest ihInner ihRest =>
    have hrest : ((rest.parts look template after []).toOption.bind fun ps =>
        (spell look template ps).toOption) =
          (rest.spelled? look).map fun name => String.ofList (name ++ after) := by
      rw [← toOption_bind]
      exact @ihRest []
    rw [joined_nested, spelled?_nested, toOption_bind, toOption_spelled template "", ← spelled?]
    cases inner.spelled? look with
    | none => rfl
    | some name =>
      -- for the text alone it does not matter which reference is asked first
      simp only [Option.bind_some, toOption_bind,
        Option.bind_comm (rest.parts look template after []).toOption, toOption_piece template ""]
      cases (piece look "" (String.ofList name)).toOption with
      | none => rfl
      | some text =>
        rw [Option.bind_some, ← Option.bind_assoc, hrest]
        cases rest.spelled? look with
        | none => rfl
        | some tail =>
          show some (String.ofList before.reverse ++ (text ++ String.ofList (tail ++ after))) =
            some (String.ofList (before.reverse ++ ((text.toList ++ tail) ++ after)))
          simp

theorem joined_of_mem {name : List Char} (h : name ∈ e.spelled? look) :
    e.joined look template after before = .ok (String.ofList (before.reverse ++ (name ++ after))) := by
  rw [← Expansion.toOption_eq_some, toOption_joined, Option.mem_def.mp h]
  rfl

theorem exists_error_of_joined (h : e.spelled? look = none) :
    ∃ err, e.joined look template after before = .error err := by
  rw [← Expansion.toOption_eq_none, toOption_joined, h]
  rfl

/-! ## the two expansions -/

/-- parts that begin with a text -/
theorem exists_text_of_parts (hbefore : before ≠ []) {ps : List Segment}
    (h : e.parts look template after before = .ok ps) : ∃ s rest, ps = .text s :: rest := by
  induction e generalizing before ps with
  | done =>
    cases h
    rw [flush, if_neg (List.append_ne_nil_of_right_ne_nil _ hbefore)]
    exact ⟨_, _, rfl⟩
  | char c rest ih => exact ih (List.cons_ne_nil c before) h
  | nested inner rest ihInner ihRest =>
    obtain ⟨name, -, h⟩ := Expansion.bind_eq_ok h
    obtain ⟨ps, -, h⟩ := Expansion.bind_eq_ok h
    cases h
    rw [flush, if_neg hbefore]
    exact ⟨_, _, rfl⟩

/-- parts that begin with a text are expanded to the text of all -/
theorem interpolate_of_segments {s : String}
    (h : segments look s 0 [] s.toList = e.parts look s after before)
    (hbegin : before ≠ [] ∨ e.Formed) :
    interpolate look s = (do return .str (← e.joined look s after before)) := by
  rw [interpolate, h, joined]
  cases hps : e.parts look s after before with
  | error err => rfl
  | ok ps =>
    obtain ⟨t, rest, rfl⟩ : ∃ t rest, ps = .text t :: rest := by
      obtain hbefore | he := hbegin
      · exact exists_text_of_parts hbefore hps
      cases e with
      | done => exact absurd rfl he
      | char c rest => exact exists_text_of_parts (List.cons_ne_nil c before) hps
      | nested inner rest => cases he.1
    rfl

/-- a key on its own is the text of its joined parts -/
theorem interpolate_text (he : e.Formed) (hdots : e.Undotted look) :
    interpolate look (String.ofList e.text) = (do
      return .str (← e.joined look (String.ofList e.text) [] [])) := by
  refine interpolate_of_segments ?_ (.inr he)
  rw [String.toList_ofList, ← segments_text he hdots (fun before => rfl), List.append_nil]

/-- the reference to a key has the value of the key that comes out; when that ends in a dot, it is no
reference and all is text -/
theorem interpolate_bracketed (he : e.Formed) (hdots : e.Undotted look) :
    interpolate look (String.ofList e.bracketed.text) = (do
      let name ← e.spelled look (String.ofList e.bracketed.text)
      if name.getLast? = some '.' then return .str (String.ofList ('%' :: (name ++ ['%'])))
      else look (String.ofList name)) := by
  generalize htemplate : String.ofList e.bracketed.text = template
  have hlist : template.toList = '%' :: (e.text ++ ['%']) := by
    rw [← htemplate, String.toList_ofList]
    rfl
  have hhead : (e.text ++ ['%']).head? ≠ some '%' := head?_text_append he ['%']
  have hread : reference look template [] [] 0 (e.text ++ ['%']) = _ :=
    reference_text he hdots [] [] (fun h => nomatch h) 0 ['%']
  cases hname : e.spelled look template with
  | error err =>
    rw [hname] at hread
    rw [interpolate, hlist, segments_of_error hhead hread]
    rfl
  | ok name =>
    rw [hname] at hread
    change _ = reference look template [] (name.reverse ++ []) (0 + e.text.length) ['%'] at hread
    rw [List.append_nil, Nat.zero_add] at hread
    show _ = if name.getLast? = some '.' then _ else _
    -- a dot at the end leaves the reference open, and the key is read once more as text
    split
    case isTrue hdot =>
      have hparts : segments look template 0 [] template.toList =
          e.parts look template ['%'] ['%'] := by
        rw [hlist, segments_of_none hhead (hread.trans (reference_dangles hdot)),
          segments_text he hdots (fun before => rfl)]
      rw [interpolate_of_segments hparts (.inl (List.cons_ne_nil _ _)),
        joined_of_mem (mem_spelled?_iff.mpr hname)]
      rfl
    case isFalse hdot =>
      have hskip : segments look template (e.text ++ ['%']).length [] (e.text ++ ['%'] ++ []) = .ok [] :=
        segments_skip (e.text ++ ['%']) [] []
      rw [List.append_nil, List.length_append] at hskip
      have hone : segments look template 0 [] template.toList =
          .ok [.reference (String.ofList name)] := by
        rw [hlist, segments_of_some hhead
          (hread.trans (reference_closes (ne_nil_of_spelled he hname) hdot))]
        show (segments look template (e.text.length + ['%'].length) [] (e.text ++ ['%']) >>= _) = _
        rw [hskip]
        rfl
      rw [interpolate, hone]
      rfl

/-! ## errors -/

theorem fault_of_spelled {err : ParameterError} (h : e.spelled look template = .error err) :
    e.Fault look err := by
  induction e with
  | done => cases h
  | char c rest ih =>
    obtain hrest | ⟨_, -, h⟩ := bind_eq_error.mp h
    · exact ih hrest
    · cases h
  | nested inner rest ihInner ihRest =>
    obtain hinner | ⟨name, hname, h⟩ := bind_eq_error.mp h
    · exact .inl (ihInner hinner)
    obtain htext | ⟨text, -, h⟩ := bind_eq_error.mp h
    · exact .inr (.inl ⟨name, mem_spelled?_iff.mpr hname, template, htext⟩)
    obtain hrest | ⟨_, -, h⟩ := bind_eq_error.mp h
    · exact .inr (.inr (ihRest hrest))
    · cases h

theorem fault_of_joined {err : ParameterError}
    (h : e.joined look template after before = .error err) : e.Fault look err := by
  induction e generalizing before with
  | done => rw [joined_done] at h; cases h
  | char c rest ih =>
    rw [joined_char] at h
    exact ih h
  | nested inner rest ihInner ihRest =>
    rw [joined_nested] at h
    obtain hinner | ⟨name, hname, h⟩ := bind_eq_error.mp h
    · exact .inl (fault_of_spelled hinner)
    obtain hparts | ⟨ps, hparts, h⟩ := bind_eq_error.mp h
    · exact .inr (.inr (ihRest (bind_eq_error.mpr (.inl hparts))))
    obtain htext | ⟨text, -, h⟩ := bind_eq_error.mp h
    · exact .inr (.inl ⟨name, mem_spelled?_iff.mpr hname, template, htext⟩)
    obtain hrest | ⟨_, -, h⟩ := bind_eq_error.mp h
    · exact .inr (.inr (ihRest (bind_eq_error.mpr (.inr ⟨ps, hparts, hrest⟩))))
    · cases h

/-! ## keys whose references hold none -/

theorem spelled_of_plain (h : '%' ∉ e.text) : e.spelled look template = .ok e.text := by
  induction e with
  | done => rfl
  | char c rest ih =>
    rw [spelled, ih (fun hmem => h (List.mem_cons_of_mem c hmem))]
    rfl
  | nested inner rest => exact absurd List.mem_cons_self h

theorem exists_parts_of_flat (h : e.Flat) (after before : List Char) :
    ∃ ps, e.parts look template after before = .ok ps := by
  induction e generalizing before with
  | done => exact ⟨_, rfl⟩
  | char c rest ih => exact ih h (c :: before)
  | nested inner rest ihInner ihRest =>
    obtain ⟨ps, hps⟩ := ihRest h.2 []
    rw [parts, spelled_of_plain h.1, hps]
    exact ⟨_, rfl⟩

theorem unplaced_of_piece {template other name : String} {err err' : ParameterError}
    (h : piece look template name = .error err) (h' : piece look other name = .error err') :
    err.unplaced = err'.unplaced := by
  rw [piece] at h h'
  cases hlook : look name with
  | error e =>
    rw [hlook] at h h'
    cases h
    cases h'
    rfl
  | ok v =>
    rw [hlook] at h h'
    change spliced name template v = _ at h
    change spliced name other v = _ at h'
    rw [spliced] at h h'
    cases htext : v.interpolated? with
    | some text => rw [htext] at h; cases h
    | none =>
      rw [htext] at h h'
      cases h
      cases h'
      rfl

/-- without references in references both ways of expanding meet the same error first -/
theorem unplaced_of_flat (hflat : e.Flat) {other : String} {err err' : ParameterError}
    (h : e.spelled look template = .error err)
    (h' : e.joined look other after before = .error err') : err.unplaced = err'.unplaced := by
  induction e generalizing before with
  | done => cases h
  | char c rest ih =>
    rw [joined_char] at h'
    obtain hrest | ⟨_, -, h⟩ := bind_eq_error.mp h
    · exact ih hflat hrest h'
    · cases h
  | nested inner rest ihInner ihRest =>
    have hspelled : (nested inner rest).spelled look template = (do
        let text ← piece look template (String.ofList inner.text)
        return text.toList ++ (← rest.spelled look template)) := by
      rw [spelled, spelled_of_plain hflat.1]
      rfl
    have hjoined : (nested inner rest).joined look other after before = (do
        let text ← piece look other (String.ofList inner.text)
        return String.ofList before.reverse ++ (text ++ (← rest.joined look other after []))) := by
      obtain ⟨ps, hps⟩ : ∃ ps, rest.parts look other after [] = .ok ps :=
        exists_parts_of_flat hflat.2 after []
      rw [joined_nested, spelled_of_plain hflat.1, joined, hps]
      rfl
    have hsame : (piece look template (String.ofList inner.text)).toOption =
        (piece look other (String.ofList inner.text)).toOption := toOption_piece template other _
    rw [hspelled] at h
    rw [hjoined] at h'
    -- the two ways differ in where they place the error of a piece, not in whether it has one
    obtain htext | ⟨text, htext, h⟩ := bind_eq_error.mp h <;>
      obtain htext' | ⟨text', htext', h'⟩ := bind_eq_error.mp h'
    · exact unplaced_of_piece htext htext'
    · rw [htext, htext'] at hsame; cases hsame
    · rw [htext, htext'] at hsame; cases hsame
    obtain hrest | ⟨_, -, h⟩ := bind_eq_error.mp h
    · obtain hrest' | ⟨_, -, h'⟩ := bind_eq_error.mp h'
      · exact ihRest hflat.2 hrest hrest'
      · cases h'
    · cases h

end

end KeyExpression

namespace Parameters

open KeyExpression

variable {p : Parameters} {K : KeyExpression}

/-- a key on its own comes out by joining its parts -/
theorem expandKey_eq_joined (hK : K.Formed) (hdots : K.Undotted p.find) :
    p.expandKey (String.ofList K.text) = K.joined p.find (String.ofList K.text) [] [] := by
  rw [expandKey, String.toList_ofList]
  split
  case isTrue =>
    rw [interpolate_text hK hdots, bind_assoc]
    cases K.joined p.find (String.ofList K.text) [] [] <;> rfl
  case isFalse hplain =>
    have hname : K.spelled p.find "" = .ok K.text := spelled_of_plain (by simpa using hplain)
    rw [joined_of_mem (mem_spelled?_iff.mpr hname), List.append_nil]
    rfl

/-- **A key between percent signs and on its own.** Once its references have their texts, both look up
the key that comes out, unless this ends in a dot: then it is no reference between percent signs but text.
Where a reference has no text, both fail for a reference in the key, and for the same one unless a
reference holds references. -/
theorem bracketed_eq_get (p : Parameters) (K : KeyExpression) (hK : K.Proper)
    (hdots : K.Undotted p.find) :
    (∀ name ∈ K.spelled? p.find,
      p.get (String.ofList K.text) = p.find (String.ofList name) ∧
      p.expandText (String.ofList K.bracketed.text) =
        if name.getLast? = some '.' then .ok (.str (String.ofList ('%' :: (name ++ ['%']))))
        else p.find (String.ofList name)) ∧
    (K.spelled? p.find = none → ∃ err err',
      p.expandText (String.ofList K.bracketed.text) = .error err ∧
      p.get (String.ofList K.text) = .error err' ∧
      K.Fault p.find err ∧ K.Fault p.find err' ∧ (K.Flat → err.unplaced = err'.unplaced)) := by
  have hget : p.get (String.ofList K.text) = (do
      p.find (← K.joined p.find (String.ofList K.text) [] [])) := by
    rw [get, expandKey_eq_joined hK.formed hdots]
  rw [expandText, interpolate_bracketed hK.formed hdots, hget]
  refine ⟨fun name hname => ?_, fun hnone => ?_⟩
  · rw [mem_spelled?_iff.mp hname, joined_of_mem hname, List.append_nil]
    exact ⟨rfl, rfl⟩
  · obtain ⟨err, herr⟩ : ∃ err, K.spelled p.find (String.ofList K.bracketed.text) = .error err := by
      rw [← Expansion.toOption_eq_none, toOption_spelled _ "", ← spelled?, hnone]
    obtain ⟨err', herr'⟩ : ∃ err', K.joined p.find (String.ofList K.text) [] [] = .error err' :=
      exists_error_of_joined hnone
    rw [herr, herr']
    exact ⟨err, err', rfl, rfl, fault_of_spelled herr, fault_of_joined herr',
      fun hflat => unplaced_of_flat hflat herr herr'⟩

/-- a host for each stage, the stage for each site, and the site -/
def staged : Parameters :=
  ofTree
    [ ("site", .str "eu"), ("env", .map [("eu", .str "prod")]),
      ("db", .map [("prod", .map [("host", .str "h")])]) ]

/-- `db.%env.%site%%.host` -/
def stagedHost : KeyExpression :=
  chars "db." (nested (chars "env." (nested (chars "site" done) done)) (chars ".host" done))

theorem staged_host :
    stagedHost.Proper ∧ stagedHost.Undotted staged.find ∧
    staged.expandText (String.ofList stagedHost.bracketed.text) = .ok (.str "h") ∧
    staged.get (String.ofList stagedHost.text) = .ok (.str "h") := by
  have hproper : stagedHost.Proper := by decide +kernel
  have hdots : stagedHost.Undotted staged.find := by decide +kernel
  have hname : "db.prod.host".toList ∈ stagedHost.spelled? staged.find := by decide +kernel
  have hhost : staged.find (String.ofList "db.prod.host".toList) = .ok (.str "h") := by decide +kernel
  obtain ⟨hget, hexpand⟩ := (bracketed_eq_get staged stagedHost hproper hdots).1 _ hname
  exact ⟨hproper, hdots, hexpand.trans hhost, hget.trans hhost⟩

/-- a stage without a name, and a value whose key ends in a dot -/
def unnamed : Parameters := ofTree [("a", .map [("", .int 1)]), ("env", .null)]

/-- `a.%env%` -/
def unnamedStage : KeyExpression := chars "a." (nested (chars "env" done) done)

theorem dangling_apart :
    unnamedStage.Proper ∧
    unnamed.expandText (String.ofList unnamedStage.bracketed.text) = .ok (.str "%a.%") ∧
    unnamed.get (String.ofList unnamedStage.text) = .ok (.int 1) := by
  decide +kernel

/-- with references in references the two look up what fails in another order -/
example :
    let p := ofTree [("l", .list [])]
    p.expandText "%a.%x%.%b.%l%%%" = .error (.unknown "x") ∧
    p.get "a.%x%.%b.%l%%" = .error (.nonScalar "l" "list" "a.%x%.%b.%l%%") := by
  decide +kernel

end Parameters
end ServiceGraph
