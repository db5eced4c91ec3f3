import ServiceGraph.Proofs.Source.Literals
import ServiceGraph.Proofs.Source.Names
import ServiceGraph.Proofs.Source.Spelled
import ServiceGraph.Proofs.Text.Quoted

/-!
# The services that a text calls

A text is scanned from left to right. Outside of its strings `self.name()?` calls a service.

* `Source.Scan`: whether the scan stands in code or in a string;
* `Source.calls`: the methods that a text calls;
* `Term.calls`: the methods that a term calls;
* `Term.calls_render`: the text of a term calls what the term calls, in the same order.
-/

set_option linter.unusedSectionVars false

namespace ServiceGraph

namespace Source

/-- where a scan of source stands -/
inductive Scan where
  | code
  | string
  /-- in a string, after a backslash -/
  | escaped

def Scan.next : Scan → Char → Scan
  | code, c => if c = '"' then string else code
  | string, c => if c = '"' then code else if c = '\\' then escaped else string
  | escaped, _ => string

/-- the method that is called at the front of a text -/
def callAt? (text : List Char) : Option String := do
  let rest ← dropFront? "self.".toList text
  let name := rest.takeWhile Compile.nameLetter
  let _ ← dropFront? "()?".toList (rest.drop name.length)
  return String.ofList name

def Scan.call? : Scan → List Char → Option String
  | code, text => callAt? text
  | _, _ => none

def callsFrom (s : Scan) : List Char → List String
  | [] => []
  | c :: rest => (s.call? (c :: rest)).toList ++ callsFrom (s.next c) rest

/-- the methods that a text calls, from left to right -/
def calls (text : String) : List String := callsFrom .code text.toList

/-! ## code without calls -/

theorem dropFront?_eq_some {front text rest : List Char}
    (h : dropFront? front text = some rest) : text = front ++ rest := by
  induction front generalizing text with
  | nil =>
    cases h
    rfl
  | cons c cs ih =>
    cases text with
    | nil => cases h
    | cons d ds =>
      rw [dropFront?] at h
      split at h
      · next hcd => rw [hcd, ih h, List.cons_append]
      · cases h

theorem eq_self_of_callAt? {text : List Char} {name : String} (h : callAt? text = some name) :
    ∃ rest, text = 's' :: 'e' :: 'l' :: 'f' :: '.' :: rest := by
  cases hd : dropFront? "self.".toList text with
  | none =>
    unfold callAt? at h
    rw [hd] at h
    cases h
  | some rest => exact ⟨rest, dropFront?_eq_some hd⟩

theorem callsFrom_cons {c : Char} {r : List Char} (hc : c ≠ '"')
    (hcall : callAt? (c :: r) = none) : callsFrom .code (c :: r) = callsFrom .code r := by
  rw [callsFrom]
  show (callAt? (c :: r)).toList ++ callsFrom (if c = '"' then .string else .code) r = _
  rw [hcall, if_neg hc]
  rfl

/-- without an `s` no call begins -/
theorem callsFrom_append {l : List Char} (h : ∀ c ∈ l, c ≠ 's' ∧ c ≠ '"') (r : List Char) :
    callsFrom .code (l ++ r) = callsFrom .code r := by
  induction l with
  | nil => rfl
  | cons x l ih =>
    obtain ⟨hx, hl⟩ := List.forall_mem_cons.mp h
    have hcall : callAt? (x :: (l ++ r)) = none := by
      cases hc : callAt? (x :: (l ++ r)) with
      | none => rfl
      | some name =>
        obtain ⟨rest, hrest⟩ := eq_self_of_callAt? hc
        exact absurd (List.cons.inj hrest).1 hx.1
    rw [List.cons_append, callsFrom_cons hx.2 hcall, ih hl]

theorem callsFrom_cons_of_ne {c : Char} (h : c ≠ 's' ∧ c ≠ '"') (r : List Char) :
    callsFrom .code (c :: r) = callsFrom .code r :=
  callsFrom_append (l := [c]) (fun _ hc => List.mem_singleton.mp hc ▸ h) r

theorem callsFrom_comma (r : List Char) :
    callsFrom .code (',' :: ' ' :: r) = callsFrom .code r := by
  rw [callsFrom_cons_of_ne (by decide), callsFrom_cons_of_ne (by decide)]

/-- without a dot no call ends before a character that is not in `self.` -/
theorem callAt?_eq_none {xs r : List Char} {stop : Char} (h : ∀ c ∈ xs, c ≠ '.')
    (hstop : stop ∉ "self.".toList) : callAt? (xs ++ stop :: r) = none := by
  cases hc : callAt? (xs ++ stop :: r) with
  | none => rfl
  | some name =>
    obtain ⟨rest, hrest⟩ := eq_self_of_callAt? hc
    exact absurd hrest (Term.append_stop_ne_self h hstop r rest)

theorem callsFrom_append_stop {xs : List Char} {stop : Char}
    (h : ∀ c ∈ xs, c ≠ '.' ∧ c ≠ '"') (hstop : stop ∉ "self.".toList) (hquote : stop ≠ '"')
    (r : List Char) : callsFrom .code (xs ++ stop :: r) = callsFrom .code r := by
  induction xs with
  | nil =>
    have hs : stop ≠ 's' := fun he => hstop (he ▸ by decide)
    exact callsFrom_cons_of_ne ⟨hs, hquote⟩ r
  | cons x xs ih =>
    obtain ⟨hx, hxs⟩ := List.forall_mem_cons.mp h
    have hcall : callAt? (x :: (xs ++ stop :: r)) = none :=
      callAt?_eq_none (fun c hc => (h c hc).1) hstop
    rw [List.cons_append, callsFrom_cons hx.2 hcall, ih hxs]

/-! ## strings -/

theorem callsFrom_escape (c : Char) (r : List Char) :
    callsFrom .string (Text.escape c ++ r) = callsFrom .string r := by
  have hplain : ∀ xs : List Char, (∀ x ∈ xs, x ≠ '"' ∧ x ≠ '\\') →
      callsFrom .string (xs ++ r) = callsFrom .string r := by
    intro xs hxs
    induction xs with
    | nil => rfl
    | cons x xs ih =>
      obtain ⟨hx, hxs⟩ := List.forall_mem_cons.mp hxs
      rw [List.cons_append, callsFrom]
      show callsFrom (if x = '"' then .code else if x = '\\' then .escaped else .string) _ = _
      rw [if_neg hx.1, if_neg hx.2, ih hxs]
  rcases Text.escape_cases c with ⟨d, hd, -⟩ | hd | ⟨hd, hslash, hquote⟩
  · rw [hd]
    rfl
  · rw [hd, List.append_assoc ['\\', 'u', '\x7b']]
    show callsFrom .string (('\x7b' :: (Text.hex c.toNat ++ ['\x7d'])) ++ r) = _
    refine hplain ('\x7b' :: (Text.hex c.toNat ++ ['\x7d'])) fun x hx => ?_
    rw [List.mem_cons, List.mem_append, List.mem_singleton] at hx
    rcases hx with rfl | hx | rfl
    · decide
    · exact Text.forall_mem_hex (P := fun x => x ≠ '"' ∧ x ≠ '\\') (by decide) _ x hx
    · decide
  · rw [hd]
    exact hplain [c] fun x hx => List.mem_singleton.mp hx ▸ ⟨hquote, hslash⟩

/-- a string calls nothing -/
theorem callsFrom_quoted (s : String) (r : List Char) :
    callsFrom .code ((Text.quoted s).toList ++ r) = callsFrom .code r := by
  have hchars : ∀ cs : List Char, callsFrom .string (cs.flatMap Text.escape ++ '"' :: r) =
      callsFrom .code r := by
    intro cs
    induction cs with
    | nil => rfl
    | cons c cs ih => rw [List.flatMap_cons, List.append_assoc, callsFrom_escape, ih]
  rw [Text.toList_quoted, List.append_assoc]
  exact hchars s.toList

/-! ## calls -/

/-- the call of a method is one -/
theorem callsFrom_service {m : String} (hm : Compile.MethodName m) (r : List Char) :
    callsFrom .code ("self.".toList ++ (m.toList ++ ("()?".toList ++ r))) =
      m :: callsFrom .code r := by
  have hletters : ∀ c ∈ m.toList, Compile.nameLetter c = true := hm.forall_nameLetter
  have htake : (m.toList ++ ("()?".toList ++ r)).takeWhile Compile.nameLetter = m.toList := by
    rw [List.takeWhile_append_of_pos hletters]
    exact List.append_nil _
  have hcall : callAt? ("self.".toList ++ (m.toList ++ ("()?".toList ++ r))) = some m := by
    show (do
      let _ ← dropFront? "()?".toList ((m.toList ++ ("()?".toList ++ r)).drop
        ((m.toList ++ ("()?".toList ++ r)).takeWhile Compile.nameLetter).length)
      return String.ofList ((m.toList ++ ("()?".toList ++ r)).takeWhile Compile.nameLetter)) = _
    rw [htake, List.drop_left]
    show some (String.ofList m.toList) = some m
    rw [String.ofList_toList]
  have hplain : ∀ c ∈ m.toList, c ≠ '.' ∧ c ≠ '"' := by
    intro c hc
    have hletter := hletters c hc
    constructor
    · rintro rfl
      cases hletter
    · rintro rfl
      cases hletter
  show (callAt? ("self.".toList ++ (m.toList ++ ("()?".toList ++ r)))).toList ++
    callsFrom .code ("elf.".toList ++ (m.toList ++ '(' :: (")?".toList ++ r))) = _
  rw [hcall, callsFrom_append (by decide), callsFrom_append_stop hplain (by decide)
    (by decide), callsFrom_append (by decide)]
  rfl

end Source

namespace Term

open Source

mutual

/-- the methods that a term calls, in the order of its text -/
def calls : Term → List String
  | null | bool _ | int _ | float _ | str _ | parameter _ => []
  | service method => [method]
  | revive _ state => calls state
  | list ts | construct _ ts => callsOf ts
  | map es => callsOfEntries es
  | invoke receiver _ ts | fluent receiver _ ts => calls receiver ++ callsOf ts

def callsOf : List Term → List String
  | [] => []
  | t :: ts => calls t ++ callsOf ts

def callsOfEntries : List (String × Term) → List String
  | [] => []
  | (_, t) :: es => calls t ++ callsOfEntries es

end

/-- the path of the library and what follows it are code without calls -/
theorem callsFrom_library {library : String} (hlib : IsPath library) (r : List Char) :
    callsFrom .code (library.toList ++ ':' :: r) = callsFrom .code r :=
  callsFrom_append_stop (fun c hc => ⟨(hlib c hc).1, (hlib c hc).2.1⟩) (by decide) (by decide) r

theorem callsFrom_numeral {xs : List Char} (h : ∀ c ∈ xs, c ∈ numeralChars) (r : List Char) :
    callsFrom .code (xs ++ ')' :: r) = callsFrom .code r := by
  have hplain : ∀ c ∈ numeralChars, c ≠ 's' ∧ c ≠ '"' := by decide
  rw [callsFrom_append fun c hc => hplain c (h c hc)]
  exact callsFrom_append (l := [')']) (by decide) r

/-- the end of a list of items calls nothing -/
theorem callsFrom_close (r : List Char) :
    callsFrom .code (']' :: ')' :: r) = callsFrom .code r :=
  callsFrom_append (l := "])".toList) (by decide) r

theorem callsFrom_answer (r : List Char) :
    callsFrom .code (')' :: '?' :: r) = callsFrom .code r :=
  callsFrom_append (l := ")?".toList) (by decide) r

theorem callsFrom_closeCall (r : List Char) :
    callsFrom .code (']' :: ')' :: '?' :: r) = callsFrom .code r :=
  callsFrom_append (l := "])?".toList) (by decide) r

theorem callsFrom_revive (r : List Char) :
    callsFrom .code ("self.factories.revive(self, ".toList ++ r) = callsFrom .code r := rfl

theorem callsFrom_factories (r : List Char) :
    callsFrom .code ("self.factories.invoke(self, ".toList ++ r) = callsFrom .code r := rfl

theorem callsFrom_parameters (r : List Char) :
    callsFrom .code ("self.parameters.get(".toList ++ r) = callsFrom .code r := rfl

section
variable {library : String} (hlib : IsPath library)
include hlib

mutual

theorem callsFrom_write (t : Term) (ht : ∀ m ∈ t.calls, Compile.MethodName m) (r : List Char) :
    callsFrom .code (t.write library.toList r) = t.calls ++ callsFrom .code r := by
  cases t with
  | null =>
    show callsFrom .code (library.toList ++ ':' :: (":Value::Null".toList ++ r)) = _
    rw [callsFrom_library hlib, callsFrom_append (by decide)]
    rfl
  | bool b =>
    show callsFrom .code (library.toList ++ ':' :: (":Value::Bool(".toList ++
      ((if b then "true" else "false").toList ++ ')' :: r))) = _
    rw [callsFrom_library hlib, callsFrom_append (by decide),
      callsFrom_append_stop (by cases b <;> decide) (by decide) (by decide)]
    rfl
  | int n =>
    show callsFrom .code (library.toList ++ ':' :: (":Value::Int(".toList ++
      ((intText n).toList ++ ')' :: r))) = _
    rw [callsFrom_library hlib, callsFrom_append (by decide),
      callsFrom_numeral (mem_numeralChars_of_intText n)]
    rfl
  | float x =>
    show callsFrom .code (library.toList ++ ':' :: (":Value::Float(".toList ++
      ((floatText x).toList ++ ')' :: r))) = _
    rw [callsFrom_library hlib, callsFrom_append (by decide),
      callsFrom_numeral (mem_numeralChars_of_floatText x)]
    rfl
  | str s =>
    show callsFrom .code (library.toList ++ ':' :: (":Value::from(".toList ++
      ((Text.quoted s).toList ++ (")".toList ++ r)))) = _
    rw [callsFrom_library hlib, callsFrom_append (by decide), callsFrom_quoted,
      callsFrom_append (by decide)]
    rfl
  | list ts =>
    show callsFrom .code (library.toList ++ ':' :: (":Value::List(vec!".toList ++
      '[' :: writeItems library.toList ts (']' :: ')' :: r))) = _
    rw [callsFrom_library hlib, callsFrom_append_stop (by decide) (by decide) (by decide),
      callsFrom_writeItems ts ht, callsFrom_close]
    rfl
  | map es =>
    cases es with
    | nil =>
      show callsFrom .code (library.toList ++ ':' :: (":Value::empty_map()".toList ++ r)) = _
      rw [callsFrom_library hlib, callsFrom_append (by decide)]
      rfl
    | cons e es =>
      show callsFrom .code (library.toList ++ ':' :: (":Value::map([".toList ++
        writeEntries library.toList (e :: es) (']' :: ')' :: r))) = _
      rw [callsFrom_library hlib, callsFrom_append (by decide),
        callsFrom_writeEntries (e :: es) ht, callsFrom_close]
      rfl
  | revive typeName state =>
    rw [write_revive, callsFrom_revive, callsFrom_quoted, callsFrom_append (by decide),
      callsFrom_write state ht, callsFrom_answer]
    rfl
  | parameter key =>
    rw [write_parameter, callsFrom_parameters, callsFrom_quoted, callsFrom_answer]
    rfl
  | service m => exact callsFrom_service (ht m (List.mem_singleton_self m)) r
  | construct name ts =>
    rw [write_construct, callsFrom_factories, callsFrom_quoted, callsFrom_append (by decide),
      callsFrom_writeItems ts ht, callsFrom_closeCall]
    rfl
  | invoke receiver m ts =>
    have ht := List.forall_mem_append.mp ht
    rw [write_invoke, callsFrom_write receiver ht.1, callsFrom_append (by decide), callsFrom_quoted,
      callsFrom_append (by decide), callsFrom_writeItems ts ht.2, callsFrom_closeCall]
    exact (List.append_assoc ..).symm
  | fluent receiver m ts =>
    have ht := List.forall_mem_append.mp ht
    rw [write_fluent, callsFrom_write receiver ht.1, callsFrom_append (by decide), callsFrom_quoted,
      callsFrom_append (by decide), callsFrom_writeItems ts ht.2, callsFrom_closeCall]
    exact (List.append_assoc ..).symm

theorem callsFrom_writeItems (ts : List Term) (ht : ∀ m ∈ callsOf ts, Compile.MethodName m)
    (r : List Char) :
    callsFrom .code (writeItems library.toList ts r) = callsOf ts ++ callsFrom .code r := by
  cases ts with
  | nil => rfl
  | cons t ts =>
    have ht := List.forall_mem_append.mp ht
    show callsFrom .code (write library.toList t (writeMore library.toList ts r)) = _
    rw [callsFrom_write t ht.1, callsFrom_writeMore ts ht.2]
    exact (List.append_assoc ..).symm

theorem callsFrom_writeMore (ts : List Term) (ht : ∀ m ∈ callsOf ts, Compile.MethodName m)
    (r : List Char) :
    callsFrom .code (writeMore library.toList ts r) = callsOf ts ++ callsFrom .code r := by
  cases ts with
  | nil => rfl
  | cons t ts =>
    have ht := List.forall_mem_append.mp ht
    show callsFrom .code (',' :: ' ' ::
      write library.toList t (writeMore library.toList ts r)) = _
    rw [callsFrom_comma, callsFrom_write t ht.1, callsFrom_writeMore ts ht.2]
    exact (List.append_assoc ..).symm

theorem callsFrom_writeEntries (es : List (String × Term))
    (ht : ∀ m ∈ callsOfEntries es, Compile.MethodName m) (r : List Char) :
    callsFrom .code (writeEntries library.toList es r) =
      callsOfEntries es ++ callsFrom .code r := by
  cases es with
  | nil => rfl
  | cons e es =>
    cases e with
    | mk k t =>
      have ht := List.forall_mem_append.mp ht
      rw [writeEntries_cons, callsFrom_cons_of_ne (by decide), callsFrom_quoted,
        callsFrom_comma, callsFrom_write t ht.1, callsFrom_cons_of_ne (by decide),
        callsFrom_writeMoreEntries es ht.2]
      exact (List.append_assoc ..).symm

theorem callsFrom_writeMoreEntries (es : List (String × Term))
    (ht : ∀ m ∈ callsOfEntries es, Compile.MethodName m) (r : List Char) :
    callsFrom .code (writeMoreEntries library.toList es r) =
      callsOfEntries es ++ callsFrom .code r := by
  cases es with
  | nil => rfl
  | cons e es =>
    cases e with
    | mk k t =>
      have ht := List.forall_mem_append.mp ht
      rw [writeMoreEntries_cons, callsFrom_comma, callsFrom_cons_of_ne (by decide),
        callsFrom_quoted, callsFrom_comma, callsFrom_write t ht.1,
        callsFrom_cons_of_ne (by decide), callsFrom_writeMoreEntries es ht.2]
      exact (List.append_assoc ..).symm

end

/-- the text of a term calls what the term calls -/
theorem calls_render (t : Term) (ht : ∀ m ∈ t.calls, Compile.MethodName m) :
    Source.calls (t.render library) = t.calls := by
  rw [Source.calls, toList_render, callsFrom_write hlib t ht]
  exact List.append_nil _

end

end Term

end ServiceGraph
