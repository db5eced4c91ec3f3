import ServiceGraph.Source.Template
import ServiceGraph.Proofs.Decimal.Layout

/-!
# Reading templates

A template is read from left to right, one token after the other.

* `Template.IsToken token rest`: the grammar of one token in front of the rest of a template;
* `Template.Tokens before rest`: what stands in front of the rest is one token after the other;
* `Template.Opens rest`: a dollar sign in front of the rest begins a token;
* `Template.scan_tokens`: reading what consists of tokens comes to the rest, and has counted its bytes;
* `Template.merged`: parts with neighbouring texts put together and empty ones left out;
* `Template.Separated`: parts in which no digit stands behind a slot or splice, as in all that is read
  (`Template.scan_separated`), so that only these are read back (`Template.parse_print_iff`);
* `Template.parse_exact`: a template can be read when every dollar sign that the reading comes to begins a
  token, the first that does not is reported, and printed parts are read back.
-/

namespace ServiceGraph.Template

open Decimal

variable {template : String} {token before rest text : List Char} {position : Nat}

/-! ## tokens -/

/-- digits write a number that a machine word holds -/
structure IsIndex (digits : List Char) : Prop where
  nonempty : digits ≠ []
  isDigit : Digits digits
  fits : digitsValue 0 digits < Nat.pow 2 64

/-- one token in front of a rest: a character of text, a dollar sign written twice, a slot or a splice, whose
digits reach as far as there are any -/
inductive IsToken : List Char → List Char → Prop where
  | plain {c : Char} {rest : List Char} : c ≠ '$' → IsToken [c] rest
  | dollar {rest : List Char} : IsToken ['$', '$'] rest
  | slot {digits rest : List Char} : IsIndex digits → Ended rest → IsToken ('$' :: digits) rest
  | splice {digits rest : List Char} :
    IsIndex digits → Ended rest → IsToken ('$' :: '*' :: digits) rest

/-- one token after the other in front of a rest -/
inductive Tokens : List Char → List Char → Prop where
  | nil {rest : List Char} : Tokens [] rest
  | cons {token more rest : List Char} :
    IsToken token (more ++ rest) → Tokens more rest → Tokens (token ++ more) rest

/-- a dollar sign in front of the rest begins a token -/
def Opens (rest : List Char) : Prop := ∃ token more, '$' :: rest = token ++ more ∧ IsToken token more

def bytes (cs : List Char) : Nat := (String.ofList cs).utf8ByteSize

theorem bytes_append (cs ds : List Char) : bytes (cs ++ ds) = bytes cs + bytes ds := by
  rw [bytes, String.ofList_append, String.utf8ByteSize_append]
  rfl

theorem bytes_cons (c : Char) (cs : List Char) : bytes (c :: cs) = c.utf8Size + bytes cs := by
  rw [bytes, String.ofList_cons, String.utf8ByteSize_append, String.utf8ByteSize_singleton]
  rfl

/-! ## what follows a dollar sign -/

theorem index?_eq (digits : List Char) : index? digits =
    if digits = [] then none
    else if digitsValue 0 digits < Nat.pow 2 64 then some (digitsValue 0 digits) else none := rfl

theorem index?_eq_some_iff {digits : List Char} {i : Nat} :
    index? digits = some i ↔ digits ≠ [] ∧ digitsValue 0 digits = i ∧ i < Nat.pow 2 64 := by
  rw [index?_eq]
  constructor
  · intro h
    split at h
    next => cases h
    next hempty =>
      split at h
      next hfits =>
        cases h
        exact ⟨hempty, rfl, hfits⟩
      next => cases h
  · rintro ⟨hempty, rfl, hfits⟩
    rw [if_neg hempty]
    exact if_pos hfits

theorem IsIndex.index? {digits : List Char} (h : IsIndex digits) :
    Template.index? digits = some (digitsValue 0 digits) :=
  index?_eq_some_iff.mpr ⟨h.nonempty, rfl, h.fits⟩

/-- behind the digits in front of a text there is none -/
theorem ended_dropWhile (cs : List Char) : Ended (cs.dropWhile Char.isDigit) := by
  intro d hd
  have hnot := List.head?_dropWhile_not Char.isDigit cs
  rw [Option.mem_def.mp hd] at hnot
  exact hnot

theorem token?_star (rest : List Char) : token? ('*' :: rest) =
    (index? (rest.takeWhile Char.isDigit)).map fun i =>
      .part (.splice i) ((rest.takeWhile Char.isDigit).length + 1) := rfl

theorem token?_of_ne (hdollar : rest.head? ≠ some '$') (hstar : rest.head? ≠ some '*') : token? rest =
    (index? (rest.takeWhile Char.isDigit)).map fun i =>
      .part (.slot i) (rest.takeWhile Char.isDigit).length := by
  unfold token?
  split
  next => exact absurd rfl hdollar
  next => exact absurd rfl hstar
  next => rfl

theorem token?_slot {digits : List Char} (hdigits : IsIndex digits) (hrest : Ended rest) :
    token? (digits ++ rest) = some (.part (.slot (digitsValue 0 digits)) digits.length) := by
  obtain ⟨d, more, rfl⟩ := List.exists_cons_of_ne_nil hdigits.nonempty
  have hd : d.isDigit = true := hdigits.isDigit d List.mem_cons_self
  have hne : ∀ c : Char, c.isDigit = false → (d :: more ++ rest).head? ≠ some c := by
    rintro c hc h
    cases h
    exact absurd (hc.symm.trans hd) (by decide)
  rw [token?_of_ne (hne '$' (by decide)) (hne '*' (by decide)), takeWhile_digits hdigits.isDigit hrest,
    hdigits.index?]
  rfl

theorem token?_splice {digits : List Char} (hdigits : IsIndex digits) (hrest : Ended rest) :
    token? ('*' :: (digits ++ rest)) =
      some (.part (.splice (digitsValue 0 digits)) (digits.length + 1)) := by
  rw [token?_star, takeWhile_digits hdigits.isDigit hrest, hdigits.index?]
  rfl

/-- what is read behind a dollar sign shows that the sign begins a token -/
theorem opens_of_token? {t : Token} (h : token? rest = some t) : Opens rest := by
  have hindex : ∀ {cs : List Char} {i : Nat}, index? (cs.takeWhile Char.isDigit) = some i →
      IsIndex (cs.takeWhile Char.isDigit) := by
    intro cs i hi
    obtain ⟨hne, rfl, hfits⟩ := index?_eq_some_iff.mp hi
    exact ⟨hne, List.all_eq_true.mp List.all_takeWhile, hfits⟩
  by_cases hdollar : rest.head? = some '$'
  · obtain ⟨more, rfl⟩ := List.head?_eq_some_iff.mp hdollar
    exact ⟨['$', '$'], more, rfl, .dollar⟩
  · by_cases hstar : rest.head? = some '*'
    · obtain ⟨more, rfl⟩ := List.head?_eq_some_iff.mp hstar
      obtain ⟨i, hi, -⟩ := Option.map_eq_some_iff.mp h
      refine ⟨'$' :: '*' :: more.takeWhile Char.isDigit, more.dropWhile Char.isDigit, ?_,
        .splice (hindex hi) (ended_dropWhile more)⟩
      rw [List.cons_append, List.cons_append, List.takeWhile_append_dropWhile]
    · rw [token?_of_ne hdollar hstar] at h
      obtain ⟨i, hi, -⟩ := Option.map_eq_some_iff.mp h
      refine ⟨'$' :: rest.takeWhile Char.isDigit, rest.dropWhile Char.isDigit, ?_,
        .slot (hindex hi) (ended_dropWhile rest)⟩
      rw [List.cons_append, List.takeWhile_append_dropWhile]

/-- a dollar sign begins a token when one can be read behind it -/
theorem opens_iff (rest : List Char) : Opens rest ↔ (token? rest).isSome := by
  constructor
  · rintro ⟨token, more, hrest, htoken⟩
    cases htoken with
    | plain hc => exact absurd (List.cons.inj hrest).1.symm hc
    | dollar => cases hrest; rfl
    | slot hdigits hmore =>
      cases hrest
      exact congrArg Option.isSome (token?_slot hdigits hmore)
    | splice hdigits hmore =>
      cases hrest
      exact congrArg Option.isSome (token?_splice hdigits hmore)
  · intro h
    obtain ⟨t, ht⟩ := Option.isSome_iff_exists.mp h
    exact opens_of_token? ht

instance (rest : List Char) : Decidable (Opens rest) := decidable_of_iff _ (opens_iff rest).symm

/-! ## reading over tokens -/

/-- characters of a token already read are passed -/
theorem scan_skip (used : List Char) (position : Nat) (text rest : List Char) :
    scan template used.length position text (used ++ rest) =
      scan template 0 (position + bytes used) text rest := by
  induction used generalizing position with
  | nil => rfl
  | cons c used ih =>
    rw [List.length_cons, List.cons_append, scan, ih, bytes_cons]
    congr 1
    omega

theorem scan_plain {c : Char} (hc : c ≠ '$') : scan template 0 position text (c :: rest) =
    scan template 0 (position + bytes [c]) (c :: text) rest := by
  rw [scan, if_pos hc, bytes_cons]
  rfl

theorem scan_dollar : scan template 0 position text ('$' :: '$' :: rest) =
    scan template 0 (position + bytes ['$', '$']) ('$' :: text) rest := by
  rw [scan]
  exact scan_skip ['$'] _ _ rest

/-- a slot or splice becomes a part behind the text before it -/
theorem scan_part {p : Part} {used : List Char} (h : token? (used ++ rest) = some (.part p used.length)) :
    scan template 0 position text ('$' :: (used ++ rest)) =
      (scan template 0 (position + bytes ('$' :: used)) [] rest).map
        (flush text ++ p :: ·) := by
  have hbytes : position + bytes ('$' :: used) =
      position + Char.utf8Size '$' + bytes used := by
    rw [bytes_cons]
    omega
  rw [scan, if_neg (fun hne => hne rfl), h, hbytes, ← scan_skip]
  dsimp only
  cases scan template used.length (position + Char.utf8Size '$') [] (used ++ rest) <;> rfl

theorem scan_slot {digits : List Char} (hdigits : IsIndex digits) (hrest : Ended rest) :
    scan template 0 position text ('$' :: digits ++ rest) =
      (scan template 0 (position + bytes ('$' :: digits)) [] rest).map
        (flush text ++ .slot (digitsValue 0 digits) :: ·) :=
  scan_part (token?_slot hdigits hrest)

theorem scan_splice {digits : List Char} (hdigits : IsIndex digits) (hrest : Ended rest) :
    scan template 0 position text ('$' :: '*' :: digits ++ rest) =
      (scan template 0 (position + bytes ('$' :: '*' :: digits)) [] rest).map
        (flush text ++ .splice (digitsValue 0 digits) :: ·) :=
  scan_part (show token? ('*' :: digits ++ rest) = _ from token?_splice hdigits hrest)

/-- **Reading over a token.** Reading goes on behind it, and only adds to the parts that are found there. -/
theorem scan_token (h : IsToken token rest) (template : String) (position : Nat) (text : List Char) :
    ∃ text' f, scan template 0 position text (token ++ rest) =
      (scan template 0 (position + bytes token) text' rest).map f := by
  cases h with
  | @plain c _ hc => exact ⟨c :: text, id, (scan_plain hc).trans (congrFun Except.map_id _).symm⟩
  | dollar => exact ⟨'$' :: text, id, scan_dollar.trans (congrFun Except.map_id _).symm⟩
  | slot hdigits hrest => exact ⟨[], _, scan_slot hdigits hrest⟩
  | splice hdigits hrest => exact ⟨[], _, scan_splice hdigits hrest⟩

/-- reading over tokens comes to the rest, and has counted their bytes -/
theorem scan_tokens (h : Tokens before rest) (template : String) (position : Nat) (text : List Char) :
    ∃ text' f, scan template 0 position text (before ++ rest) =
      (scan template 0 (position + bytes before) text' rest).map f := by
  induction h generalizing position text with
  | nil => exact ⟨text, id, (congrFun Except.map_id _).symm⟩
  | @cons token more rest htoken _ ih =>
    obtain ⟨text₁, f, hf⟩ := scan_token htoken template position text
    obtain ⟨text₂, g, hg⟩ := ih (position + bytes token) text₁
    refine ⟨text₂, f ∘ g, ?_⟩
    rw [List.append_assoc, hf, hg, bytes_append, Nat.add_assoc]
    cases scan template 0 _ text₂ rest <;> rfl

/-- a dollar sign that begins no token ends the reading -/
theorem scan_of_not_opens (h : ¬ Opens rest) :
    scan template 0 position text ('$' :: rest) = .error (.invalidToken position template) := by
  have hnone : token? rest = none := Option.not_isSome_iff_eq_none.mp fun hsome => h ((opens_iff rest).mpr hsome)
  rw [scan, if_neg (fun hne => hne rfl), hnone]

/-- a text consists of tokens, or tokens lead to a dollar sign that begins none -/
theorem tokens_or_stuck (cs : List Char) : Tokens cs [] ∨
    ∃ before rest, cs = before ++ '$' :: rest ∧ Tokens before ('$' :: rest) ∧ ¬ Opens rest := by
  induction hlength : cs.length using Nat.strongRecOn generalizing cs with
  | ind n ih =>
    cases cs with
    | nil => exact .inl .nil
    | cons c cs =>
      by_cases hstuck : c = '$' ∧ ¬ Opens cs
      · obtain ⟨rfl, hopens⟩ := hstuck
        exact .inr ⟨[], cs, rfl, .nil, hopens⟩
      · -- a token is in front, and what is behind it is shorter
        obtain ⟨token, rest, hcs, htoken⟩ :
            ∃ token rest, c :: cs = token ++ rest ∧ IsToken token rest := by
          by_cases hc : c = '$'
          · have hopens : Opens cs := Classical.byContradiction fun hopens => hstuck ⟨hc, hopens⟩
            exact hc ▸ hopens
          · exact ⟨[c], cs, rfl, .plain hc⟩
        have hshorter : rest.length < n := by
          have hpos : 0 < token.length := by cases htoken <;> simp
          rw [← hlength, hcs, List.length_append]
          omega
        rw [hcs]
        rcases ih rest.length hshorter rest rfl with hrest | ⟨before, more, rfl, hmore, hopens⟩
        · exact .inl (.cons ((List.append_nil rest).symm ▸ htoken) hrest)
        · exact .inr ⟨token ++ before, more, (List.append_assoc ..).symm, .cons htoken hmore, hopens⟩

/-- the first dollar sign that begins no token is reported -/
theorem parse_of_not_opens {s : String} (hs : s.toList = before ++ '$' :: rest)
    (hbefore : Tokens before ('$' :: rest)) (h : ¬ Opens rest) :
    parse s = .error (.invalidToken (String.ofList before).utf8ByteSize s) := by
  obtain ⟨text, f, hf⟩ := scan_tokens hbefore s 0 []
  rw [parse, hs, hf, scan_of_not_opens h, Nat.zero_add]
  rfl

/-! ## printed parts -/

/-- a slot or splice has an index that a machine word holds -/
def Part.Fits : Part → Prop
  | .text _ => True
  | .slot i | .splice i => i < Nat.pow 2 64

/-- the text in front of the first slot or splice -/
def leading : List Part → List Char
  | .text s :: parts => s.toList ++ leading parts
  | _ => []

/-- no slot or splice has text directly behind it that begins with a digit -/
def Separated : List Part → Prop
  | [] => True
  | .text _ :: parts => Separated parts
  | .slot _ :: parts | .splice _ :: parts => Ended (leading parts) ∧ Separated parts

/-- a text in front of parts: it goes into a text that comes first, and an empty one is left out -/
def consText (s : String) : List Part → List Part
  | .text t :: parts => .text (s ++ t) :: parts
  | parts => if s = "" then parts else .text s :: parts

/-- parts with neighbouring texts put together and empty ones left out -/
def merged : List Part → List Part
  | [] => []
  | .text s :: parts => consText s (merged parts)
  | p :: parts => p :: merged parts

theorem merged_slot (i : Nat) (parts : List Part) : merged (.slot i :: parts) = .slot i :: merged parts := rfl

theorem merged_splice (i : Nat) (parts : List Part) :
    merged (.splice i :: parts) = .splice i :: merged parts := rfl

theorem consText_empty (parts : List Part) : consText "" parts = parts := by
  unfold consText
  split
  next => rw [String.empty_append]
  next => rw [if_pos rfl]

theorem consText_append (s t : String) (parts : List Part) :
    consText (s ++ t) parts = consText s (consText t parts) := by
  by_cases ht : t = ""
  · rw [ht, String.append_empty, consText_empty]
  · have hst : s ++ t ≠ "" := fun h => ht (String.append_eq_empty_iff.mp h).2
    unfold consText
    split
    next => rw [String.append_assoc]
    next => rw [if_neg hst, if_neg ht]

theorem ofList_reverse_eq_empty_iff : String.ofList text.reverse = "" ↔ text = [] := by
  rw [← String.toList_inj, String.toList_ofList]
  simp

/-- text read so far stands in front of parts that do not begin with text -/
theorem consText_eq_flush_append {parts : List Part} (h : ∀ s, parts.head? ≠ some (.text s)) :
    consText (String.ofList text.reverse) parts = flush text ++ parts := by
  unfold consText
  split
  next s parts => exact absurd rfl (h s)
  next =>
    simp only [flush, ofList_reverse_eq_empty_iff]
    split <;> rfl

theorem leading_consText (s : String) (parts : List Part) :
    leading (consText s parts) = s.toList ++ leading parts := by
  unfold consText
  split
  next t parts => rw [leading, leading, String.toList_append, List.append_assoc]
  next =>
    split
    next hs => rw [hs]; rfl
    next => rfl

theorem separated_consText (s : String) (parts : List Part) :
    Separated (consText s parts) ↔ Separated parts := by
  unfold consText
  split
  next => rfl
  next => split <;> rfl

theorem leading_merged (parts : List Part) : leading (merged parts) = leading parts := by
  induction parts with
  | nil => rfl
  | cons p parts ih =>
    cases p with
    | text s => rw [merged, leading_consText, ih]; rfl
    | slot i | splice i => rfl

theorem separated_merged (parts : List Part) : Separated (merged parts) ↔ Separated parts := by
  induction parts with
  | nil => rfl
  | cons p parts ih =>
    cases p with
    | text s => exact (separated_consText s _).trans ih
    | slot i | splice i => exact and_congr (by rw [leading_merged]) ih

theorem leading_flush_append (text : List Char) (parts : List Part) :
    leading (flush text ++ parts) = text.reverse ++ leading parts := by
  unfold flush
  split
  next h => rw [h]; rfl
  next => exact congrArg (· ++ leading parts) String.toList_ofList

theorem separated_flush_append (text : List Char) (parts : List Part) :
    Separated (flush text ++ parts) ↔ Separated parts := by
  unfold flush
  split <;> rfl

/-- a slot or splice behind text, with no digit behind it, keeps what is read apart -/
theorem separated_flush_part {p : Part} {parts : List Part} (hp : ∀ s, p ≠ .text s)
    (hparts : Separated parts) (hleading : Ended (leading parts)) (text more : List Char) :
    Separated (flush text ++ p :: parts) ∧
      (Ended (text.reverse ++ more) → Ended (leading (flush text ++ p :: parts))) := by
  rw [separated_flush_append, leading_flush_append]
  cases p with
  | text s => exact absurd rfl (hp s)
  | slot i | splice i =>
    refine ⟨⟨hleading, hparts⟩, fun h d hd => h d ?_⟩
    have htext : d ∈ text.reverse.head? := List.append_nil text.reverse ▸ hd
    rw [List.head?_append, htext]
    rfl

/-- what consists of tokens is read, into parts in which no digit stands behind a slot or splice -/
theorem scan_separated (h : Tokens before rest) (hrest : rest = []) (template : String) (position : Nat)
    (text : List Char) : ∃ parts, scan template 0 position text before = .ok parts ∧ Separated parts ∧
      (Ended (text.reverse ++ before) → Ended (leading parts)) := by
  induction h generalizing position text with
  | nil =>
    refine ⟨flush text, rfl, ?_⟩
    rw [← List.append_nil (flush text), separated_flush_append, leading_flush_append]
    exact ⟨trivial, id⟩
  | @cons token more rest htoken _ ih =>
    subst hrest
    rw [List.append_nil] at htoken
    cases htoken with
    | @plain c _ hc =>
      obtain ⟨parts, hparts, hseparated, hleading⟩ := ih rfl (position + bytes [c]) (c :: text)
      refine ⟨parts, (scan_plain hc).trans hparts, hseparated, fun h => hleading ?_⟩
      rwa [List.reverse_cons, List.append_assoc]
    | dollar =>
      obtain ⟨parts, hparts, hseparated, hleading⟩ := ih rfl (position + bytes ['$', '$']) ('$' :: text)
      refine ⟨parts, scan_dollar.trans hparts, hseparated, fun h => hleading ?_⟩
      -- the two texts go on differently only behind the same dollar sign
      simpa [Ended, List.head?_append] using h
    | @slot digits _ hdigits hbehind =>
      obtain ⟨parts, hparts, hseparated, hleading⟩ := ih rfl (position + bytes ('$' :: digits)) []
      exact ⟨_, (scan_slot hdigits hbehind).trans (congrArg _ hparts),
        separated_flush_part (by simp) hseparated (hleading hbehind) text _⟩
    | @splice digits _ hdigits hbehind =>
      obtain ⟨parts, hparts, hseparated, hleading⟩ := ih rfl (position + bytes ('$' :: '*' :: digits)) []
      exact ⟨_, (scan_splice hdigits hbehind).trans (congrArg _ hparts),
        separated_flush_part (by simp) hseparated (hleading hbehind) text _⟩

/-- a template that consists of tokens is read into parts in which no digit stands behind a slot or splice -/
theorem parse_of_tokens {s : String} (h : Tokens s.toList []) :
    ∃ parts, parse s = .ok parts ∧ Separated parts := by
  obtain ⟨parts, hparts, hseparated, -⟩ := scan_separated h rfl s 0 []
  exact ⟨parts, hparts, hseparated⟩

theorem isIndex_toString {i : Nat} (h : i < Nat.pow 2 64) : IsIndex (toString i).toList := by
  rw [toList_toString_nat]
  exact ⟨Nat.toDigits_ne_nil, digits_toDigits i, by rwa [digitsValue_toDigits]⟩

theorem digitsValue_toString (i : Nat) : digitsValue 0 (toString i).toList = i := by
  rw [toList_toString_nat, digitsValue_toDigits]

/-- printed parts begin with a digit only if they begin with text that does -/
theorem ended_print {parts : List Part} (h : Ended (leading parts)) :
    Ended (parts.flatMap Part.print) := by
  induction parts with
  | nil => exact h
  | cons p parts ih =>
    cases p with
    | text s =>
      rw [leading] at h
      rw [List.flatMap_cons, Part.print]
      cases hs : s.toList with
      | nil =>
        rw [hs] at h
        exact ih h
      | cons c cs =>
        rw [hs] at h
        have hc : c.isDigit = false := h c rfl
        intro d hd
        rw [List.flatMap_cons] at hd
        split at hd
        · cases hd
          rfl
        · cases hd
          exact hc
    | slot i | splice i =>
      intro d hd
      cases hd
      rfl

/-- the text of a part is read as it stands -/
theorem scan_print_text (cs : List Char) (template : String) (position : Nat) (text rest : List Char) :
    ∃ position', scan template 0 position text
      ((cs.flatMap fun c => if c = '$' then ['$', '$'] else [c]) ++ rest) =
        scan template 0 position' (cs.reverse ++ text) rest := by
  induction cs generalizing position text with
  | nil => exact ⟨position, rfl⟩
  | cons c cs ih =>
    rw [List.flatMap_cons, List.append_assoc, List.reverse_cons, List.append_assoc]
    by_cases hc : c = '$'
    · rw [if_pos hc, hc]
      obtain ⟨position', h⟩ := ih (position + bytes ['$', '$']) ('$' :: text)
      exact ⟨position', scan_dollar.trans h⟩
    · rw [if_neg hc]
      obtain ⟨position', h⟩ := ih (position + bytes [c]) (c :: text)
      exact ⟨position', (scan_plain hc).trans h⟩

/-- printed parts are read behind a stretch of text -/
theorem scan_print {parts : List Part} (hfits : ∀ p ∈ parts, p.Fits) (hseparated : Separated parts)
    (template : String) (position : Nat) (text : List Char) :
    scan template 0 position text (parts.flatMap Part.print) =
      .ok (consText (String.ofList text.reverse) (merged parts)) := by
  induction parts generalizing position text with
  | nil =>
    rw [merged, consText_eq_flush_append (by simp), List.append_nil]
    rfl
  | cons p parts ih =>
    obtain ⟨hp, hrest⟩ := List.forall_mem_cons.mp hfits
    rw [List.flatMap_cons]
    cases p with
    | text s =>
      obtain ⟨position', h⟩ := scan_print_text s.toList template position text (parts.flatMap Part.print)
      rw [Part.print, h, ih hrest hseparated, List.reverse_append, List.reverse_reverse,
        String.ofList_append, String.ofList_toList, consText_append]
      rfl
    | slot i =>
      obtain ⟨hbehind, hseparated⟩ := hseparated
      rw [Part.print, scan_slot (isIndex_toString hp) (ended_print hbehind), ih hrest hseparated,
        digitsValue_toString, List.reverse_nil, String.ofList_nil, consText_empty, merged_slot,
        consText_eq_flush_append (by simp)]
      rfl
    | splice i =>
      obtain ⟨hbehind, hseparated⟩ := hseparated
      rw [Part.print, scan_splice (isIndex_toString hp) (ended_print hbehind), ih hrest hseparated,
        digitsValue_toString, List.reverse_nil, String.ofList_nil, consText_empty, merged_splice,
        consText_eq_flush_append (by simp)]
      rfl

/-- printed parts are read back, unless a digit stands behind a slot or splice -/
theorem parse_print_iff {parts : List Part} (hfits : ∀ p ∈ parts, p.Fits) :
    parse (print parts) = .ok (merged parts) ↔ Separated parts := by
  constructor
  · intro h
    rcases tokens_or_stuck (print parts).toList with htokens | ⟨before, rest, hs, hbefore, hopens⟩
    · obtain ⟨found, hfound, hseparated⟩ := parse_of_tokens htokens
      cases hfound.symm.trans h
      exact (separated_merged parts).mp hseparated
    · cases h.symm.trans (parse_of_not_opens hs hbefore hopens)
  · intro hseparated
    rw [parse, print, String.toList_ofList, scan_print hfits hseparated]
    exact congrArg Except.ok (consText_empty _)

/-- **Templates are read exactly.** Reading from left to right, a template has parts when every dollar sign
that the reading comes to begins a token, and otherwise the first that does not is reported with the number
of bytes before it. Parts that are printed are read back, with neighbouring texts put together and empty ones
left out, unless text that begins with a digit stands directly behind a slot or splice. -/
theorem parse_exact :
    (∀ s, (∃ parts, parse s = .ok parts) ↔
      ∀ before rest, s.toList = before ++ '$' :: rest → Tokens before ('$' :: rest) → Opens rest) ∧
    (∀ s e, parse s = .error e ↔
      ∃ before rest, s.toList = before ++ '$' :: rest ∧ Tokens before ('$' :: rest) ∧ ¬ Opens rest ∧
        e = .invalidToken (String.ofList before).utf8ByteSize s) ∧
    ∀ parts : List Part, (∀ p ∈ parts, p.Fits) →
      (parse (print parts) = .ok (merged parts) ↔ Separated parts) := by
  refine ⟨fun s => ⟨?_, fun h => ?_⟩, fun s e => ⟨fun h => ?_, ?_⟩, fun parts => parse_print_iff⟩
  · rintro ⟨parts, hparts⟩ before rest hs hbefore
    by_cases hopens : Opens rest
    · exact hopens
    · cases hparts.symm.trans (parse_of_not_opens hs hbefore hopens)
  · rcases tokens_or_stuck s.toList with htokens | ⟨before, rest, hs, hbefore, hopens⟩
    · obtain ⟨parts, hparts, -⟩ := parse_of_tokens htokens
      exact ⟨parts, hparts⟩
    · exact absurd (h before rest hs hbefore) hopens
  · rcases tokens_or_stuck s.toList with htokens | ⟨before, rest, hs, hbefore, hopens⟩
    · obtain ⟨parts, hparts, -⟩ := parse_of_tokens htokens
      cases hparts.symm.trans h
    · have herror := parse_of_not_opens hs hbefore hopens
      exact ⟨before, rest, hs, hbefore, hopens, (Except.error.inj (herror.symm.trans h)).symm⟩
  · rintro ⟨before, rest, hs, hbefore, hopens, rfl⟩
    exact parse_of_not_opens hs hbefore hopens

/-- the price of a list, with a dollar sign in it, is read back from its printed form; a dollar sign in
front of a letter is reported behind the two bytes of the first character -/
theorem price_read :
    (∀ p ∈ [.text "é", .text "$", Part.slot 1, .text "", .text ".", .splice 2], p.Fits) ∧
    parse (print [.text "é", .text "$", .slot 1, .text "", .text ".", .splice 2]) =
      .ok [.text "é$", .slot 1, .text ".", .splice 2] ∧
    parse "é$x" = .error (.invalidToken 2 "é$x") := by
  have hfits : ∀ p ∈ [.text "é", .text "$", Part.slot 1, .text "", .text ".", .splice 2], p.Fits := by
    simp [Part.Fits]
  have hmerged : merged [.text "é", .text "$", .slot 1, .text "", .text ".", .splice 2] =
      [.text "é$", .slot 1, .text ".", .splice 2] := by
    decide +kernel
  have hseparated : Separated [.text "é", .text "$", .slot 1, .text "", .text ".", .splice 2] := by
    simp [Separated, Ended, leading]
  refine ⟨hfits, hmerged ▸ (parse_exact.2.2 _ hfits).mpr hseparated, ?_⟩
  exact (parse_exact.2.1 _ _).mpr ⟨['é'], ['x'], rfl, .cons (.plain (by decide)) .nil, by decide, rfl⟩

end ServiceGraph.Template
