import ServiceGraph.Parameters.Expansion

/-!
# Expansion as an inquiry

Expanding a value is a dialogue with the tree: it asks for the value of a key, goes on with the
answer, and stops at the first error. An inquiry is that dialogue without the one who answers, so
that the same expansion can be answered with a bound on the chains of keys and without one.

* `Inquiry`: a result, or a key and what is made of its value;
* `Inquiry.answer look`: the outcome when `look` answers for the keys;
* `Reading.interpolateInquiry`, `Value.inquiry`, `Parameters.getInquiry`, `resolveInquiry`: what a
  string, a value, a key and a whole tree ask;
* `Value.expandWith_eq_answer` and its likes: expansion is the inquiry, answered;
* `Inquiry.Acyclic`: an inquiry that does not come up with a cycle by itself.
-/

namespace ServiceGraph

/-- an expansion as the keys it asks for, one after the other; an error of a key ends it -/
inductive Inquiry (α : Type) where
  | done (result : Expansion α)
  | ask (key : String) (next : Value → Inquiry α)

namespace Inquiry

variable {α β : Type}

/-- go on with the value of an inquiry -/
def bind : Inquiry α → (α → Inquiry β) → Inquiry β
  | done (.ok a), f => f a
  | done (.error e), _ => done (.error e)
  | ask key next, f => ask key fun v => bind (next v) f

instance : Monad Inquiry where
  pure a := done (.ok a)
  bind := bind

@[simp] theorem pure_bind (a : α) (f : α → Inquiry β) : ((pure a : Inquiry α) >>= f) = f a := rfl

@[simp] theorem done_ok_bind (a : α) (f : α → Inquiry β) : (done (.ok a) >>= f) = f a := rfl

@[simp] theorem done_error_bind (e : ParameterError) (f : α → Inquiry β) :
    (done (.error e) >>= f) = done (.error e) := rfl

@[simp] theorem ask_bind (key : String) (next : Value → Inquiry α) (f : α → Inquiry β) :
    (ask key next >>= f) = ask key fun v => next v >>= f := rfl

def ofKey (key : String) : Inquiry Value := ask key pure

/-- the outcome of an inquiry, given who answers for the keys -/
def answer (look : String → Expansion Value) : Inquiry α → Expansion α
  | done result => result
  | ask key next => do answer look (next (← look key))

section
variable (look : String → Expansion Value)

@[simp] theorem answer_done (r : Expansion α) : (done r).answer look = r := rfl

@[simp] theorem answer_pure (a : α) : (pure a : Inquiry α).answer look = .ok a := rfl

theorem answer_ask (key : String) (next : Value → Inquiry α) :
    (ask key next).answer look = look key >>= fun v => (next v).answer look := rfl

@[simp] theorem answer_ofKey (key : String) : (ofKey key).answer look = look key := by
  rw [ofKey, answer_ask]
  cases look key <;> rfl

@[simp] theorem answer_bind (i : Inquiry α) (f : α → Inquiry β) :
    (i >>= f).answer look = i.answer look >>= fun a => (f a).answer look := by
  induction i with
  | done r => cases r <;> rfl
  | ask key next ih =>
    rw [ask_bind, answer_ask, answer_ask]
    cases look key with
    | error e => rfl
    | ok v => exact ih v

/-- an answer stays when the keys that have values keep them -/
theorem answer_mono {look' : String → Expansion Value}
    (h : ∀ key v, look key = .ok v → look' key = .ok v) {i : Inquiry α} {a : α}
    (hi : i.answer look = .ok a) : i.answer look' = .ok a := by
  induction i with
  | done r => exact hi
  | ask key next ih =>
    rw [answer_ask] at hi ⊢
    cases hkey : look key with
    | error e =>
      rw [hkey] at hi
      cases hi
    | ok v =>
      rw [hkey] at hi
      rw [h key v hkey]
      exact ih v hi

end

end Inquiry

/-! ## what strings, values, keys and trees ask -/

namespace Reading

/-- what a reference asks that is read after its opening percent sign; see `reference` -/
def referenceInquiry (template : String) (outer : List (List Char)) (key : List Char)
    (used : Nat) : List Char → Inquiry (Option (String × Nat))
  | [] => pure none
  | c :: rest =>
    if c = '%' then
      match key with
      | [] => pure none
      | last :: _ =>
        if last = '.' then referenceInquiry template (key :: outer) [] (used + 1) rest
        else
          let name := String.ofList key.reverse
          match outer with
          | [] => pure (some (name, used + 1))
          | around :: outer => do
            let piece ← .done (spliced name template (← .ofKey name))
            referenceInquiry template outer (piece.toList.reverse ++ around) (used + 1) rest
    else if keyChar c then referenceInquiry template outer (c :: key) (used + 1) rest
    else pure none

/-- what the cutting of a string asks; see `segments` -/
def segmentsInquiry (template : String) (skip : Nat) (text : List Char) :
    List Char → Inquiry (List Segment)
  | [] => pure (flush text)
  | c :: rest =>
    match skip with
    | skip + 1 => segmentsInquiry template skip text rest
    | 0 =>
      if c ≠ '%' then segmentsInquiry template 0 (c :: text) rest
      else if rest.head? = some '%' then segmentsInquiry template 1 ('%' :: text) rest
      else do
        match ← referenceInquiry template [] [] 0 rest with
        | some (key, used) =>
          return flush text ++ .reference key :: (← segmentsInquiry template used [] rest)
        | none => segmentsInquiry template 0 ('%' :: text) rest

def spellInquiry (template : String) : List Segment → Inquiry String
  | [] => pure ""
  | .text s :: rest => return s ++ (← spellInquiry template rest)
  | .reference key :: rest => do
    let piece ← .done (spliced key template (← .ofKey key))
    return piece ++ (← spellInquiry template rest)

def interpolateInquiry (template : String) : Inquiry Value := do
  match ← segmentsInquiry template 0 [] template.toList with
  | [.reference key] => .ofKey key
  | parts => return .str (← spellInquiry template parts)

variable (look : String → Expansion Value)

theorem reference_eq_answer (template : String) (outer : List (List Char)) (key : List Char)
    (used : Nat) (cs : List Char) :
    reference look template outer key used cs =
      (referenceInquiry template outer key used cs).answer look := by
  induction cs generalizing outer key used with
  | nil => rfl
  | cons c rest ih =>
    unfold reference referenceInquiry
    by_cases hc : c = '%'
    · rw [if_pos hc, if_pos hc]
      cases key with
      | nil => rfl
      | cons last before =>
        by_cases hdot : last = '.'
        · simp only [hdot, if_true]
          exact ih ..
        · simp only [hdot, if_false]
          cases outer with
          | nil => rfl
          | cons around outer => simp only [Inquiry.answer_bind, Inquiry.answer_ofKey,
              Inquiry.answer_done, ih]
    · rw [if_neg hc, if_neg hc]
      by_cases hkey : keyChar c
      · rw [if_pos hkey, if_pos hkey]
        exact ih ..
      · rw [if_neg hkey, if_neg hkey]
        rfl

theorem segments_eq_answer (template : String) (skip : Nat) (text cs : List Char) :
    segments look template skip text cs = (segmentsInquiry template skip text cs).answer look := by
  induction cs generalizing skip text with
  | nil => rfl
  | cons c rest ih =>
    cases skip with
    | succ skip => exact ih ..
    | zero =>
      rw [segments, segmentsInquiry]
      split
      · exact ih ..
      · split
        · exact ih ..
        · rw [Inquiry.answer_bind, reference_eq_answer]
          congr 1
          funext found
          cases found with
          | none => exact ih ..
          | some found => simp only [Inquiry.answer_bind, Inquiry.answer_pure, ih]; rfl

theorem spell_eq_answer (template : String) (parts : List Segment) :
    spell look template parts = (spellInquiry template parts).answer look := by
  induction parts with
  | nil => rfl
  | cons part rest ih =>
    cases part with
    | text s => simp only [spell, spellInquiry, Inquiry.answer_bind, Inquiry.answer_pure, ih]; rfl
    | reference key =>
      simp only [spell, spellInquiry, Inquiry.answer_bind, Inquiry.answer_pure,
        Inquiry.answer_ofKey, Inquiry.answer_done, ih]
      rfl

theorem interpolate_eq_answer (template : String) :
    interpolate look template = (interpolateInquiry template).answer look := by
  rw [interpolate, interpolateInquiry, Inquiry.answer_bind, segments_eq_answer]
  congr 1
  funext parts
  split
  · rw [Inquiry.answer_ofKey]
  · simp only [Inquiry.answer_bind, Inquiry.answer_pure, spell_eq_answer]
    rfl

end Reading

namespace Value

mutual

def inquiry : Value → Inquiry Value
  | str s => if s.toList.contains '%' then Reading.interpolateInquiry s else pure (str s)
  | list items => return list (← inquiryOfItems items)
  | map entries => return map (← inquiryOfEntries entries)
  | v => pure v

def inquiryOfItems : List Value → Inquiry (List Value)
  | [] => pure []
  | v :: vs => return (← inquiry v) :: (← inquiryOfItems vs)

def inquiryOfEntries : List (String × Value) → Inquiry (List (String × Value))
  | [] => pure []
  | (k, v) :: vs => return (k, ← inquiry v) :: (← inquiryOfEntries vs)

end

section
variable (look : String → Expansion Value)

mutual

theorem expandWith_eq_answer (v : Value) : v.expandWith look = v.inquiry.answer look := by
  cases v with
  | str s =>
    rw [expandWith, inquiry]
    split
    · exact Reading.interpolate_eq_answer look s
    · rfl
  | list items =>
    rw [expandWith, inquiry, Inquiry.answer_bind, expandItems_eq_answer items]
    rfl
  | map entries =>
    rw [expandWith, inquiry, Inquiry.answer_bind, expandEntries_eq_answer entries]
    rfl
  | null | bool _ | int _ | float _ | service _ => rfl

theorem expandItems_eq_answer (vs : List Value) :
    expandItems look vs = (inquiryOfItems vs).answer look := by
  cases vs with
  | nil => rfl
  | cons v vs =>
    simp only [expandItems, inquiryOfItems, Inquiry.answer_bind, Inquiry.answer_pure,
      expandWith_eq_answer v, expandItems_eq_answer vs]
    rfl

theorem expandEntries_eq_answer (vs : List (String × Value)) :
    expandEntries look vs = (inquiryOfEntries vs).answer look := by
  cases vs with
  | nil => rfl
  | cons e vs =>
    cases e with
    | mk k v =>
      simp only [expandEntries, inquiryOfEntries, Inquiry.answer_bind, Inquiry.answer_pure,
        expandWith_eq_answer v, expandEntries_eq_answer vs]
      rfl

end

end

end Value

namespace Parameters

def keyInquiry (key : String) : Inquiry String :=
  if key.toList.contains '%' then do
    .done (Reading.spliced key key (← Reading.interpolateInquiry key))
  else pure key

/-- what a key asks, the references in it first -/
def getInquiry (key : String) : Inquiry Value := do .ofKey (← keyInquiry key)

def resolveInquiry (tree : OrderedMap Value) : Inquiry Parameters :=
  return ⟨← Value.inquiryOfEntries tree, true⟩

theorem expandKey_eq_answer (p : Parameters) (key : String) :
    p.expandKey key = (keyInquiry key).answer p.find := by
  rw [expandKey, keyInquiry]
  split
  · rw [Inquiry.answer_bind, Reading.interpolate_eq_answer]
    rfl
  · rfl

theorem get_eq_answer (p : Parameters) (key : String) :
    p.get key = (getInquiry key).answer p.find := by
  rw [get, getInquiry, Inquiry.answer_bind, expandKey_eq_answer]
  simp only [Inquiry.answer_ofKey]

end Parameters

/-! ## errors of an inquiry's own -/

namespace Inquiry

variable {α β : Type}

/-- an inquiry whose own errors are no cycles -/
def Acyclic : Inquiry α → Prop
  | done r => ∀ chain, r ≠ .error (.cycle chain)
  | ask _ next => ∀ v, Acyclic (next v)

theorem acyclic_pure (a : α) : (pure a : Inquiry α).Acyclic := fun _ h => nomatch h

theorem acyclic_ofKey (key : String) : (ofKey key).Acyclic := fun v => acyclic_pure v

theorem Acyclic.bind {i : Inquiry α} {f : α → Inquiry β} (hi : i.Acyclic)
    (hf : ∀ a, (f a).Acyclic) : (i >>= f).Acyclic := by
  induction i with
  | done r =>
    cases r with
    | ok a => exact hf a
    | error e =>
      intro chain h
      cases h
      exact hi chain rfl
  | ask key next ih => exact fun v => ih v (hi v)

end Inquiry

namespace Reading

open Inquiry

theorem acyclic_spliced (key template : String) (v : Value) :
    (done (spliced key template v)).Acyclic := by
  intro chain h
  unfold spliced at h
  split at h <;> cases h

theorem acyclic_referenceInquiry (template : String) (outer : List (List Char))
    (key : List Char) (used : Nat) (cs : List Char) :
    (referenceInquiry template outer key used cs).Acyclic := by
  induction cs generalizing outer key used with
  | nil => exact acyclic_pure _
  | cons c rest ih =>
    unfold referenceInquiry
    split
    · cases key with
      | nil => exact acyclic_pure _
      | cons last before =>
        dsimp only
        split
        · exact ih ..
        · cases outer with
          | nil => exact acyclic_pure _
          | cons around outer =>
            refine (acyclic_ofKey _).bind fun v => ?_
            exact (acyclic_spliced _ _ v).bind fun piece => ih ..
    · split
      · exact ih ..
      · exact acyclic_pure _

theorem acyclic_segmentsInquiry (template : String) (skip : Nat) (text cs : List Char) :
    (segmentsInquiry template skip text cs).Acyclic := by
  induction cs generalizing skip text with
  | nil => exact acyclic_pure _
  | cons c rest ih =>
    cases skip with
    | succ skip => exact ih ..
    | zero =>
      rw [segmentsInquiry]
      split
      · exact ih ..
      · split
        · exact ih ..
        · refine (acyclic_referenceInquiry ..).bind fun found => ?_
          cases found with
          | none => exact ih ..
          | some found => exact (ih ..).bind fun parts => acyclic_pure _

theorem acyclic_spellInquiry (template : String) (parts : List Segment) :
    (spellInquiry template parts).Acyclic := by
  induction parts with
  | nil => exact acyclic_pure _
  | cons part rest ih =>
    cases part with
    | text s => exact ih.bind fun _ => acyclic_pure _
    | reference key =>
      refine (acyclic_ofKey key).bind fun v => ?_
      refine (acyclic_spliced _ _ v).bind fun piece => ?_
      exact ih.bind fun _ => acyclic_pure _

theorem acyclic_interpolateInquiry (template : String) :
    (interpolateInquiry template).Acyclic := by
  refine (acyclic_segmentsInquiry ..).bind fun parts => ?_
  split
  · exact acyclic_ofKey _
  · exact (acyclic_spellInquiry ..).bind fun _ => acyclic_pure _

end Reading

namespace Value

open Inquiry

mutual

theorem acyclic_inquiry (v : Value) : v.inquiry.Acyclic := by
  cases v with
  | str s =>
    rw [inquiry]
    split
    · exact Reading.acyclic_interpolateInquiry s
    · exact acyclic_pure _
  | list items => exact (acyclic_inquiryOfItems items).bind fun _ => acyclic_pure _
  | map entries => exact (acyclic_inquiryOfEntries entries).bind fun _ => acyclic_pure _
  | null | bool _ | int _ | float _ | service _ => exact acyclic_pure _

theorem acyclic_inquiryOfItems (vs : List Value) : (inquiryOfItems vs).Acyclic := by
  cases vs with
  | nil => exact acyclic_pure _
  | cons v vs =>
    rw [inquiryOfItems]
    refine (acyclic_inquiry v).bind fun _ => ?_
    exact (acyclic_inquiryOfItems vs).bind fun _ => acyclic_pure _

theorem acyclic_inquiryOfEntries (vs : List (String × Value)) :
    (inquiryOfEntries vs).Acyclic := by
  cases vs with
  | nil => exact acyclic_pure _
  | cons e vs =>
    cases e with
    | mk k v =>
      rw [inquiryOfEntries]
      refine (acyclic_inquiry v).bind fun _ => ?_
      exact (acyclic_inquiryOfEntries vs).bind fun _ => acyclic_pure _

end

end Value

theorem Parameters.acyclic_getInquiry (key : String) : (getInquiry key).Acyclic := by
  unfold getInquiry keyInquiry
  refine Inquiry.Acyclic.bind ?_ fun key => Inquiry.acyclic_ofKey key
  split
  · exact (Reading.acyclic_interpolateInquiry key).bind fun v => Reading.acyclic_spliced _ _ v
  · exact Inquiry.acyclic_pure key

theorem Parameters.acyclic_resolveInquiry (tree : OrderedMap Value) :
    (resolveInquiry tree).Acyclic :=
  (Value.acyclic_inquiryOfEntries tree).bind fun _ => Inquiry.acyclic_pure _

end ServiceGraph
