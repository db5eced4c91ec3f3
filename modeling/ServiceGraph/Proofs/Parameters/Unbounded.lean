import ServiceGraph.Proofs.Grounded
import ServiceGraph.Proofs.Parameters.Inquiry

/-!
# Expansion without a bound

The rules of expansion put no bound on how many keys are passed on the way to a value. Read without
a bound, they may come to an outcome or go on forever.

* `Parameters.Ends p i r`: the inquiry `i` comes to the outcome `r`, the value of each key it asks
  for being expanded by the same rules;
* `Parameters.Asks p i key`: the inquiry comes to the point where it asks for the key;
* `Parameters.Refers p key next`: expanding the value of one key asks for the other;
* `Ends.unique`: there is at most one outcome;
* `Ends.grounded`, `exists_ends_ofKey`: the walks along `Refers` from the keys that are asked for
  end when there is an outcome, and a key from which they end has one.
-/

namespace ServiceGraph

namespace Parameters

variable {p : Parameters} {α β : Type}

/-- what an inquiry comes to by the rules alone, however long the chains of keys get -/
inductive Ends (p : Parameters) : {α : Type} → Inquiry α → Expansion α → Prop where
  | done {α : Type} (r : Expansion α) : Ends p (.done r) r
  | unknown {α : Type} {key : String} {next : Value → Inquiry α} :
    p.raw? key = none → Ends p (.ask key next) (.error (.unknown key))
  | failed {α : Type} {key : String} {next : Value → Inquiry α} {v : Value}
    {e : ParameterError} :
    p.raw? key = some v → Ends p v.inquiry (.error e) → Ends p (.ask key next) (.error e)
  | found {α : Type} {key : String} {next : Value → Inquiry α} {v w : Value}
    {r : Expansion α} :
    p.raw? key = some v → Ends p v.inquiry (.ok w) → Ends p (next w) r →
      Ends p (.ask key next) r

/-- the inquiry comes to ask for a key -/
inductive Asks (p : Parameters) {α : Type} : Inquiry α → String → Prop where
  | here {key : String} {next : Value → Inquiry α} : Asks p (.ask key next) key
  | later {key other : String} {next : Value → Inquiry α} {v w : Value} :
    p.raw? key = some v → Ends p v.inquiry (.ok w) → Asks p (next w) other →
      Asks p (.ask key next) other

/-- expanding the value of a key asks for another key -/
def Refers (p : Parameters) (key next : String) : Prop :=
  ∃ v, p.raw? key = some v ∧ p.Asks v.inquiry next

theorem Ends.unique {i : Inquiry α} {r r' : Expansion α} (h : p.Ends i r) (h' : p.Ends i r') :
    r = r' := by
  induction h with
  | done r =>
    cases h'
    rfl
  | unknown hv =>
    cases h' with
    | unknown _ => rfl
    | failed hv' _ => cases hv.symm.trans hv'
    | found hv' _ _ => cases hv.symm.trans hv'
  | failed hv _ ih =>
    cases h' with
    | unknown hv' => cases hv.symm.trans hv'
    | failed hv' he' =>
      cases hv.symm.trans hv'
      cases ih he'
      rfl
    | found hv' hw' _ =>
      cases hv.symm.trans hv'
      cases ih hw'
  | found hv _ _ ih ihnext =>
    cases h' with
    | unknown hv' => cases hv.symm.trans hv'
    | failed hv' he' =>
      cases hv.symm.trans hv'
      cases ih he'
    | found hv' hw' hnext' =>
      cases hv.symm.trans hv'
      cases ih hw'
      exact ihnext hnext'

theorem Ends.not_cycle {i : Inquiry α} {r : Expansion α} (h : p.Ends i r) (hi : i.Acyclic)
    (chain : List String) : r ≠ .error (.cycle chain) := by
  induction h with
  | done r => exact hi chain
  | unknown _ => exact fun h => nomatch h
  | @failed _ _ _ v e _ _ ih =>
    have hv : (.error e : Expansion Value) ≠ .error (.cycle chain) := ih (Value.acyclic_inquiry v)
    exact fun h => hv (congrArg Except.error (Except.error.inj h))
  | found _ _ _ _ ihnext => exact ihnext (hi _)

/-! ## inquiries in two steps -/

theorem ends_pure (a : α) : p.Ends (pure a) (.ok a) := .done _

theorem ends_bind_iff {i : Inquiry α} {f : α → Inquiry β} {r : Expansion β} :
    p.Ends (i >>= f) r ↔
      (∃ a, p.Ends i (.ok a) ∧ p.Ends (f a) r) ∨ ∃ e, p.Ends i (.error e) ∧ r = .error e := by
  constructor
  · intro h
    induction i with
    | done s =>
      cases s with
      | ok a => exact .inl ⟨a, .done _, h⟩
      | error e =>
        cases h
        exact .inr ⟨e, .done _, rfl⟩
    | ask key next ih =>
      cases h with
      | unknown hv => exact .inr ⟨_, .unknown hv, rfl⟩
      | failed hv he => exact .inr ⟨_, .failed hv he, rfl⟩
      | found hv hw hnext =>
        rcases ih _ hnext with ⟨a, ha, hf⟩ | ⟨e, he, hr⟩
        · exact .inl ⟨a, .found hv hw ha, hf⟩
        · exact .inr ⟨e, .found hv hw he, hr⟩
  · intro h
    induction i with
    | done s =>
      rcases h with ⟨a, ha, hf⟩ | ⟨e, he, rfl⟩
      · cases ha
        exact hf
      · cases he
        exact .done _
    | ask key next ih =>
      rcases h with ⟨a, ha, hf⟩ | ⟨e, he, rfl⟩
      · cases ha with
        | found hv hw hnext => exact .found hv hw (ih _ (.inl ⟨a, hnext, hf⟩))
      · cases he with
        | unknown hv => exact .unknown hv
        | failed hv he => exact .failed hv he
        | found hv hw hnext => exact .found hv hw (ih _ (.inr ⟨e, hnext, rfl⟩))

theorem ends_bind_ok_iff {i : Inquiry α} {f : α → Inquiry β} {b : β} :
    p.Ends (i >>= f) (.ok b) ↔ ∃ a, p.Ends i (.ok a) ∧ p.Ends (f a) (.ok b) := by
  rw [ends_bind_iff]
  constructor
  · rintro (h | ⟨e, -, he⟩)
    · exact h
    · cases he
  · exact .inl

theorem asks_bind_iff {i : Inquiry α} {f : α → Inquiry β} {key : String} :
    p.Asks (i >>= f) key ↔ p.Asks i key ∨ ∃ a, p.Ends i (.ok a) ∧ p.Asks (f a) key := by
  constructor
  · intro h
    induction i with
    | done s =>
      cases s with
      | ok a => exact .inr ⟨a, .done _, h⟩
      | error e => cases h
    | ask other next ih =>
      cases h with
      | here => exact .inl .here
      | later hv hw hnext =>
        rcases ih _ hnext with h | ⟨a, ha, hf⟩
        · exact .inl (.later hv hw h)
        · exact .inr ⟨a, .found hv hw ha, hf⟩
  · intro h
    induction i with
    | done s =>
      rcases h with h | ⟨a, ha, hf⟩
      · cases h
      · cases ha
        exact hf
    | ask other next ih =>
      rcases h with h | ⟨a, ha, hf⟩
      · cases h with
        | here => exact .here
        | later hv hw hnext => exact .later hv hw (ih _ (.inl hnext))
      · cases ha with
        | found hv hw hnext => exact .later hv hw (ih _ (.inr ⟨a, hnext, hf⟩))

theorem ends_ofKey_iff {key : String} {v : Value} (hv : p.raw? key = some v)
    {r : Expansion Value} : p.Ends (.ofKey key) r ↔ p.Ends v.inquiry r := by
  constructor
  · intro h
    cases h with
    | unknown hv' => cases hv.symm.trans hv'
    | failed hv' he =>
      cases hv.symm.trans hv'
      exact he
    | found hv' hw hnext =>
      cases hv.symm.trans hv'
      cases hnext
      exact hw
  · intro h
    cases r with
    | ok w => exact .found hv h (.done _)
    | error e => exact .failed hv h

/-! ## keys that are answered, and walks that end -/

/-- an inquiry whose keys are answered with what they come to is answered with what it comes to -/
theorem ends_answer {look : String → Expansion Value} {i : Inquiry α}
    (h : ∀ key, p.Asks i key → p.Ends (.ofKey key) (look key)) : p.Ends i (i.answer look) := by
  induction i with
  | done r => exact .done r
  | ask key next ih =>
    rw [Inquiry.answer_ask]
    have hkey : p.Ends (.ofKey key) (look key) := h key .here
    generalize look key = r at hkey
    cases hkey with
    | unknown hv => exact .unknown hv
    | failed hv he => exact .failed hv he
    | found hv hw hnext =>
      cases hnext
      exact .found hv hw (ih _ fun other hother => h other (.later hv hw hother))

theorem Ends.grounded {i : Inquiry α} {r : Expansion α} (h : p.Ends i r) {key : String}
    (hkey : p.Asks i key) : Grounded p.Refers key := by
  induction h generalizing key with
  | done r => cases hkey
  | unknown hv =>
    cases hkey with
    | here => exact .intro fun next ⟨v', hv', _⟩ => nomatch hv.symm.trans hv'
    | later hv' _ _ => cases hv.symm.trans hv'
  | failed hv he ih =>
    cases hkey with
    | here =>
      refine .intro fun next ⟨v', hv', hnext⟩ => ?_
      cases hv.symm.trans hv'
      exact ih hnext
    | later hv' hw' _ =>
      cases hv.symm.trans hv'
      cases he.unique hw'
  | found hv hw _ ih ihnext =>
    cases hkey with
    | here =>
      refine .intro fun next ⟨v', hv', hnext⟩ => ?_
      cases hv.symm.trans hv'
      exact ih hnext
    | later hv' hw' hother =>
      cases hv.symm.trans hv'
      cases hw.unique hw'
      exact ihnext hother

theorem exists_ends {i : Inquiry α} (h : ∀ key, p.Asks i key → ∃ r, p.Ends (.ofKey key) r) :
    ∃ r, p.Ends i r := by
  classical
  -- the keys have outcomes, so they can be answered with these
  let look : String → Expansion Value := fun key =>
    if hkey : ∃ r, p.Ends (.ofKey key) r then hkey.choose else .error (.unknown key)
  refine ⟨i.answer look, ends_answer fun key hkey => ?_⟩
  have hends : ∃ r, p.Ends (.ofKey key) r := h key hkey
  simpa only [look, dif_pos hends] using hends.choose_spec

theorem exists_ends_ofKey {key : String} (h : Grounded p.Refers key) :
    ∃ r, p.Ends (.ofKey key) r := by
  induction h with
  | intro key _ ih =>
    cases hv : p.raw? key with
    | none => exact ⟨_, .unknown hv⟩
    | some v =>
      obtain ⟨r, hr⟩ : ∃ r, p.Ends v.inquiry r :=
        exists_ends fun next hnext => ih next ⟨v, hv, hnext⟩
      exact ⟨r, (ends_ofKey_iff hv).mpr hr⟩

/-- when each key is answered with what it comes to or refused as a cycle, so is an inquiry -/
theorem answer_ends_or_cycle {look : String → Expansion Value}
    (h : ∀ key, p.Ends (.ofKey key) (look key) ∨ ∃ chain, look key = .error (.cycle chain))
    (i : Inquiry α) :
    p.Ends i (i.answer look) ∨ ∃ chain, i.answer look = .error (.cycle chain) := by
  induction i with
  | done r => exact .inl (.done r)
  | ask key next ih =>
    rw [Inquiry.answer_ask]
    rcases h key with hkey | ⟨chain, hchain⟩
    · generalize look key = r at hkey
      cases hkey with
      | unknown hv => exact .inl (.unknown hv)
      | failed hv he => exact .inl (.failed hv he)
      | @found _ _ _ _ w _ hv hw hnext =>
        cases hnext
        exact (ih w).imp_left (.found hv hw)
    · rw [hchain]
      exact .inr ⟨chain, rfl⟩

end Parameters
end ServiceGraph
