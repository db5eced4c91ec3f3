/-!
# Maps in insertion order

A map with string keys is kept as the list of its pairs, in the order in which the keys first
came.

* `OrderedMap.get?`, `contains`, `keys`, `values`: reading;
* `OrderedMap.insert`: a known key keeps its position and takes the new value, a new key goes last;
* `OrderedMap.erase`: the others keep their order;
* `OrderedMap.extend`: the second map's pairs inserted one after the other;
* `OrderedMap.ofList`: a list of pairs read as a map.

Every operation keeps the keys distinct when they were (`OrderedMap.Distinct`).
-/

namespace ServiceGraph

/-- a map with string keys, as its pairs in insertion order -/
abbrev OrderedMap (α : Type) := List (String × α)

namespace OrderedMap

variable {α β : Type}

def get? : OrderedMap α → String → Option α
  | [], _ => none
  | (k, v) :: rest, key => if k = key then some v else get? rest key

def contains (m : OrderedMap α) (key : String) : Bool :=
  (get? m key).isSome

def keys (m : OrderedMap α) : List String :=
  m.map Prod.fst

def values (m : OrderedMap α) : List α :=
  m.map Prod.snd

/-- set a key: in place when it is known, last when it is new -/
def insert : OrderedMap α → String → α → OrderedMap α
  | [], key, value => [(key, value)]
  | (k, v) :: rest, key, value =>
    if k = key then (k, value) :: rest else (k, v) :: insert rest key value

def erase : OrderedMap α → String → OrderedMap α
  | [], _ => []
  | (k, v) :: rest, key => if k = key then rest else (k, v) :: erase rest key

/-- insert every pair of the second map, in order -/
def extend (m : OrderedMap α) (more : List (String × α)) : OrderedMap α :=
  more.foldl (fun acc p => insert acc p.1 p.2) m

/-- read pairs as a map: a repeated key keeps its first position and its last value -/
def ofList (pairs : List (String × α)) : OrderedMap α :=
  extend [] pairs

def Distinct (m : OrderedMap α) : Prop :=
  (keys m).Nodup

instance (m : OrderedMap α) : Decidable (Distinct m) :=
  inferInstanceAs (Decidable (keys m).Nodup)

/-! ## reading after writing -/

@[simp] theorem get?_nil (key : String) : get? ([] : OrderedMap α) key = none := rfl

theorem mem_keys_of_get? {m : OrderedMap α} {key : String} {v : α}
    (h : get? m key = some v) : key ∈ keys m := by
  induction m with
  | nil => simp at h
  | cons p rest ih =>
    obtain ⟨k, w⟩ := p
    by_cases hk : k = key
    · simp [keys, hk]
    · simp only [get?, hk, if_false] at h
      have := ih h
      simp only [keys, List.map_cons, List.mem_cons] at this ⊢
      exact Or.inr this

theorem mem_of_get? {m : OrderedMap α} {key : String} {v : α} (h : get? m key = some v) :
    (key, v) ∈ m := by
  induction m with
  | nil => simp at h
  | cons p rest ih =>
    obtain ⟨k, w⟩ := p
    by_cases hk : k = key
    · simp only [get?, hk, if_true, Option.some.injEq] at h
      rw [hk, h]
      exact List.mem_cons_self
    · simp only [get?, hk, if_false] at h
      exact List.mem_cons_of_mem _ (ih h)

theorem get?_eq_none_iff {m : OrderedMap α} {key : String} : get? m key = none ↔ key ∉ keys m := by
  induction m with
  | nil => simp [keys]
  | cons p rest ih =>
    obtain ⟨k, w⟩ := p
    by_cases hk : k = key
    · simp [get?, keys, hk]
    · have hne : key ≠ k := fun h => hk h.symm
      simp only [get?, hk, if_false, ih]
      simp [keys, hne]

theorem exists_get?_of_mem_keys {m : OrderedMap α} {key : String} (h : key ∈ keys m) :
    ∃ v, get? m key = some v := by
  cases hv : get? m key with
  | none => exact absurd h (get?_eq_none_iff.mp hv)
  | some v => exact ⟨v, rfl⟩

theorem contains_eq_true_iff {m : OrderedMap α} {key : String} :
    contains m key = true ↔ key ∈ keys m := by
  rw [contains, ← Option.ne_none_iff_isSome, ne_eq, get?_eq_none_iff, Classical.not_not]

theorem get?_append (m more : OrderedMap α) (key : String) :
    get? (m ++ more) key = (get? m key).or (get? more key) := by
  induction m with
  | nil => simp
  | cons p rest ih =>
    obtain ⟨k, w⟩ := p
    by_cases hk : k = key
    · simp [get?, hk]
    · simp [get?, hk, ih]

theorem get?_append_of_get? {m : OrderedMap α} {key : String} {v : α} (h : get? m key = some v)
    (more : OrderedMap α) : get? (m ++ more) key = some v := by
  rw [get?_append, h, Option.some_or]

theorem get?_insert (m : OrderedMap α) (key : String) (value : α) (other : String) :
    get? (insert m key value) other = if key = other then some value else get? m other := by
  induction m with
  | nil => simp [insert, get?]
  | cons p rest ih =>
    obtain ⟨k, v⟩ := p
    by_cases h : k = key
    · subst h; by_cases h' : k = other <;> simp [insert, get?, h']
    · by_cases h' : k = other
      · subst h'; simp [insert, get?, h, Ne.symm h]
      · simp [insert, get?, h, h', ih]

theorem keys_insert (m : OrderedMap α) (key : String) (value : α) :
    keys (insert m key value) = if key ∈ keys m then keys m else keys m ++ [key] := by
  induction m with
  | nil => simp [insert, keys]
  | cons p rest ih =>
    obtain ⟨k, v⟩ := p
    simp only [keys] at ih
    by_cases h : k = key
    · subst h; simp [insert, keys]
    · by_cases hm : key ∈ rest.map Prod.fst
      · simp [insert, keys, h, ih, hm]
      · simp [insert, keys, h, ih, hm, Ne.symm h]

theorem mem_keys_insert {m : OrderedMap α} {key other : String} {value : α} :
    other ∈ keys (insert m key value) ↔ other = key ∨ other ∈ keys m := by
  rw [keys_insert]
  split
  next hkey =>
    refine ⟨.inr, ?_⟩
    rintro (rfl | hother)
    · exact hkey
    · exact hother
  next => rw [List.mem_append, List.mem_singleton, or_comm]

/-- a key that comes once more changes nothing about the first one with a property -/
theorem find?_keys_insert (m : OrderedMap α) (key : String) (value : α) (q : String → Bool) :
    (keys (insert m key value)).find? q = (keys m ++ [key]).find? q := by
  rw [keys_insert]
  split
  next hmem =>
    rw [List.find?_append]
    cases hq : q key with
    | false => simp [hq]
    | true =>
      have hfound : ((keys m).find? q).isSome := List.find?_isSome.mpr ⟨key, hmem, hq⟩
      rw [Option.or_of_isSome hfound]
  next => rfl

theorem mem_insert {m : OrderedMap α} {key : String} {value : α} {p : String × α}
    (h : p ∈ insert m key value) : p = (key, value) ∨ p ∈ m := by
  induction m with
  | nil => exact .inl (List.mem_singleton.mp h)
  | cons q rest ih =>
    obtain ⟨k, v⟩ := q
    rw [insert] at h
    split at h
    next hk =>
      rcases List.mem_cons.mp h with rfl | hrest
      · exact .inl (by rw [hk])
      · exact .inr (List.mem_cons_of_mem _ hrest)
    next =>
      rcases List.mem_cons.mp h with rfl | hrest
      · exact .inr List.mem_cons_self
      · exact (ih hrest).imp id (List.mem_cons_of_mem _)

theorem forall_mem_insert {P : α → Prop} {m : OrderedMap α} (hm : ∀ e ∈ m, P e.2) (key : String)
    {value : α} (hvalue : P value) : ∀ e ∈ insert m key value, P e.2 := by
  intro e he
  rcases mem_insert he with rfl | hold
  · exact hvalue
  · exact hm e hold

theorem insert_of_get? {m : OrderedMap α} {key : String} {v : α} (h : get? m key = some v) :
    insert m key v = m := by
  induction m with
  | nil => simp at h
  | cons p rest ih =>
    obtain ⟨k, w⟩ := p
    by_cases hk : k = key
    · simp only [get?, hk, if_true, Option.some.injEq] at h
      rw [insert, if_pos hk, h]
    · simp only [get?, hk, if_false] at h
      rw [insert, if_neg hk, ih h]

theorem insert_of_not_mem {m : OrderedMap α} {key : String} (h : key ∉ keys m) (value : α) :
    insert m key value = m ++ [(key, value)] := by
  induction m with
  | nil => rfl
  | cons p rest ih =>
    obtain ⟨k, v⟩ := p
    have hk : k ≠ key := fun he => h (List.mem_cons.mpr (.inl he.symm))
    have hrest : key ∉ keys rest := fun hm => h (List.mem_cons_of_mem _ hm)
    rw [insert, if_neg hk, ih hrest, List.cons_append]

theorem Distinct.get?_of_mem {m : OrderedMap α} (h : Distinct m) {key : String} {v : α}
    (hm : (key, v) ∈ m) : get? m key = some v := by
  induction m with
  | nil => simp at hm
  | cons p rest ih =>
    obtain ⟨k, w⟩ := p
    obtain ⟨hk, hrest⟩ := List.nodup_cons.mp h
    rcases List.mem_cons.mp hm with heq | hm
    · cases heq
      simp [get?]
    · have hne : k ≠ key := fun he => hk (List.mem_map.mpr ⟨(key, v), hm, he.symm⟩)
      simp [get?, hne, ih hrest hm]

/-- maps with their keys in one order that answer alike are the same -/
theorem Distinct.eq_of_get? {m m' : OrderedMap α} (h : Distinct m) (hkeys : keys m' = keys m)
    (hget : ∀ key, get? m' key = get? m key) : m' = m := by
  induction m generalizing m' with
  | nil => exact List.map_eq_nil_iff.mp hkeys
  | cons e rest ih =>
    obtain ⟨key, value⟩ := e
    obtain ⟨hkey, hrest⟩ := List.nodup_cons.mp h
    cases m' with
    | nil => cases hkeys
    | cons e' rest' =>
      obtain ⟨key', value'⟩ := e'
      obtain ⟨rfl, hothers⟩ := List.cons.inj hkeys
      have hfirst := hget key'
      rw [get?, get?, if_pos rfl, if_pos rfl] at hfirst
      cases hfirst
      have hbelow : keys rest' = keys rest := hothers
      refine congrArg _ (ih hrest hbelow fun other => ?_)
      by_cases hother : key' = other
      · subst hother
        rw [get?_eq_none_iff.mpr hkey, get?_eq_none_iff.mpr (hbelow ▸ hkey)]
      · have hsame := hget other
        rwa [get?, get?, if_neg hother, if_neg hother] at hsame

theorem erase_sublist (m : OrderedMap α) (key : String) : (erase m key).Sublist m := by
  induction m with
  | nil => exact List.Sublist.slnil
  | cons p rest ih =>
    obtain ⟨k, v⟩ := p
    rw [erase]
    split
    · exact List.sublist_cons_self _ _
    · exact ih.cons_cons _

theorem Distinct.erase {m : OrderedMap α} (h : Distinct m) (key : String) :
    Distinct (OrderedMap.erase m key) :=
  List.Nodup.sublist ((erase_sublist m key).map Prod.fst) h

theorem Distinct.get?_erase {m : OrderedMap α} (h : Distinct m) (key other : String) :
    get? (OrderedMap.erase m key) other = if key = other then none else get? m other := by
  induction m with
  | nil => simp [OrderedMap.erase]
  | cons p rest ih =>
    obtain ⟨k, v⟩ := p
    obtain ⟨hk, hrest⟩ := List.nodup_cons.mp h
    by_cases heq : k = key
    · rw [OrderedMap.erase, if_pos heq]
      by_cases hother : key = other
      · rw [if_pos hother, ← hother, ← heq]
        exact get?_eq_none_iff.mpr hk
      · rw [if_neg hother, get?, if_neg (heq ▸ hother)]
    · rw [OrderedMap.erase, if_neg heq, get?, get?, ih hrest]
      by_cases hother : key = other
      · rw [if_pos hother, if_pos hother, if_neg (hother ▸ heq)]
      · rw [if_neg hother, if_neg hother]

theorem eq_nil_iff_get? {m : OrderedMap α} : m = [] ↔ ∀ key, get? m key = none := by
  constructor
  · rintro rfl key
    rfl
  · intro h
    cases m with
    | nil => rfl
    | cons p rest =>
      have hfirst := h p.1
      simp [get?] at hfirst

theorem Distinct.insert {m : OrderedMap α} (h : Distinct m) (key : String) (value : α) :
    Distinct (OrderedMap.insert m key value) := by
  unfold Distinct at *
  rw [keys_insert]
  split
  · exact h
  · next hn => exact List.nodup_append.2 ⟨h, by simp, by
      intro a ha b hb; simp at hb; subst hb; exact fun e => hn (e ▸ ha)⟩

theorem Distinct.extend {m : OrderedMap α} (h : Distinct m) (more : List (String × α)) :
    Distinct (OrderedMap.extend m more) := by
  unfold OrderedMap.extend
  induction more generalizing m with
  | nil => exact h
  | cons p rest ih => exact ih (h.insert p.1 p.2)

theorem extend_of_distinct {m more : OrderedMap α}
    (h : Distinct (m ++ more)) : extend m more = m ++ more := by
  induction more generalizing m with
  | nil => exact (List.append_nil m).symm
  | cons e more ih =>
    obtain ⟨key, a⟩ := e
    have hfresh : key ∉ keys m := by
      unfold Distinct keys at h
      rw [List.map_append, List.map_cons, List.nodup_append] at h
      exact fun hm => h.2.2 key hm key (List.mem_cons_self ..) rfl
    have hswap : m ++ (key, a) :: more = (m ++ [(key, a)]) ++ more := by
      rw [List.append_assoc, List.singleton_append]
    show extend (insert m key a) more = _
    rw [insert_of_not_mem hfresh]
    rw [hswap] at h ⊢
    exact ih h

/-- a map from which one key is picked out -/
theorem Distinct.filter_key {m : OrderedMap α} (h : Distinct m) (key : String) :
    m.filter (fun p => p.1 = key) = ((get? m key).map (key, ·)).toList := by
  induction m with
  | nil => rfl
  | cons p rest ih =>
    obtain ⟨k, v⟩ := p
    obtain ⟨hk, hrest⟩ := List.nodup_cons.mp h
    rw [List.filter_cons, get?, ih hrest]
    by_cases hkey : k = key
    · subst hkey
      have hnone : get? rest k = none := get?_eq_none_iff.mpr hk
      simp [hnone]
    · simp [hkey]

theorem get?_map (f : α → β) (m : OrderedMap α) (key : String) :
    get? (m.map fun p => (p.1, f p.2)) key = (get? m key).map f := by
  induction m with
  | nil => rfl
  | cons p rest ih =>
    obtain ⟨k, v⟩ := p
    rw [List.map_cons, get?, get?, ih]
    split <;> rfl

/-- keys that all have the same value -/
theorem get?_const (keys : List String) (v : α) (key : String) :
    get? (keys.map (·, v)) key = if keys.contains key then some v else none := by
  induction keys with
  | nil => rfl
  | cons k keys ih =>
    rw [List.map_cons, get?, ih, List.contains_cons]
    by_cases hk : k = key
    · simp [hk]
    · simp [hk, Ne.symm hk]

theorem forall_mem_extend {P : α → Prop} {m : OrderedMap α} (hm : ∀ e ∈ m, P e.2)
    {more : List (String × α)} (hmore : ∀ e ∈ more, P e.2) : ∀ e ∈ extend m more, P e.2 := by
  unfold extend
  induction more generalizing m with
  | nil => exact hm
  | cons p rest ih =>
    obtain ⟨hp, hrest⟩ := List.forall_mem_cons.mp hmore
    exact ih (forall_mem_insert hm p.1 hp) hrest

end OrderedMap
end ServiceGraph
