import ServiceGraph.Proofs.Parameters.KeyExpression

/-!
# Editing a resolved tree

A resolved tree gives its values as they stand. An edit stores text that is still to be expanded, so from then
on every value of the tree is expanded when it is read, those that were expanded before included.

* `Reading.quiet`: a text in which no percent sign means anything;
* `Value.expandWith_of_quiet`: expansion leaves values with such texts as they are;
* `Parameters.edited`: a tree after a run of edits, which is resolved only if there were none
  (`Parameters.resolved_edited`);
* `Parameters.get_edited`: what a key has after edits that left its value in the tree alone;
* `Parameters.expanded_again`: a value that another one's edit changes.
-/

namespace ServiceGraph

/-! ## quiet texts -/

namespace Reading

/-- no percent sign is followed by another one, with at most characters of keys between them -/
def quiet : List Char → Bool
  | [] => true
  | c :: rest => (c != '%' || (rest.dropWhile keyChar).head? != some '%') && quiet rest

variable {look : String → Expansion Value} {template : String} {rest cs : List Char}

/-- a percent sign that no other one follows opens no reference -/
theorem reference_of_quiet (h : (rest.dropWhile keyChar).head? ≠ some '%') (key : List Char) (used : Nat) :
    reference look template [] key used rest = .ok none := by
  induction rest generalizing key used with
  | nil => cases key <;> rfl
  | cons c rest ih =>
    by_cases hc : keyChar c = true
    · rw [reference_char hc]
      exact ih (by rwa [List.dropWhile_cons_of_pos hc] at h) _ _
    · rw [List.dropWhile_cons_of_neg hc] at h
      have hpercent : c ≠ '%' := fun heq => h (congrArg some heq)
      cases key <;> rw [reference, if_neg hpercent, if_neg hc]

/-- a quiet text is one stretch of text -/
theorem segments_of_quiet (h : quiet cs = true) (text : List Char) :
    segments look template 0 text cs = .ok (flush (cs.reverse ++ text)) := by
  induction cs generalizing text with
  | nil => rfl
  | cons c cs ih =>
    obtain ⟨hc, hcs⟩ := Bool.and_eq_true_iff.mp h
    rw [List.reverse_cons, List.append_assoc]
    by_cases hpercent : c = '%'
    · obtain rfl := hpercent
      have hread : (cs.dropWhile keyChar).head? ≠ some '%' := by simpa using hc
      have hhead : cs.head? ≠ some '%' := by
        intro heq
        obtain ⟨more, rfl⟩ := List.head?_eq_some_iff.mp heq
        exact hread rfl
      rw [segments_of_none hhead (reference_of_quiet hread _ _)]
      exact ih hcs _
    · rw [segments, if_pos hpercent]
      exact ih hcs _

/-- a quiet string stands for itself -/
theorem interpolate_of_quiet {s : String} (h : quiet s.toList = true) : interpolate look s = .ok (.str s) := by
  rw [interpolate_of_flush (segments_of_quiet h []), List.append_nil, List.reverse_reverse,
    String.ofList_toList]

end Reading

namespace Value

variable {look : String → Expansion Value}

mutual

/-- every string in a value is quiet -/
def quiet : Value → Bool
  | str s => Reading.quiet s.toList
  | list items => quietItems items
  | map entries => quietEntries entries
  | _ => true

def quietItems : List Value → Bool
  | [] => true
  | v :: vs => quiet v && quietItems vs

def quietEntries : List (String × Value) → Bool
  | [] => true
  | (_, v) :: es => quiet v && quietEntries es

end

mutual

/-- expansion leaves quiet values as they are -/
theorem expandWith_of_quiet {v : Value} (h : v.quiet = true) : v.expandWith look = .ok v := by
  cases v with
  | str s =>
    rw [expandWith, Reading.interpolate_of_quiet h]
    exact ite_self _
  | list items =>
    rw [expandWith, expandItems_of_quiet h]
    rfl
  | map entries =>
    rw [expandWith, expandEntries_of_quiet h]
    rfl
  | null | bool _ | int _ | float _ | service _ => rfl

theorem expandItems_of_quiet {vs : List Value} (h : quietItems vs = true) : expandItems look vs = .ok vs := by
  cases vs with
  | nil => rfl
  | cons v vs =>
    obtain ⟨hv, hvs⟩ := Bool.and_eq_true_iff.mp h
    rw [expandItems, expandWith_of_quiet hv, expandItems_of_quiet hvs]
    rfl

theorem expandEntries_of_quiet {es : List (String × Value)} (h : quietEntries es = true) :
    expandEntries look es = .ok es := by
  cases es with
  | nil => rfl
  | cons e es =>
    obtain ⟨k, v⟩ := e
    obtain ⟨hv, hes⟩ := Bool.and_eq_true_iff.mp h
    rw [expandEntries, expandWith_of_quiet hv, expandEntries_of_quiet hes]
    rfl

end

end Value

/-! ## edits -/

inductive Edit where
  | set (key : String) (value : Value)
  | merge (incoming : OrderedMap Value)

namespace Parameters

variable {p r s : Parameters} {key : String} {v w : Value}

def edit (p : Parameters) : Edit → Parameters
  | .set key value => p.set key value
  | .merge incoming => p.merge incoming

def edited (p : Parameters) (es : List Edit) : Parameters := es.foldl edit p

theorem resolved_edit (p : Parameters) (e : Edit) : (p.edit e).resolved = false := by
  cases e <;> rfl

theorem resolved_edited (p : Parameters) (es : List Edit) :
    (p.edited es).resolved = (es.isEmpty && p.resolved) := by
  induction es generalizing p with
  | nil => rfl
  | cons e es ih =>
    have hedited : p.edited (e :: es) = (p.edit e).edited es := rfl
    rw [hedited, ih, resolved_edit, Bool.and_false]
    rfl

theorem resolved_of_resolve (h : p.resolve = .ok r) : r.resolved = true := by
  cases hp : p.resolved with
  | true =>
    rw [resolve, if_pos hp] at h
    cases h
    exact hp
  | false => exact (ends_of_resolve hp h).2

/-- what a key has in a tree that is not resolved is what its value is expanded to -/
theorem get_eq_ok_iff (hp : p.resolved = false) (hkey : '%' ∉ key.toList) (hv : p.raw? key = some v) :
    p.get key = .ok w ↔ p.expand v = .ok w := by
  have hfind : p.find key = .ok w ↔ p.Ends (.ofKey key) (.ok w) := by
    rw [← (bounded_find hp (.ofKey key)).eq_ok_iff, Inquiry.answer_ofKey]
  rw [get_eq_find hkey, hfind, ends_ofKey_iff hv, ← (bounded_find hp v.inquiry).eq_ok_iff, expand,
    Value.expandWith_eq_answer]

/-- a key with a value in the tree has the same value when the tree is resolved -/
theorem get_of_resolve (hs : p.resolve = .ok s) (hkey : '%' ∉ key.toList) (hv : p.raw? key = some v) :
    s.get key = p.get key := by
  cases hp : p.resolved with
  | true =>
    rw [resolve, if_pos hp] at hs
    cases hs
    rfl
  | false =>
    obtain ⟨w, hw, -, hsw⟩ := find_resolve hp hs hv
    rw [get_eq_find hkey, get_eq_find hkey, hw, hsw]

/-- **What edits leave of an expanded value.** After edits a key whose value in the tree they left alone has
this value expanded once more, and the same when the tree is resolved again. So it keeps the value it had
without edits when this is quiet, and a key without a value goes on to have none. -/
theorem get_edited (hr : p.resolve = .ok r) (es : List Edit) (hkey : '%' ∉ key.toList)
    (hraw : (r.edited es).raw? key = r.raw? key) :
    (r.raw? key = none → (r.edited es).get key = r.get key) ∧
    ∀ v, r.raw? key = some v → r.get key = .ok v ∧
      (es = [] → (r.edited es).get key = r.get key) ∧
      (es ≠ [] → ∀ w, (r.edited es).get key = .ok w ↔ (r.edited es).expand v = .ok w) ∧
      (∀ s, (r.edited es).resolve = .ok s → s.get key = (r.edited es).get key) ∧
      (v.quiet = true → (r.edited es).get key = r.get key) := by
  have hresolved : r.resolved = true := resolved_of_resolve hr
  refine ⟨fun hnone => ?_, fun v hv => ?_⟩
  · rw [get_eq_find hkey, get_eq_find hkey, find_of_unknown hnone, find_of_unknown (hraw.trans hnone)]
  · have hget : r.get key = .ok v := (get_eq_find hkey).trans (find_of_resolved hresolved hv)
    have hedited : es ≠ [] → ∀ w, (r.edited es).get key = .ok w ↔ (r.edited es).expand v = .ok w := by
      intro hes w
      refine get_eq_ok_iff ?_ hkey (hraw.trans hv)
      rw [resolved_edited, List.isEmpty_eq_false_iff.mpr hes, Bool.false_and]
    have hnone : es = [] → (r.edited es).get key = r.get key := by
      rintro rfl
      rfl
    refine ⟨hget, hnone, hedited, fun s hs => get_of_resolve hs hkey (hraw.trans hv), fun hquiet => ?_⟩
    by_cases hes : es = []
    · exact hnone hes
    · exact ((hedited hes v).mpr (Value.expandWith_of_quiet hquiet)).trans hget.symm

/-- percent signs with blanks between them, and a path below another value -/
def discounts : Parameters :=
  .ofTree
    [ ("base", .str "/srv"), ("note", .str "5%% of 10%%"),
      ("paths", .map [("log", .str "%base%/log"), ("share", .str "%base%: 50%%")]) ]

def discountsResolved : Parameters where
  tree :=
    [ ("base", .str "/srv"), ("note", .str "5% of 10%"),
      ("paths", .map [("log", .str "/srv/log"), ("share", .str "/srv: 50%")]) ]
  resolved := true

/-- another path, and a tree that is laid over all -/
def relocated : List Edit :=
  [.set "paths.tmp" (.str "%paths.log%/tmp"), .merge [("base", .str "/data"), ("note", .str "5% of 10%")]]

def discountsRelocated : Parameters where
  tree :=
    [ ("base", .str "/data"), ("note", .str "5% of 10%"),
      ("paths", .map [("log", .str "/srv/log"), ("share", .str "/srv: 50%"), ("tmp", .str "/srv/log/tmp")]) ]
  resolved := true

theorem discounts_edited :
    discounts.resolve = .ok discountsResolved ∧
    (discountsResolved.edited relocated).raw? "paths.share" = discountsResolved.raw? "paths.share" ∧
    (discountsResolved.edited relocated).get "paths.share" = discountsResolved.get "paths.share" ∧
    (discountsResolved.edited relocated).resolve = .ok discountsRelocated ∧
    discountsRelocated.get "paths.share" = .ok (.str "/srv: 50%") := by
  have hr : discounts.resolve = .ok discountsResolved := by decide +kernel
  have hraw : (discountsResolved.edited relocated).raw? "paths.share" =
      discountsResolved.raw? "paths.share" := by
    decide +kernel
  obtain ⟨-, hknown⟩ := get_edited hr relocated (by decide) hraw
  obtain ⟨hget, -, -, hagain, hquiet⟩ := hknown (.str "/srv: 50%") (by decide +kernel)
  have hedited := hquiet (by decide +kernel)
  have hresolve : (discountsResolved.edited relocated).resolve = .ok discountsRelocated := by decide +kernel
  exact ⟨hr, hraw, hedited, hresolve, (hagain _ hresolve).trans (hedited.trans hget)⟩

/-- text with escaped percent signs, which look like a reference once they are expanded -/
def signs : Parameters := .ofTree [("text", .str "a%%b%%c"), ("b", .str "x")]

def signsResolved : Parameters := ⟨[("text", .str "a%b%c"), ("b", .str "x")], true⟩

/-- an edit elsewhere in the tree has expanded text expanded again -/
theorem expanded_again :
    ¬ ∀ (p r : Parameters) (es : List Edit) (key : String), p.resolve = .ok r → '%' ∉ key.toList →
      (∀ n, (r.edited (es.take n)).raw? key = r.raw? key) →
        (r.edited es).get key = r.get key ∧ ∀ s, (r.edited es).resolve = .ok s → s.get key = r.get key := by
  intro h
  have hraw : ∀ n, (signsResolved.edited ([Edit.set "other" (.int 1)].take n)).raw? "text" =
      signsResolved.raw? "text" := by
    intro n
    cases n with
    | zero => rfl
    | succ n =>
      rw [List.take_succ_cons, List.take_nil]
      decide +kernel
  have hget := (h signs signsResolved [.set "other" (.int 1)] "text" (by decide +kernel) (by decide) hraw).1
  exact absurd hget (by decide +kernel)

end Parameters
end ServiceGraph
