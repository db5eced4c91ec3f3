import ServiceGraph.Proofs.Source.Heads
import ServiceGraph.Proofs.Source.Literals
import ServiceGraph.Proofs.Text.Quoted

/-!
# The text of a term is unambiguous

When two terms stand at the front of one text, one of them is the other with calls on it, because
calls follow a term without an end of its own. A closed text, as between the commas of a list, has
one term only.

* `Term.Comparable`: one term is the other with calls on it;
* `Term.comparable_of_write_eq`: two terms at the front of one text are comparable;
* `Term.render_inj`: a text is the text of one term.
-/

set_option linter.unusedSectionVars false

namespace ServiceGraph.Term

/-! ## texts with an end -/

theorem numeral_inj {x y : String} (hx : ∀ c ∈ x.toList, c ∈ numeralChars)
    (hy : ∀ c ∈ y.toList, c ∈ numeralChars) {a b : List Char}
    (h : x.toList ++ ')' :: a = y.toList ++ ')' :: b) : x = y ∧ a = b := by
  have hclose : ')' ∉ numeralChars := by decide
  obtain ⟨hxy, hab⟩ := List.cut_unique (fun hc => hclose (hx _ hc)) (fun hc => hclose (hy _ hc)) h
  exact ⟨String.toList_inj.mp hxy, hab⟩

theorem methodName_inj {m n : String} (hm : Compile.MethodName m) (hn : Compile.MethodName n)
    {a b : List Char} (h : m.toList ++ '(' :: a = n.toList ++ '(' :: b) : m = n ∧ a = b := by
  have hparen : ∀ {k : String}, Compile.MethodName k → '(' ∉ k.toList := fun hk hc =>
    absurd (hk.forall_nameLetter _ hc) (by decide)
  obtain ⟨hmn, hab⟩ := List.cut_unique (hparen hm) (hparen hn) h
  exact ⟨String.toList_inj.mp hmn, hab⟩

/-! ## comparable terms -/

/-- one of two terms in front of a rest is the other with calls on it -/
def Comparable (lib : List Char) (t u : Term) (a b : List Char) : Prop :=
  (∃ calls, u = t.extend calls ∧ a = writeCalls lib calls b) ∨
  (∃ calls, t = u.extend calls ∧ b = writeCalls lib calls a)

/-- a rest that does not begin with a call -/
def Closed (r : List Char) : Prop := ∀ r', r ≠ '.' :: r'

theorem closed_cons {c : Char} (h : c ≠ '.') (r : List Char) : Closed (c :: r) :=
  fun _ heq => h (List.cons.inj heq).1

theorem writeCalls_eq_self {lib : List Char} {calls : List PostCall} {r : List Char}
    (h : Closed (writeCalls lib calls r)) : calls = [] := by
  cases calls with
  | nil => rfl
  | cons c calls =>
    obtain ⟨r', hr'⟩ := exists_callWord c.fluent ((Text.quoted c.method).toList ++
      (", vec![".toList ++ writeItems lib c.args (']' :: ')' :: '?' :: writeCalls lib calls r)))
    exact absurd hr' (h r')

/-- in front of closed rests comparable terms are equal -/
theorem Comparable.eq {lib : List Char} {t u : Term} {a b : List Char}
    (h : Comparable lib t u a b) (ha : Closed a) (hb : Closed b) : t = u ∧ a = b := by
  rcases h with ⟨calls, rfl, rfl⟩ | ⟨calls, rfl, rfl⟩
  · cases writeCalls_eq_self ha
    exact ⟨rfl, rfl⟩
  · cases writeCalls_eq_self hb
    exact ⟨rfl, rfl⟩

theorem closed_writeMore {lib : List Char} (ts : List Term) (r : List Char) :
    Closed (writeMore lib ts (']' :: r)) := by
  cases ts with
  | nil => exact closed_cons (by decide) _
  | cons t ts => exact closed_cons (c := ',') (by decide) _

section
variable {library : String} (hlib : IsPath library)
include hlib

/-- what is at the front of the text of a bare term has the shape of the term -/
theorem shape_of_write_eq {t u : Term} (ht : t.Legible) (hu : u.Legible) (hbare : u.Bare)
    {a b : List Char} (h : t.write library.toList a = u.write library.toList b) :
    t.head.Shape u := by
  rw [head_eq hlib ht hu h]
  exact shape_head hbare

/-- a term is comparable to all others when it is told from the bare ones -/
theorem comparable_of_bare {t : Term}
    (hbare : ∀ {u : Term} {a b : List Char}, u.Legible → u.Bare →
      t.write library.toList a = u.write library.toList b → t = u ∧ a = b)
    {u : Term} (hu : u.Legible) {a b : List Char}
    (h : t.write library.toList a = u.write library.toList b) :
    Comparable library.toList t u a b := by
  obtain ⟨u₀, calls, rfl, hu₀⟩ := exists_extend u
  rw [write_extend] at h
  obtain ⟨rfl, rfl⟩ := hbare (legible_extend hu).1 hu₀ h
  exact .inl ⟨calls, rfl, rfl⟩

/-- a call keeps terms comparable when its arguments are told from others -/
theorem comparable_call {t : Term} {c : PostCall}
    (hterm : ∀ {u : Term} {a b : List Char}, u.Legible →
      t.write library.toList a = u.write library.toList b → Comparable library.toList t u a b)
    (hargs : ∀ {us : List Term} {a b : List Char}, LegibleAll us →
      writeItems library.toList c.args (']' :: a) = writeItems library.toList us (']' :: b) →
      c.args = us ∧ a = b)
    {u : Term} (hu : u.Legible) {a b : List Char}
    (h : (t.call c).write library.toList a = u.write library.toList b) :
    Comparable library.toList (t.call c) u a b := by
  rw [write_call] at h
  rcases hterm hu h with ⟨calls, rfl, hcalls⟩ | ⟨calls, rfl, rfl⟩
  · cases calls with
    | nil => exact .inr ⟨[c], rfl, hcalls.symm⟩
    | cons d calls =>
      -- both go on with a call, and the calls are the same
      have hcd : c = d ∧ a = writeCalls library.toList calls b := by
        obtain ⟨fluent, method, ts⟩ := c
        obtain ⟨fluent', method', ts'⟩ := d
        have hts' := (legible_extend hu).2 _ (List.mem_cons_self ..)
        obtain ⟨rfl, hcalls⟩ := callWord_inj hcalls
        obtain ⟨rfl, hcalls⟩ := Text.quoted_append_inj hcalls
        obtain ⟨hts, hrest⟩ := hargs hts' (List.append_cancel_left hcalls)
        have hts : ts = ts' := hts
        subst hts
        exact ⟨rfl, (List.cons.inj (List.cons.inj hrest).2).2⟩
      obtain ⟨rfl, hrest⟩ := hcd
      exact .inl ⟨calls, rfl, hrest⟩
  · refine .inr ⟨calls ++ [c], ?_, ?_⟩
    · rw [extend_append]
      rfl
    · unfold writeCalls
      rw [List.foldr_append]
      rfl

/-! ## bare terms -/

/-- a text that begins with a bare term begins with this term and no other bare one -/
def Apart (library : String) (t : Term) : Prop :=
  ∀ {u : Term} {a b : List Char}, u.Legible → u.Bare →
    t.write library.toList a = u.write library.toList b → t = u ∧ a = b

theorem apart_null : Apart library null := by
  intro u a b hu hbare h
  obtain rfl : u = null := shape_of_write_eq hlib (t := null) trivial hu hbare h
  rw [write_null, write_null] at h
  exact ⟨rfl, List.append_cancel_left (List.append_cancel_left h)⟩

theorem apart_bool (v : Bool) : Apart library (bool v) := by
  intro u a b hu hbare h
  obtain ⟨w, rfl⟩ : ∃ w, u = bool w := shape_of_write_eq hlib (t := bool v) trivial hu hbare h
  rw [write_bool, write_bool] at h
  have h := List.append_cancel_left (List.append_cancel_left h)
  cases v <;> cases w
  · exact ⟨rfl, (List.cons.inj (List.append_cancel_left h)).2⟩
  · cases h
  · cases h
  · exact ⟨rfl, (List.cons.inj (List.append_cancel_left h)).2⟩

theorem apart_int (m : Int64) : Apart library (int m) := by
  intro u a b hu hbare h
  obtain ⟨n, rfl⟩ : ∃ n, u = int n := shape_of_write_eq hlib (t := int m) trivial hu hbare h
  rw [write_int, write_int] at h
  obtain ⟨hmn, hab⟩ := numeral_inj (mem_numeralChars_of_intText m)
    (mem_numeralChars_of_intText n) (List.append_cancel_left (List.append_cancel_left h))
  exact ⟨congrArg int (intText_inj hmn), hab⟩

theorem apart_str (s : String) : Apart library (str s) := by
  intro u a b hu hbare h
  obtain ⟨s', rfl⟩ : ∃ s', u = str s' := shape_of_write_eq hlib (t := str s) trivial hu hbare h
  rw [write_str, write_str] at h
  obtain ⟨rfl, hab⟩ :=
    Text.quoted_append_inj (List.append_cancel_left (List.append_cancel_left h))
  exact ⟨rfl, (List.cons.inj hab).2⟩

theorem apart_parameter (key : String) : Apart library (parameter key) := by
  intro u a b hu hbare h
  obtain ⟨key', rfl⟩ : ∃ key', u = parameter key' :=
    shape_of_write_eq hlib (t := parameter key) trivial hu hbare h
  rw [write_parameter, write_parameter] at h
  obtain ⟨rfl, hab⟩ := Text.quoted_append_inj (List.append_cancel_left h)
  exact ⟨rfl, (List.cons.inj (List.cons.inj hab).2).2⟩

theorem apart_service {m : String} (hm : Compile.MethodName m) : Apart library (service m) := by
  intro u a b hu hbare h
  obtain ⟨n, rfl⟩ : ∃ n, u = service n := shape_of_write_eq hlib (t := service m) hm hu hbare h
  rw [write_service, write_service] at h
  obtain ⟨rfl, hab⟩ := methodName_inj hm hu (List.append_cancel_left h)
  exact ⟨rfl, (List.cons.inj (List.cons.inj hab).2).2⟩

/-- terms that are told from all others as items of a list -/
def ItemsApart (library : String) (ts : List Term) : Prop :=
  ∀ {us : List Term} {a b : List Char}, LegibleAll us →
    writeItems library.toList ts (']' :: a) = writeItems library.toList us (']' :: b) →
    ts = us ∧ a = b

theorem apart_list (ts : List Term) (hts : LegibleAll ts) (happart : ItemsApart library ts) :
    Apart library (list ts) := by
  intro u a b hu hbare h
  obtain ⟨us, rfl⟩ : ∃ us, u = list us :=
    shape_of_write_eq hlib (t := list ts) hts hu hbare h
  rw [write_list, write_list] at h
  obtain ⟨rfl, hab⟩ := happart hu (List.append_cancel_left (List.append_cancel_left h))
  exact ⟨rfl, (List.cons.inj hab).2⟩

theorem apart_construct (name : String) (ts : List Term) (hts : LegibleAll ts)
    (happart : ItemsApart library ts) : Apart library (construct name ts) := by
  intro u a b hu hbare h
  obtain ⟨name', us, rfl⟩ : ∃ name' us, u = construct name' us :=
    shape_of_write_eq hlib (t := construct name ts) hts hu hbare h
  rw [write_construct, write_construct] at h
  obtain ⟨rfl, hitems⟩ := Text.quoted_append_inj (List.append_cancel_left h)
  obtain ⟨rfl, hab⟩ := happart hu (List.append_cancel_left hitems)
  exact ⟨rfl, (List.cons.inj (List.cons.inj hab).2).2⟩

theorem apart_map (es : List (String × Term)) (hes : LegibleEntries es)
    (happart : ∀ {es' : List (String × Term)} {a b : List Char}, LegibleEntries es' →
      writeEntries library.toList es (']' :: a) = writeEntries library.toList es' (']' :: b) →
      es = es' ∧ a = b) : Apart library (map es) := by
  intro u a b hu hbare h
  cases es with
  | nil =>
    obtain rfl : u = map [] := shape_of_write_eq hlib (t := map []) trivial hu hbare h
    rw [write_emptyMap, write_emptyMap] at h
    exact ⟨rfl, List.append_cancel_left (List.append_cancel_left h)⟩
  | cons e es =>
    obtain ⟨e', es', rfl⟩ : ∃ e' es', u = map (e' :: es') :=
      shape_of_write_eq hlib (t := map (e :: es)) hes hu hbare h
    rw [write_map, write_map] at h
    obtain ⟨hes, hab⟩ := happart hu (List.append_cancel_left (List.append_cancel_left h))
    exact ⟨congrArg map hes, (List.cons.inj hab).2⟩

theorem apart_revive (typeName : String) (state : Term) (hstate : state.Legible)
    (happart : ∀ {u : Term} {a b : List Char}, u.Legible →
      state.write library.toList a = u.write library.toList b →
      Comparable library.toList state u a b) : Apart library (revive typeName state) := by
  intro u a b hu hbare h
  obtain ⟨typeName', state', rfl⟩ : ∃ typeName' state', u = revive typeName' state' :=
    shape_of_write_eq hlib (t := revive typeName state) hstate hu hbare h
  rw [write_revive, write_revive] at h
  obtain ⟨rfl, hrest⟩ := Text.quoted_append_inj (List.append_cancel_left h)
  have hstate' : state'.Legible := hu
  have hcomparable := happart hstate' (List.append_cancel_left hrest)
  obtain ⟨rfl, hab⟩ := hcomparable.eq (closed_cons (by decide) _) (closed_cons (by decide) _)
  exact ⟨rfl, (List.cons.inj (List.cons.inj hab).2).2⟩

theorem apart_float {x : Binary64} (hx : x.isNaN = false) : Apart library (float x) := by
  intro u a b hu hbare h
  obtain ⟨y, rfl⟩ : ∃ y, u = float y := shape_of_write_eq hlib (t := float x) hx hu hbare h
  rw [write_float, write_float] at h
  obtain ⟨hxy, hab⟩ := numeral_inj (mem_numeralChars_of_floatText x)
    (mem_numeralChars_of_floatText y) (List.append_cancel_left (List.append_cancel_left h))
  exact ⟨congrArg float (floatText_inj hx hu hxy), hab⟩

/-! ## all terms -/

mutual

/-- two terms at the front of one text are comparable -/
theorem comparable_of_write_eq (t : Term) (ht : t.Legible) {u : Term} (hu : u.Legible)
    {a b : List Char} (h : t.write library.toList a = u.write library.toList b) :
    Comparable library.toList t u a b := by
  -- the second term is free throughout, so a call can be compared through its receiver alone
  cases t with
  | null => exact comparable_of_bare hlib (apart_null hlib) hu h
  | bool v => exact comparable_of_bare hlib (apart_bool hlib v) hu h
  | int n => exact comparable_of_bare hlib (apart_int hlib n) hu h
  | float x => exact comparable_of_bare hlib (apart_float hlib ht) hu h
  | str s => exact comparable_of_bare hlib (apart_str hlib s) hu h
  | list ts =>
    exact comparable_of_bare hlib
      (apart_list hlib ts ht fun hus heq => writeItems_inj ts ht hus heq) hu h
  | map es =>
    exact comparable_of_bare hlib
      (apart_map hlib es ht fun hes heq => writeEntries_inj es ht hes heq) hu h
  | revive typeName state =>
    exact comparable_of_bare hlib
      (apart_revive hlib typeName state ht fun hv heq => comparable_of_write_eq state ht hv heq)
      hu h
  | parameter key => exact comparable_of_bare hlib (apart_parameter hlib key) hu h
  | service m => exact comparable_of_bare hlib (apart_service hlib ht) hu h
  | construct name ts =>
    exact comparable_of_bare hlib
      (apart_construct hlib name ts ht fun hus heq => writeItems_inj ts ht hus heq) hu h
  | invoke receiver m ts =>
    exact comparable_call hlib (t := receiver) (c := ⟨false, m, ts⟩)
      (fun hv heq => comparable_of_write_eq receiver ht.1 hv heq)
      (fun hus heq => writeItems_inj ts ht.2 hus heq) hu h
  | fluent receiver m ts =>
    exact comparable_call hlib (t := receiver) (c := ⟨true, m, ts⟩)
      (fun hv heq => comparable_of_write_eq receiver ht.1 hv heq)
      (fun hus heq => writeItems_inj ts ht.2 hus heq) hu h
termination_by structural t

theorem writeItems_inj (ts : List Term) (hts : LegibleAll ts) {us : List Term}
    (hus : LegibleAll us) {a b : List Char}
    (h : writeItems library.toList ts (']' :: a) = writeItems library.toList us (']' :: b)) :
    ts = us ∧ a = b := by
  cases ts with
  | nil =>
    cases us with
    | nil => exact ⟨rfl, (List.cons.inj h).2⟩
    | cons u us => exact absurd h.symm (write_ne_close hlib hus.1 _ _)
  | cons t ts =>
    cases us with
    | nil => exact absurd h (write_ne_close hlib hts.1 _ _)
    | cons u us =>
      have hcomparable := comparable_of_write_eq t hts.1 hus.1 h
      obtain ⟨rfl, hmore⟩ := hcomparable.eq (closed_writeMore ts a) (closed_writeMore us b)
      obtain ⟨rfl, hab⟩ := writeMore_inj ts hts.2 hus.2 hmore
      exact ⟨rfl, hab⟩
termination_by structural ts

theorem writeMore_inj (ts : List Term) (hts : LegibleAll ts) {us : List Term}
    (hus : LegibleAll us) {a b : List Char}
    (h : writeMore library.toList ts (']' :: a) = writeMore library.toList us (']' :: b)) :
    ts = us ∧ a = b := by
  cases ts with
  | nil =>
    cases us with
    | nil => exact ⟨rfl, (List.cons.inj h).2⟩
    | cons u us => cases h
  | cons t ts =>
    cases us with
    | nil => cases h
    | cons u us =>
      have h : write library.toList t (writeMore library.toList ts (']' :: a)) =
          write library.toList u (writeMore library.toList us (']' :: b)) :=
        (List.cons.inj (List.cons.inj h).2).2
      have hcomparable := comparable_of_write_eq t hts.1 hus.1 h
      obtain ⟨rfl, hmore⟩ := hcomparable.eq (closed_writeMore ts a) (closed_writeMore us b)
      obtain ⟨rfl, hab⟩ := writeMore_inj ts hts.2 hus.2 hmore
      exact ⟨rfl, hab⟩
termination_by structural ts

theorem writeEntries_inj (es : List (String × Term)) (hes : LegibleEntries es)
    {es' : List (String × Term)} (hes' : LegibleEntries es') {a b : List Char}
    (h : writeEntries library.toList es (']' :: a) = writeEntries library.toList es' (']' :: b)) :
    es = es' ∧ a = b := by
  cases es with
  | nil =>
    cases es' with
    | nil => exact ⟨rfl, (List.cons.inj h).2⟩
    | cons e es' => cases h
  | cons e es =>
    cases es' with
    | nil => cases h
    | cons e' es' =>
      obtain ⟨k, t⟩ := e
      obtain ⟨k', t'⟩ := e'
      rw [writeEntries_cons, writeEntries_cons] at h
      obtain ⟨rfl, hrest⟩ := Text.quoted_append_inj (List.cons.inj h).2
      have hcomparable := comparable_of_write_eq t hes.1 hes'.1
        (List.cons.inj (List.cons.inj hrest).2).2
      obtain ⟨rfl, hmore⟩ := hcomparable.eq (closed_cons (by decide) _) (closed_cons (by decide) _)
      obtain ⟨rfl, hab⟩ := writeMoreEntries_inj es hes.2 hes'.2 (List.cons.inj hmore).2
      exact ⟨rfl, hab⟩
termination_by structural es

theorem writeMoreEntries_inj (es : List (String × Term)) (hes : LegibleEntries es)
    {es' : List (String × Term)} (hes' : LegibleEntries es') {a b : List Char}
    (h : writeMoreEntries library.toList es (']' :: a) =
      writeMoreEntries library.toList es' (']' :: b)) : es = es' ∧ a = b := by
  cases es with
  | nil =>
    cases es' with
    | nil => exact ⟨rfl, (List.cons.inj h).2⟩
    | cons e es' => cases h
  | cons e es =>
    cases es' with
    | nil => cases h
    | cons e' es' =>
      obtain ⟨k, t⟩ := e
      obtain ⟨k', t'⟩ := e'
      rw [writeMoreEntries_cons, writeMoreEntries_cons] at h
      have hpair := (List.cons.inj (List.cons.inj (List.cons.inj h).2).2).2
      obtain ⟨rfl, hrest⟩ := Text.quoted_append_inj hpair
      have hcomparable := comparable_of_write_eq t hes.1 hes'.1
        (List.cons.inj (List.cons.inj hrest).2).2
      obtain ⟨rfl, hmore⟩ := hcomparable.eq (closed_cons (by decide) _) (closed_cons (by decide) _)
      obtain ⟨rfl, hab⟩ := writeMoreEntries_inj es hes.2 hes'.2 (List.cons.inj hmore).2
      exact ⟨rfl, hab⟩
termination_by structural es

end

/-- a text is the text of one term -/
theorem render_inj {t u : Term} (ht : t.Legible) (hu : u.Legible)
    (h : t.render library = u.render library) : t = u := by
  have hwrite : t.write library.toList [] = u.write library.toList [] := by
    rw [← toList_render, ← toList_render, h]
  have hclosed : Closed [] := fun _ heq => nomatch heq
  exact ((comparable_of_write_eq hlib t ht hu hwrite).eq hclosed hclosed).1

end

end ServiceGraph.Term
