import ServiceGraph.Proofs.Source.Outline

/-!
# What generated code does with its container

The code of a container uses it behind `self` and a dot: it calls a method, or it uses a field.

* `Source.Use`, `Source.uses`: the uses in trees, at any depth;
* `Source.Only`: the uses in trees are of a kind, and none reaches behind the trees;
* `Term.only_layout`: a term calls methods, and asks the constructors and the parameters;
* `SourceMethod.only_body`: what a method uses;
* `SourceMethod.entered_body`: a method enters its id and no other.
-/

set_option linter.unusedSectionVars false

namespace ServiceGraph

namespace Source

inductive Use where
  /-- a method is called on the container -/
  | call (method : String)
  /-- a method is called on a field, with a literal or with something else -/
  | invoke (field method : String) (argument : Option String)
  /-- a field is used in another way -/
  | field (name : String)

namespace Use

def field? : Use → Option String
  | call _ => none
  | invoke name _ _ => some name
  | .field name => some name

/-- what the stack of services is told to enter -/
def entered? : Use → Option (Option String)
  | invoke name method argument =>
    if name = "stack" ∧ method = "enter" then some argument else none
  | _ => none

end Use

def literal? : List Tree → Option String
  | [.literal s] => some s
  | _ => none

/-- the use of a name, from what stands behind it -/
def useOf (name : String) : List Tree → Use
  | .group .round _ :: _ => .call name
  | .mark c :: .word method :: .group .round args :: _ =>
    if c = '.' then .invoke name method (literal? args) else .field name
  | _ => .field name

def useAt? : List Tree → Option Use
  | .word s :: .mark c :: .word name :: rest =>
    if s = "self" ∧ c = '.' then some (useOf name rest) else none
  | _ => none

mutual

def usesIn : Tree → List Use
  | .group _ inner => uses inner
  | .word _ | .literal _ | .mark _ => []

def uses : List Tree → List Use
  | [] => []
  | t :: ts => (useAt? (t :: ts)).toList ++ usesIn t ++ uses ts

end

def entered (ts : List Tree) : List (Option String) := (uses ts).filterMap Use.entered?

/-! ## uses of a kind -/

/-- the uses in these trees have a property, whatever stands behind the trees -/
structure Only (P : Use → Prop) (ts : List Tree) : Prop where
  whole : ∀ rest, uses (ts ++ rest) = uses ts ++ uses rest
  holds : ∀ u ∈ uses ts, P u

variable {P : Use → Prop} {ts us : List Tree}

theorem uses_cons (t : Tree) (ts : List Tree) :
    uses (t :: ts) = (useAt? (t :: ts)).toList ++ usesIn t ++ uses ts := rfl

theorem useAt?_of_ne {t : Tree} (ht : t ≠ .word "self") (ts : List Tree) :
    useAt? (t :: ts) = none := by
  unfold useAt?
  split
  · next s c name rest heq =>
    obtain ⟨rfl, -⟩ := List.cons.inj heq
    exact if_neg fun h => ht (congrArg Tree.word h.1)
  · rfl

/-- a use needs a dot -/
theorem useAt?_of_next {t u : Tree} (hu : u ≠ .mark '.') (ts : List Tree) :
    useAt? (t :: u :: ts) = none := by
  unfold useAt?
  split
  · next s c name rest heq =>
    obtain ⟨-, heq⟩ := List.cons.inj heq
    obtain ⟨rfl, -⟩ := List.cons.inj heq
    exact if_neg fun h => hu (congrArg Tree.mark h.2)
  · rfl

theorem Only.nil : Only P [] := ⟨fun _ => rfl, fun _ hu => nomatch hu⟩

theorem Only.append (hts : Only P ts) (hus : Only P us) : Only P (ts ++ us) where
  whole rest := by
    rw [List.append_assoc, hts.whole, hus.whole, hts.whole us, List.append_assoc]
  holds u hu := by
    rw [hts.whole, List.mem_append] at hu
    exact hu.elim (hts.holds u) (hus.holds u)

/-- a tree that does not name the container -/
theorem Only.single {t : Tree} (ht : t ≠ .word "self") (hin : ∀ u ∈ usesIn t, P u) :
    Only P [t] where
  whole rest := by
    rw [List.singleton_append, uses_cons, uses_cons, useAt?_of_ne ht, useAt?_of_ne ht]
    show usesIn t ++ uses rest = usesIn t ++ [] ++ uses rest
    rw [List.append_nil]
  holds u hu := by
    rw [uses_cons, useAt?_of_ne ht] at hu
    exact hin u ((List.append_nil (usesIn t)) ▸ hu)

/-- what stands between brackets does not reach behind them -/
theorem Only.group (h : ∀ u ∈ uses ts, P u) (b : Bracket) : Only P [.group b ts] :=
  Only.single Tree.noConfusion h

theorem Only.flatMap {α : Type} {f : α → List Tree} {xs : List α} (h : ∀ x ∈ xs, Only P (f x)) :
    Only P (xs.flatMap f) := by
  induction xs with
  | nil => exact .nil
  | cons x xs ih =>
    exact (h x (List.mem_cons_self ..)).append (ih fun y hy => h y (List.mem_cons_of_mem _ hy))

theorem Only.intercalate {sep : List Tree} (hsep : Only P sep) {parts : List (List Tree)}
    (h : ∀ part ∈ parts, Only P part) : Only P (sep.intercalate parts) := by
  induction parts with
  | nil => exact .nil
  | cons part parts ih =>
    have hpart := h part (List.mem_cons_self ..)
    cases parts with
    | nil =>
      rw [List.intercalate_singleton]
      exact hpart
    | cons next parts =>
      rw [List.intercalate_cons_cons]
      exact (hpart.append hsep).append (ih fun p hp => h p (List.mem_cons_of_mem _ hp))

mutual

/-- the container is not named in the tree -/
def inert : Tree → Bool
  | .word s => s ≠ "self"
  | .literal _ | .mark _ => true
  | .group _ inner => inertAll inner

def inertAll : List Tree → Bool
  | [] => true
  | t :: ts => inert t && inertAll ts

end

mutual

theorem usesIn_of_inert (t : Tree) (h : inert t = true) : usesIn t = [] := by
  cases t with
  | group b inner => exact uses_of_inert inner h
  | _ => rfl

theorem uses_of_inert (ts : List Tree) (h : inertAll ts = true) : uses ts = [] := by
  cases ts with
  | nil => rfl
  | cons t ts =>
    rw [inertAll, Bool.and_eq_true] at h
    have ht : t ≠ .word "self" := by
      rintro rfl
      exact absurd h.1 (by decide)
    rw [uses_cons, useAt?_of_ne ht, usesIn_of_inert t h.1, uses_of_inert ts h.2]
    rfl

end

theorem Only.inert (ts : List Tree) (h : inertAll ts = true) : Only P ts := by
  induction ts with
  | nil => exact .nil
  | cons t ts ih =>
    rw [inertAll, Bool.and_eq_true] at h
    have ht : t ≠ .word "self" := by
      rintro rfl
      exact absurd h.1 (by decide)
    refine (Only.single ht fun u hu => ?_).append (ih h.2)
    rw [usesIn_of_inert t h.1] at hu
    cases hu

theorem inertAll_eq_true {ts : List Tree} (h : ∀ t ∈ ts, Source.inert t = true) :
    inertAll ts = true := by
  induction ts with
  | nil => rfl
  | cons t ts ih =>
    rw [inertAll, h t (List.mem_cons_self ..), ih fun u hu => h u (List.mem_cons_of_mem _ hu)]
    rfl

/-- a word with a mark behind it that is no dot -/
theorem Only.followed {s : String} {c : Char} (hc : c ≠ '.') : Only P [.word s, .mark c] where
  whole rest := by
    rw [List.cons_append, List.singleton_append, uses_cons,
      useAt?_of_next (fun heq => hc (Tree.mark.inj heq))]
    rfl
  holds u hu := by
    rw [uses_cons, useAt?_of_next (fun heq => hc (Tree.mark.inj heq))] at hu
    cases hu

theorem useAt?_self (name : String) (rest : List Tree) :
    useAt? (.word "self" :: .mark '.' :: .word name :: rest) = some (useOf name rest) := by
  unfold useAt?
  exact if_pos ⟨rfl, rfl⟩

/-- the use of a name behind `self` and a dot -/
theorem uses_ofSelf (name : String) (rest : List Tree) :
    uses (ofSelf name ++ rest) = useOf name rest :: uses (.word name :: rest) := by
  show uses (.word "self" :: .mark '.' :: .word name :: rest) = _
  rw [uses_cons, useAt?_self]
  rfl

/-- brackets stand behind a name -/
theorem uses_word_group (name : String) (b : Bracket) (inner rest : List Tree) :
    uses (.word name :: .group b inner :: rest) = uses inner ++ uses rest := by
  rw [uses_cons, useAt?_of_next Tree.noConfusion, uses_cons, useAt?_of_ne Tree.noConfusion]
  rfl

theorem Only.of_uses (found : List Use) (h : ∀ rest, uses (ts ++ rest) = found ++ uses rest)
    (hP : ∀ u ∈ found, P u) : Only P ts := by
  have hts : uses ts = found := by
    have hnil := h []
    rwa [List.append_nil, show uses [] = [] from rfl, List.append_nil] at hnil
  exact ⟨fun rest => by rw [h, hts], fun u hu => hP u (hts ▸ hu)⟩

/-- a word with brackets behind it -/
theorem Only.headed {s : String} {b : Bracket} {inner : List Tree}
    (hinner : ∀ u ∈ uses inner, P u) : Only P [.word s, .group b inner] :=
  .of_uses (uses inner) (uses_word_group s b inner) hinner

/-- a method is called on the container -/
theorem Only.call {name : String} (args : List Tree) (hcall : P (.call name))
    (hargs : ∀ u ∈ uses args, P u) : Only P (ofSelf name ++ [Tree.group .round args]) := by
  refine .of_uses (.call name :: uses args) (fun rest => ?_)
    (List.forall_mem_cons.mpr ⟨hcall, hargs⟩)
  rw [List.append_assoc, uses_ofSelf, List.singleton_append, uses_word_group]
  rfl

/-- a method is called on a field of the container -/
theorem uses_invoke {name : String} (hname : name ≠ "self") (method : String)
    (args rest : List Tree) :
    uses (ofSelf name ++ [Tree.mark '.', .word method, .group .round args] ++ rest) =
      .invoke name method (literal? args) :: (uses args ++ uses rest) := by
  rw [List.append_assoc, uses_ofSelf]
  show _ :: uses (.word name :: .mark '.' :: .word method :: .group .round args :: rest) = _
  rw [uses_cons, useAt?_of_ne (fun heq => hname (Tree.word.inj heq)), uses_cons,
    useAt?_of_ne Tree.noConfusion, uses_word_group]
  rfl

theorem Only.invoke {name : String} (method : String) (args : List Tree) (hname : name ≠ "self")
    (hinvoke : P (.invoke name method (literal? args))) (hargs : ∀ u ∈ uses args, P u) :
    Only P (ofSelf name ++ [Tree.mark '.', .word method, .group .round args]) :=
  .of_uses _ (uses_invoke hname method args) (List.forall_mem_cons.mpr ⟨hinvoke, hargs⟩)

/-- the same, where the outcome is passed on -/
theorem Only.invoked {name method : String} {args : List Tree} (hname : name ≠ "self")
    (hinvoke : P (.invoke name method (literal? args))) (hargs : ∀ u ∈ uses args, P u) :
    Only P (ofSelf name ++ Source.invoked method args) :=
  (Only.invoke method args hname hinvoke hargs).append (.inert [.mark '?'] rfl)

theorem Only.listed {parts : List (List Tree)} (h : ∀ part ∈ parts, Only P part) :
    Only P (listed parts) := Only.intercalate (.inert _ rfl) h

theorem Only.vector {parts : List (List Tree)} (h : ∀ part ∈ parts, Only P part) :
    Only P (vector parts) :=
  (Only.inert [.word "vec", .mark '!'] rfl).append (.group (Only.listed h).holds .square)

/-- a method with a name and arguments is called on what stands before -/
theorem Only.behind {function : String} (hfunction : function ≠ "self") (method : String)
    {parts : List (List Tree)} (hts : Only P ts) (hparts : ∀ part ∈ parts, Only P part) :
    Only P (ts ++ Source.invoked function
      ([Tree.literal method, .mark ','] ++ Source.vector parts)) := by
  have hargs : Only P ([Tree.literal method, .mark ','] ++ Source.vector parts) :=
    (Only.inert [.literal method, .mark ','] rfl).append (.vector hparts)
  have hname : Only P [.mark '.', .word function] :=
    .inert _ (by simp [inertAll, Source.inert, hfunction])
  exact hts.append ((hname.append (.group hargs.holds .round)).append (.inert [.mark '?'] rfl))

/-! ## the stack -/

theorem entered?_of_ne {name : String} (h : name ≠ "stack") (method : String)
    (argument : Option String) : (Use.invoke name method argument).entered? = none := by
  unfold Use.entered?
  exact if_neg fun hname => h hname.1

theorem Only.entered_append {ts : List Tree} (h : Only (fun u => u.entered? = none) ts)
    (rest : List Tree) : entered (ts ++ rest) = entered rest := by
  rw [entered, h.whole, List.filterMap_append, List.filterMap_eq_nil_iff.mpr h.holds]
  rfl

theorem entered_enter (id : String) (rest : List Tree) :
    entered (ofSelf "stack" ++ (invoked "enter" [Tree.literal id] ++ rest)) =
      some id :: entered rest := by
  have hname : "stack" ≠ "self" := by decide
  have huses := uses_invoke hname "enter" [.literal id] ([Tree.mark '?'] ++ rest)
  have hmark : Only (fun u => u.entered? = none) [.mark '?'] := .inert _ rfl
  rw [List.append_assoc] at huses
  show (uses (ofSelf "stack" ++ ([Tree.mark '.', .word "enter", .group .round [.literal id]] ++
    ([Tree.mark '?'] ++ rest)))).filterMap Use.entered? = _
  rw [huses, List.filterMap_cons]
  exact congrArg (some id :: ·) (hmark.entered_append rest)

/-! ## plain text -/

/-- a number does not name the container -/
theorem Only.numeral {s : String} (h : ∀ c ∈ s.toList, c ∈ Term.numeralChars) :
    Only P (plain s) := by
  have hletter : 's' ∉ Term.numeralChars := by decide
  refine .inert _ (inertAll_eq_true fun t ht => ?_)
  rcases mem_plainFrom ht with ⟨w, rfl, hw⟩ | ⟨c, -, -, rfl⟩
  · refine decide_eq_true fun heq => ?_
    have hchars := congrArg String.toList heq
    rw [String.toList_ofList] at hchars
    exact hletter (h 's' (hw 's' (hchars ▸ by decide)))
  · rfl

/-- a path does not name the container: no dot stands in it -/
theorem uses_of_pathlike {path : List Tree} (h : Pathlike path) {t : Tree} (ht : t ≠ .mark '.')
    (rest : List Tree) : uses (path ++ t :: rest) = uses (t :: rest) := by
  induction path with
  | nil => rfl
  | cons u path ih =>
    have hu : usesIn u = [] := by
      cases u with
      | group b inner => exact absurd (List.mem_cons_self ..) (h.ne_group b inner)
      | _ => rfl
    rw [List.cons_append, uses_cons, hu, ih fun v hv => h v (List.mem_cons_of_mem _ hv)]
    cases path with
    | nil => rw [List.nil_append, useAt?_of_next ht]; rfl
    | cons v path =>
      have hv : v ≠ .mark '.' := by
        rintro rfl
        exact h.ne_mark (c := '.') (by decide) (List.mem_cons_of_mem _ (List.mem_cons_self ..))
      rw [List.cons_append, useAt?_of_next hv]
      rfl

/-- a path with names behind it -/
theorem Only.under {path : List Tree} (hpath : Pathlike path) {name : String} {names : List String}
    (h : ∀ n ∈ name :: names, n ≠ "self") : Only P (under path (name :: names)) := by
  have hnames : Only P ((name :: names).flatMap fun n =>
      [Tree.mark ':', .mark ':', .word n]) := by
    refine .inert _ (inertAll_eq_true fun t ht => ?_)
    obtain ⟨n, hn, ht⟩ := List.mem_flatMap.mp ht
    simp only [List.mem_cons, List.not_mem_nil, or_false] at ht
    rcases ht with rfl | rfl | rfl
    · rfl
    · rfl
    · exact decide_eq_true (h n hn)
  have hcolon : Tree.mark ':' ≠ .mark '.' := fun heq => absurd (Tree.mark.inj heq) (by decide)
  refine .of_uses (uses ((name :: names).flatMap fun n => [Tree.mark ':', .mark ':', .word n]))
    (fun rest => ?_) hnames.holds
  rw [← hnames.whole, Source.under, List.append_assoc]
  exact uses_of_pathlike hpath hcolon _

end Source

open Source

variable {P : Use → Prop} {path : List Tree}

namespace Term

/-- a term may ask the constructors and the parameters -/
def Asks (P : Use → Prop) : Prop :=
  ∀ method argument, P (.invoke "factories" method argument) ∧
    P (.invoke "parameters" method argument)

section
variable (hpath : Pathlike path) (hasks : Asks P)
include hpath hasks

mutual

/-- a term calls its methods, and asks the constructors and the parameters -/
theorem only_layout (t : Term) (ht : ∀ name ∈ t.calls, P (.call name)) :
    Only P (t.layout path) := by
  cases t with
  | null => exact .under hpath (by decide)
  | bool b =>
    have hword : Only P [.word (if b then "true" else "false")] :=
      .inert _ (by cases b <;> rfl)
    exact (Only.under hpath (by decide)).append (.group hword.holds .round)
  | int n =>
    exact (Only.under hpath (by decide)).append
      (.group (Only.numeral (mem_numeralChars_of_intText n)).holds .round)
  | float x =>
    exact (Only.under hpath (by decide)).append
      (.group (Only.numeral (mem_numeralChars_of_floatText x)).holds .round)
  | str s =>
    have hliteral : Only P [.literal s] := .inert _ rfl
    exact (Only.under hpath (by decide)).append (.group hliteral.holds .round)
  | list items =>
    exact (Only.under hpath (by decide)).append
      (.group (Only.vector (only_layoutAll items ht)).holds .round)
  | map entries =>
    cases entries with
    | nil => exact (Only.under hpath (by decide)).append (.group Only.nil.holds .round)
    | cons e es =>
      have hentries := Only.listed (only_layoutEntries (e :: es) ht)
      exact (Only.under hpath (by decide)).append
        (.group (Only.group hentries.holds .square).holds .round)
  | revive typeName state =>
    have hself : Only P [.word "self", .mark ','] := .followed (by decide)
    have hargs := (hself.append (.inert [.literal typeName, .mark ','] rfl)).append
      (only_layout state ht)
    exact .invoked (by decide) (hasks _ _).1 hargs.holds
  | parameter key =>
    have hliteral : Only P [.literal key] := .inert _ rfl
    exact .invoked (by decide) (hasks _ _).2 hliteral.holds
  | service method =>
    have hcall := Only.call [] (ht method (List.mem_singleton_self method)) Only.nil.holds
    exact hcall.append (.inert [.mark '?'] rfl)
  | construct name args =>
    have hself : Only P [.word "self", .mark ','] := .followed (by decide)
    have hargs := (hself.append (.inert [.literal name, .mark ','] rfl)).append
      (.vector (only_layoutAll args ht))
    exact .invoked (by decide) (hasks _ _).1 hargs.holds
  | invoke receiver method args | fluent receiver method args =>
    have ht' : ∀ name ∈ receiver.calls ++ callsOf args, P (.call name) := ht
    exact .behind (by decide) method
      (only_layout receiver fun name hname => ht' name (List.mem_append_left _ hname))
      (only_layoutAll args fun name hname => ht' name (List.mem_append_right _ hname))

theorem only_layoutAll (ts : List Term) (ht : ∀ name ∈ callsOf ts, P (.call name)) :
    ∀ part ∈ layoutAll path ts, Only P part := by
  cases ts with
  | nil => exact fun part hpart => nomatch hpart
  | cons t ts =>
    have ht' : ∀ name ∈ t.calls ++ callsOf ts, P (.call name) := ht
    exact List.forall_mem_cons.mpr
      ⟨only_layout t fun name hname => ht' name (List.mem_append_left _ hname),
        only_layoutAll ts fun name hname => ht' name (List.mem_append_right _ hname)⟩

theorem only_layoutEntries (es : List (String × Term))
    (ht : ∀ name ∈ callsOfEntries es, P (.call name)) :
    ∀ part ∈ layoutEntries path es, Only P part := by
  cases es with
  | nil => exact fun part hpart => nomatch hpart
  | cons e es =>
    obtain ⟨k, t⟩ := e
    have ht' : ∀ name ∈ t.calls ++ callsOfEntries es, P (.call name) := ht
    have hkey : Only P [.literal k, .mark ','] := .inert _ rfl
    have hterm := only_layout t fun name hname => ht' name (List.mem_append_left _ hname)
    exact List.forall_mem_cons.mpr ⟨.group (hkey.append hterm).holds .round,
      only_layoutEntries es fun name hname => ht' name (List.mem_append_right _ hname)⟩

end

end

end Term

/-! ## methods -/

namespace SourceMethod

variable {m : SourceMethod}

/-- a cell is called as none of the other fields is -/
theorem cell_ne (m : SourceMethod) {name : String} (hname : name.toList.head? ≠ some 'c') :
    m.cell ≠ name := by
  rintro rfl
  rw [cell, String.toList_append] at hname
  exact hname rfl

/-- the cell of a kept service is read -/
theorem only_recalled
    (h : m.shared = true → ∀ method argument, P (.invoke m.cell method argument)) :
    Only P m.recalled := by
  unfold recalled
  split
  · next hshared =>
    have hget := Only.invoke "get" [] (m.cell_ne (by decide)) (h hshared _ _) Only.nil.holds
    exact ((Only.inert _ rfl).append hget).append (.inert _ rfl)
  · exact .nil

/-- the cell of a kept service is set -/
theorem only_kept
    (h : m.shared = true → ∀ method argument, P (.invoke m.cell method argument)) :
    Only P m.kept := by
  unfold kept
  split
  · next hshared =>
    have hset := Only.invoke "set" [.word "value", .mark '.', .word "clone", .group .round []]
      (m.cell_ne (by decide)) (h hshared _ _) (Only.inert _ rfl).holds
    exact ((Only.inert _ rfl).append hset).append (.inert _ rfl)
  · exact .nil

section
variable (hpath : Pathlike path) (hasks : Term.Asks P) (hcalls : ∀ name ∈ m.calls, P (.call name))
  (hcell : m.shared = true → ∀ method argument, P (.invoke m.cell method argument))
include hpath hasks hcalls

theorem only_setup {call : String × List Term} (hcall : call ∈ m.setup) :
    Only P (setupLayout path call) := by
  have hargs := Term.only_layoutAll hpath hasks call.2 fun name hname => hcalls name
    (List.mem_append_right _ (List.mem_flatMap.mpr ⟨call, hcall, hname⟩))
  have hvalue : Only P [.word "value"] := .inert _ rfl
  have hinvoke : "invoke" ≠ "self" := by decide
  exact (Only.behind hinvoke call.1 hvalue hargs).append (.inert [.mark ';'] rfl)

theorem only_root : Only P (m.root.layout path) :=
  Term.only_layout hpath hasks m.root fun name hname => hcalls name (List.mem_append_left _ hname)

include hcell

/-- a method calls other methods, enters an id and uses its cell -/
theorem only_body (hstack : P (.invoke "stack" "enter" (some m.id))) :
    Only P (m.bodyLayout path) := by
  have hentered : Only P (ofSelf "stack" ++ invoked "enter" [.literal m.id]) :=
    .invoked (by decide) hstack (Only.inert [.literal m.id] rfl).holds
  have hguard := (((only_recalled hcell).append
    (.inert [.word "let", .word "_guard", .mark '='] rfl)).append hentered).append
    (.inert [.mark ';'] rfl)
  have hroot := ((hguard.append (.inert [.word "let", .word "value", .mark '='] rfl)).append
    (only_root hpath hasks hcalls)).append (.inert [.mark ';'] rfl)
  have hsetup := hroot.append (.flatMap fun call hcall => only_setup hpath hasks hcalls hcall)
  exact (hsetup.append (only_kept hcell)).append (.inert _ rfl)

end

/-- a method enters its id and no other -/
theorem entered_body (hpath : Pathlike path) (m : SourceMethod) :
    entered (m.bodyLayout path) = [some m.id] := by
  have hasks : Term.Asks fun u => u.entered? = none := fun _ _ => ⟨rfl, rfl⟩
  have hcell : m.shared = true → ∀ method argument,
      (Use.invoke m.cell method argument).entered? = none := fun _ =>
    entered?_of_ne (m.cell_ne (by decide))
  have hcalls : ∀ name ∈ m.calls, (Use.call name).entered? = none := fun _ _ => rfl
  have hsetup : Only (fun u => u.entered? = none) (m.setup.flatMap (setupLayout path)) :=
    .flatMap fun call hcall => only_setup hpath hasks hcalls hcall
  have hend : Only (fun u => u.entered? = none) [.word "Ok", .group .round [.word "value"]] :=
    .inert _ rfl
  have hlast := hend.entered_append []
  rw [List.append_nil] at hlast
  rw [bodyLayout]
  simp only [List.append_assoc]
  rw [(only_recalled hcell).entered_append, Only.entered_append (.inert _ rfl), entered_enter,
    Only.entered_append (.inert _ rfl), Only.entered_append (.inert _ rfl),
    (only_root hpath hasks hcalls).entered_append, Only.entered_append (.inert _ rfl),
    hsetup.entered_append, (only_kept hcell).entered_append, hlast]
  rfl

end SourceMethod
end ServiceGraph
