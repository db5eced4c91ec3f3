import Mathlib.Data.Fintype.EquivFin
import Mathlib.Logic.Relation
import ServiceGraph.Routes.Assembler

/-!
# The forest of collections

The table is read off the forest of collections in pre-order, and nothing is left out or written
twice.

* `RouteAssembler.Siblings`: the collections below a parent, in their order;
* `RouteAssembler.Traversal`: a part of the forest, each collection before the ones below it, without
  a bound on the depth;
* `RouteAssembler.Lineage`: a collection with the ones around it, up to one without a parent. There
  is at most one for each collection, so it repeats nothing (`Lineage.nodup`), and what a traversal
  comes to twice would have two (`Traversal.nodup`);
* `RouteAssembler.Stray`: an id from which the parents lead into a cycle;
* `RouteAssembler.exists_lineage`: where parents exist, every collection that is not stray has a lineage;
* `RouteAssembler.flatten_eq_ok_iff`: what the table is made from;
* `RouteAssembler.flatten_exact`: the result.
-/

namespace ServiceGraph

open Relation

namespace RouteAssembler

variable {a a' : RouteAssembler} {order : List String} {c d : RouteCollection}
  {cs older path : List RouteCollection} {parent : Option String} {outer : RouteScope}
  {out : List (RouteCollection × RouteScope)} {table : RouteTable}

/-- a collection that names the first id as its parent has the second -/
def IsParent (a : RouteAssembler) (above id : String) : Prop :=
  ∃ c ∈ a.collections, c.id = id ∧ c.parent = some above

/-- every parent that is named exists -/
def Closed (a : RouteAssembler) : Prop :=
  ∀ c ∈ a.collections, ∀ above, c.parent = some above → ∃ d ∈ a.collections, d.id = above

theorem Distinct.nodup (h : a.Distinct) : a.collections.Nodup := List.Nodup.of_map _ h

theorem Distinct.eq (h : a.Distinct) (hc : c ∈ a.collections) (hd : d ∈ a.collections)
    (heq : c.id = d.id) : c = d :=
  List.inj_on_of_nodup_map h hc hd heq

/-! ## siblings -/

/-- the collections below a parent: by the first position of their owner in the boot order, where
an owner that is not there comes last, and then in the order of their declaration -/
structure Siblings (a : RouteAssembler) (order : List String) (parent : Option String)
    (cs : List RouteCollection) : Prop where
  perm : cs.Perm (a.collections.filter (·.parent = parent))
  sorted : cs.Pairwise fun c d => order.idxOf c.owner < order.idxOf d.owner ∨
    order.idxOf c.owner = order.idxOf d.owner ∧ [c, d].Sublist a.collections

theorem Siblings.mem_iff (h : a.Siblings order parent cs) :
    c ∈ cs ↔ c ∈ a.collections ∧ c.parent = parent := by
  rw [h.perm.mem_iff, List.mem_filter, decide_eq_true_iff]

theorem Siblings.nodup (h : a.Siblings order parent cs) (hdistinct : a.Distinct) : cs.Nodup :=
  h.perm.nodup_iff.mpr (hdistinct.nodup.filter _)

theorem eq_of_sublist_pair {α : Type} {l : List α} {x y : α} (hnodup : l.Nodup)
    (hxy : [x, y].Sublist l) (hyx : [y, x].Sublist l) : x = y := by
  induction l with
  | nil => cases hxy
  | cons z l ih =>
    obtain ⟨hnew, hnodup⟩ := List.nodup_cons.mp hnodup
    cases hxy with
    | cons _ hxy =>
      cases hyx with
      | cons _ hyx => exact ih hnodup hxy hyx
      | cons_cons _ hx => exact absurd (hxy.subset (by simp)) hnew
    | cons_cons _ hy =>
      cases hyx with
      | cons _ hyx => exact absurd (hyx.subset (by simp)) hnew
      | cons_cons _ hx => rfl

theorem Siblings.unique (hdistinct : a.Distinct) {cs' : List RouteCollection}
    (h : a.Siblings order parent cs) (h' : a.Siblings order parent cs') : cs = cs' := by
  refine List.Perm.eq_of_pairwise (fun c d _ _ hcd hdc => ?_) h.sorted h'.sorted
    (h.perm.trans h'.perm.symm)
  rcases hcd with hcd | ⟨heq, hcd⟩
  · rcases hdc with hdc | ⟨heq, -⟩
    · omega
    · omega
  · rcases hdc with hdc | ⟨-, hdc⟩
    · omega
    · exact eq_of_sublist_pair hdistinct.nodup hcd hdc

/-- picking the elements of one rank after the other -/
theorem flatMap_filter_perm {α : Type} (f : α → Nat) (l : List α) (n : Nat) :
    ((List.range n).flatMap fun i => l.filter (f · = i)).Perm (l.filter (f · < n)) := by
  induction n with
  | zero => simp
  | succ n ih =>
    have hsplit := List.filter_append_perm (f · < n) (l.filter (f · < n + 1))
    rw [List.filter_filter, List.filter_filter] at hsplit
    have hlow : l.filter (fun x => decide (f x < n) && decide (f x < n + 1)) =
        l.filter (f · < n) :=
      List.filter_congr fun x _ => by
        rw [← Bool.decide_and, decide_eq_decide]
        omega
    have hhigh : l.filter (fun x => (!decide (f x < n)) && decide (f x < n + 1)) =
        l.filter (f · = n) :=
      List.filter_congr fun x _ => by
        rw [← decide_not, ← Bool.decide_and, decide_eq_decide]
        omega
    rw [hlow, hhigh] at hsplit
    rw [List.range_succ, List.flatMap_append, List.flatMap_singleton]
    exact (ih.append_right _).trans hsplit

theorem siblings_children (a : RouteAssembler) (order : List String) (parent : Option String) :
    a.Siblings order parent (a.children order parent) := by
  unfold children
  constructor
  · have hall : ∀ c ∈ a.collections.filter (·.parent = parent),
        decide (rank order c.owner < order.length + 1) = true :=
      fun c _ => decide_eq_true (Nat.lt_succ_of_le List.idxOf_le_length)
    have hperm := flatMap_filter_perm (rank order ·.owner)
      (a.collections.filter (·.parent = parent)) (order.length + 1)
    rw [List.filter_eq_self.mpr hall] at hperm
    exact hperm
  · rw [List.pairwise_flatMap]
    constructor
    · intro position _
      rw [List.pairwise_iff_forall_sublist]
      intro c d hsub
      have hrank : ∀ e ∈ [c, d], order.idxOf e.owner = position := fun e he =>
        of_decide_eq_true (List.mem_filter.mp (hsub.subset he)).2
      refine .inr ⟨?_, ?_⟩
      · rw [hrank c List.mem_cons_self, hrank d (List.mem_cons_of_mem _ List.mem_cons_self)]
      · exact hsub.trans (List.filter_sublist.trans List.filter_sublist)
    · refine List.pairwise_lt_range.imp fun {i j} hij c hc d hd => .inl ?_
      have hi : order.idxOf c.owner = i := of_decide_eq_true (List.mem_filter.mp hc).2
      have hj : order.idxOf d.owner = j := of_decide_eq_true (List.mem_filter.mp hd).2
      rw [hi, hj]
      exact hij

/-! ## lineages -/

/-- a collection and the ones around it, from the inside out -/
inductive Lineage (a : RouteAssembler) : List RouteCollection → Prop where
  | top {c : RouteCollection} : c ∈ a.collections → c.parent = none → Lineage a [c]
  | under {c d : RouteCollection} {older : List RouteCollection} : Lineage a (c :: older) →
    d ∈ a.collections → d.parent = some c.id → Lineage a (d :: c :: older)

theorem Lineage.subset (h : a.Lineage path) : path ⊆ a.collections := by
  induction h with
  | top hc _ => exact List.cons_subset.mpr ⟨hc, List.nil_subset _⟩
  | under _ hd _ ih => exact List.cons_subset.mpr ⟨hd, ih⟩

theorem Lineage.mem (h : a.Lineage (c :: older)) : c ∈ a.collections :=
  h.subset List.mem_cons_self

theorem Siblings.lineage (h : a.Siblings order (some c.id) cs) (hc : a.Lineage (c :: path))
    (hd : d ∈ cs) : a.Lineage (d :: c :: path) := by
  obtain ⟨hin, hparent⟩ := h.mem_iff.mp hd
  exact .under hc hin hparent

theorem Lineage.unique (hdistinct : a.Distinct) {older' : List RouteCollection}
    (h : a.Lineage (c :: older)) (h' : a.Lineage (c :: older')) : older = older' := by
  induction older generalizing c older' with
  | nil =>
    cases h with
    | top _ hnone =>
      cases h' with
      | top _ _ => rfl
      | under _ _ hsome => cases hnone.symm.trans hsome
  | cons e rest ih =>
    cases h with
    | under h _ hsome =>
      cases h' with
      | top _ hnone => cases hnone.symm.trans hsome
      | under h' _ hsome' =>
        have hid := Option.some.inj (hsome.symm.trans hsome')
        cases hdistinct.eq h.mem h'.mem hid
        rw [ih h h']

theorem Lineage.of_suffix (h : a.Lineage path) (hsuffix : c :: older <:+ path) :
    a.Lineage (c :: older) := by
  induction h with
  | top hc hnone =>
    rcases List.suffix_cons_iff.mp hsuffix with heq | hnil
    · rw [heq]
      exact .top hc hnone
    · cases List.suffix_nil.mp hnil
  | under h hd hsome ih =>
    rcases List.suffix_cons_iff.mp hsuffix with heq | hsuffix
    · rw [heq]
      exact .under h hd hsome
    · exact ih hsuffix

theorem exists_suffix_of_mem (hc : c ∈ path) : ∃ after, c :: after <:+ path := by
  obtain ⟨before, after, rfl⟩ := List.append_of_mem hc
  exact ⟨after, List.suffix_append _ _⟩

theorem Lineage.not_mem (hdistinct : a.Distinct) (h : a.Lineage (c :: older)) : c ∉ older := by
  intro hc
  -- from where it comes again there is a shorter lineage of the same collection
  obtain ⟨after, hsuffix⟩ := exists_suffix_of_mem hc
  have hsame : older = after :=
    h.unique hdistinct (h.of_suffix (hsuffix.trans (List.suffix_cons _ _)))
  have hlength := hsuffix.length_le
  rw [hsame, List.length_cons] at hlength
  omega

theorem Lineage.nodup (hdistinct : a.Distinct) (h : a.Lineage path) : path.Nodup := by
  induction h with
  | top _ _ => exact List.nodup_singleton _
  | under h hd hsome ih =>
    exact List.nodup_cons.mpr ⟨Lineage.not_mem hdistinct (.under h hd hsome), ih⟩

theorem Lineage.length_le (hdistinct : a.Distinct) (h : a.Lineage path) :
    path.length ≤ a.collections.length :=
  ((h.nodup hdistinct).subperm h.subset).length_le

theorem Lineage.exists_of_transGen (hdistinct : a.Distinct) {above : String}
    (h : a.Lineage (c :: older)) (habove : TransGen a.IsParent above c.id) :
    ∃ d ∈ older, d.id = above := by
  have hstep : ∀ {id c older}, a.Lineage (c :: older) → a.IsParent id c.id →
      ∃ d rest, older = d :: rest ∧ d.id = id := by
    rintro id c older h ⟨e, he, hid, hsome⟩
    cases hdistinct.eq he h.mem hid
    cases h with
    | top _ hnone => cases hnone.symm.trans hsome
    | under _ _ hsome' => exact ⟨_, _, rfl, Option.some.inj (hsome'.symm.trans hsome)⟩
  generalize hid : c.id = id at habove
  induction habove generalizing c older with
  | single hparent =>
    obtain ⟨d, rest, rfl, hd⟩ := hstep h (hid ▸ hparent)
    exact ⟨d, List.mem_cons_self, hd⟩
  | tail _ hparent ih =>
    obtain ⟨d, rest, rfl, hd⟩ := hstep h (hid ▸ hparent)
    obtain ⟨e, he, heq⟩ := ih (h.of_suffix (List.suffix_cons _ _)) hd
    exact ⟨e, List.mem_cons_of_mem _ he, heq⟩

theorem Lineage.not_transGen (hdistinct : a.Distinct) (h : a.Lineage (c :: older)) :
    ¬ TransGen a.IsParent c.id c.id := by
  intro hcycle
  obtain ⟨d, hd, hid⟩ := h.exists_of_transGen hdistinct hcycle
  cases hdistinct.eq (h.subset (List.mem_cons_of_mem _ hd)) h.mem hid
  exact h.not_mem hdistinct hd

/-- following parents from an id leads into a cycle -/
def Stray (a : RouteAssembler) (id : String) : Prop :=
  ∃ above, ReflTransGen a.IsParent above id ∧ TransGen a.IsParent above above

theorem Stray.below {above id : String} (h : a.Stray above) (hid : a.IsParent above id) :
    a.Stray id := by
  obtain ⟨top, htop, hcycle⟩ := h
  exact ⟨top, htop.tail hid, hcycle⟩

theorem Lineage.not_stray (hdistinct : a.Distinct) (h : a.Lineage (c :: older)) :
    ¬ a.Stray c.id := by
  rintro ⟨above, habove, hcycle⟩
  rcases reflTransGen_iff_eq_or_transGen.mp habove with hid | habove
  · exact h.not_transGen hdistinct (hid ▸ hcycle)
  · obtain ⟨d, hd, rfl⟩ := h.exists_of_transGen hdistinct habove
    obtain ⟨after, hsuffix⟩ := exists_suffix_of_mem hd
    exact (h.of_suffix (hsuffix.trans (List.suffix_cons _ _))).not_transGen hdistinct hcycle

theorem exists_lineage (hclosed : a.Closed) (hc : c ∈ a.collections) (hstray : ¬ a.Stray c.id) :
    ∃ older, a.Lineage (c :: older) := by
  -- there are finitely many collections, and no way up from these comes back
  let Kept := {c : {c // c ∈ a.collections} // ¬ a.Stray c.1.id}
  let up (d c : Kept) : Prop := TransGen a.IsParent d.1.1.id c.1.1.id
  have htrans : IsTrans _ up := ⟨fun _ _ _ => TransGen.trans⟩
  have hirrefl : Std.Irrefl up := ⟨fun c hcycle => c.2 ⟨_, .refl, hcycle⟩⟩
  have hwf : WellFounded up := Finite.wellFounded_of_trans_of_irrefl up
  have hall : ∀ c : Kept, ∃ older, a.Lineage (c.1.1 :: older) := by
    intro c
    induction c using hwf.induction with
    | h c ih =>
      obtain ⟨⟨c, hc⟩, hstray⟩ := c
      cases hparent : c.parent with
      | none => exact ⟨[], .top hc hparent⟩
      | some above =>
        obtain ⟨d, hd, rfl⟩ := hclosed c hc above hparent
        have hbelow : a.IsParent d.id c.id := ⟨c, hc, rfl, hparent⟩
        have habove : ¬ a.Stray d.id := fun h => hstray (h.below hbelow)
        obtain ⟨older, h⟩ := ih ⟨⟨d, hd⟩, habove⟩ (.single hbelow)
        exact ⟨d :: older, .under h hc hparent⟩
  exact hall ⟨⟨c, hc⟩, hstray⟩

/-! ## traversals -/

/-- a part of the forest in pre-order: a collection, what is below it, and its later siblings; with
what each collection adds to its routes -/
inductive Traversal (a : RouteAssembler) (order : List String) :
    List RouteCollection → RouteScope → List (RouteCollection × RouteScope) → Prop where
  | nil {outer : RouteScope} : Traversal a order [] outer []
  | cons {c : RouteCollection} {cs below : List RouteCollection} {outer : RouteScope}
    {inner rest : List (RouteCollection × RouteScope)} : a.Siblings order (some c.id) below →
    Traversal a order below (outer.within c) inner → Traversal a order cs outer rest →
    Traversal a order (c :: cs) outer ((c, outer.within c) :: (inner ++ rest))

theorem Traversal.subset (h : a.Traversal order cs outer out) : cs ⊆ out.map Prod.fst := by
  induction h with
  | nil => exact List.nil_subset _
  | cons _ _ _ _ ih =>
    rw [List.map_cons, List.map_append]
    exact List.cons_subset_cons _ (List.subset_append_of_subset_right _ ih)

theorem Traversal.closed (h : a.Traversal order cs outer out) (hd : d ∈ a.collections)
    (hparent : d.parent = some c.id) (hc : c ∈ out.map Prod.fst) : d ∈ out.map Prod.fst := by
  induction h with
  | nil => cases hc
  | cons hbelow hinner _ ih ihrest =>
    rw [List.map_cons, List.map_append, List.mem_cons, List.mem_append] at hc ⊢
    rcases hc with rfl | hc | hc
    · exact .inr (.inl (hinner.subset (hbelow.mem_iff.mpr ⟨hd, hparent⟩)))
    · exact .inr (.inl (ih hc))
    · exact .inr (.inr (ihrest hc))

theorem Traversal.unique (hdistinct : a.Distinct) {out' : List (RouteCollection × RouteScope)}
    (h : a.Traversal order cs outer out) (h' : a.Traversal order cs outer out') : out = out' := by
  induction h generalizing out' with
  | nil =>
    cases h'
    rfl
  | cons hbelow _ _ ih ihrest =>
    cases h' with
    | cons hbelow' hinner' hrest' =>
      cases hbelow.unique hdistinct hbelow'
      rw [ih hinner', ihrest hrest']

theorem Traversal.lineage (h : a.Traversal order cs outer out)
    (hcs : ∀ c ∈ cs, a.Lineage (c :: path)) (hd : d ∈ out.map Prod.fst) :
    ∃ older, a.Lineage (d :: older) ∧ ∃ c ∈ cs, c :: path <:+ d :: older := by
  induction h generalizing path with
  | nil => cases hd
  | @cons c cs below _ inner rest hbelow _ _ ih ihrest =>
    obtain ⟨hc, hcs⟩ := List.forall_mem_cons.mp hcs
    rw [List.map_cons, List.map_append, List.mem_cons, List.mem_append] at hd
    rcases hd with rfl | hd | hd
    · exact ⟨path, hc, d, List.mem_cons_self, List.suffix_refl _⟩
    · obtain ⟨older, hlineage, e, -, hsuffix⟩ := ih (fun _ => hbelow.lineage hc) hd
      exact ⟨older, hlineage, c, List.mem_cons_self, (List.suffix_cons _ _).trans hsuffix⟩
    · obtain ⟨older, hlineage, e, he, hsuffix⟩ := ihrest hcs hd
      exact ⟨older, hlineage, e, List.mem_cons_of_mem _ he, hsuffix⟩

theorem Traversal.lineage_inside (h : a.Traversal order cs outer out)
    (hcs : ∀ d ∈ cs, a.Lineage (d :: c :: path)) (hd : d ∈ out.map Prod.fst) :
    ∃ older, a.Lineage (d :: older) ∧ c :: path <:+ older := by
  obtain ⟨older, hlineage, e, -, hsuffix⟩ := h.lineage hcs hd
  rcases List.suffix_cons_iff.mp hsuffix with heq | hsuffix
  · cases heq
    exact ⟨c :: path, hlineage, List.suffix_refl _⟩
  · exact ⟨older, hlineage, (List.suffix_cons _ _).trans hsuffix⟩

theorem Traversal.lineage_beside (h : a.Traversal order cs outer out)
    (hcs : ∀ d ∈ cs, a.Lineage (d :: path)) (hc : c ∉ cs) (hd : d ∈ out.map Prod.fst) :
    ∃ older, a.Lineage (d :: older) ∧ ¬ c :: path <:+ d :: older := by
  obtain ⟨older, hlineage, e, he, hsuffix⟩ := h.lineage hcs hd
  refine ⟨older, hlineage, fun hsuffix' => hc ?_⟩
  have hsame := (List.suffix_of_suffix_length_le hsuffix hsuffix' le_rfl).eq_of_length rfl
  cases hsame
  exact he

/-- a traversal comes to nothing twice: what is below a collection has it in its lineage, and neither
the collection itself nor what is beside it has -/
theorem Traversal.nodup (hdistinct : a.Distinct) (h : a.Traversal order cs outer out)
    (hnodup : cs.Nodup) (hcs : ∀ c ∈ cs, a.Lineage (c :: path)) : (out.map Prod.fst).Nodup := by
  induction h generalizing path with
  | nil => exact List.nodup_nil
  | @cons c cs below outer inner rest hbelow hinner hrest ih ihrest =>
    obtain ⟨hnew, hnodup⟩ := List.nodup_cons.mp hnodup
    obtain ⟨hc, hcs⟩ := List.forall_mem_cons.mp hcs
    have hkids : ∀ d ∈ below, a.Lineage (d :: c :: path) := fun _ => hbelow.lineage hc
    have hfirst : c ∉ inner.map Prod.fst := by
      intro hin
      obtain ⟨older, hlineage, hsuffix⟩ := hinner.lineage_inside hkids hin
      rw [← hc.unique hdistinct hlineage] at hsuffix
      exact Nat.not_succ_le_self _ hsuffix.length_le
    have hlater : c ∉ rest.map Prod.fst := by
      intro hin
      obtain ⟨older, hlineage, hnot⟩ := hrest.lineage_beside hcs hnew hin
      rw [← hc.unique hdistinct hlineage] at hnot
      exact hnot (List.suffix_refl _)
    have hapart : ∀ d ∈ inner.map Prod.fst, ∀ e ∈ rest.map Prod.fst, d ≠ e := by
      rintro d hd e he rfl
      obtain ⟨older, hlineage, hsuffix⟩ := hinner.lineage_inside hkids hd
      obtain ⟨older', hlineage', hnot⟩ := hrest.lineage_beside hcs hnew he
      cases hlineage.unique hdistinct hlineage'
      exact hnot (hsuffix.trans (List.suffix_cons _ _))
    rw [List.map_cons, List.map_append, List.nodup_cons, List.mem_append]
    refine ⟨not_or.mpr ⟨hfirst, hlater⟩, List.nodup_append.mpr ⟨?_, ?_, hapart⟩⟩
    · exact ih (hbelow.nodup hdistinct) hkids
    · exact ihrest hnodup hcs

theorem traversal_flatMap {walk : RouteCollection → List (RouteCollection × RouteScope)}
    (h : ∀ c ∈ cs, a.Traversal order (a.children order (some c.id)) (outer.within c) (walk c)) :
    a.Traversal order cs outer (cs.flatMap fun c => (c, outer.within c) :: walk c) := by
  induction cs with
  | nil => exact .nil
  | cons c cs ih =>
    obtain ⟨hc, hcs⟩ := List.forall_mem_cons.mp h
    rw [List.flatMap_cons, List.cons_append]
    exact .cons (siblings_children a order _) hc (ih hcs)

theorem traversal_walk (hdistinct : a.Distinct) (order : List String) {depth : Nat}
    (hchildren : ∀ c ∈ a.children order parent, a.Lineage (c :: path))
    (hroom : a.collections.length ≤ path.length + depth) (outer : RouteScope) :
    a.Traversal order (a.children order parent) outer (a.walk order depth parent outer) := by
  induction depth generalizing parent path outer with
  | zero =>
    -- a collection here would make a lineage longer than there are collections
    have hnone : a.children order parent = [] := by
      rw [List.eq_nil_iff_forall_not_mem]
      intro c hc
      have hlength := (hchildren c hc).length_le hdistinct
      rw [List.length_cons] at hlength
      omega
    rw [hnone, walk]
    exact .nil
  | succ depth ih =>
    rw [walk]
    apply traversal_flatMap
    intro c hc
    apply ih fun d => (siblings_children a order (some c.id)).lineage (hchildren c hc)
    rw [List.length_cons]
    omega

theorem lineage_of_mem_children (hc : c ∈ a.children order none) : a.Lineage [c] := by
  obtain ⟨hin, hparent⟩ := (siblings_children a order none).mem_iff.mp hc
  exact .top hin hparent

theorem traversal_forest (hdistinct : a.Distinct) (order : List String) :
    a.Traversal order (a.children order none) .top (a.forest order) :=
  traversal_walk hdistinct order (fun _ => lineage_of_mem_children) (Nat.le_add_left _ _) .top

theorem mem_forest_iff (hdistinct : a.Distinct) (order : List String) :
    c ∈ (a.forest order).map Prod.fst ↔ ∃ older, a.Lineage (c :: older) := by
  have hforest := traversal_forest hdistinct order
  constructor
  · intro hc
    obtain ⟨older, hlineage, -⟩ := hforest.lineage (fun _ => lineage_of_mem_children) hc
    exact ⟨older, hlineage⟩
  · rintro ⟨older, hlineage⟩
    induction older generalizing c with
    | nil =>
      cases hlineage with
      | top hc hnone =>
        exact hforest.subset ((siblings_children a order none).mem_iff.mpr ⟨hc, hnone⟩)
    | cons d older ih =>
      cases hlineage with
      | under h hc hparent => exact hforest.closed hc hparent (ih h)

theorem nodup_forest (hdistinct : a.Distinct) (order : List String) :
    ((a.forest order).map Prod.fst).Nodup :=
  (traversal_forest hdistinct order).nodup hdistinct
    ((siblings_children a order none).nodup hdistinct) fun _ => lineage_of_mem_children

/-! ## the table -/

/-- the routes outside collections, and then those of the forest -/
def routesOf (a : RouteAssembler) (forest : List (RouteCollection × RouteScope)) :
    List ResolvedRoute :=
  a.roots.map (RouteScope.top.resolve none) ++
    forest.flatMap fun (c, scope) => c.routes.map (scope.resolve (some c.id))

theorem checkParents_eq_ok_iff : a.checkParents cs = .ok () ↔
    ∀ c ∈ cs, ∀ above, c.parent = some above → ∃ d ∈ a.collections, d.id = above := by
  induction cs with
  | nil => simp [checkParents]
  | cons c cs ih =>
    rw [checkParents, List.forall_mem_cons]
    cases hparent : c.parent with
    | none => simp [ih]
    | some above =>
      by_cases habove : (a.collection? above).isSome
      · simp [habove, ih, collection?_isSome_iff.mp habove]
      · have hnone : ¬ ∃ d ∈ a.collections, d.id = above := fun h =>
          habove (collection?_isSome_iff.mpr h)
        simp only [habove]
        exact ⟨nofun, fun h => absurd (h.1 above rfl) hnone⟩

theorem checkConsumed_eq_ok_iff : a.checkConsumed = .ok () ↔ a.deferred = [] := by
  unfold checkConsumed
  cases a.deferred with
  | nil => simp
  | cons p rest => simp

theorem stray?_eq_none_iff {reached : List String} :
    a.stray? reached = none ↔ ∀ c ∈ a.collections, c.id ∈ reached := by
  simp [stray?]

theorem flatten_eq_ok_iff : a.flatten order = .ok (table, a') ↔
    a.assembled = false ∧ a.deferred = [] ∧ a.Closed ∧
    (∀ c ∈ a.collections, c.id ∈ (a.forest order).map (·.1.id)) ∧
    table = ⟨a.routesOf (a.forest order)⟩ ∧ a' = { a with assembled := true } := by
  have hclosed : a.Closed ↔ a.checkParents a.collections = .ok () := checkParents_eq_ok_iff.symm
  rw [hclosed, ← ensureOpen_eq_ok_iff, ← checkConsumed_eq_ok_iff, ← stray?_eq_none_iff, flatten,
    AssemblyError.check_eq_ok_iff, AssemblyError.check_eq_ok_iff, AssemblyError.check_eq_ok_iff]
  refine and_congr_right fun _ => and_congr_right fun _ => and_congr_right fun _ => ?_
  dsimp only
  cases a.stray? ((a.forest order).map (·.1.id)) with
  | some id => simp
  | none =>
    constructor
    · intro h
      cases h
      exact ⟨rfl, rfl, rfl⟩
    · rintro ⟨-, rfl, rfl⟩
      rfl

/-- the forest in pre-order, with what the collections add to their routes -/
def PreOrder (a : RouteAssembler) (order : List String)
    (walked : List (RouteCollection × RouteScope)) : Prop :=
  ∃ tops, a.Siblings order none tops ∧ a.Traversal order tops .top walked

theorem preOrder_iff (hdistinct : a.Distinct) : a.PreOrder order out ↔ out = a.forest order := by
  have hforest := traversal_forest hdistinct order
  constructor
  · rintro ⟨tops, htops, h⟩
    cases htops.unique hdistinct (siblings_children a order none)
    exact h.unique hdistinct hforest
  · rintro rfl
    exact ⟨_, siblings_children a order none, hforest⟩

theorem id_mem_forest_iff (hdistinct : a.Distinct) (order : List String)
    (hc : c ∈ a.collections) :
    c.id ∈ (a.forest order).map (·.1.id) ↔ ∃ older, a.Lineage (c :: older) := by
  rw [← mem_forest_iff hdistinct order]
  constructor
  · intro hid
    obtain ⟨⟨d, scope⟩, hd, heq⟩ := List.mem_map.mp hid
    have hin : d ∈ (a.forest order).map Prod.fst := List.mem_map_of_mem hd
    obtain ⟨older, hlineage⟩ := (mem_forest_iff hdistinct order).mp hin
    rw [← hdistinct.eq hlineage.mem hc heq]
    exact hin
  · intro hin
    obtain ⟨p, hp, rfl⟩ := List.mem_map.mp hin
    exact List.mem_map.mpr ⟨p, hp, rfl⟩

theorem forall_mem_forest_iff (hdistinct : a.Distinct) (hclosed : a.Closed)
    (order : List String) :
    (∀ c ∈ a.collections, c.id ∈ (a.forest order).map (·.1.id)) ↔
      ∀ id, ¬ TransGen a.IsParent id id := by
  constructor
  · intro hall id hcycle
    obtain ⟨_, -, c, hc, rfl, -⟩ := TransGen.tail'_iff.mp hcycle
    obtain ⟨older, hlineage⟩ := (id_mem_forest_iff hdistinct order hc).mp (hall c hc)
    exact hlineage.not_transGen hdistinct hcycle
  · intro hacyclic c hc
    have hstray : ¬ a.Stray c.id := fun ⟨above, _, hcycle⟩ => hacyclic above hcycle
    exact (id_mem_forest_iff hdistinct order hc).mpr (exists_lineage hclosed hc hstray)

theorem forest_perm (hdistinct : a.Distinct)
    (hall : ∀ c ∈ a.collections, c.id ∈ (a.forest order).map (·.1.id)) :
    ((a.forest order).map Prod.fst).Perm a.collections := by
  rw [List.perm_ext_iff_of_nodup (nodup_forest hdistinct order) hdistinct.nodup]
  intro c
  rw [mem_forest_iff hdistinct order]
  constructor
  · rintro ⟨older, hlineage⟩
    exact hlineage.mem
  · intro hc
    exact (id_mem_forest_iff hdistinct order hc).mp (hall c hc)

/-- **Flattening loses and duplicates nothing.** An open assembler can be flattened when nothing
that was configured early is left, every parent exists and no collection is below itself. The table
holds the routes outside collections, in order, and then the routes of the forest in pre-order, in
which every collection comes once. -/
theorem flatten_exact (hopen : a.assembled = false) (hdistinct : a.Distinct)
    (order : List String) :
    ((∃ table a', a.flatten order = .ok (table, a')) ↔
      a.deferred = [] ∧ a.Closed ∧ ∀ id, ¬ TransGen a.IsParent id id) ∧
    ∀ table a', a.flatten order = .ok (table, a') →
      ∃ walked, (∀ other, a.PreOrder order other ↔ other = walked) ∧
        (walked.map Prod.fst).Perm a.collections ∧ table.routes = a.routesOf walked := by
  constructor
  · constructor
    · rintro ⟨table, a', h⟩
      obtain ⟨-, hdeferred, hclosed, hall, -⟩ := flatten_eq_ok_iff.mp h
      exact ⟨hdeferred, hclosed, (forall_mem_forest_iff hdistinct hclosed order).mp hall⟩
    · rintro ⟨hdeferred, hclosed, hacyclic⟩
      have hall := (forall_mem_forest_iff hdistinct hclosed order).mpr hacyclic
      exact ⟨_, _, flatten_eq_ok_iff.mpr ⟨hopen, hdeferred, hclosed, hall, rfl, rfl⟩⟩
  · intro table a' h
    obtain ⟨-, -, -, hall, rfl, -⟩ := flatten_eq_ok_iff.mp h
    exact ⟨a.forest order, fun other => preOrder_iff hdistinct, forest_perm hdistinct hall, rfl⟩

/-- `users` is declared before `admin`, which it is below, and `blog` last, by an extension that is
booted first -/
def nested : RouteAssembler :=
  let group (path : String) : RouteGroup := ⟨some path, none, []⟩
  let route (path : String) : Route := .forPath path (.literal .null)
  { roots := [route "home"]
    collections :=
      [ ⟨"users", "core", some "admin", group "users", [route "list"]⟩,
        ⟨"admin", "core", none, group "admin", [route "login"]⟩,
        ⟨"blog", "web", none, .empty, [route "posts"]⟩ ]
    deferred := []
    assembled := false }

/-- the order of the collections, and the paths -/
example : (nested.forest ["web", "core"]).map (·.1.id) = ["blog", "admin", "users"] ∧
    ((nested.flatten ["web", "core"]).toOption.map fun r => r.1.paths) =
      some ["/home", "/posts", "/admin/login", "/admin/users/list"] := by
  decide

theorem nested_flatten_exact :
    nested.assembled = false ∧ nested.Distinct ∧
    nested.flatten ["web", "core"] =
      .ok (⟨nested.routesOf (nested.forest ["web", "core"])⟩, { nested with assembled := true }) ∧
    (∀ id, ¬ TransGen nested.IsParent id id) ∧
    ∃ walked, (∀ other, nested.PreOrder ["web", "core"] other ↔ other = walked) ∧
      (walked.map Prod.fst).Perm nested.collections := by
  have hdistinct : nested.Distinct := by decide
  have hflat : nested.flatten ["web", "core"] =
      .ok (⟨nested.routesOf (nested.forest ["web", "core"])⟩,
        { nested with assembled := true }) := rfl
  obtain ⟨hiff, htable⟩ := flatten_exact (a := nested) rfl hdistinct ["web", "core"]
  obtain ⟨walked, hwalked, hperm, -⟩ := htable _ _ hflat
  exact ⟨rfl, hdistinct, hflat, (hiff.mp ⟨_, _, hflat⟩).2.2, walked, hwalked, hperm⟩

end RouteAssembler
end ServiceGraph
