import ServiceGraph.Proofs.Routes.Contributions
import ServiceGraph.Proofs.Routes.Forest

/-!
# Configurations before and after their collection

A collection may be configured before it is created, after that, or both. In the end its group is what
its creation says, with every accepted configuration of its id laid over it in the order of the calls.
What was configured and never created is pending, and then there is no table.

* `RouteOperation`, `RouteAssembler.trial`: any operations one after the other, where a refused one
  changes nothing; the accepted contributions are collected;
* `NamesGroup`: the references that mean an id, with or without an `@` in front;
* `RouteGroup.Layered`: what layers over each other come to, field by field;
* `RouteAssembler.Settled`: what is shaped by configurations is what `Built` says, whatever happens to
  the routes; `Settled.perform` is one accepted operation and `Settled.trial` all of them;
* `RouteAssembler.configured_at_any_time`: the result.
-/

namespace ServiceGraph

inductive RouteOperation where
  | contribute (change : RouteChange)
  | flatten (order : List String)

namespace RouteOperation

def contribution? : RouteOperation → Option RouteChange
  | contribute change => some change
  | flatten _ => none

/-- a collection that is changed by hand keeps its id and its group; its routes may change -/
def KeepsGroups : RouteOperation → Prop
  | contribute (.edit _ f) => ∀ c, (f c).id = c.id ∧ (f c).group = c.group
  | _ => True

end RouteOperation

/-! ## references -/

/-- a reference means an id: it is the id behind an `@`, or the id itself, where this has no `@` in
front -/
def NamesGroup (reference id : String) : Prop :=
  reference = "@" ++ id ∨ reference = id ∧ id.toList.head? ≠ some '@'

instance (reference id : String) : Decidable (NamesGroup reference id) :=
  inferInstanceAs (Decidable (_ ∨ _))

theorem groupId_eq_iff {reference id : String} : groupId reference = id ↔ NamesGroup reference id := by
  have hmarked : ∀ rest, reference.toList = '@' :: rest ↔ reference = "@" ++ String.ofList rest := by
    intro rest
    rw [← String.toList_inj, String.toList_append, String.toList_ofList, String.toList_ofList]
    rfl
  unfold groupId NamesGroup
  split
  next rest heq =>
    have href := (hmarked rest).mp heq
    constructor
    · rintro rfl
      exact .inl href
    · rintro (hid | ⟨rfl, hbare⟩)
      · have hsame := congrArg String.toList (href.symm.trans hid)
        rw [String.toList_append, String.toList_append, List.append_cancel_left_eq] at hsame
        exact String.toList_inj.mp hsame
      · rw [heq] at hbare
        exact absurd rfl hbare
  next hplain =>
    have hhead : reference.toList.head? ≠ some '@' := by
      intro hhead
      obtain ⟨rest, hrest⟩ := List.head?_eq_some_iff.mp hhead
      exact hplain rest hrest
    constructor
    · rintro rfl
      exact .inr ⟨rfl, hhead⟩
    · rintro (hid | ⟨rfl, -⟩)
      · rw [hid, String.toList_append] at hhead
        exact absurd rfl hhead
      · rfl

def groupsFor (configured : List Configuration) (id : String) : List RouteGroup :=
  (configured.filter (NamesGroup ·.reference id)).map Configuration.group

theorem map_group_layers (configured : List Configuration) (id : String) :
    (layers configured id).map DeferredGroup.group = groupsFor configured id := by
  simp only [layers, groupsFor, groupId_eq_iff, List.map_map]
  rfl

theorem layers_eq_nil_iff {configured : List Configuration} {id : String} :
    layers configured id = [] ↔ ¬ ∃ x ∈ configured, NamesGroup x.reference id := by
  simp [layers, groupId_eq_iff]

/-! ## layers of groups -/

/-- layers laid over a group in order: of the prefixes and of the domains the last that is set counts,
and all arguments are there, in the order in which their keys first come and with their last values -/
structure RouteGroup.Layered (base : RouteGroup) (tops : List RouteGroup) (g : RouteGroup) : Prop where
  pathPrefix : g.pathPrefix = ((base :: tops).filterMap RouteGroup.pathPrefix).getLast?
  domain : g.domain = ((base :: tops).filterMap RouteGroup.domain).getLast?
  args : g.args = base.args.extend (tops.flatMap RouteGroup.args)

theorem getLast?_append_toList {α : Type} (l : List α) (x : Option α) :
    (l ++ x.toList).getLast? = x.or l.getLast? := by
  cases x with
  | none => simp
  | some v => simp

theorem RouteGroup.layered_foldl (base : RouteGroup) (tops : List RouteGroup) :
    base.Layered tops (tops.foldl overlay base) := by
  induction tops using List.reverseRecOn with
  | nil =>
    refine ⟨?_, ?_, rfl⟩
    · cases h : base.pathPrefix <;> simp [h]
    · cases h : base.domain <;> simp [h]
  | append_singleton tops top ih =>
    rw [List.foldl_append, List.foldl_cons, List.foldl_nil]
    refine ⟨?_, ?_, ?_⟩
    · rw [← List.cons_append, filterMap_concat, getLast?_append_toList, ← ih.pathPrefix]
      rfl
    · rw [← List.cons_append, filterMap_concat, getLast?_append_toList, ← ih.domain]
      rfl
    · rw [List.flatMap_append, List.flatMap_singleton, OrderedMap.extend, List.foldl_append]
      show OrderedMap.extend (tops.foldl overlay base).args top.args = _
      rw [ih.args]
      rfl

theorem layered_overlaid (base : RouteGroup) (configured : List Configuration) (id : String) :
    base.Layered (groupsFor configured id) (overlaid base (layers configured id)) := by
  have hfold : overlaid base (layers configured id) =
      (groupsFor configured id).foldl RouteGroup.overlay base := by
    rw [← map_group_layers, List.foldl_map]
    rfl
  rw [hfold]
  exact RouteGroup.layered_foldl base _

/-! ## operations that may be refused -/

namespace RouteAssembler

def perform (a : RouteAssembler) : RouteOperation → Except AssemblyError RouteAssembler
  | .contribute change => a.change change
  | .flatten order => (a.flatten order).map Prod.snd

/-- operations one after the other; a refused one changes nothing. The contributions that are accepted
are given, and the assembler that is left. -/
def trial (a : RouteAssembler) : List RouteOperation → List RouteChange × RouteAssembler
  | [] => ([], a)
  | op :: ops =>
    match a.perform op with
    | .ok a =>
      let (accepted, last) := a.trial ops
      (op.contribution?.toList ++ accepted, last)
    | .error _ => a.trial ops

end RouteAssembler

/-! ## what configurations shape -/

/-- a collection without what configurations do not touch -/
def RouteCollection.bare (c : RouteCollection) : RouteCollection := ⟨c.id, "", none, c.group, []⟩

def Creation.bare (c : Creation) : Creation := ⟨c.id, "", none, c.group, []⟩

namespace RouteAssembler

variable {a a' : RouteAssembler} {op : RouteOperation} {ops : List RouteOperation}
  {accepted : List RouteChange} {id : String}

/-- an open assembler with what configurations shape -/
def bare (a : RouteAssembler) : RouteAssembler :=
  ⟨[], a.collections.map RouteCollection.bare, a.deferred, false⟩

theorem ids_bare (a : RouteAssembler) :
    a.bare.collections.map RouteCollection.id = a.collections.map RouteCollection.id := by
  rw [bare, List.map_map]
  rfl

theorem bare_edit {f g : RouteCollection → RouteCollection} (hfg : ∀ c, (f c).bare = g c.bare)
    (a : RouteAssembler) (id : String) : (a.edit id f).bare = a.bare.edit id g := by
  simp only [bare, edit, List.map_map]
  congr 1
  apply List.map_congr_left
  intro c _
  show (if c.id = id then f c else c).bare = if c.bare.id = id then g c.bare else c.bare
  by_cases h : c.id = id
  · rw [if_pos h, if_pos (show c.bare.id = id from h), hfg]
  · rw [if_neg h, if_neg (show ¬ c.bare.id = id from h)]

theorem bare_edit_of_keeps {f : RouteCollection → RouteCollection}
    (hf : ∀ c, (f c).id = c.id ∧ (f c).group = c.group) (a : RouteAssembler) (id : String) :
    (a.edit id f).bare = a.bare := by
  have hbare : ∀ c, (f c).bare = c.bare := by
    intro c
    rw [RouteCollection.bare, (hf c).1, (hf c).2]
    rfl
  rw [bare_edit (g := fun c => c) hbare]
  simp only [edit, ite_self, List.map_id']

/-- what configurations shape is as the accepted contributions make it, and no table was made while
something waited -/
structure Settled (accepted : List RouteChange) (a : RouteAssembler) : Prop where
  built : Built [] (configurations accepted) ((creations accepted).map Creation.bare) a.bare
  consumed : a.assembled = true → a.deferred = []

theorem settled_empty : Settled [] .empty where
  built := built_empty
  consumed _ := rfl

/-- an accepted contribution as the last of the accepted ones -/
theorem settled_concat {change : RouteChange}
    (hbuilt : Built [] (configurations accepted ++ change.configuration?.toList)
      (creations accepted ++ change.creation?.toList |>.map Creation.bare) a.bare)
    (hconsumed : a.assembled = true → a.deferred = []) : Settled (accepted ++ [change]) a where
  built := by
    rw [configurations, creations, filterMap_concat, filterMap_concat]
    exact hbuilt
  consumed := hconsumed

theorem Settled.change (h : Settled accepted a) {change : RouteChange}
    (hkeeps : (RouteOperation.contribute change).KeepsGroups) (hok : a.change change = .ok a') :
    Settled (accepted ++ [change]) a' := by
  -- first what the assembler holds, then that nothing waits once a table was made
  apply settled_concat
  · cases change with
    | addRoot r =>
      obtain ⟨-, rfl⟩ := addRoot_eq_ok_iff.mp hok
      simpa [RouteChange.configuration?, RouteChange.creation?, bare] using h.built
    | configure reference group origin =>
      obtain ⟨-, hcases⟩ := configure_cases hok
      simp only [RouteChange.configuration?, RouteChange.creation?, Option.toList_some,
        Option.toList_none, List.append_nil]
      rcases hcases with ⟨hin, rfl⟩ | ⟨hnew, rfl⟩
      · rw [← ids_bare] at hin
        rw [bare_edit (g := fun c => { c with group := c.group.overlay group }) (fun _ => rfl)]
        exact h.built.configure_created ⟨reference, group, origin⟩ hin
      · rw [← ids_bare] at hnew
        exact h.built.configure_new ⟨reference, group, origin⟩ hnew
    | create id owner parent group routes =>
      obtain ⟨-, hnew, rfl⟩ := create_cases (c := ⟨id, owner, parent, group, routes⟩) hok
      rw [← ids_bare] at hnew
      have hmade := h.built.create (Creation.bare ⟨id, owner, parent, group, routes⟩) hnew
      simp only [RouteChange.configuration?, RouteChange.creation?, Option.toList_some,
        Option.toList_none, List.append_nil, List.map_append, List.map_singleton]
      rw [bare, List.map_append]
      exact hmade
    | edit id f =>
      cases hok
      rw [bare_edit_of_keeps hkeeps]
      simpa [RouteChange.configuration?, RouteChange.creation?] using h.built
  · cases change with
    | addRoot r =>
      obtain ⟨hopen, rfl⟩ := addRoot_eq_ok_iff.mp hok
      exact fun hclosed => absurd (hopen.symm.trans hclosed) Bool.false_ne_true
    | configure reference group origin =>
      obtain ⟨hopen, hcases⟩ := configure_cases hok
      rcases hcases with ⟨-, rfl⟩ | ⟨-, rfl⟩ <;>
        exact fun hclosed => absurd (hopen.symm.trans hclosed) Bool.false_ne_true
    | create id owner parent group routes =>
      obtain ⟨hopen, -, rfl⟩ := create_cases (c := ⟨id, owner, parent, group, routes⟩) hok
      exact fun hclosed => absurd (hopen.symm.trans hclosed) Bool.false_ne_true
    | edit id f =>
      cases hok
      exact h.consumed

/-- an accepted operation -/
theorem Settled.perform (h : Settled accepted a) (hkeeps : op.KeepsGroups)
    (hok : a.perform op = .ok a') : Settled (accepted ++ op.contribution?.toList) a' := by
  cases op with
  | contribute change => exact h.change hkeeps hok
  | flatten order =>
    rw [RouteOperation.contribution?, Option.toList_none, List.append_nil]
    cases hflat : a.flatten order with
    | error e =>
      rw [RouteAssembler.perform, hflat] at hok
      cases hok
    | ok result =>
      rw [RouteAssembler.perform, hflat] at hok
      cases hok
      obtain ⟨-, hnone, -, -, -, hlast⟩ := flatten_eq_ok_iff.mp hflat
      rw [hlast]
      exact ⟨h.built, fun _ => hnone⟩

/-- operations one after the other -/
theorem Settled.trial (h : Settled accepted a) (hkeeps : ∀ op ∈ ops, op.KeepsGroups) :
    Settled (accepted ++ (a.trial ops).1) (a.trial ops).2 := by
  induction ops generalizing a accepted with
  | nil =>
    rw [RouteAssembler.trial, List.append_nil]
    exact h
  | cons op ops ih =>
    obtain ⟨hop, hops⟩ := List.forall_mem_cons.mp hkeeps
    rw [RouteAssembler.trial]
    cases hok : a.perform op with
    | ok next =>
      have hrest := ih (h.perform hop hok) hops
      rw [List.append_assoc] at hrest
      exact hrest
    | error e => exact ih h hops

/-! ## the result -/

/-- the collections are those that were created, each with everything that was configured for its id;
what was configured for other ids is pending and stops the table -/
structure AsConfigured (accepted : List RouteChange) (a : RouteAssembler) : Prop where
  ids : a.collections.map RouteCollection.id = (creations accepted).map Creation.id
  nodup : ((creations accepted).map Creation.id).Nodup
  layered : ∀ c ∈ a.collections, ∀ made ∈ creations accepted, made.id = c.id →
    made.group.Layered (groupsFor (configurations accepted) c.id) c.group
  pending : ∀ id, id ∈ a.pendingGroups ↔
    (∃ x ∈ configurations accepted, NamesGroup x.reference id) ∧
      id ∉ (creations accepted).map Creation.id
  pendingNodup : a.pendingGroups.Nodup
  refused : ∀ id ∈ a.pendingGroups.head?, ∃ origin,
    a.checkConsumed = .error (.unconsumedGroup id origin) ∧
      ∀ order, a.flatten order = .error (.unconsumedGroup id origin)

theorem Settled.ids (h : Settled accepted a) :
    a.collections.map RouteCollection.id = (creations accepted).map Creation.id := by
  rw [← ids_bare, h.built.ids, List.map_map]
  rfl

theorem Settled.layered (h : Settled accepted a) {c : RouteCollection} (hc : c ∈ a.collections)
    {made : Creation} (hmade : made ∈ creations accepted) (hid : made.id = c.id) :
    made.group.Layered (groupsFor (configurations accepted) c.id) c.group := by
  have hbare : c.bare ∈ a.bare.collections := List.mem_map_of_mem hc
  have hshaped : made.bare.collection (configurations accepted) ∈ a.bare.collections := by
    rw [h.built.collections]
    exact List.mem_map_of_mem (List.mem_map_of_mem hmade)
  have hsame : made.bare.collection (configurations accepted) = c.bare :=
    h.built.distinct.eq hshaped hbare hid
  have hgroup : c.group = overlaid made.group (layers (configurations accepted) made.id) :=
    (congrArg RouteCollection.group hsame).symm
  rw [hgroup, ← hid]
  exact layered_overlaid made.group (configurations accepted) made.id

theorem Settled.mem_pendingGroups_iff (h : Settled accepted a) : id ∈ a.pendingGroups ↔
    (∃ x ∈ configurations accepted, NamesGroup x.reference id) ∧
      id ∉ (creations accepted).map Creation.id := by
  have hwaiting := h.built.waiting id
  rw [ids_bare, h.ids] at hwaiting
  have hkeys : id ∈ a.pendingGroups ↔ a.bare.deferred.get? id ≠ none := by
    rw [ne_eq, OrderedMap.get?_eq_none_iff, Classical.not_not]
    rfl
  rw [hkeys, hwaiting, ne_eq, ite_eq_left_iff]
  simp only [reduceCtorEq, imp_false, not_not, not_or, layers_eq_nil_iff]
  exact And.comm

theorem Settled.refused (h : Settled accepted a) (hfirst : a.pendingGroups.head? = some id) :
    ∃ origin, a.checkConsumed = .error (.unconsumedGroup id origin) ∧
      ∀ order, a.flatten order = .error (.unconsumedGroup id origin) := by
  obtain ⟨entries, rest, hdeferred⟩ : ∃ entries rest, a.deferred = (id, entries) :: rest := by
    cases hd : a.deferred with
    | nil =>
      rw [pendingGroups, hd] at hfirst
      cases hfirst
    | cons p rest =>
      rw [pendingGroups, hd] at hfirst
      cases hfirst
      exact ⟨p.2, rest, rfl⟩
  have hcheck : a.checkConsumed =
      .error (.unconsumedGroup id (entries.head?.bind DeferredGroup.origin)) := by
    rw [checkConsumed, hdeferred]
  have hopen : a.ensureOpen = .ok () := by
    rw [ensureOpen_eq_ok_iff, ← Bool.not_eq_true]
    intro hclosed
    cases hdeferred.symm.trans (h.consumed hclosed)
  refine ⟨_, hcheck, fun order => ?_⟩
  rw [flatten, hopen, hcheck]
  rfl

/-- **A configuration counts whenever it comes.** Take any operations, one after the other, where
refused ones change nothing. Every collection has the group of its creation with all accepted
configurations of its id over it, in the order of the calls, whether they came before the creation or
after it. The ids that were configured and not created are pending, and then nothing is flattened. -/
theorem configured_at_any_time (hkeeps : ∀ op ∈ ops, op.KeepsGroups) :
    AsConfigured (empty.trial ops).1 (empty.trial ops).2 := by
  have h : Settled ([] ++ (empty.trial ops).1) (empty.trial ops).2 := settled_empty.trial hkeeps
  rw [List.nil_append] at h
  have hpending := h.built.deferred
  exact
    { ids := h.ids
      nodup := by
        have hdistinct := h.built.distinct
        rw [Distinct, ids_bare, h.ids] at hdistinct
        exact hdistinct
      layered := fun c hc made hmade hid => h.layered hc hmade hid
      pending := fun id => h.mem_pendingGroups_iff
      pendingNodup := hpending
      refused := fun id hfirst => h.refused hfirst }

/-- `admin` is configured before and after it is created, with and without the `@`; a second creation
and a table are refused, and `ghost` is never created -/
def scattered : List RouteOperation :=
  let args (name : String) : OrderedMap Value := [(name, .bool true), ("last", .str name)]
  [ .contribute (.configure "@admin" ⟨some "a", none, args "early"⟩ (some "security")),
    .contribute (.configure "@ghost" ⟨none, none, []⟩ (some "security")),
    .contribute (.create "admin" "core" none ⟨some "c", some "example.org", args "made"⟩ []),
    .flatten ["core"],
    .contribute (.create "admin" "web" none .empty []),
    .contribute (.edit "admin" fun c =>
      { c with routes := c.routes ++ [.forPath "login" (.literal .null)] }),
    .contribute (.configure "admin" ⟨some "b", none, args "late"⟩ none) ]

theorem scattered_configured :
    AsConfigured (empty.trial scattered).1 (empty.trial scattered).2 ∧
      ((empty.trial scattered).2.collections.map RouteCollection.group) =
        [⟨some "b", some "example.org",
          [("made", .bool true), ("last", .str "late"), ("early", .bool true),
            ("late", .bool true)]⟩] ∧
      (empty.trial scattered).2.pendingGroups = ["ghost"] := by
  refine ⟨configured_at_any_time ?_, by decide, by decide⟩
  intro op hop
  simp only [scattered, List.mem_cons, List.not_mem_nil, or_false] at hop
  rcases hop with rfl | rfl | rfl | rfl | rfl | rfl | rfl
  all_goals first
    | trivial
    | exact fun c => ⟨rfl, rfl⟩

end RouteAssembler
end ServiceGraph
