import Mathlib.Data.List.Induction
import Mathlib.Data.List.Nodup
import ServiceGraph.Registry.Change

/-!
# What contributions make

After contributions that were accepted, the assembler holds what can be read off the calls: root
routes and collections in the order of their calls, and over each collection every configuration of
its id, whether this came before or after the collection. What was configured and not created waits.

* `Configuration`, `Creation`: the calls; `addedRoots`, `configurations`, `creations` pick them out;
* `layers configured id`: what was configured for an id, in order;
* `Creation.collection`: the collection that a call makes in the end;
* `RouteAssembler.distinct_of_run`: no id comes twice;
* `RouteAssembler.Built`: an assembler holds what such calls make, and `BuiltBy ops` those of a list;
* `RouteAssembler.BuiltBy.change`: one more call;
* `RouteAssembler.builtBy_of_run`: all of them;
* `RouteAssembler.Built.deferred_eq_nil_iff`: when nothing waits.
-/

namespace ServiceGraph

/-- a call that configures a collection -/
structure Configuration where
  reference : String
  group : RouteGroup
  origin : Option String
deriving DecidableEq

/-- a call that creates a collection with its first routes -/
structure Creation where
  id : String
  owner : String
  parent : Option String
  group : RouteGroup
  routes : List Route
deriving DecidableEq

namespace RouteChange

def root? : RouteChange → Option Route
  | addRoot r => some r
  | _ => none

def configuration? : RouteChange → Option Configuration
  | configure reference group origin => some ⟨reference, group, origin⟩
  | _ => none

def creation? : RouteChange → Option Creation
  | create id owner parent group routes => some ⟨id, owner, parent, group, routes⟩
  | _ => none

abbrev ofCreation (c : Creation) : RouteChange := create c.id c.owner c.parent c.group c.routes

/-- what the call does to collections leaves their ids -/
def KeepsIds : RouteChange → Prop
  | edit _ f => ∀ c, (f c).id = c.id
  | _ => True

/-- the call adds to what is there, and changes no collection by hand -/
def Adds : RouteChange → Prop
  | edit _ _ => False
  | _ => True

end RouteChange

variable {ops : List RouteChange} {id reference : String} {group : RouteGroup}
  {origin : Option String}

def addedRoots (ops : List RouteChange) : List Route := ops.filterMap RouteChange.root?

def configurations (ops : List RouteChange) : List Configuration :=
  ops.filterMap RouteChange.configuration?

def creations (ops : List RouteChange) : List Creation := ops.filterMap RouteChange.creation?

theorem filterMap_concat {α β : Type} (f : α → Option β) (l : List α) (x : α) :
    (l ++ [x]).filterMap f = l.filterMap f ++ (f x).toList := by
  rw [List.filterMap_append]
  cases h : f x with
  | none => simp [h]
  | some y => simp [h]

/-- what was configured for an id, in order -/
def layers (configured : List Configuration) (id : String) : List DeferredGroup :=
  (configured.filter (groupId ·.reference = id)).map fun c => ⟨c.group, c.origin⟩

theorem layers_concat (configured : List Configuration) (c : Configuration) (id : String) :
    layers (configured ++ [c]) id =
      if groupId c.reference = id then layers configured id ++ [⟨c.group, c.origin⟩]
      else layers configured id := by
  unfold layers
  rw [List.filter_append, List.map_append]
  by_cases h : groupId c.reference = id
  · simp [h]
  · simp [h]

/-- one group laid over another, and so on -/
def overlaid (group : RouteGroup) (waiting : List DeferredGroup) : RouteGroup :=
  waiting.foldl (fun g d => g.overlay d.group) group

theorem overlaid_concat (group : RouteGroup) (waiting : List DeferredGroup) (d : DeferredGroup) :
    overlaid group (waiting ++ [d]) = (overlaid group waiting).overlay d.group := by
  rw [overlaid, List.foldl_append]
  rfl

/-- the collection that a call makes, with everything that is configured for its id -/
def Creation.collection (configured : List Configuration) (c : Creation) : RouteCollection :=
  ⟨c.id, c.owner, c.parent, overlaid c.group (layers configured c.id), c.routes⟩

theorem Creation.collection_concat (configured : List Configuration) (x : Configuration)
    (c : Creation) :
    c.collection (configured ++ [x]) =
      if (c.collection configured).id = groupId x.reference then
        { c.collection configured with group := (c.collection configured).group.overlay x.group }
      else c.collection configured := by
  unfold collection
  rw [layers_concat]
  by_cases h : c.id = groupId x.reference
  · rw [if_pos h, if_pos h.symm, overlaid_concat]
  · rw [if_neg h, if_neg (Ne.symm h)]

namespace RouteAssembler

variable {a a' : RouteAssembler} {op : RouteChange}

/-! ## accepted calls -/

theorem collection?_eq_none_iff :
    a.collection? id = none ↔ id ∉ a.collections.map RouteCollection.id := by
  rw [collection?, List.find?_eq_none, List.mem_map]
  simp

theorem addRoot_eq_ok_iff {r : Route} :
    a.addRoot r = .ok a' ↔ a.assembled = false ∧ a' = { a with roots := a.roots ++ [r] } := by
  rw [addRoot, AssemblyError.check_eq_ok_iff, ensureOpen_eq_ok_iff]
  exact and_congr_right fun _ => ⟨fun h => (Except.ok.inj h).symm, fun h => h ▸ rfl⟩

theorem configure_cases (h : a.configure reference group origin = .ok a') :
    a.assembled = false ∧
    (groupId reference ∈ a.collections.map RouteCollection.id ∧
        a' = a.edit (groupId reference) (fun c => { c with group := c.group.overlay group }) ∨
      groupId reference ∉ a.collections.map RouteCollection.id ∧
        a' = { a with
          deferred := a.deferred.insert (groupId reference)
            ((a.deferred.get? (groupId reference)).getD [] ++ [⟨group, origin⟩]) }) := by
  rw [configure, AssemblyError.check_eq_ok_iff, ensureOpen_eq_ok_iff] at h
  obtain ⟨hopen, h⟩ := h
  refine ⟨hopen, ?_⟩
  dsimp only at h
  cases hc : a.collection? (groupId reference) with
  | some c =>
    rw [hc] at h
    cases h
    refine .inl ⟨?_, rfl⟩
    by_contra hnot
    cases hc.symm.trans (collection?_eq_none_iff.mpr hnot)
  | none =>
    rw [hc] at h
    cases h
    exact .inr ⟨collection?_eq_none_iff.mp hc, rfl⟩

theorem edit_of_not_mem (h : id ∉ a.collections.map RouteCollection.id)
    (f : RouteCollection → RouteCollection) : a.edit id f = a := by
  have hsame : a.collections.map (fun c => if c.id = id then f c else c) = a.collections := by
    conv_rhs => rw [← List.map_id a.collections]
    apply List.map_congr_left
    intro c hc
    have hne : c.id ≠ id := fun heq => h (heq ▸ List.mem_map_of_mem hc)
    rw [if_neg hne, id_eq]
  rw [edit, hsame]

theorem create_cases {c : Creation}
    (h : a.change (.ofCreation c) = .ok a') :
    a.assembled = false ∧ c.id ∉ a.collections.map RouteCollection.id ∧
    a' = { a with
      collections := a.collections ++ [⟨c.id, c.owner, c.parent,
        overlaid c.group ((a.deferred.get? c.id).getD []), c.routes⟩]
      deferred := a.deferred.erase c.id } := by
  rw [change, AssemblyError.bind_eq_ok_iff] at h
  obtain ⟨made, hmade, h⟩ := h
  rw [create, AssemblyError.check_eq_ok_iff, ensureOpen_eq_ok_iff] at hmade
  obtain ⟨hopen, hmade⟩ := hmade
  cases hc : a.collection? c.id with
  | some old =>
    rw [hc] at hmade
    cases hmade
  | none =>
    rw [hc] at hmade
    cases hmade
    cases h
    have hnew := collection?_eq_none_iff.mp hc
    refine ⟨hopen, hnew, ?_⟩
    have hothers := congrArg RouteAssembler.collections
      (edit_of_not_mem hnew fun old => { old with routes := old.routes ++ c.routes })
    simp only [edit] at hothers
    simp only [edit, List.map_append, hothers]
    simp [overlaid]

/-! ## ids stay distinct -/

theorem ids_edit {f : RouteCollection → RouteCollection} (hf : ∀ c, (f c).id = c.id)
    (a : RouteAssembler) (id : String) :
    (a.edit id f).collections.map RouteCollection.id = a.collections.map RouteCollection.id := by
  rw [edit, List.map_map]
  apply List.map_congr_left
  intro c _
  show (if c.id = id then f c else c).id = c.id
  split
  · exact hf c
  · rfl

theorem Distinct.edit {f : RouteCollection → RouteCollection} (h : a.Distinct)
    (hf : ∀ c, (f c).id = c.id) (id : String) : (a.edit id f).Distinct := by
  rw [Distinct, ids_edit hf]
  exact h

theorem Distinct.nodup_concat {c : RouteCollection} (h : a.Distinct)
    (hnew : c.id ∉ a.collections.map RouteCollection.id) :
    ((a.collections ++ [c]).map RouteCollection.id).Nodup := by
  rw [List.map_append, List.map_singleton]
  refine List.nodup_append.mpr ⟨h, List.nodup_singleton _, fun x hx y hy heq => hnew ?_⟩
  rw [← List.mem_singleton.mp hy, ← heq]
  exact hx

/-- an accepted call keeps the ids of collections distinct -/
theorem Distinct.change (h : a.Distinct) (hkeeps : op.KeepsIds) (hok : a.change op = .ok a') :
    a'.Distinct := by
  cases op with
  | addRoot r =>
    obtain ⟨-, rfl⟩ := addRoot_eq_ok_iff.mp hok
    exact h
  | configure reference group origin =>
    obtain ⟨-, hcases⟩ := configure_cases hok
    rcases hcases with ⟨-, rfl⟩ | ⟨-, rfl⟩
    · refine h.edit (fun c => ?_) _
      rfl
    · exact h
  | create id owner parent group routes =>
    obtain ⟨-, hnew, rfl⟩ := create_cases (c := ⟨id, owner, parent, group, routes⟩) hok
    exact h.nodup_concat hnew
  | edit id f =>
    cases hok
    exact h.edit hkeeps id

/-- the assembler after calls that are all accepted -/
def run (ops : List RouteChange) : Except AssemblyError RouteAssembler :=
  ops.foldlM change .empty

theorem run_concat_eq_ok_iff :
    run (ops ++ [op]) = .ok a ↔ ∃ b, run ops = .ok b ∧ b.change op = .ok a := by
  rw [run, List.foldlM_append, AssemblyError.bind_eq_ok_iff]
  refine exists_congr fun b => and_congr_right fun _ => ?_
  rw [List.foldlM_cons]
  cases b.change op with
  | error e => exact ⟨nofun, nofun⟩
  | ok last => exact Iff.rfl

theorem distinct_of_run (hkeeps : ∀ op ∈ ops, op.KeepsIds) (hok : run ops = .ok a) :
    a.Distinct := by
  induction ops using List.reverseRecOn generalizing a with
  | nil =>
    cases hok
    exact List.nodup_nil
  | append_singleton ops op ih =>
    obtain ⟨b, hb, hlast⟩ := run_concat_eq_ok_iff.mp hok
    obtain ⟨hops, hop⟩ := List.forall_mem_append.mp hkeeps
    exact (ih hops hb).change (hop op (List.mem_singleton_self op)) hlast

/-! ## what the calls make -/

/-- the assembler is open and holds these routes, and the collections that these creations make under
these configurations; what was configured for an id that was not created waits -/
structure Built (roots : List Route) (configured : List Configuration) (created : List Creation)
    (a : RouteAssembler) : Prop where
  isOpen : a.assembled = false
  roots : a.roots = roots
  collections : a.collections = created.map (Creation.collection configured)
  distinct : a.Distinct
  deferred : a.deferred.Distinct
  waiting : ∀ id, a.deferred.get? id =
    if id ∈ a.collections.map RouteCollection.id ∨ layers configured id = [] then none
    else some (layers configured id)

theorem built_empty : Built [] [] [] .empty where
  isOpen := rfl
  roots := rfl
  collections := rfl
  distinct := List.nodup_nil
  deferred := List.nodup_nil
  waiting _ := (if_pos (.inr rfl)).symm

section

variable {roots : List Route} {configured : List Configuration} {created : List Creation}

theorem Built.getD_waiting (h : Built roots configured created a)
    (hnew : id ∉ a.collections.map RouteCollection.id) :
    (a.deferred.get? id).getD [] = layers configured id := by
  rw [h.waiting]
  by_cases hnone : layers configured id = []
  · rw [if_pos (.inr hnone), hnone]
    rfl
  · rw [if_neg (not_or.mpr ⟨hnew, hnone⟩), Option.getD_some]

theorem Built.ids (h : Built roots configured created a) :
    a.collections.map RouteCollection.id = created.map Creation.id := by
  rw [h.collections, List.map_map]
  rfl

theorem Built.addRoot (h : Built roots configured created a) (r : Route) :
    Built (roots ++ [r]) configured created { a with roots := a.roots ++ [r] } where
  isOpen := h.isOpen
  roots := congrArg (· ++ [r]) h.roots
  collections := h.collections
  distinct := h.distinct
  deferred := h.deferred
  waiting := h.waiting

theorem Built.configure_created (h : Built roots configured created a) (x : Configuration)
    (hin : groupId x.reference ∈ a.collections.map RouteCollection.id) :
    Built roots (configured ++ [x]) created
      (a.edit (groupId x.reference) fun c => { c with group := c.group.overlay x.group }) where
  isOpen := h.isOpen
  roots := h.roots
  collections := by
    rw [edit, h.collections, List.map_map]
    apply List.map_congr_left
    intro c _
    rw [Creation.collection_concat]
    rfl
  distinct := by
    refine h.distinct.edit (fun c => ?_) _
    rfl
  deferred := h.deferred
  waiting id := by
    have hids := ids_edit (f := fun c => { c with group := c.group.overlay x.group })
      (fun _ => rfl) a (groupId x.reference)
    rw [hids, layers_concat]
    show a.deferred.get? id = _
    rw [h.waiting]
    by_cases heq : groupId x.reference = id
    · have hin : id ∈ a.collections.map RouteCollection.id := heq ▸ hin
      rw [if_pos (.inl hin), if_pos (.inl hin)]
    · rw [if_neg heq]

theorem Built.configure_new (h : Built roots configured created a) (x : Configuration)
    (hnew : groupId x.reference ∉ a.collections.map RouteCollection.id) :
    Built roots (configured ++ [x]) created
      { a with
        deferred := a.deferred.insert (groupId x.reference)
          ((a.deferred.get? (groupId x.reference)).getD [] ++ [⟨x.group, x.origin⟩]) } where
  isOpen := h.isOpen
  roots := h.roots
  collections := by
    rw [h.collections]
    apply List.map_congr_left
    intro c hc
    have hne : c.id ≠ groupId x.reference := by
      intro heq
      rw [h.ids] at hnew
      exact hnew (heq ▸ List.mem_map_of_mem hc)
    rw [Creation.collection_concat]
    exact (if_neg hne).symm
  distinct := h.distinct
  deferred := h.deferred.insert _ _
  waiting id := by
    rw [h.getD_waiting hnew, OrderedMap.get?_insert, layers_concat]
    by_cases heq : groupId x.reference = id
    · subst heq
      have hsome : ¬ (groupId x.reference ∈ a.collections.map RouteCollection.id ∨
          layers configured (groupId x.reference) ++ [⟨x.group, x.origin⟩] = []) := by
        simpa using hnew
      rw [if_pos rfl, if_pos rfl, if_neg hsome]
    · rw [if_neg heq, if_neg heq]
      exact h.waiting id

theorem Built.create (h : Built roots configured created a) (c : Creation)
    (hnew : c.id ∉ a.collections.map RouteCollection.id) :
    Built roots configured (created ++ [c])
      { a with
        collections := a.collections ++ [⟨c.id, c.owner, c.parent,
          overlaid c.group ((a.deferred.get? c.id).getD []), c.routes⟩]
        deferred := a.deferred.erase c.id } where
  isOpen := h.isOpen
  roots := h.roots
  collections := by
    rw [h.getD_waiting hnew, List.map_append, ← h.collections]
    rfl
  distinct := h.distinct.nodup_concat hnew
  deferred := h.deferred.erase _
  waiting id := by
    rw [h.deferred.get?_erase]
    simp only [List.map_append, List.map_singleton, List.mem_append, List.mem_singleton]
    by_cases heq : c.id = id
    · rw [if_pos heq, if_pos (.inl (.inr heq.symm))]
    · rw [if_neg heq, h.waiting id]
      simp only [Ne.symm heq, or_false]

/-- nothing waits when every id that is configured is created -/
theorem Built.deferred_eq_nil_iff (h : Built roots configured created a) : a.deferred = [] ↔
    ∀ c ∈ configured, groupId c.reference ∈ a.collections.map RouteCollection.id := by
  have hlayers : ∀ id, layers configured id = [] ↔
      ∀ c ∈ configured, groupId c.reference ≠ id := by
    intro id
    rw [layers, List.map_eq_nil_iff, List.filter_eq_nil_iff]
    simp only [decide_eq_true_eq, ne_eq]
  rw [OrderedMap.eq_nil_iff_get?]
  constructor
  · intro hnone c hc
    have hthis := hnone (groupId c.reference)
    rw [h.waiting] at hthis
    by_contra hnot
    have hsome : layers configured (groupId c.reference) ≠ [] :=
      fun hnil => (hlayers _).mp hnil c hc rfl
    rw [if_neg (not_or.mpr ⟨hnot, hsome⟩)] at hthis
    cases hthis
  · intro hall id
    rw [h.waiting]
    apply if_pos
    by_cases hin : id ∈ a.collections.map RouteCollection.id
    · exact .inl hin
    · exact .inr ((hlayers id).mpr fun c hc heq => hin (heq ▸ hall c hc))

end

abbrev BuiltBy (ops : List RouteChange) : RouteAssembler → Prop :=
  Built (addedRoots ops) (configurations ops) (creations ops)

theorem builtBy_concat_iff : BuiltBy (ops ++ [op]) a ↔
    Built (addedRoots ops ++ op.root?.toList) (configurations ops ++ op.configuration?.toList)
      (creations ops ++ op.creation?.toList) a := by
  rw [BuiltBy, addedRoots, configurations, creations, filterMap_concat, filterMap_concat,
    filterMap_concat, addedRoots, configurations, creations]

/-- one more call that adds something and is accepted -/
theorem BuiltBy.change (h : BuiltBy ops a) (hadds : op.Adds) (hok : a.change op = .ok a') :
    BuiltBy (ops ++ [op]) a' := by
  rw [builtBy_concat_iff]
  cases op with
  | addRoot r =>
    obtain ⟨-, rfl⟩ := addRoot_eq_ok_iff.mp hok
    show Built (addedRoots ops ++ [r]) (configurations ops ++ []) (creations ops ++ []) _
    rw [List.append_nil, List.append_nil]
    exact h.addRoot r
  | configure reference group origin =>
    obtain ⟨-, hcases⟩ := configure_cases hok
    show Built (addedRoots ops ++ []) (configurations ops ++ [⟨reference, group, origin⟩])
      (creations ops ++ []) _
    rw [List.append_nil, List.append_nil]
    rcases hcases with ⟨hin, rfl⟩ | ⟨hnew, rfl⟩
    · exact h.configure_created ⟨reference, group, origin⟩ hin
    · exact h.configure_new ⟨reference, group, origin⟩ hnew
  | create id owner parent group routes =>
    obtain ⟨-, hnew, rfl⟩ := create_cases (c := ⟨id, owner, parent, group, routes⟩) hok
    show Built (addedRoots ops ++ []) (configurations ops ++ [])
      (creations ops ++ [⟨id, owner, parent, group, routes⟩]) _
    rw [List.append_nil, List.append_nil]
    exact h.create ⟨id, owner, parent, group, routes⟩ hnew
  | edit id f => exact hadds.elim

theorem builtBy_of_run (hadds : ∀ op ∈ ops, op.Adds) (hok : run ops = .ok a) : BuiltBy ops a := by
  induction ops using List.reverseRecOn generalizing a with
  | nil =>
    cases hok
    exact built_empty
  | append_singleton ops op ih =>
    obtain ⟨b, hb, hlast⟩ := run_concat_eq_ok_iff.mp hok
    obtain ⟨hops, hop⟩ := List.forall_mem_append.mp hadds
    exact (ih hops hb).change (hop op (List.mem_singleton_self op)) hlast

end RouteAssembler
end ServiceGraph
