import ServiceGraph.Proofs.Outcomes
import ServiceGraph.Proofs.Source.Order
import ServiceGraph.Proofs.Source.Outline
import ServiceGraph.Proofs.Source.Wired

/-!
# What the module of a registry consists of

* `Compile.Emits`: the method of a definition, which calls methods of definitions only;
* `Compile.Emitted`: the parts of a module and where in the registry they come from;
* `Compile.emitted_of_moduleOf`: a module of a registry has these parts;
* `Compile.Emitted.named`: everything in it is named as it has to be to be read back.
-/

namespace ServiceGraph

namespace Term

mutual

/-- the term of a value without live objects calls nothing -/
theorem calls_static {key : String} {v : Value} {t : Term} (h : static key v = .ok t) :
    t.calls = [] := by
  cases v with
  | null | bool _ | int _ | float _ | str _ =>
    cases h
    rfl
  | list items =>
    rw [static] at h
    obtain ⟨ts, hts, h⟩ := Except.bind_eq_ok h
    cases h
    exact callsOf_staticItems hts
  | map entries =>
    rw [static] at h
    obtain ⟨es, hes, h⟩ := Except.bind_eq_ok h
    cases h
    exact callsOf_staticEntries hes
  | service id => cases h

theorem callsOf_staticItems {key : String} {vs : List Value} {ts : List Term}
    (h : staticItems key vs = .ok ts) : callsOf ts = [] := by
  cases vs with
  | nil =>
    cases h
    rfl
  | cons v vs =>
    rw [staticItems] at h
    obtain ⟨t, ht, h⟩ := Except.bind_eq_ok h
    obtain ⟨ts', hts', h⟩ := Except.bind_eq_ok h
    cases h
    rw [callsOf, calls_static ht, callsOf_staticItems hts']
    rfl

theorem callsOf_staticEntries {key : String} {vs : List (String × Value)}
    {es : List (String × Term)} (h : staticEntries key vs = .ok es) : callsOfEntries es = [] := by
  cases vs with
  | nil =>
    cases h
    rfl
  | cons e vs =>
    obtain ⟨k, v⟩ := e
    rw [staticEntries] at h
    obtain ⟨t, ht, h⟩ := Except.bind_eq_ok h
    obtain ⟨es', hes', h⟩ := Except.bind_eq_ok h
    cases h
    rw [callsOfEntries, calls_static ht, callsOf_staticEntries hes']
    rfl

end

end Term

namespace Compile

variable {σ : Type}

/-- the method of a definition -/
structure Emits (ctx : Context) (d : Definition) (m : SourceMethod) : Prop where
  name : ctx.methods.get? d.id = some m.name
  id : m.id = d.id
  shared : m.shared = d.shared
  isPublic : m.isPublic = d.isPublic
  calls : ∀ name ∈ m.calls, ∃ id, ctx.methods.get? id = some name

/-- the parts of the module of a registry -/
structure Emitted (r : Registry) (ctx : Context) (options : SourceOptions) (m : SourceModule) :
    Prop where
  frozen : r.frozen = true
  options : m.options = options
  table : Compile.table r.parameters = .ok m.table
  methods : List.Forall₂ (Emits ctx) r.definitions m.methods
  tags : tagArms (r.definitions.filter (·.isPublic)) = .ok m.tags
  types : m.types = typeGroups (r.definitions.filter (·.isPublic))

/-! ## methods -/

section
variable {ctx : Context} (hobject : ∀ id t, ctx.object id = some t → t.calls = [])
include hobject

/-- the terms of nodes call methods of definitions -/
theorem exists_of_mem_callsOf {service : String} {ns : List Node} {ts : List Term}
    (h : nodes ctx service ns = some (.ok ts)) :
    ∀ name ∈ Term.callsOf ts, ∃ id, ctx.methods.get? id = some name := by
  have hall := callsOf_nodes (fun _ => rfl) hobject h ns.length
  rw [← nodes_length h, List.take_length] at hall
  exact fun name hname => (List.forall₂_iff_get.mp hall).elim fun hlen hget => by
    obtain ⟨i, rfl⟩ := List.mem_iff_get.mp hname
    exact ⟨_, hget i i.2 (hlen ▸ i.2)⟩

theorem exists_of_mem_setup {service : String} {calls : List MethodCall}
    {ts : List (String × List Term)} (h : setup ctx service calls = some (.ok ts)) :
    ∀ name ∈ ts.flatMap fun call => Term.callsOf call.2, ∃ id, ctx.methods.get? id = some name := by
  induction calls generalizing ts with
  | nil =>
    cases h
    exact fun name hname => nomatch hname
  | cons call calls ih =>
    obtain ⟨us, ts', hus, hts', rfl⟩ := setup_cons h
    intro name hname
    rw [List.flatMap_cons, List.mem_append] at hname
    rcases hname with hname | hname
    · exact exists_of_mem_callsOf hobject hus name hname
    · exact ih hts' name hname

theorem emits_of_method {d : Definition} {m : SourceMethod} {name : String}
    (hname : ctx.methods.get? d.id = some name) (h : method ctx d = some (.ok m)) :
    Emits ctx d m := by
  rw [method] at h
  obtain ⟨t, ht, h⟩ := Compiling.bind_eq_ok h
  obtain ⟨ts, hts, h⟩ := Compiling.bind_eq_ok h
  cases h
  refine ⟨?_, rfl, rfl, rfl, fun name hname => ?_⟩
  · rw [hname]
    rfl
  · have hroot : nodes ctx d.id [d.root] = some (.ok [t]) := by
      rw [nodes, ht]
      rfl
    rcases List.mem_append.mp hname with hname | hname
    · refine exists_of_mem_callsOf hobject hroot name ?_
      rw [Term.callsOf, Term.callsOf, List.append_nil]
      exact hname
    · exact exists_of_mem_setup hobject hts name hname

end

theorem forall₂_of_mapM {α β : Type} {f : α → Compiling β} {l : List α} {ys : List β}
    (h : l.mapM f = some (.ok ys)) : List.Forall₂ (fun a b => f a = some (.ok b)) l ys := by
  induction l generalizing ys with
  | nil =>
    cases h
    exact .nil
  | cons x l ih =>
    rw [List.mapM_cons] at h
    obtain ⟨b, hb, h⟩ := Compiling.bind_eq_ok h
    obtain ⟨bs, hbs, h⟩ := Compiling.bind_eq_ok h
    cases h
    exact .cons hb (ih hbs)

theorem eq_ok_of_ofExcept {α : Type} {x : Except CompileError α} {a : α}
    (h : ofExcept x = some (.ok a)) : x = .ok a := Option.some.inj h

/-! ## tables -/

theorem static_eq_ok {key : String} {v : Value} {t : Term} (h : static key v = .ok t) :
    Term.static key v = .ok t := by
  rw [static] at h
  cases hstatic : Term.static key v with
  | ok u =>
    rw [hstatic] at h
    exact congrArg Except.ok (Except.ok.inj h)
  | error e =>
    rw [hstatic] at h
    cases h

/-- the terms of the parameters call nothing -/
theorem callsOfEntries_table {p : Parameters} {es : List (String × Term)}
    (h : table p = .ok es) : Term.callsOfEntries es = [] := by
  rw [table, Except.mapM_eq_ok_iff] at h
  generalize p.tree = tree at h
  induction h with
  | nil => rfl
  | @cons e e' _ es he _ ih =>
    obtain ⟨t, ht, he⟩ := Except.bind_eq_ok he
    cases he
    rw [Term.callsOfEntries, Term.calls_static (static_eq_ok ht), ih]
    rfl

/-- an arm that answers for a tag, from the public definitions that carry it -/
def TagArm (g : String × List (String × Value)) (a : String × List (String × Term)) : Prop :=
  a.1 = g.1 ∧ List.Forall₂ (fun entry entry' =>
    entry'.1 = entry.1 ∧ Term.static g.1 entry.2 = .ok entry'.2) g.2 a.2

theorem tagArms_eq_ok {ds : List Definition} {as : List (String × List (String × Term))}
    (h : tagArms ds = .ok as) : List.Forall₂ TagArm (tagGroups ds) as := by
  rw [tagArms, Except.mapM_eq_ok_iff] at h
  refine h.imp fun g a hga => ?_
  obtain ⟨entries, hentries, ha⟩ := Except.bind_eq_ok hga
  cases ha
  rw [Except.mapM_eq_ok_iff] at hentries
  refine ⟨rfl, hentries.imp fun entry entry' hentry => ?_⟩
  obtain ⟨t, ht, hentry⟩ := Except.bind_eq_ok hentry
  cases hentry
  exact ⟨rfl, static_eq_ok ht⟩

theorem TagArm.calls {g : String × List (String × Value)} {a : String × List (String × Term)}
    (h : TagArm g a) : ∀ entry ∈ a.2, entry.2.calls = [] :=
  forall_mem_of_forall₂ h.2 fun _ _ hentry => Term.calls_static hentry.2

/-! ## the module -/

variable {r : Registry} {cs : Option (Constructors σ)} {services : Services σ} {h : Heap σ}
  {options : SourceOptions} {m : SourceModule}

theorem emitted_of_moduleOf (hm : moduleOf r cs services h options = some (.ok m)) :
    Emitted r (context r cs services h) options m := by
  unfold moduleOf at hm
  by_cases hr : r.frozen = true
  · rw [if_pos hr] at hm
    obtain ⟨table, htable, hm⟩ := Compiling.bind_eq_ok hm
    obtain ⟨methods, hmethods, hm⟩ := Compiling.bind_eq_ok hm
    obtain ⟨tags, htags, hm⟩ := Compiling.bind_eq_ok hm
    cases hm
    refine ⟨hr, rfl, eq_ok_of_ofExcept htable, ?_, eq_ok_of_ofExcept htags, rfl⟩
    refine (List.forall₂_iff_get.mp (forall₂_of_mapM hmethods)).elim fun hlen hget => ?_
    refine List.forall₂_iff_get.mpr ⟨hlen, fun i hi hi' => ?_⟩
    have hid : (r.definitions.get ⟨i, hi⟩).id ∈ r.ids :=
      List.mem_map_of_mem (List.get_mem _ _)
    obtain ⟨name, hname⟩ := Option.isSome_iff_exists.mp ((methodNames_isSome r.ids _).mpr hid)
    exact emits_of_method (fun id t ht => Term.calls_unfold services h _ id ht) hname
      (hget i hi hi')
  · rw [if_neg hr] at hm
    cases hm

theorem Emits.named {d : Definition} {sm : SourceMethod}
    (h : Emits (context r cs services h) d sm) : sm.Named where
  name := methodName_of_get? h.name
  calls name hname := by
    obtain ⟨id, hid⟩ := h.calls name hname
    exact methodName_of_get? hid

/-- a module of a registry can be read back -/
theorem Emitted.named (he : Emitted r (context r cs services h) options m)
    (hoptions : options.Legible) : m.Named where
  options := he.options ▸ hoptions
  methods := forall_mem_of_forall₂ he.methods fun _ _ hd => hd.named
  table := callsOfEntries_table he.table
  tags := forall_mem_of_forall₂ (tagArms_eq_ok he.tags) fun _ _ ha => ha.calls

end Compile
end ServiceGraph
