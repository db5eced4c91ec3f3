import ServiceGraph.Node.Substitution
import ServiceGraph.Proofs.Container.Frame
import ServiceGraph.Routes.Table

/-!
# The live router of a table

Evaluating the node of a table makes an empty route collection and adds one route after the other. While the
handlers are evaluated nothing refers to the collection, so they come out as if it stayed empty.

* `RouteTable.served`, `RouteTable.handlerFor`: the entries of the collection, and the handler that the table
  itself gives for a method and a path;
* `RouteTable.substitute_toNode`: putting parameters into the node of a table whose strings hold no percent
  sign puts them into the handlers;
* `Container.evaluateCalls_routes`: the calls of the node, by induction over the routes;
* `Container.value_toNode`: the node as a whole.
-/

set_option linter.unusedSectionVars false

namespace ServiceGraph

variable {σ : Type} {p : Parameters}

/-! ## strings without percent signs -/

namespace Value

mutual

/-- no string inside holds a percent sign; keys do not count -/
def unmarked : Value → Bool
  | str s => !s.toList.contains '%'
  | list items => unmarkedItems items
  | map entries => unmarkedEntries entries
  | _ => true

def unmarkedItems : List Value → Bool
  | [] => true
  | v :: vs => unmarked v && unmarkedItems vs

/-- no string in the values of a list of entries holds a percent sign -/
def unmarkedEntries : List (String × Value) → Bool
  | [] => true
  | (_, v) :: vs => unmarked v && unmarkedEntries vs

end

mutual

theorem expand_of_unmarked {v : Value} (h : v.unmarked = true) : p.expand v = .ok v := by
  cases v with
  | str s =>
    have hs : s.toList.contains '%' = false := by simpa [unmarked] using h
    rw [Parameters.expand, expandWith, hs]
    rfl
  | list items =>
    rw [Parameters.expand, expandWith, expandItems_of_unmarked h]
    rfl
  | map entries =>
    rw [Parameters.expand, expandWith, expandEntries_of_unmarked h]
    rfl
  | null | bool _ | int _ | float _ | service _ => rfl

theorem expandItems_of_unmarked {vs : List Value} (h : unmarkedItems vs = true) :
    expandItems p.find vs = .ok vs := by
  cases vs with
  | nil => rfl
  | cons v vs =>
    obtain ⟨hv, hvs⟩ := (Bool.and_eq_true _ _).mp h
    have hfirst : v.expandWith p.find = .ok v := expand_of_unmarked hv
    rw [expandItems, hfirst, expandItems_of_unmarked hvs]
    rfl

theorem expandEntries_of_unmarked {es : List (String × Value)} (h : unmarkedEntries es = true) :
    expandEntries p.find es = .ok es := by
  cases es with
  | nil => rfl
  | cons e es =>
    obtain ⟨k, v⟩ := e
    obtain ⟨hv, hes⟩ := (Bool.and_eq_true _ _).mp h
    have hfirst : v.expandWith p.find = .ok v := expand_of_unmarked hv
    rw [expandEntries, hfirst, expandEntries_of_unmarked hes]
    rfl

end

theorem unmarkedItems_map_str {ss : List String} (h : ∀ s ∈ ss, '%' ∉ s.toList) :
    unmarkedItems (ss.map str) = true := by
  induction ss with
  | nil => rfl
  | cons s ss ih =>
    obtain ⟨hs, hss⟩ := List.forall_mem_cons.mp h
    have hfirst : (str s).unmarked = true := by simpa [unmarked] using hs
    rw [List.map_cons, unmarkedItems, hfirst, ih hss]
    rfl

end Value

/-! ## routes and their entries -/

namespace ResolvedRoute

/-- the entry of a live route collection for the route, given its handler -/
def entry (r : ResolvedRoute) (handler : Value) : LiveRoute :=
  ⟨r.methods, r.path, handler, r.defaults, r.domain⟩

/-- the route has this path, and no methods or this one among them, the case of ASCII letters aside -/
def answers (r : ResolvedRoute) (method path : String) : Bool :=
  r.path == path && (r.methods.isEmpty || r.methods.any (LiveRoute.sameLetters · method))

def withHandler (r : ResolvedRoute) (handler : Node) : ResolvedRoute := { r with handler }

/-- none of the route's own strings holds a percent sign -/
structure Unmarked (r : ResolvedRoute) : Prop where
  methods : ∀ m ∈ r.methods, '%' ∉ m.toList
  path : '%' ∉ r.path.toList
  domain : ∀ d, r.domain = some d → '%' ∉ d.toList
  defaults : (Value.map r.defaults).unmarked = true

end ResolvedRoute

theorem LiveRoute.ofArgs_toArgs (r : LiveRoute) : ofArgs r.toArgs = .ok r := by
  have hmethods : (r.methods.map Value.str).filterMap Value.text? = r.methods := by
    rw [List.filterMap_map]
    exact List.filterMap_some
  obtain ⟨methods, path, handler, defaults, domain⟩ := r
  simp only [toArgs, ofArgs] at hmethods ⊢
  rw [hmethods]
  cases domain <;> rfl

namespace RouteTable

def handlers (t : RouteTable) : List Node := t.routes.map ResolvedRoute.handler

def withHandlers (t : RouteTable) (handlers : List Node) : RouteTable :=
  ⟨(t.routes.zip handlers).map fun e => e.1.withHandler e.2⟩

/-- the entries of a live route collection, given the values of the handlers -/
def served (t : RouteTable) (values : List Value) : Router :=
  (t.routes.zip values).map fun e => e.1.entry e.2

/-- the handler of the first route of the table that answers -/
def handlerFor (t : RouteTable) (values : List Value) (method path : String) : Value :=
  match (t.routes.zip values).find? fun e => e.1.answers method path with
  | some e => e.2
  | none => .null

theorem handlerFor_served (t : RouteTable) (values : List Value) (method path : String) :
    (t.served values).handlerFor method path = t.handlerFor values method path := by
  have hanswers : ((·.answers method path) ∘ fun e : ResolvedRoute × Value => e.1.entry e.2) =
      fun e => e.1.answers method path := rfl
  rw [Router.handlerFor, served, List.find?_map, hanswers, handlerFor]
  cases (t.routes.zip values).find? fun e => e.1.answers method path <;> rfl

/-! ## parameters in the node of a table -/

theorem substituteAll_addArgs {r : ResolvedRoute} (hr : r.Unmarked) :
    Node.substituteAll p (addArgs r) = (r.handler.substitute p).map fun n => addArgs (r.withHandler n) := by
  have hmethods : p.expand (.list (r.methods.map Value.str)) = .ok (.list (r.methods.map Value.str)) :=
    Value.expand_of_unmarked (Value.unmarkedItems_map_str hr.methods)
  have hpath : p.expand (.str r.path) = .ok (.str r.path) :=
    Value.expand_of_unmarked (by simpa [Value.unmarked] using hr.path)
  have hdefaults : p.expand (.map r.defaults) = .ok (.map r.defaults) := Value.expand_of_unmarked hr.defaults
  have hall : ∀ literal : Value, p.expand literal = .ok literal →
      Node.substituteAll p [.literal (.list (r.methods.map Value.str)), .literal (.str r.path), r.handler,
          .literal (.map r.defaults), .literal literal] =
        (r.handler.substitute p).map fun n => [.literal (.list (r.methods.map Value.str)),
          .literal (.str r.path), n, .literal (.map r.defaults), .literal literal] := by
    intro literal hliteral
    simp only [Node.substituteAll, Node.substitute, hmethods, hpath, hdefaults, hliteral]
    cases r.handler.substitute p <;> rfl
  unfold addArgs
  cases hd : r.domain with
  | none => simpa only [ResolvedRoute.withHandler, hd] using hall .null rfl
  | some d =>
    have hdomain : p.expand (.str d) = .ok (.str d) :=
      Value.expand_of_unmarked (by simpa [Value.unmarked] using hr.domain d hd)
    simpa only [ResolvedRoute.withHandler, hd] using hall (.str d) hdomain

theorem substituteCalls_routes {routes : List ResolvedRoute} (h : ∀ r ∈ routes, r.Unmarked) :
    Node.substituteCalls p (routes.map fun r => .mk "add" (addArgs r)) =
      (Node.substituteAll p (routes.map ResolvedRoute.handler)).map fun ns =>
        (routes.zip ns).map fun e => .mk "add" (addArgs (e.1.withHandler e.2)) := by
  induction routes with
  | nil => rfl
  | cons r routes ih =>
    obtain ⟨hr, hroutes⟩ := List.forall_mem_cons.mp h
    simp only [List.map_cons, Node.substituteCalls, Node.substituteAll, substituteAll_addArgs hr, ih hroutes]
    cases r.handler.substitute p with
    | error e => rfl
    | ok n => cases Node.substituteAll p (routes.map ResolvedRoute.handler) <;> rfl

/-- parameters go into the handlers only -/
theorem substitute_toNode {t : RouteTable} (h : ∀ r ∈ t.routes, r.Unmarked) (p : Parameters)
    (name : String) : (t.toNode name).substitute p =
      (Node.substituteAll p t.handlers).map fun ns => (t.withHandlers ns).toNode name := by
  rw [toNode, Node.substitute, substituteCalls_routes h, Node.substituteAll, handlers]
  cases Node.substituteAll p (t.routes.map ResolvedRoute.handler) with
  | error e => rfl
  | ok ns =>
    show Except.ok (Node.statement (.named name) [] _) = Except.ok (Node.statement (.named name) [] _)
    rw [withHandlers, List.map_map]
    rfl

end RouteTable

/-! ## the node of a table, evaluated -/

def Heap.next (h : Heap σ) : ObjectId := ⟨h.objects.length⟩

/-- the state with an empty route collection as the last live object -/
def Building.withRouter (b : Building σ) : Building σ :=
  { b with heap := (b.heap.alloc (.router [])).2 }

namespace Container

variable {c : Container σ} {holds : σ → List ObjectId} {x : ObjectId} {resolve : String → Build σ Value}
  {b b' : Building σ}

theorem evaluateAll_cons_eq_ok {n : Node} {ns : List Node} {values : List Value}
    (h : c.evaluateAll resolve (n :: ns) b = (.ok values, b')) :
    ∃ v vs b₁, c.evaluate resolve n b = (.ok v, b₁) ∧ c.evaluateAll resolve ns b₁ = (.ok vs, b') ∧
      values = v :: vs := by
  rw [evaluateAll] at h
  cases hn : c.evaluate resolve n b with
  | mk r b₁ =>
    cases r with
    | error e =>
      rw [Build.bind_of_error hn] at h
      cases h
    | ok v =>
      rw [Build.bind_of_ok hn] at h
      cases hns : c.evaluateAll resolve ns b₁ with
      | mk r b₂ =>
        cases r with
        | error e =>
          rw [Build.bind_of_error hns] at h
          cases h
        | ok vs =>
          rw [Build.bind_of_ok hns] at h
          cases h
          exact ⟨v, vs, b₁, rfl, hns, rfl⟩

theorem evaluateAll_cons_of_ok {n : Node} {ns : List Node} {v : Value} {vs : List Value} {b₁ : Building σ}
    (hn : c.evaluate resolve n b = (.ok v, b₁)) (hns : c.evaluateAll resolve ns b₁ = (.ok vs, b')) :
    c.evaluateAll resolve (n :: ns) b = (.ok (v :: vs), b') := by
  rw [evaluateAll, Build.bind_of_ok hn, Build.bind_of_ok hns]
  rfl

/-- the arguments of a route are those of its entry -/
theorem evaluateAll_addArgs {r : ResolvedRoute} {v : Value}
    (h : c.evaluate resolve r.handler b = (.ok v, b')) :
    c.evaluateAll resolve (RouteTable.addArgs r) b = (.ok (r.entry v).toArgs, b') := by
  refine evaluateAll_cons_of_ok rfl (evaluateAll_cons_of_ok rfl (evaluateAll_cons_of_ok h ?_))
  exact evaluateAll_cons_of_ok rfl (evaluateAll_cons_of_ok rfl rfl)

/-- one call of `add`, on a collection that is there -/
theorem fluent_add {h : Heap σ} {s : Services σ} (hx : x.index < h.objects.length) (before : Router)
    (r : LiveRoute) : (h.put x (.router before)).fluent s (.service x) "add" r.toArgs =
      (.ok (.service x), h.put x (.router (before ++ [r]))) := by
  have hadd : before.call "add" r.toArgs = (.ok .null, before ++ [r]) := by
    rw [Router.call, if_pos rfl, Router.add, LiveRoute.ofArgs_toArgs]
    rfl
  rw [Heap.fluent, Heap.invoke_router (Heap.get?_put_self hx _), hadd, Heap.put_put]

/-- **The calls of a table.** The handlers are evaluated as if the collection were any other, and each call
adds the entry of its route. -/
theorem evaluateCalls_routes (hc : c.Confined holds x) (hresolve : BlindLookups holds x resolve)
    {routes : List ResolvedRoute} {values : List Value} (hb : b.Apart holds x)
    (hhandlers : ∀ v ∈ Node.dataOf c.parameter (routes.map ResolvedRoute.handler), v.Clear x)
    (hdefaults : ∀ r ∈ routes, (Value.map r.defaults).Clear x)
    (h : c.evaluateAll resolve (routes.map ResolvedRoute.handler) b = (.ok values, b'))
    {before : Router} (hbefore : ∀ r ∈ before, r.Clear x) :
    c.evaluateCalls resolve (.service x) (routes.map fun r => .mk "add" (RouteTable.addArgs r))
        (b.put x (.router before)) =
      (.ok (.service x), b'.put x (.router (before ++ (routes.zip values).map fun e => e.1.entry e.2))) ∧
    values.length = routes.length ∧ b'.Apart holds x := by
  induction routes generalizing b values before with
  | nil =>
    cases h
    refine ⟨?_, rfl, hb⟩
    rw [List.map_nil, List.zip_nil_left, List.map_nil, List.append_nil]
    rfl
  | cons r routes ih =>
    obtain ⟨v, vs, b₁, hv, hvs, rfl⟩ := evaluateAll_cons_eq_ok h
    obtain ⟨hhandler, hrest⟩ := List.forall_mem_append.mp hhandlers
    obtain ⟨hdefault, hdefaults⟩ := List.forall_mem_cons.mp hdefaults
    obtain ⟨hclear, hafter, hput⟩ := evaluate_blind hc hresolve hhandler b hb
    rw [hv] at hclear hafter hput
    have hentry : (r.entry v).Clear x := ⟨hclear v rfl, hdefault⟩
    have hbefore' : ∀ r' ∈ before ++ [r.entry v], r'.Clear x :=
      List.forall_mem_append.mpr ⟨hbefore, List.forall_mem_singleton.mpr hentry⟩
    have hargs := evaluateAll_addArgs (hput (.router before) hbefore)
    have hadd : Build.onHeap (·.fluent c.services (.service x) "add" (r.entry v).toArgs)
        (b₁.put x (.router before)) =
          (.ok (.service x), b₁.put x (.router (before ++ [r.entry v]))) := by
      show (((b₁.heap.put x (.router before)).fluent c.services (.service x) "add" (r.entry v).toArgs).1,
        { b₁.put x (.router before) with heap :=
          ((b₁.heap.put x (.router before)).fluent c.services (.service x) "add" (r.entry v).toArgs).2 }) = _
      rw [fluent_add hafter.heap.there]
      rfl
    obtain ⟨hcalls, hlength, hend⟩ := ih hafter hrest hdefaults hvs hbefore'
    refine ⟨?_, by rw [List.length_cons, List.length_cons, hlength], hend⟩
    rw [List.map_cons, evaluateCalls, Build.bind_of_ok hargs, Build.bind_of_ok hadd, hcalls,
      List.append_assoc, List.singleton_append, List.zip_cons_cons, List.map_cons]

/-- nothing refers to the live object that comes next -/
structure Unaware (c : Container σ) (holds : σ → List ObjectId) (t : RouteTable) (b : Building σ) :
    Prop where
  confined : c.Confined holds b.heap.next
  unheld : ∀ o ∈ b.heap.objects, o.Clear holds b.heap.next
  unremembered : ∀ e ∈ b.instances, e.2.Clear b.heap.next
  handlers : ∀ v ∈ Node.dataOf c.parameter t.handlers, v.Clear b.heap.next
  defaults : ∀ r ∈ t.routes, (Value.map r.defaults).Clear b.heap.next

theorem Unaware.apart {t : RouteTable} (h : c.Unaware holds t b) : b.withRouter.Apart holds b.heap.next := by
  refine ⟨⟨?_, ?_⟩, h.unremembered⟩
  · show b.heap.objects.length < (b.heap.objects ++ [LiveObject.router []]).length
    rw [List.length_append, List.length_singleton]
    omega
  · exact List.forall_mem_append.mpr ⟨h.unheld, List.forall_mem_singleton.mpr (List.forall_mem_nil _)⟩

theorem withRouter_put (b : Building σ) : b.withRouter.put b.heap.next (.router []) = b.withRouter := by
  have hobjects : (b.heap.objects ++ [LiveObject.router []]).set b.heap.objects.length (.router []) =
      b.heap.objects ++ [.router []] := by
    rw [List.set_append_right _ _ (Nat.le_refl _), Nat.sub_self, List.set_cons_zero]
  show { b with heap := ⟨(b.heap.objects ++ [LiveObject.router []]).set b.heap.objects.length _⟩ } = _
  rw [hobjects]
  rfl

/-- **The live router is the table.** Its entries are the routes of the table, one for one and in order, each
with the value of its handler, and it gives the handlers that the table gives. -/
theorem value_toNode (hrouter : c.constructors.get? Router.typeName = some Constructors.router)
    {t : RouteTable} (hunmarked : ∀ r ∈ t.routes, r.Unmarked) (hb : c.Unaware holds t b)
    {values : List Value} (hvalues : c.evaluateAll c.resolveFresh t.handlers b.withRouter = (.ok values, b')) :
    (∀ p, (t.toNode Router.typeName).substitute p =
      (Node.substituteAll p t.handlers).map fun ns => (t.withHandlers ns).toNode Router.typeName) ∧
    values.length = t.routes.length ∧
    ∃ after : Building σ, c.value (t.toNode Router.typeName) b = (.ok (.service b.heap.next), after) ∧
      after = b'.put b.heap.next (.router (t.served values)) ∧
      after.heap.get? b.heap.next = some (.router (t.served values)) ∧
      ∀ method path, after.heap.invoke c.services (.service b.heap.next) "match" [.str method, .str path] =
        (.ok (t.handlerFor values method path), after.heap) := by
  refine ⟨fun p => RouteTable.substitute_toNode hunmarked p _, ?_⟩
  have hempty : ∀ r ∈ ([] : Router), r.Clear b.heap.next := List.forall_mem_nil _
  obtain ⟨hcalls, hlength, hend⟩ := evaluateCalls_routes hb.confined (resolve_blind hb.confined _) hb.apart
    hb.handlers hb.defaults hvalues hempty
  rw [withRouter_put, List.nil_append] at hcalls
  have hstart : c.constructors.start c.lookup Router.typeName [] = Construction.create (.router []) := by
    rw [Constructors.start, hrouter]
    rfl
  have hcreate : c.run c.resolveFresh (c.constructors.start c.lookup Router.typeName []) b =
      (.ok (.service b.heap.next), b.withRouter) := by
    rw [hstart]
    rfl
  have hget := Heap.get?_put_self hend.heap.there (LiveObject.router (t.served values))
  refine ⟨hlength, _, ?_, rfl, hget, fun method path => ?_⟩
  · rw [value, RouteTable.toNode, evaluate, evaluateAll]
    exact (Build.bind_of_ok hcreate _).trans hcalls
  · show (b'.heap.put b.heap.next _).invoke c.services _ _ _ = (_, b'.heap.put b.heap.next _)
    rw [Heap.invoke_router hget]
    have hmatch : (t.served values).call "match" [.str method, .str path] =
        (.ok (t.handlerFor values method path), t.served values) := by
      rw [← RouteTable.handlerFor_served]
      rfl
    rw [hmatch, Heap.put_put]

/-- the built-in constructors alone, and no objects of the application's own -/
theorem confined_of_builtin {c : Container Empty} (h : c.constructors = Constructors.builtin) {x : ObjectId}
    (hdata : ∀ d ∈ c.registry.definitions, ∀ v ∈ d.data c.parameter, v.Clear x) :
    c.Confined Empty.elim x where
  data := hdata
  constructors := by
    intro name k args hk hargs
    rw [h, Constructors.builtin, OrderedMap.get?] at hk
    split at hk
    · cases hk
      exact Constructors.blind_router _ _ hargs
    · cases hk
  services := fun _ state => state.elim

/-- a container with one service, which is a route collection itself -/
def mounting : Container Empty where
  registry := { Registry.ofParameters Parameters.empty with
    definitions := [.ofNode "pages" (.create Router.typeName [])] }
  constructors := Constructors.builtin
  services := ⟨Empty.elim, Empty.elim, fun _ _ state => state.elim⟩

/-- the same path twice: for one method, and for all -/
def mounted : RouteTable where
  routes := [
    ⟨["GET"], "/a", some "x.org", .reference "pages" false, [("page", .int 1)], none⟩,
    ⟨[], "/a", none, .literal (.str "other"), [], none⟩]

theorem mounted_served : ∃ after : Building Empty,
    mounting.value (mounted.toNode Router.typeName) (.ofHeap Heap.empty) = (.ok (.service ⟨0⟩), after) ∧
    after.heap.objects = [
      .router [⟨["GET"], "/a", .service ⟨1⟩, [("page", .int 1)], some "x.org"⟩,
        ⟨[], "/a", .str "other", [], none⟩],
      .router []] ∧
    (after.heap.invoke mounting.services (.service ⟨0⟩) "match" [.str "get", .str "/a"]).1 =
      .ok (.service ⟨1⟩) := by
  have hunmarked : ∀ r ∈ mounted.routes, r.Unmarked := by
    refine List.forall_mem_cons.mpr ⟨?_, List.forall_mem_singleton.mpr ?_⟩
    · exact ⟨by decide, by decide, fun d hd => by cases hd; decide, by decide⟩
    · exact ⟨by decide, by decide, fun d hd => (nomatch hd), by decide⟩
  have haware : mounting.Unaware Empty.elim mounted (.ofHeap Heap.empty) :=
    { confined := confined_of_builtin rfl (List.forall_mem_singleton.mpr (List.forall_mem_nil _))
      unheld := List.forall_mem_nil _
      unremembered := List.forall_mem_nil _
      handlers := List.forall_mem_singleton.mpr List.not_mem_nil
      defaults := List.forall_mem_cons.mpr
        ⟨List.not_mem_nil, List.forall_mem_singleton.mpr List.not_mem_nil⟩ }
  have hvalues : mounting.evaluateAll mounting.resolveFresh mounted.handlers
      (Building.ofHeap Heap.empty).withRouter = (.ok [.service ⟨1⟩, .str "other"],
        ⟨⟨[.router [], .router []]⟩, [("pages", .service ⟨1⟩)], []⟩) := rfl
  obtain ⟨-, -, after, hvalue, hafter, -, hmatch⟩ := value_toNode rfl hunmarked haware hvalues
  refine ⟨after, hvalue, ?_, ?_⟩
  · rw [hafter]
    rfl
  · have hfirst : mounted.handlerFor [.service ⟨1⟩, .str "other"] "get" "/a" = .service ⟨1⟩ := by
      decide
    exact (congrArg Prod.fst (hmatch "get" "/a")).trans (congrArg Except.ok hfirst)

end Container
end ServiceGraph
