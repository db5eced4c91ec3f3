import ServiceGraph.Proofs.Container.Fresh

/-!
# Objects that nothing refers to

An object that nothing refers to is out of reach: whatever is evaluated comes to the same result
whatever that object is, and leaves it as it is.

* `Value.Clear x`, `LiveObject.Clear`, `Building.Apart`: a value, a live object, a whole state that does
  not refer to `x`;
* `Heap.Blind`, `Build.Blind`: work that does not reach `x` and does not come upon it;
* `Heap.blind_create`, `Heap.blind_invoke`: making objects and calling methods;
* `Container.Confined`: constructors and services reach only what they are given, and the definitions do not
  refer to `x`;
* `Container.evaluate_blind`, `Container.resolve_blind`: then evaluation and look-ups do not reach `x`.
-/

set_option linter.unusedSectionVars false

namespace ServiceGraph

variable {σ α β : Type} {x : ObjectId}

/-! ## values and live objects -/

namespace Value

def Clear (x : ObjectId) (v : Value) : Prop := x ∉ v.objects

theorem clear_list_iff {vs : List Value} : (list vs).Clear x ↔ ∀ v ∈ vs, v.Clear x := by
  show x ∉ objectsOfItems vs ↔ _
  induction vs with
  | nil => simp [objectsOfItems]
  | cons v vs ih => rw [objectsOfItems, List.mem_append, not_or, ih, List.forall_mem_cons, Clear]

theorem clear_map_iff {es : List (String × Value)} : (map es).Clear x ↔ ∀ e ∈ es, e.2.Clear x := by
  show x ∉ objectsOfEntries es ↔ _
  induction es with
  | nil => simp [objectsOfEntries]
  | cons e es ih => rw [objectsOfEntries, List.mem_append, not_or, ih, List.forall_mem_cons, Clear]

theorem clear_service_iff {id : ObjectId} : (service id).Clear x ↔ id ≠ x := by
  rw [Clear, objects, List.mem_singleton]
  exact ne_comm

theorem Clear.items {v : Value} (h : v.Clear x) : ∀ item ∈ v.items, item.Clear x := by
  cases v with
  | list vs => exact clear_list_iff.mp h
  | null | bool _ | int _ | float _ | str _ | map _ | service _ => exact List.forall_mem_nil _

theorem Clear.entries {v : Value} (h : v.Clear x) : (map v.entries).Clear x := by
  cases v with
  | map es => exact h
  | null | bool _ | int _ | float _ | str _ | list _ | service _ => exact List.not_mem_nil

theorem clear_zipRecord {keys : List String} {vs : List Value} (h : ∀ v ∈ vs, v.Clear x) :
    (Container.zipRecord keys vs).Clear x := by
  have hpairs : ∀ e ∈ keys.zip vs, e.2.Clear x := by
    rintro ⟨k, v⟩ he
    exact h v (List.of_mem_zip he).2
  exact clear_map_iff.mpr (OrderedMap.forall_mem_extend (List.forall_mem_nil _) hpairs)

end Value

def ClearResult (x : ObjectId) (r : Except ContainerError Value) : Prop := ∀ v, r = .ok v → v.Clear x

theorem clearResult_ok {v : Value} (h : v.Clear x) : ClearResult x (.ok v) := by
  rintro _ ⟨⟩
  exact h

theorem clearResult_error (e : ContainerError) : ClearResult x (.error e) := fun _ h => nomatch h

/-- neither the handler nor the defaults of the route refer to the object -/
def LiveRoute.Clear (x : ObjectId) (r : LiveRoute) : Prop :=
  r.handler.Clear x ∧ (Value.map r.defaults).Clear x

/-- the live object does not refer to the object; `holds` tells what the application's own refer to -/
def LiveObject.Clear (holds : σ → List ObjectId) (x : ObjectId) : LiveObject σ → Prop
  | router routes => ∀ r ∈ routes, r.Clear x
  | custom state => x ∉ holds state

namespace Router

variable {t : Router} {args : List Value}

theorem clear_ofArgs {r : LiveRoute} (hargs : ∀ v ∈ args, v.Clear x) (h : LiveRoute.ofArgs args = .ok r) :
    r.Clear x := by
  unfold LiveRoute.ofArgs at h
  split at h
  · split at h
    · cases h
      exact ⟨hargs _ (by simp), (hargs _ (by simp)).entries⟩
    · cases h
    · cases h
  · cases h

theorem clear_revive {v : Value} (hv : v.Clear x) (h : revive v = .ok t) : ∀ r ∈ t, r.Clear x := by
  have hentries : ∀ entries : List Value, (∀ e ∈ entries, e.Clear x) →
      ∀ t, ofEntries entries = .ok t → ∀ r ∈ t, r.Clear x := by
    intro entries hclear
    induction entries with
    | nil =>
      intro t ht
      cases ht
      exact List.forall_mem_nil _
    | cons entry rest ih =>
      intro t ht
      obtain ⟨hentry, hrest⟩ := List.forall_mem_cons.mp hclear
      rw [ofEntries] at ht
      cases hr : LiveRoute.ofArgs entry.items with
      | error e =>
        rw [hr] at ht
        cases ht
      | ok r =>
        cases hmore : ofEntries rest with
        | error e =>
          rw [hr, hmore] at ht
          cases ht
        | ok more =>
          rw [hr, hmore] at ht
          cases ht
          exact List.forall_mem_cons.mpr ⟨clear_ofArgs hentry.items hr, ih hrest more hmore⟩
  exact hentries v.items hv.items t h

theorem clear_call (ht : ∀ r ∈ t, r.Clear x) (hargs : ∀ v ∈ args, v.Clear x) (method : String) :
    ClearResult x (t.call method args).1 ∧ ∀ r ∈ (t.call method args).2, r.Clear x := by
  unfold call
  split
  · rw [add]
    cases hr : LiveRoute.ofArgs args with
    | error e => exact ⟨clearResult_error e, ht⟩
    | ok r =>
      refine ⟨clearResult_ok List.not_mem_nil, ?_⟩
      exact List.forall_mem_append.mpr ⟨ht, List.forall_mem_singleton.mpr (clear_ofArgs hargs hr)⟩
  · split
    · refine ⟨clearResult_ok (Value.clear_list_iff.mpr fun v hv => ?_), ht⟩
      obtain ⟨r, -, rfl⟩ := List.mem_map.mp hv
      exact List.not_mem_nil
    · split
      · refine ⟨clearResult_ok ?_, ht⟩
        unfold handlerFor
        split
        next r hr => exact (ht r (List.mem_of_find?_eq_some hr)).1
        next => exact List.not_mem_nil
      · exact ⟨clearResult_error _, ht⟩

end Router

/-! ## work on the live objects -/

namespace Heap

variable {holds : σ → List ObjectId} {h : Heap σ} {id : ObjectId} {o o' : LiveObject σ}

theorem get?_put_self (hx : x.index < h.objects.length) (o : LiveObject σ) : (h.put x o).get? x = some o :=
  List.getElem?_set_self hx

theorem get?_put_of_ne (hid : id ≠ x) (h : Heap σ) (o : LiveObject σ) :
    (h.put x o).get? id = h.get? id := by
  refine List.getElem?_set_ne fun hindex => hid ?_
  cases id
  cases x
  exact congrArg ObjectId.mk hindex.symm

theorem put_put (h : Heap σ) (x : ObjectId) (o o' : LiveObject σ) : (h.put x o).put x o' = h.put x o' := by
  rw [put, put, put, List.set_set]

theorem put_comm (hid : id ≠ x) (h : Heap σ) (o o' : LiveObject σ) :
    (h.put x o).put id o' = (h.put id o').put x o := by
  have hindex : x.index ≠ id.index := by
    intro heq
    refine hid ?_
    cases id
    cases x
    exact congrArg ObjectId.mk heq.symm
  rw [put, put, put, put, List.set_comm _ _ hindex]

/-- the object is there, and no live object refers to it -/
structure Apart (holds : σ → List ObjectId) (x : ObjectId) (h : Heap σ) : Prop where
  there : x.index < h.objects.length
  unheld : ∀ o ∈ h.objects, o.Clear holds x

theorem Apart.clear_of_get? (hh : h.Apart holds x) (ho : h.get? id = some o) : o.Clear holds x :=
  hh.unheld o (List.mem_of_getElem? ho)

theorem Apart.put (hh : h.Apart holds x) (ho : o.Clear holds x) (id : ObjectId) :
    (h.put id o).Apart holds x := by
  refine ⟨?_, fun other hother => ?_⟩
  · rw [Heap.put, List.length_set]
    exact hh.there
  · rcases List.mem_or_eq_of_mem_set hother with hmem | rfl
    · exact hh.unheld other hmem
    · exact ho

/-- work that comes to the same result whatever the object is, does not change it, and does not spread
references to it -/
def Blind (holds : σ → List ObjectId) (x : ObjectId) (work : Heap σ → Outcome σ) : Prop :=
  ∀ h, h.Apart holds x → ClearResult x (work h).1 ∧ (work h).2.Apart holds x ∧
    ∀ o, o.Clear holds x → work (h.put x o) = ((work h).1, (work h).2.put x o)

theorem blind_create (ho : o.Clear holds x) : Blind holds x (·.create o) := by
  intro h hh
  have hthere := hh.there
  refine ⟨clearResult_ok (Value.clear_service_iff.mpr ?_), ⟨?_, ?_⟩, fun other _ => ?_⟩
  · rintro rfl
    simp at hthere
  · show x.index < (h.objects ++ [o]).length
    rw [List.length_append]
    omega
  · exact List.forall_mem_append.mpr ⟨hh.unheld, List.forall_mem_singleton.mpr ho⟩
  · show (Except.ok (Value.service ⟨(h.objects.set x.index other).length⟩),
      (⟨h.objects.set x.index other ++ [o]⟩ : Heap σ)) =
        (Except.ok (Value.service ⟨h.objects.length⟩),
          (⟨(h.objects ++ [o]).set x.index other⟩ : Heap σ))
    rw [List.length_set, List.set_append_left _ _ hthere]

variable {s : Services σ}

theorem invoke_of_none (hid : h.get? id = none) (method : String) (args : List Value) :
    h.invoke s (.service id) method args = (.error (.notAService method "service"), h) := by
  simp only [invoke, invokeWith, List.contains_nil, hid, Bool.false_eq_true, if_false]
  rfl

theorem invoke_router {routes : Router} (hid : h.get? id = some (.router routes)) (method : String)
    (args : List Value) : h.invoke s (.service id) method args =
      ((routes.call method args).1, h.put id (.router (routes.call method args).2)) := by
  simp only [invoke, invokeWith, List.contains_nil, hid, Bool.false_eq_true, if_false]

theorem invoke_custom {state : σ} (hid : h.get? id = some (.custom state)) (method : String)
    (args : List Value) : h.invoke s (.service id) method args = s.call [id] id state method args h := by
  simp only [invoke, invokeWith, List.contains_nil, hid, Bool.false_eq_true, if_false]

/-- a call of a method, where the application's own objects are as confined as the call -/
theorem blind_invoke (hs : ∀ id state method args, id ≠ x → x ∉ holds state →
      (∀ v ∈ args, v.Clear x) → Blind holds x (s.call [id] id state method args))
    {receiver : Value} (hreceiver : receiver.Clear x) (method : String) {args : List Value}
    (hargs : ∀ v ∈ args, v.Clear x) :
    Blind holds x (·.invoke s receiver method args) := by
  intro h hh
  cases receiver with
  | service id =>
    have hid : id ≠ x := Value.clear_service_iff.mp hreceiver
    have hget : ∀ o, (h.put x o).get? id = h.get? id := get?_put_of_ne hid h
    dsimp only
    cases hobject : h.get? id with
    | none =>
      rw [invoke_of_none hobject]
      exact ⟨clearResult_error _, hh, fun o _ => invoke_of_none ((hget o).trans hobject) method args⟩
    | some object =>
      have hclear := hh.clear_of_get? hobject
      cases object with
      | router routes =>
        obtain ⟨hresult, hroutes⟩ := Router.clear_call hclear hargs method
        rw [invoke_router hobject]
        refine ⟨hresult, hh.put (o := .router _) hroutes id, fun o _ => ?_⟩
        rw [invoke_router ((hget o).trans hobject), put_comm hid]
      | custom state =>
        obtain ⟨hresult, hafter, hput⟩ := hs id state method args hid hclear hargs h hh
        rw [invoke_custom hobject]
        refine ⟨hresult, hafter, fun o ho => ?_⟩
        rw [invoke_custom ((hget o).trans hobject), hput o ho]
  | null | bool _ | int _ | float _ | str _ | list _ | map _ =>
    exact ⟨clearResult_error _, hh, fun o _ => rfl⟩

/-- going on with the result, or with the receiver -/
theorem Blind.fluent {receiver : Value} (hreceiver : receiver.Clear x) {method : String} {args : List Value}
    (hinvoke : Blind holds x (·.invoke s receiver method args)) :
    Blind holds x (·.fluent s receiver method args) := by
  intro h hh
  obtain ⟨hresult, hafter, hput⟩ := hinvoke h hh
  simp only [Heap.fluent]
  cases houtcome : h.invoke s receiver method args with
  | mk r after =>
    simp only [houtcome] at hresult hafter hput
    refine ⟨?_, ?_, fun o ho => ?_⟩
    · split
      · exact clearResult_ok hreceiver
      · exact hresult
    · split
      next heq =>
        cases heq
        exact hafter
      next => exact hafter
    · rw [hput o ho]
      cases r with
      | error e => rfl
      | ok v => cases v <;> rfl

end Heap

/-! ## work on the state of building -/

namespace Building

variable {holds : σ → List ObjectId} {b : Building σ}

/-- neither a live object nor a service that is built refers to the object -/
structure Apart (holds : σ → List ObjectId) (x : ObjectId) (b : Building σ) : Prop where
  heap : b.heap.Apart holds x
  unremembered : ∀ e ∈ b.instances, e.2.Clear x

def put (b : Building σ) (x : ObjectId) (o : LiveObject σ) : Building σ := { b with heap := b.heap.put x o }

end Building

namespace Build

variable {holds : σ → List ObjectId} {R : α → Prop} {S : β → Prop}

theorem bind_of_ok {work : Build σ α} {b b' : Building σ} {a : α} (h : work b = (.ok a, b'))
    (f : α → Build σ β) : (work >>= f) b = f a b' := by
  show ExceptT.bindCont f (work b).1 (work b).2 = f a b'
  rw [h]
  rfl

theorem bind_of_error {work : Build σ α} {b b' : Building σ} {e : ContainerError}
    (h : work b = (.error e, b')) (f : α → Build σ β) : (work >>= f) b = (.error e, b') := by
  show ExceptT.bindCont f (work b).1 (work b).2 = (.error e, b')
  rw [h]
  rfl

/-- work that ends in `R` and does not reach the object -/
def Blind (holds : σ → List ObjectId) (x : ObjectId) (R : α → Prop) (work : Build σ α) : Prop :=
  ∀ b, b.Apart holds x → (∀ a, (work b).1 = .ok a → R a) ∧ Building.Apart holds x (work b).2 ∧
    ∀ o, o.Clear holds x → work (b.put x o) = ((work b).1, Building.put (work b).2 x o)

theorem blind_ofOutcome {r : Except ContainerError α} (h : ∀ a, r = .ok a → R a) :
    Blind holds x R (ofOutcome r : Build σ α) :=
  fun _ hb => ⟨h, hb, fun _ _ => rfl⟩

theorem blind_pure {a : α} (h : R a) : Blind holds x R (pure a : Build σ α) :=
  blind_ofOutcome (r := .ok a) fun _ ha => Except.ok.inj ha ▸ h

theorem Blind.bind {work : Build σ α} {f : α → Build σ β} (hwork : Blind holds x R work)
    (hf : ∀ a, R a → Blind holds x S (f a)) : Blind holds x S (work >>= f) := by
  intro b hb
  obtain ⟨hend, hafter, hput⟩ := hwork b hb
  cases hb' : work b with
  | mk r after =>
    rw [hb'] at hend hafter hput
    cases r with
    | error e =>
      rw [bind_of_error hb' f]
      exact ⟨fun _ he => (nomatch he), hafter, fun o ho => bind_of_error (hput o ho) f⟩
    | ok a =>
      obtain ⟨hend', hafter', hput'⟩ := hf a (hend a rfl) after hafter
      rw [bind_of_ok hb' f]
      exact ⟨hend', hafter', fun o ho => (bind_of_ok (hput o ho) f).trans (hput' o ho)⟩

theorem Blind.outcome {work : Build σ α} (hwork : Blind holds x R work) :
    Blind holds x (fun r => ∀ a, r = .ok a → R a) work.outcome := by
  intro b hb
  obtain ⟨hend, hafter, hput⟩ := hwork b hb
  refine ⟨fun r hr => ?_, hafter, fun o ho => ?_⟩
  · cases hr
    exact hend
  · show (Except.ok (work (b.put x o)).1, (work (b.put x o)).2) = _
    rw [hput o ho]
    rfl

theorem blind_onHeap {work : Heap σ → Heap.Outcome σ} (hwork : Heap.Blind holds x work) :
    Blind holds x (·.Clear x) (onHeap work) := by
  intro b hb
  obtain ⟨hresult, hafter, hput⟩ := hwork b.heap hb.heap
  refine ⟨hresult, ⟨hafter, hb.unremembered⟩, fun o ho => ?_⟩
  show ((work (b.heap.put x o)).1, { b.put x o with heap := (work (b.heap.put x o)).2 }) = _
  rw [hput o ho]
  rfl

theorem Blind.within {work : Build σ α} (hwork : Blind holds x R work) (id : String) :
    Blind holds x R (Build.within id work) := by
  intro b hb
  cases henter : Building.enter b.inFlight id with
  | error e =>
    have hall : ∀ b' : Building σ, b'.inFlight = b.inFlight →
        Build.within id work b' = (.error e, b') := by
      intro b' hb'
      unfold Build.within
      rw [hb', henter]
    rw [hall b rfl]
    exact ⟨fun _ he => (nomatch he), hb, fun o _ => hall _ rfl⟩
  | ok inFlight =>
    obtain ⟨hend, hafter, hput⟩ := hwork { b with inFlight } ⟨hb.heap, hb.unremembered⟩
    have hself : ∀ b' : Building σ, b'.inFlight = b.inFlight → Build.within id work b' =
        ((work { b' with inFlight }).1,
          { (work { b' with inFlight }).2 with
            inFlight := Building.inFlight (work { b' with inFlight }).2 |>.dropLast }) := by
      intro b' hb'
      unfold Build.within
      rw [hb', henter]
      rfl
    rw [hself b rfl]
    refine ⟨hend, ⟨hafter.heap, hafter.unremembered⟩, fun o ho => ?_⟩
    rw [hself (b.put x o) rfl]
    have hput' := hput o ho
    change work { b.put x o with inFlight } = _ at hput'
    rw [hput']
    rfl

end Build

/-! ## containers -/

/-- a run that does not come upon the object and whose work does not reach it -/
def Construction.Blind (holds : σ → List ObjectId) (x : ObjectId) : Construction σ → Prop
  | done r => ClearResult x r
  | get _ next => ∀ r, ClearResult x r → Blind holds x (next r)
  | act work next => Heap.Blind holds x work ∧ ∀ r, ClearResult x r → Blind holds x (next r)

theorem Constructors.blind_router (holds : σ → List ObjectId) (l : Lookup) {args : List Value}
    (hargs : ∀ v ∈ args, v.Clear x) : ((router : Constructor σ).run l args).Blind holds x := by
  have hcreate : ∀ routes : Router, (∀ r ∈ routes, r.Clear x) →
      (Construction.create (.router routes) : Construction σ).Blind holds x :=
    fun routes hroutes => ⟨Heap.blind_create (o := .router routes) hroutes, fun _ hr => hr⟩
  cases args with
  | nil => exact hcreate [] (List.forall_mem_nil _)
  | cons exported rest =>
    rw [router]
    dsimp only [List.head?_cons]
    cases hrevive : Router.revive exported with
    | error e => exact clearResult_error e
    | ok routes => exact hcreate routes (Router.clear_revive (hargs exported List.mem_cons_self) hrevive)

namespace Container

variable {c : Container σ} {holds : σ → List ObjectId}

/-- the definitions do not refer to the object, and neither a constructor nor an object of the application
reaches it without having been given a reference to it -/
structure Confined (c : Container σ) (holds : σ → List ObjectId) (x : ObjectId) : Prop where
  data : ∀ d ∈ c.registry.definitions, ∀ v ∈ d.data c.parameter, v.Clear x
  constructors : ∀ name k args, c.constructors.get? name = some k → (∀ v ∈ args, v.Clear x) →
    (k.run c.lookup args).Blind holds x
  services : ∀ id state method args, id ≠ x → x ∉ holds state → (∀ v ∈ args, v.Clear x) →
    Heap.Blind holds x (c.services.call [id] id state method args)

/-- look-ups that do not reach the object -/
def BlindLookups (holds : σ → List ObjectId) (x : ObjectId) (resolve : String → Build σ Value) : Prop :=
  ∀ id, Build.Blind holds x (·.Clear x) (resolve id)

section
variable (hc : c.Confined holds x) {resolve : String → Build σ Value}
  (hresolve : BlindLookups holds x resolve)
include hc hresolve

theorem run_blind {k : Construction σ} (hk : k.Blind holds x) :
    Build.Blind holds x (·.Clear x) (c.run resolve k) := by
  induction k with
  | done r => exact Build.blind_ofOutcome hk
  | get id next ih =>
    have hget : Build.Blind holds x (·.Clear x) (c.getWith resolve id) := by
      unfold getWith
      split
      · exact hresolve id
      · exact Build.blind_ofOutcome (r := .error _) fun _ he => nomatch he
    rw [run]
    exact hget.outcome.bind fun r hr => ih r (hk r hr)
  | act work next ih =>
    rw [run]
    exact (Build.blind_onHeap hk.1).outcome.bind fun r hr => ih r (hk.2 r hr)

theorem start_blind (name : String) {args : List Value} (hargs : ∀ v ∈ args, v.Clear x) :
    Build.Blind holds x (·.Clear x) (c.run resolve (c.constructors.start c.lookup name args)) := by
  refine run_blind hc hresolve ?_
  unfold Constructors.start
  cases hk : c.constructors.get? name with
  | none => exact clearResult_error _
  | some k =>
    dsimp only
    split
    · exact hc.constructors name k args hk hargs
    · exact clearResult_error _

theorem reference_blind (id : String) (optional : Bool) :
    Build.Blind holds x (·.Clear x) (c.reference resolve id optional) := by
  unfold reference
  split
  · exact Build.blind_pure List.not_mem_nil
  · exact hresolve id

mutual

theorem evaluate_blind {n : Node} (hn : ∀ v ∈ n.data c.parameter, v.Clear x) :
    Build.Blind holds x (·.Clear x) (c.evaluate resolve n) := by
  cases n with
  | literal v => exact Build.blind_pure (hn v (List.mem_singleton_self v))
  | parameter key =>
    refine Build.blind_ofOutcome fun v hv => hn v ?_
    rw [Node.data, hv]
    exact List.mem_singleton_self v
  | reference id optional => exact reference_blind hc hresolve id optional
  | statement callable args calls =>
    obtain ⟨hcallable, hrest⟩ := List.forall_mem_append.mp hn
    obtain ⟨hargs, hcalls⟩ := List.forall_mem_append.mp hrest
    rw [evaluate]
    refine (evaluateAll_blind hargs).bind fun vs hvs => ?_
    cases callable with
    | named name => exact (start_blind hc hresolve name hvs).bind fun v hv => evaluateCalls_blind hv hcalls
    | method target method =>
      refine (evaluate_blind hcallable).bind fun receiver hreceiver => ?_
      have hinvoke := Heap.blind_invoke hc.services hreceiver method hvs
      exact (Build.blind_onHeap hinvoke).bind fun v hv => evaluateCalls_blind hv hcalls
    | array =>
      refine Build.Blind.bind (R := (·.Clear x)) ?_ fun v hv => evaluateCalls_blind hv hcalls
      exact Build.blind_pure (Value.clear_list_iff.mpr hvs)
    | record keys =>
      refine Build.Blind.bind (R := (·.Clear x)) ?_ fun v hv => evaluateCalls_blind hv hcalls
      exact Build.blind_pure (Value.clear_zipRecord hvs)

theorem evaluateAll_blind {ns : List Node} (hns : ∀ v ∈ Node.dataOf c.parameter ns, v.Clear x) :
    Build.Blind holds x (fun vs => ∀ v ∈ vs, v.Clear x) (c.evaluateAll resolve ns) := by
  cases ns with
  | nil => exact Build.blind_pure (List.forall_mem_nil _)
  | cons n ns =>
    obtain ⟨hn, hns⟩ := List.forall_mem_append.mp hns
    rw [evaluateAll]
    refine (evaluate_blind hn).bind fun v hv => ?_
    refine (evaluateAll_blind hns).bind fun vs hvs => ?_
    exact Build.blind_pure (List.forall_mem_cons.mpr ⟨hv, hvs⟩)

theorem evaluateCalls_blind {receiver : Value} (hreceiver : receiver.Clear x) {calls : List MethodCall}
    (hcalls : ∀ v ∈ Node.dataOfCalls c.parameter calls, v.Clear x) :
    Build.Blind holds x (·.Clear x) (c.evaluateCalls resolve receiver calls) := by
  cases calls with
  | nil => exact Build.blind_pure hreceiver
  | cons call calls =>
    cases call with
    | mk method args =>
      obtain ⟨hargs, hcalls⟩ := List.forall_mem_append.mp hcalls
      rw [evaluateCalls]
      refine (evaluateAll_blind hargs).bind fun vs hvs => ?_
      have hinvoke := Heap.blind_invoke hc.services hreceiver method hvs
      exact (Build.blind_onHeap (hinvoke.fluent hreceiver)).bind fun v hv => evaluateCalls_blind hv hcalls

end

theorem setUp_blind {v : Value} (hv : v.Clear x) {calls : List MethodCall}
    (hcalls : ∀ v ∈ Node.dataOfCalls c.parameter calls, v.Clear x) :
    Build.Blind holds x (fun _ => True) (c.setUp resolve v calls) := by
  induction calls with
  | nil => exact Build.blind_pure trivial
  | cons call calls ih =>
    cases call with
    | mk method args =>
      obtain ⟨hargs, hcalls⟩ := List.forall_mem_append.mp hcalls
      rw [setUp]
      refine (evaluateAll_blind hc hresolve hargs).bind fun vs hvs => ?_
      refine (Build.blind_onHeap (Heap.blind_invoke hc.services hv method hvs)).bind fun _ _ => ?_
      exact ih hcalls

theorem build_blind {d : Definition} (hd : ∀ v ∈ d.data c.parameter, v.Clear x) :
    Build.Blind holds x (·.Clear x) (c.build resolve d) := by
  obtain ⟨hroot, hsetup⟩ := List.forall_mem_append.mp hd
  rw [build]
  refine (evaluate_blind hc hresolve hroot).bind fun v hv => ?_
  refine (setUp_blind hc hresolve hv hsetup).bind fun _ _ => ?_
  have hremember : Build.Blind holds x (fun _ => True)
      (modify fun b : Building σ => { b with instances := b.instances.insert d.id v } : Build σ Unit) := by
    intro b hb
    exact ⟨fun _ _ => trivial, ⟨hb.heap, OrderedMap.forall_mem_insert hb.unremembered d.id hv⟩,
      fun _ _ => rfl⟩
  split
  · exact hremember.bind fun _ _ => Build.blind_pure hv
  · exact Build.blind_pure hv

end

/-- a look-up hands out what is remembered, refuses, or does some work with the id in flight -/
theorem lookup_blind {lookup : Build σ Value} {id : String} {work : Definition → Build σ Value}
    (hlookup : ∀ b, lookup b = match b.instances.get? id, c.registry.find? id with
      | some v, _ => (.ok v, b)
      | none, none => (.error (.unknownService id), b)
      | none, some d => Build.within id (work d) b)
    (hwork : ∀ d, c.registry.find? id = some d → Build.Blind holds x (·.Clear x) (work d)) :
    Build.Blind holds x (·.Clear x) lookup := by
  intro b hb
  have hinstances : ∀ o, (b.put x o).instances = b.instances := fun _ => rfl
  cases hv : b.instances.get? id with
  | some v =>
    rw [hlookup b, hv]
    refine ⟨fun a ha => ?_, hb, fun o _ => ?_⟩
    · cases ha
      exact hb.unremembered _ (OrderedMap.mem_of_get? hv)
    · rw [hlookup, hinstances, hv]
  | none =>
    cases hd : c.registry.find? id with
    | none =>
      rw [hlookup b, hv, hd]
      refine ⟨fun _ he => (nomatch he), hb, fun o _ => ?_⟩
      rw [hlookup, hinstances, hv, hd]
    | some d =>
      obtain ⟨hend, hafter, hput⟩ := (hwork d hd).within id b hb
      rw [hlookup b, hv, hd]
      refine ⟨hend, hafter, fun o ho => ?_⟩
      rw [hlookup, hinstances, hv, hd]
      exact hput o ho

/-- **Look-ups do not reach an object that nothing refers to.** -/
theorem resolve_blind (hc : c.Confined holds x) (room : Nat) : BlindLookups holds x (c.resolve room) := by
  induction room with
  | zero =>
    intro id
    refine lookup_blind (resolve_eq c 0 id) fun d _ => ?_
    exact Build.blind_ofOutcome (r := .error (.unknownService id)) fun _ he => nomatch he
  | succ room ih =>
    intro id
    refine lookup_blind (resolve_eq c (room + 1) id) fun d hd => ?_
    exact build_blind hc ih (hc.data d (List.mem_of_find?_eq_some hd))

end Container
end ServiceGraph
