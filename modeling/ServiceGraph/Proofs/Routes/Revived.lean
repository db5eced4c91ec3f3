import ServiceGraph.Proofs.Routes.Served

/-!
# Route collections that come back

A live route collection is written down as its exported state, and the constructor of its type makes a new
collection from that state.

* `Router.afterAdds`: a table after calls of `add`, whatever came of each; it is left with the entries of the
  calls that succeeded, in order (`Router.afterAdds_eq`);
* `Router.revive_exported`: an exported table describes the table;
* `Heap.invoke_add_of_error`: a call of `add` that fails leaves all live objects as they are;
* `Container.construct_revive`: the run of the constructor;
* `Container.revived_is_original`: the new collection has the entries of the old one and answers as it does.
-/

namespace ServiceGraph

variable {σ : Type}

namespace Router

variable {t : Router}

/-! ## adding entries -/

def afterAdds (t : Router) (calls : List (List Value)) : Router :=
  calls.foldl (fun t args => (t.call "add" args).2) t

theorem call_add_of_ok {args : List Value} {r : LiveRoute} (h : LiveRoute.ofArgs args = .ok r) (t : Router) :
    t.call "add" args = (.ok .null, t ++ [r]) := by
  rw [call, if_pos rfl, add, h]
  rfl

theorem call_add_of_error {args : List Value} {e : ContainerError} (h : LiveRoute.ofArgs args = .error e)
    (t : Router) : t.call "add" args = (.error e, t) := by
  rw [call, if_pos rfl, add, h]
  rfl

/-- the calls that succeed add their entries in order, and the others leave no trace -/
theorem afterAdds_eq (t : Router) (calls : List (List Value)) :
    t.afterAdds calls = t ++ calls.filterMap fun args => (LiveRoute.ofArgs args).toOption := by
  unfold afterAdds
  induction calls generalizing t with
  | nil => exact (List.append_nil t).symm
  | cons args calls ih =>
    rw [List.foldl_cons, ih, List.filterMap_cons]
    cases hargs : LiveRoute.ofArgs args with
    | ok r =>
      rw [call_add_of_ok hargs]
      exact List.append_assoc t [r] _
    | error e =>
      rw [call_add_of_error hargs]
      rfl

/-! ## exported tables -/

theorem ofEntries_toArgs (t : Router) : ofEntries (t.map fun r => .list r.toArgs) = .ok t := by
  induction t with
  | nil => rfl
  | cons r t ih =>
    rw [List.map_cons, ofEntries, ih]
    show (LiveRoute.ofArgs r.toArgs >>= fun r => _) = _
    rw [LiveRoute.ofArgs_toArgs]
    rfl

/-- an exported table describes the table -/
theorem revive_exported (t : Router) : revive t.exported = .ok t := ofEntries_toArgs t

end Router

/-! ## collections on a heap -/

namespace Heap

variable {h : Heap σ} {x : ObjectId} {o : LiveObject σ} {s : Services σ}

theorem lt_of_get? (hx : h.get? x = some o) : x.index < h.objects.length :=
  (List.getElem?_eq_some_iff.mp hx).1

theorem put_of_get? (hx : h.get? x = some o) : h.put x o = h := by
  obtain ⟨hlt, hget⟩ := List.getElem?_eq_some_iff.mp hx
  rw [put, ← hget, List.set_getElem_self]

/-- an object that is there stays where it is when another one comes -/
theorem get?_alloc_of_get? (hx : h.get? x = some o) (new : LiveObject σ) :
    (h.alloc new).2.get? x = some o :=
  (List.getElem?_append_left (lt_of_get? hx)).trans hx

theorem get?_alloc_next (h : Heap σ) (new : LiveObject σ) : (h.alloc new).2.get? h.next = some new :=
  List.getElem?_concat_length

/-- a call of `add` that fails leaves all live objects as they are -/
theorem invoke_add_of_error {t : Router} (hx : h.get? x = some (.router t)) {args : List Value}
    {e : ContainerError} (he : (h.invoke s (.service x) "add" args).1 = .error e) :
    (h.invoke s (.service x) "add" args).2 = h := by
  rw [invoke_router hx] at he ⊢
  cases hargs : LiveRoute.ofArgs args with
  | ok r =>
    rw [Router.call_add_of_ok hargs] at he
    cases he
  | error e' =>
    rw [Router.call_add_of_error hargs]
    exact put_of_get? hx

end Heap

namespace Container

variable {c : Container σ} {b : Building σ} {x : ObjectId}

/-- the constructor of route collections takes an exported table -/
theorem router_run (l : Lookup) (t : Router) :
    (Constructors.router : Constructor σ).run l [t.exported] = .create (.router t) := by
  simp only [Constructors.router, List.head?_cons, Router.revive_exported]

/-- it makes one more live object from the table -/
theorem construct_revive {cs : Constructors σ} (hcs : cs.get? Router.typeName = some Constructors.router)
    (t : Router) (c : Container σ) (b : Building σ) :
    c.construct (cs.revive c.lookup Router.typeName t.exported) b =
      (.ok (.service b.heap.next), { b with heap := (b.heap.alloc (.router t)).2 }) := by
  have hrun : cs.revive c.lookup Router.typeName t.exported = .create (.router t) := by
    rw [Constructors.revive, Constructors.start, hcs]
    exact router_run c.lookup t
  rw [hrun]
  rfl

/-- **A collection that comes back is the original.** Whatever calls of `add` have made a collection of an
empty one, failed ones among them, a call that fails changes nothing, and the built-in constructor makes of
the exported state one more live object with the same entries in the same order. It gives every call the
answer that the original gives. -/
theorem revived_is_original {calls : List (List Value)}
    (hx : b.heap.get? x = some (.router (Router.afterAdds [] calls))) :
    Router.afterAdds [] calls = (calls.filterMap fun args => (LiveRoute.ofArgs args).toOption) ∧
    (∀ args e, (b.heap.invoke c.services (.service x) "add" args).1 = .error e →
      (b.heap.invoke c.services (.service x) "add" args).2 = b.heap) ∧
    ∃ after : Building σ,
      c.construct (Constructors.builtin.revive c.lookup (b.heap.typeNameOf c.services x)
        (b.heap.exportedBy c.services x)) b = (.ok (.service b.heap.next), after) ∧
      after.heap.get? b.heap.next = b.heap.get? x ∧
      after.heap.get? x = b.heap.get? x ∧
      ∀ method args, (after.heap.invoke c.services (.service b.heap.next) method args).1 =
        (b.heap.invoke c.services (.service x) method args).1 := by
  have hname : b.heap.typeNameOf c.services x = Router.typeName := by
    rw [Heap.typeNameOf, hx]
    rfl
  have hexported : b.heap.exportedBy c.services x = (Router.afterAdds [] calls).exported := by
    rw [Heap.exportedBy, hx]
    rfl
  have hnext := Heap.get?_alloc_next b.heap (.router (Router.afterAdds [] calls))
  refine ⟨Router.afterAdds_eq [] calls, fun args e he => Heap.invoke_add_of_error hx he,
    { b with heap := (b.heap.alloc (.router (Router.afterAdds [] calls))).2 }, ?_, ?_, ?_, ?_⟩
  · rw [hname, hexported]
    exact construct_revive rfl _ c b
  · exact hnext.trans hx.symm
  · exact (Heap.get?_alloc_of_get? hx _).trans hx.symm
  · intro method args
    rw [Heap.invoke_router hnext, Heap.invoke_router hx]

/-- a method that is no string, defaults that are no map and a handler that is the collection itself; a call
without a path; and an entry for all methods -/
def mixedCalls : List (List Value) :=
  [ [.list [.str "GET", .int 5], .str "/a", .service ⟨0⟩, .int 1, .int 2],
    [.list [], .null, .str "lost", .map [], .null],
    [.list [], .str "/a", .str "late", .map [("page", .int 1)], .str "x.org"] ]

def mixedBuilding : Building Empty := .ofHeap ⟨[.router (Router.afterAdds [] mixedCalls)]⟩

theorem mixed_revived :
    mixedBuilding.heap.get? ⟨0⟩ = some (.router (Router.afterAdds [] mixedCalls)) ∧
    Router.afterAdds [] mixedCalls =
      [ ⟨["GET"], "/a", .service ⟨0⟩, [], none⟩,
        ⟨[], "/a", .str "late", [("page", .int 1)], some "x.org"⟩ ] ∧
    ∃ after : Building Empty,
      mounting.construct (Constructors.builtin.revive mounting.lookup "RouteCollection"
        (Router.afterAdds [] mixedCalls).exported) mixedBuilding = (.ok (.service ⟨1⟩), after) ∧
      after.heap.get? ⟨1⟩ = some (.router (Router.afterAdds [] mixedCalls)) ∧
      (after.heap.invoke mounting.services (.service ⟨1⟩) "match" [.str "get", .str "/a"]).1 =
        .ok (.service ⟨0⟩) ∧
      (after.heap.invoke mounting.services (.service ⟨1⟩) "match" [.str "put", .str "/a"]).1 =
        .ok (.str "late") := by
  have hx : mixedBuilding.heap.get? ⟨0⟩ = some (.router (Router.afterAdds [] mixedCalls)) := rfl
  obtain ⟨hadded, -, after, hconstruct, hget, -, hanswers⟩ := revived_is_original (c := mounting) hx
  refine ⟨hx, hadded.trans (by decide), after, hconstruct, hget, ?_, ?_⟩
  · exact (hanswers "match" [.str "get", .str "/a"]).trans (by decide)
  · exact (hanswers "match" [.str "put", .str "/a"]).trans (by decide)

end Container
end ServiceGraph
