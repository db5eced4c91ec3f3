import ServiceGraph.Proofs.Container.Trace

/-!
# What a look-up does

A look-up hands out what is remembered, or refuses, or enters the id and carries out the plan of
its definition.

* `Building.enter_of_mem`, `enter_of_not_mem`: ids that are in flight and ids that are not;
* `Container.within_build`: building a definition is its plan, and then leaving the id;
* `Container.leave_get?`: what is remembered after that;
* `Container.resolve_induction`: what holds of each kind of look-up holds of all.
-/

namespace ServiceGraph

namespace Building

variable {inFlight : List String} {id : String}

theorem enter_of_mem (h : id ∈ inFlight) : enter inFlight id =
    .error (.circularDependency (inFlight.dropWhile (· ≠ id) ++ [id])) := by
  unfold enter
  rw [if_pos (by simpa using h)]

theorem enter_of_not_mem (h : id ∉ inFlight) : enter inFlight id = .ok (inFlight ++ [id]) := by
  unfold enter
  rw [if_neg (by simpa using h)]

end Building

namespace Container

variable {σ : Type} {c : Container σ} {id : String} {b : Building σ}

theorem within_of_mem {α : Type} (h : id ∈ b.inFlight) (work : Build σ α) :
    Build.within id work b =
      (.error (.circularDependency (b.inFlight.dropWhile (· ≠ id) ++ [id])), b) := by
  unfold Build.within
  rw [Building.enter_of_mem h]

theorem within_throw (h : id ∉ b.inFlight) (e : ContainerError) :
    Build.within id (throw e) b = ((.error e : Except ContainerError Value), b) := by
  unfold Build.within
  rw [Building.enter_of_not_mem h]
  show (Except.error e, { b with inFlight := (b.inFlight ++ [id]).dropLast }) = _
  rw [List.dropLast_concat]

theorem within_build (h : id ∉ b.inFlight) (resolve : String → Build σ Value) (d : Definition) :
    Build.within id (c.build resolve d) b =
      leave d ((c.definitionPlan d).follow resolve { b with inFlight := b.inFlight ++ [id] }) := by
  rw [build_eq, ← recordEntering_fst d id
    (fun b => ((c.definitionPlan d).follow resolve b, [])) _ (fun _ => rfl)]
  unfold recordEntering
  rw [Building.enter_of_not_mem h]

/-- what is remembered after the work on a definition was so before, or is what came of it -/
theorem leave_get? {d : Definition} {o : Except ContainerError Value × Building σ} {i : String}
    {v : Value} (h : (leave d o).2.instances.get? i = some v) :
    o.2.instances.get? i = some v ∨ (i = d.id ∧ o.1 = .ok v) := by
  obtain ⟨r, b⟩ := o
  cases r with
  | error e => exact .inl h
  | ok w =>
    have h : (if d.shared then b.instances.insert d.id w else b.instances).get? i = some v := h
    split at h
    · rw [OrderedMap.get?_insert] at h
      split at h
      · next hi =>
        cases h
        exact .inr ⟨hi.symm, rfl⟩
      · exact .inl h
    · exact .inl h

/-- what holds of the five kinds of look-ups holds of every look-up -/
theorem resolve_induction
    {P : Nat → String → Building σ → Except ContainerError Value × Building σ → Prop}
    (known : ∀ room id b v, b.instances.get? id = some v → P room id b (.ok v, b))
    (undefined : ∀ room id b, b.instances.get? id = none → c.registry.find? id = none →
      P room id b (.error (.unknownService id), b))
    (refused : ∀ room id b d, b.instances.get? id = none → c.registry.find? id = some d →
      id ∈ b.inFlight →
      P room id b (.error (.circularDependency (b.inFlight.dropWhile (· ≠ id) ++ [id])), b))
    (full : ∀ id b d, b.instances.get? id = none → c.registry.find? id = some d →
      id ∉ b.inFlight → P 0 id b (.error (.unknownService id), b))
    (entered : ∀ room id b d, b.instances.get? id = none → c.registry.find? id = some d →
      id ∉ b.inFlight → (∀ other b', P room other b' (c.resolve room other b')) →
        P (room + 1) id b (leave d ((c.definitionPlan d).follow (c.resolve room)
          { b with inFlight := b.inFlight ++ [id] })))
    (room : Nat) (id : String) (b : Building σ) : P room id b (c.resolve room id b) := by
  induction room generalizing id b with
  | zero =>
    rw [resolve_eq]
    cases hi : b.instances.get? id with
    | some v => exact known 0 id b v hi
    | none =>
      cases hd : c.registry.find? id with
      | none => exact undefined 0 id b hi hd
      | some d =>
        dsimp only
        by_cases hmem : id ∈ b.inFlight
        · rw [within_of_mem hmem]
          exact refused 0 id b d hi hd hmem
        · rw [within_throw hmem]
          exact full id b d hi hd hmem
  | succ room ih =>
    rw [resolve_eq]
    cases hi : b.instances.get? id with
    | some v => exact known (room + 1) id b v hi
    | none =>
      cases hd : c.registry.find? id with
      | none => exact undefined (room + 1) id b hi hd
      | some d =>
        dsimp only
        by_cases hmem : id ∈ b.inFlight
        · rw [within_of_mem hmem]
          exact refused (room + 1) id b d hi hd hmem
        · rw [within_build hmem]
          exact entered room id b d hi hd hmem ih

end Container
end ServiceGraph
