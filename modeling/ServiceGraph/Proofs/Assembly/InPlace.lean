import ServiceGraph.Proofs.Routes.Contributions
import ServiceGraph.Proofs.Routes.Deferred
import ServiceGraph.Proofs.Routes.Forest

/-!
# Assembly in place

The operations on pipelines and route collections give a new state or an error. Here they are carried
out step by step on a state that is there, where an error may come between two changes and what was
changed before it stays changed. They come to the same: no operation stops after its first change.

* `InPlace σ α`: work on a state that may stop; `InPlace.ask` looks at the state and may stop,
  `InPlace.alter` changes it;
* `InPlace.kept f`: the state that `f` gives, or the old one with its error;
* `PipelineOperation`, `RouteOperation`: the operations; `outcome` is what the library makes of one, and
  `inPlace` the same step by step;
* `PipelineOperation.inPlace_eq`, `RouteOperation.inPlace_eq`: nothing is left half done.
-/

namespace ServiceGraph

/-- work on a state that may stop with an error; what was changed before stays changed -/
abbrev InPlace (σ α : Type) := ExceptT AssemblyError (StateM σ) α

namespace InPlace

variable {σ α β : Type}

/-- look at the state, and stop if there is an error -/
def ask (f : σ → Except AssemblyError α) : InPlace σ α := fun s => (f s, s)

def look (f : σ → α) : InPlace σ α := ask fun s => .ok (f s)

def alter (f : σ → σ) : InPlace σ Unit := fun s => (.ok (), f s)

/-- the state that a function gives, or the old one with its error -/
def kept (f : σ → Except AssemblyError (α × σ)) : InPlace σ α := fun s =>
  match f s with
  | .ok (a, t) => (.ok a, t)
  | .error e => (.error e, s)

theorem pure_apply (a : α) (s : σ) : (pure a : InPlace σ α) s = (.ok a, s) := rfl

theorem bind_apply (x : InPlace σ α) (f : α → InPlace σ β) (s : σ) :
    (x >>= f) s =
      match x s with
      | (.ok a, t) => f a t
      | (.error e, t) => (.error e, t) := by
  show (ExceptT.bindCont f (x s).1) (x s).2 = _
  cases x s with
  | mk r t => cases r <;> rfl

theorem ask_bind (f : σ → Except AssemblyError α) (rest : α → InPlace σ β) (s : σ) :
    (ask f >>= rest) s =
      match f s with
      | .ok a => rest a s
      | .error e => (.error e, s) := by
  rw [bind_apply, ask]
  cases f s <;> rfl

theorem look_bind (f : σ → α) (rest : α → InPlace σ β) (s : σ) :
    (look f >>= rest) s = rest (f s) s := ask_bind _ _ s

theorem alter_bind (f : σ → σ) (rest : Unit → InPlace σ β) (s : σ) :
    (alter f >>= rest) s = rest () (f s) := bind_apply _ _ s

end InPlace

/-! ## pipelines -/

namespace Pipeline

open InPlace

variable {p : Pipeline} {out : List Node} {done : List String}

/-- stop at the first anchor that has content and no position -/
def checkPlaced : List (String × Anchor) → InPlace Pipeline Unit
  | [] => pure ()
  | a :: rest => do
    ask fun p =>
      if a.2.content.isSome && !p.references a.1 then .error (.unreferencedAnchor p.name a.1)
      else .ok ()
    checkPlaced rest

/-- collect the nodes, one entry after the other; `out` holds those so far, and `done` the anchors that
already gave their content -/
def collect (out : List Node) (done : List String) : List Entry → InPlace Pipeline (List Node)
  | [] => pure out
  | .item _ node :: rest => collect (out ++ [node]) done rest
  | .anchor name :: rest =>
    if done.contains name then collect out done rest
    else do
      let content ← ask fun p =>
        match (p.anchorOf name).content with
        | none => .error (.unresolvedAnchor p.name name)
        | some content => .ok content
      collect (out ++ content) (name :: done) rest

def flushed (a : String × Anchor) : String × Anchor := (a.1, { a.2 with state := .flushed })

def flushAll : List String → InPlace Pipeline Unit
  | [] => pure ()
  | name :: rest => do
    alter fun p => { p with anchors := p.anchors.map fun a => if a.1 = name then flushed a else a }
    flushAll rest

/-- the final order, in place: the checks, then the nodes, then the marks -/
def assembleInPlace : InPlace Pipeline (List Node) := do
  ask ensureOpen
  checkPlaced (← look Pipeline.anchors)
  let nodes ← collect [] [] (← look Pipeline.entries)
  flushAll (← look fun p => p.anchors.keys)
  alter fun p => { p with assembled := true }
  return nodes

theorem checkPlaced_apply (p : Pipeline) (anchors : List (String × Anchor)) :
    checkPlaced anchors p =
      (match (anchors.find? fun a => a.2.content.isSome && !p.references a.1).map Prod.fst with
        | some name => .error (.unreferencedAnchor p.name name)
        | none => .ok (), p) := by
  induction anchors with
  | nil => rfl
  | cons a rest ih =>
    rw [checkPlaced, List.find?_cons, ask_bind]
    cases a.2.content.isSome && !p.references a.1 with
    | true => rfl
    | false => exact ih

theorem collect_apply (p : Pipeline) (out : List Node) (done : List String) (entries : List Entry) :
    collect out done entries p = ((p.spliced done entries).map (out ++ ·), p) := by
  induction entries generalizing out done with
  | nil =>
    rw [collect, spliced, Except.map, List.append_nil]
    rfl
  | cons entry rest ih =>
    cases entry with
    | item key node =>
      rw [collect, ih, spliced]
      cases p.spliced done rest with
      | error e => rfl
      | ok nodes => simp [bind, Except.bind, pure, Except.pure, Except.map]
    | anchor name =>
      rw [collect, spliced]
      split
      · exact ih out done
      · rw [ask_bind]
        cases (p.anchorOf name).content with
        | none => rfl
        | some content =>
          dsimp only
          rw [ih]
          cases p.spliced (name :: done) rest with
          | error e => rfl
          | ok nodes => simp [bind, Except.bind, pure, Except.pure, Except.map]

theorem flushAll_apply (p : Pipeline) (names : List String) :
    flushAll names p =
      (.ok (), { p with anchors := p.anchors.map fun a => if a.1 ∈ names then flushed a else a }) := by
  induction names generalizing p with
  | nil => simp [flushAll, pure_apply]
  | cons name rest ih =>
    rw [flushAll, alter_bind, ih]
    have hboth : ∀ a : String × Anchor,
        (if (if a.1 = name then flushed a else a).1 ∈ rest then
          flushed (if a.1 = name then flushed a else a)
        else if a.1 = name then flushed a else a) =
          if a.1 ∈ name :: rest then flushed a else a := by
      intro a
      by_cases h : a.1 = name
      · simp [h, flushed]
      · simp [h]
    simp only [List.map_map, Function.comp_def, hboth]

theorem flushAll_keys (p : Pipeline) :
    flushAll p.anchors.keys p = (.ok (), { p with anchors := p.anchors.map flushed }) := by
  have hall : p.anchors.map (fun a => if a.1 ∈ p.anchors.keys then flushed a else a) =
      p.anchors.map flushed :=
    List.map_congr_left fun a ha => if_pos (List.mem_map_of_mem ha)
  rw [flushAll_apply, hall]

/-- an assembly that fails in place has changed nothing -/
theorem assembleInPlace_eq : assembleInPlace = kept assemble := by
  funext p
  rw [kept, assemble, assembleInPlace, ask_bind]
  cases p.ensureOpen with
  | error e => rfl
  | ok _ =>
    dsimp only
    rw [look_bind, bind_apply, checkPlaced_apply, ← unreferenced?]
    cases p.unreferenced? with
    | some name => rfl
    | none =>
      dsimp only
      rw [look_bind, bind_apply, collect_apply]
      cases p.spliced [] p.entries with
      | error e => rfl
      | ok nodes =>
        show (look _ >>= _) p = _
        rw [look_bind, bind_apply, flushAll_keys]
        rfl

end Pipeline

inductive PipelineOperation where
  | contribute (c : PipelineChange)
  | assemble

namespace PipelineOperation

open InPlace

/-- what an operation gives, and the pipeline after it -/
def outcome : PipelineOperation → Pipeline → Except AssemblyError (Option (List Node) × Pipeline)
  | contribute c, p => (p.change c).map (none, ·)
  | assemble, p => p.assemble.map fun (nodes, p) => (some nodes, p)

def contributeInPlace : PipelineChange → InPlace Pipeline Unit
  | .touch => pure ()
  | .append node => do
    ask Pipeline.ensureOpen
    alter fun p => { p with entries := p.entries ++ [.item none node] }
  | .appendKeyed key node => do
    ask Pipeline.ensureOpen
    alter fun p => { p with entries := Pipeline.placeKeyed key node p.entries }
  | .anchor name => do
    ask Pipeline.ensureOpen
    alter fun p => { p with anchors := p.anchors.insert name (p.anchorOf name) }
    alter fun p => { p with entries := p.entries ++ [.anchor name] }
  | .resolveAnchor name content => do
    ask Pipeline.ensureOpen
    alter fun p => { p with anchors := p.anchors.insert name ⟨some content, .resolved⟩ }

def inPlace : PipelineOperation → InPlace Pipeline (Option (List Node))
  | contribute c => do
    contributeInPlace c
    return none
  | assemble => do return some (← Pipeline.assembleInPlace)

theorem contributeInPlace_eq (c : PipelineChange) :
    contributeInPlace c = kept fun p => (p.change c).map ((), ·) := by
  funext p
  rw [kept]
  cases c with
  | touch => rfl
  | append node =>
    rw [contributeInPlace, ask_bind, Pipeline.change, Pipeline.append]
    cases p.ensureOpen <;> rfl
  | appendKeyed key node =>
    rw [contributeInPlace, ask_bind, Pipeline.change, Pipeline.appendKeyed]
    cases p.ensureOpen <;> rfl
  | anchor name =>
    rw [contributeInPlace, ask_bind, Pipeline.change, Pipeline.anchor]
    cases p.ensureOpen <;> rfl
  | resolveAnchor name content =>
    rw [contributeInPlace, ask_bind, Pipeline.change, Pipeline.resolveAnchor]
    cases p.ensureOpen <;> rfl

/-- an operation on a pipeline that fails in place has changed nothing -/
theorem inPlace_eq (op : PipelineOperation) : op.inPlace = kept op.outcome := by
  funext p
  cases op with
  | contribute c =>
    rw [inPlace, bind_apply, contributeInPlace_eq, kept, kept, outcome]
    cases p.change c <;> rfl
  | assemble =>
    rw [inPlace, bind_apply, Pipeline.assembleInPlace_eq, kept, kept, outcome]
    cases p.assemble <;> rfl

end PipelineOperation

/-! ## route collections -/

namespace RouteAssembler

open InPlace

/-- the table, in place: the checks, the routes, the last check, and then the mark -/
def flattenInPlace (order : List String) : InPlace RouteAssembler RouteTable := do
  ask ensureOpen
  ask checkConsumed
  ask fun a => a.checkParents a.collections
  let routes ← look fun a => a.routesOf (a.forest order)
  ask fun a =>
    match a.stray? ((a.forest order).map (·.1.id)) with
    | some id => .error (.collectionCycle id)
    | none => .ok ()
  alter fun a => { a with assembled := true }
  return ⟨routes⟩

/-- a table that fails in place has changed nothing -/
theorem flattenInPlace_eq (order : List String) : flattenInPlace order = kept (flatten · order) := by
  funext a
  rw [kept, flatten, flattenInPlace, ask_bind]
  cases a.ensureOpen with
  | error e => rfl
  | ok _ =>
    dsimp only
    rw [ask_bind]
    cases a.checkConsumed with
    | error e => rfl
    | ok _ =>
      dsimp only
      rw [ask_bind]
      cases a.checkParents a.collections with
      | error e => rfl
      | ok _ =>
        dsimp only
        rw [look_bind, ask_bind]
        simp only [bind, Except.bind]
        cases a.stray? ((a.forest order).map (·.1.id)) <;> rfl

end RouteAssembler

namespace RouteOperation

open InPlace

def outcome : RouteOperation → RouteAssembler →
    Except AssemblyError (Option RouteTable × RouteAssembler)
  | contribute c, a => (a.change c).map (none, ·)
  | flatten order, a => (a.flatten order).map fun (table, a) => (some table, a)

def contributeInPlace : RouteChange → InPlace RouteAssembler Unit
  | .addRoot r => do
    ask RouteAssembler.ensureOpen
    alter fun a => { a with roots := a.roots ++ [r] }
  | .configure reference group origin => do
    ask RouteAssembler.ensureOpen
    match ← look (·.collection? (groupId reference)) with
    | some _ => alter (·.edit (groupId reference) fun c => { c with group := c.group.overlay group })
    | none =>
      alter fun a => { a with
        deferred := a.deferred.insert (groupId reference)
          ((a.deferred.get? (groupId reference)).getD [] ++ [⟨group, origin⟩]) }
  | .create id owner parent group routes => do
    ask RouteAssembler.ensureOpen
    ask fun a =>
      match a.collection? id with
      | some _ => .error (.duplicateCollection id)
      | none => .ok ()
    let waiting ← look fun a => (a.deferred.get? id).getD []
    alter fun a => { a with deferred := a.deferred.erase id }
    alter fun a => { a with
      collections := a.collections ++ [⟨id, owner, parent, overlaid group waiting, []⟩] }
    alter (·.edit id fun c => { c with routes := c.routes ++ routes })
  | .edit id f => alter (·.edit id f)

def inPlace : RouteOperation → InPlace RouteAssembler (Option RouteTable)
  | contribute c => do
    contributeInPlace c
    return none
  | flatten order => do return some (← RouteAssembler.flattenInPlace order)

theorem contributeInPlace_eq (c : RouteChange) :
    contributeInPlace c = kept fun a => (a.change c).map ((), ·) := by
  funext a
  rw [kept]
  cases c with
  | addRoot r =>
    rw [contributeInPlace, ask_bind, RouteAssembler.change, RouteAssembler.addRoot]
    cases a.ensureOpen <;> rfl
  | configure reference group origin =>
    rw [contributeInPlace, ask_bind, RouteAssembler.change, RouteAssembler.configure]
    cases a.ensureOpen with
    | error e => rfl
    | ok _ =>
      dsimp only
      rw [look_bind]
      cases a.collection? (groupId reference) <;> rfl
  | create id owner parent group routes =>
    rw [contributeInPlace, ask_bind, RouteAssembler.change, RouteAssembler.create]
    cases a.ensureOpen with
    | error e => rfl
    | ok _ =>
      dsimp only
      rw [ask_bind]
      cases a.collection? id <;> rfl
  | edit id f => rfl

/-- an operation on route collections that fails in place has changed nothing -/
theorem inPlace_eq (op : RouteOperation) : op.inPlace = kept op.outcome := by
  funext a
  cases op with
  | contribute c =>
    rw [inPlace, bind_apply, contributeInPlace_eq, kept, kept, outcome]
    cases a.change c <;> rfl
  | flatten order =>
    rw [inPlace, bind_apply, RouteAssembler.flattenInPlace_eq, kept, kept, outcome]
    cases a.flatten order <;> rfl

end RouteOperation
end ServiceGraph
