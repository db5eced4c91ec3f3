import ServiceGraph.Proofs.Assembly.InPlace

/-!
# Assembly succeeds once

A pipeline and the route collections are worked on in place. An operation that fails, an assembly among
them, leaves everything as it was, so that it might as well not have been asked for. After an assembly
that succeeds no other is accepted and no contribution, except that the collections can be changed by
hand.

* `InPlace.session`, `InPlace.after`: the answers to operations one after the other with the states they
  leave, and the last state;
* `FinishesOnce`: a failure leaves nothing behind, and a success closes;
* `closed_after`, `finishesOnce_of_closed`: it takes a mark that finishing sets, that stays, and under
  which operations are refused;
* `Pipeline.Finished`: that mark, with all anchors flushed;
* `assembly_finishes_once`: the result.
-/

namespace ServiceGraph

namespace InPlace

variable {Op σ α : Type} {act : Op → InPlace σ α}

/-- the answers to operations one after the other, each with the state that it leaves -/
def session (act : Op → InPlace σ α) : List Op → σ → List (Except AssemblyError α × σ)
  | [], _ => []
  | op :: ops, s => act op s :: session act ops (act op s).2

def after (act : Op → InPlace σ α) : List Op → σ → σ
  | [], s => s
  | op :: ops, s => after act ops (act op s).2

theorem length_session (ops : List Op) (s : σ) : (session act ops s).length = ops.length := by
  induction ops generalizing s with
  | nil => rfl
  | cons op ops ih => rw [session, List.length_cons, ih, List.length_cons]

theorem session_append (ops more : List Op) (s : σ) :
    session act (ops ++ more) s = session act ops s ++ session act more (after act ops s) := by
  induction ops generalizing s with
  | nil => rfl
  | cons op ops ih => rw [List.cons_append, session, ih, session, after, List.cons_append]

theorem after_append (ops more : List Op) (s : σ) :
    after act (ops ++ more) s = after act more (after act ops s) := by
  induction ops generalizing s with
  | nil => rfl
  | cons op ops ih => rw [List.cons_append, after, ih, after]

/-- an operation that leaves the state as it is can be left out of a session -/
theorem eraseIdx_session {before later : List Op} {op : Op} {s : σ}
    (h : (act op (after act before s)).2 = after act before s) :
    (session act (before ++ op :: later) s).eraseIdx before.length =
      session act (before ++ later) s := by
  rw [session_append, session_append, session, h,
    List.eraseIdx_append_of_length_le (length_session before s).le, length_session, Nat.sub_self,
    List.eraseIdx_cons_zero]

theorem kept_eq_ok_iff {f : σ → Except AssemblyError (α × σ)} {s t : σ} {a : α} :
    kept f s = (.ok a, t) ↔ f s = .ok (a, t) := by
  rw [kept]
  cases f s with
  | error e =>
    rw [Prod.mk.injEq]
    constructor
    · intro h
      cases h.1
    · intro h
      cases h
  | ok r =>
    cases r
    rw [Prod.mk.injEq, Except.ok.injEq, Except.ok.injEq, Prod.mk.injEq]

theorem kept_eq_error {f : σ → Except AssemblyError (α × σ)} {s : σ} {e : AssemblyError}
    (h : (kept f s).1 = .error e) : kept f s = (.error e, s) := by
  rw [kept] at h ⊢
  cases hf : f s with
  | ok r =>
    rw [hf] at h
    cases h
  | error e' =>
    rw [hf] at h
    cases h
    rfl

/-- what accepted operations keep holds after any, since a refused one changes nothing -/
theorem after_induction {outcome : Op → σ → Except AssemblyError (α × σ)} {P : σ → Prop} {s : σ}
    (hact : ∀ op, act op = kept (outcome op))
    (hstep : ∀ op s v t, P s → outcome op s = .ok (v, t) → P t) (hs : P s) (ops : List Op) :
    P (after act ops s) := by
  induction ops generalizing s with
  | nil => exact hs
  | cons op ops ih =>
    rw [after]
    apply ih
    rw [hact, kept]
    cases h : outcome op s with
    | ok r => exact hstep op s r.1 r.2 hs h
    | error e => exact hs

end InPlace

open InPlace

/-- work in place that is finished at most once. `outcome` is what an operation comes to, some operations
finish, and some, these among them, are guarded: they are accepted only before that. -/
structure FinishesOnce {Op σ α : Type} (act : Op → InPlace σ α)
    (outcome : Op → σ → Except AssemblyError (α × σ)) (finishing guarded : Op → Prop)
    (name : σ → String) : Prop where
  guards : ∀ op, finishing op → guarded op
  /-- done step by step, an operation comes to its outcome, or fails and leaves everything as it was -/
  agrees : ∀ op s, (∃ v t, outcome op s = .ok (v, t) ∧ act op s = (.ok v, t)) ∨
    ∃ e, outcome op s = .error e ∧ act op s = (.error e, s)
  /-- without an operation that fails, all other answers and the states they leave are the same -/
  skipped : ∀ before op later s e, (act op (after act before s)).1 = .error e →
    (session act (before ++ op :: later) s).eraseIdx before.length = session act (before ++ later) s
  /-- when one that finishes has succeeded, then after any others every guarded one is refused, and
  changes nothing -/
  closed : ∀ before op later s v, finishing op → (act op (after act before s)).1 = .ok v →
    ∀ op', guarded op' →
      act op' (after act (before ++ op :: later) s) =
        (.error (.alreadyAssembled (name s)), after act (before ++ op :: later) s)

section

variable {Op σ α : Type} {act : Op → InPlace σ α} {outcome : Op → σ → Except AssemblyError (α × σ)}
  {finishing guarded : Op → Prop} {name : σ → String} {isClosed : σ → Prop}

/-- a mark that finishing sets, and that stays -/
theorem closed_after (hact : ∀ op, act op = kept (outcome op))
    (hfinish : ∀ op s v t, finishing op → outcome op s = .ok (v, t) → isClosed t)
    (hstays : ∀ op s v t, isClosed s → outcome op s = .ok (v, t) → isClosed t)
    {before : List Op} {op : Op} {s : σ} {v : α} (hop : finishing op)
    (hv : (act op (after act before s)).1 = .ok v) (later : List Op) :
    isClosed (after act (before ++ op :: later) s) := by
  have hdone : isClosed (act op (after act before s)).2 := by
    rw [hact] at hv ⊢
    exact hfinish op _ v _ hop (kept_eq_ok_iff.mp (Prod.ext hv rfl))
  -- the mark is set by then, and `later` starts from there
  rw [after_append, after]
  exact after_induction hact hstays hdone later

/-- it takes a mark that finishing sets, that stays, and under which guarded operations are refused -/
theorem finishesOnce_of_closed (isClosed : σ → Prop) (hguards : ∀ op, finishing op → guarded op)
    (hact : ∀ op, act op = kept (outcome op))
    (hname : ∀ op s v t, outcome op s = .ok (v, t) → name t = name s)
    (hfinish : ∀ op s v t, finishing op → outcome op s = .ok (v, t) → isClosed t)
    (hstays : ∀ op s v t, isClosed s → outcome op s = .ok (v, t) → isClosed t)
    (hrefused : ∀ op s, isClosed s → guarded op →
      outcome op s = .error (.alreadyAssembled (name s))) :
    FinishesOnce act outcome finishing guarded name where
  guards := hguards
  agrees op s := by
    rw [hact]
    cases h : outcome op s with
    | ok r => exact .inl ⟨r.1, r.2, rfl, kept_eq_ok_iff.mpr h⟩
    | error e => exact .inr ⟨e, rfl, by rw [kept, h]⟩
  skipped before op later s e he := by
    apply eraseIdx_session
    rw [hact] at he ⊢
    rw [kept_eq_error he]
  closed before op later s v hop hv op' hop' := by
    have hfails := hrefused op' _ (closed_after hact hfinish hstays hop hv later) hop'
    have hnamed : name (after act (before ++ op :: later) s) = name s :=
      after_induction (P := fun t => name t = name s) hact
        (fun op t v u ht h => (hname op t v u h).trans ht) rfl _
    rw [hnamed] at hfails
    rw [hact, kept, hfails]

end

/-! ## pipelines -/

namespace Pipeline

variable {p last : Pipeline} {nodes : List Node}

theorem ensureOpen_of_assembled (h : p.assembled = true) :
    p.ensureOpen = .error (.alreadyAssembled p.name) := by
  rw [ensureOpen, if_pos h]

theorem assemble_eq_ok (h : p.assemble = .ok (nodes, last)) :
    last = { p with anchors := p.anchors.map flushed, assembled := true } := by
  rw [assemble, AssemblyError.check_eq_ok_iff] at h
  obtain ⟨-, h⟩ := h
  cases hplaced : p.unreferenced? with
  | some name =>
    rw [hplaced] at h
    cases h
  | none =>
    rw [hplaced] at h
    obtain ⟨spliced, -, h⟩ := AssemblyError.bind_eq_ok_iff.mp h
    cases h
    rfl

def Finished (p : Pipeline) : Prop :=
  p.assembled = true ∧ ∀ a ∈ p.anchors, a.2.state = .flushed

theorem finished_of_assemble (h : p.assemble = .ok (nodes, last)) : last.Finished := by
  rw [assemble_eq_ok h]
  refine ⟨rfl, fun a ha => ?_⟩
  obtain ⟨known, -, rfl⟩ := List.mem_map.mp ha
  rfl

theorem change_of_assembled (h : p.assembled = true) {c : PipelineChange} (hc : c ≠ .touch) :
    p.change c = .error (.alreadyAssembled p.name) := by
  have hrefused := ensureOpen_of_assembled h
  cases c with
  | touch => exact absurd rfl hc
  | append node => rw [change, append, hrefused]; rfl
  | appendKeyed key node => rw [change, appendKeyed, hrefused]; rfl
  | anchor name => rw [change, anchor, hrefused]; rfl
  | resolveAnchor name content => rw [change, resolveAnchor, hrefused]; rfl

theorem name_change {c : PipelineChange} (h : p.change c = .ok last) : last.name = p.name := by
  cases c with
  | touch =>
    cases h
    rfl
  | append node | appendKeyed key node | anchor name | resolveAnchor name content =>
    obtain ⟨-, h⟩ := AssemblyError.check_eq_ok_iff.mp h
    cases h
    rfl

end Pipeline

namespace PipelineOperation

variable {op : PipelineOperation} {p last : Pipeline} {v : Option (List Node)}

/-- the operation is accepted only before the assembly; asking for the pipeline always is -/
def Guarded : PipelineOperation → Prop
  | contribute .touch => False
  | _ => True

/-- what an accepted operation is -/
theorem outcome_cases (h : op.outcome p = .ok (v, last)) :
    (∃ c, op = contribute c ∧ p.change c = .ok last) ∨
      ∃ nodes, op = assemble ∧ p.assemble = .ok (nodes, last) := by
  cases op with
  | contribute c =>
    obtain ⟨t, ht, heq⟩ := AssemblyError.map_eq_ok_iff.mp h
    cases heq
    exact .inl ⟨c, rfl, ht⟩
  | assemble =>
    obtain ⟨r, hr, heq⟩ := AssemblyError.map_eq_ok_iff.mp h
    cases heq
    exact .inr ⟨r.1, rfl, hr⟩

theorem outcome_of_assembled (h : p.assembled = true) (hop : op.Guarded) :
    op.outcome p = .error (.alreadyAssembled p.name) := by
  cases op with
  | contribute c =>
    have hc : c ≠ .touch := by
      rintro rfl
      exact hop
    rw [outcome, Pipeline.change_of_assembled h hc]
    rfl
  | assemble =>
    rw [outcome, Pipeline.assemble, Pipeline.ensureOpen_of_assembled h]
    rfl

/-- what is still accepted after the assembly leaves the pipeline as it is -/
theorem eq_of_assembled (h : p.assembled = true) (hok : op.outcome p = .ok (v, last)) : last = p := by
  by_cases hop : op.Guarded
  · rw [outcome_of_assembled h hop] at hok
    cases hok
  · rcases outcome_cases hok with ⟨c, rfl, hc⟩ | ⟨nodes, rfl, -⟩
    · cases c with
      | touch =>
        cases hc
        rfl
      | append | appendKeyed | anchor | resolveAnchor => exact absurd trivial hop
    · exact absurd trivial hop

theorem finished_of_assemble (hop : op = assemble) (h : op.outcome p = .ok (v, last)) :
    last.Finished := by
  rcases outcome_cases h with ⟨c, hc, -⟩ | ⟨nodes, -, h⟩
  · rw [hop] at hc
    cases hc
  · exact Pipeline.finished_of_assemble h

theorem finished_of_finished (h : p.Finished) (hok : op.outcome p = .ok (v, last)) :
    last.Finished := by
  rw [eq_of_assembled h.1 hok]
  exact h

theorem finishesOnce : FinishesOnce inPlace outcome (· = assemble) Guarded Pipeline.name := by
  apply finishesOnce_of_closed Pipeline.Finished
  case hguards =>
    rintro op rfl
    trivial
  case hact => exact inPlace_eq
  case hname =>
    intro op p v last h
    rcases outcome_cases h with ⟨c, -, h⟩ | ⟨nodes, -, h⟩
    · exact Pipeline.name_change h
    · rw [Pipeline.assemble_eq_ok h]
  case hfinish => exact fun _ _ _ _ => finished_of_assemble
  case hstays => exact fun _ _ _ _ => finished_of_finished
  case hrefused => exact fun _ _ h => outcome_of_assembled h.1

end PipelineOperation

/-! ## route collections -/

namespace RouteOperation

variable {op : RouteOperation} {a last : RouteAssembler} {v : Option RouteTable}

def Flattens : RouteOperation → Prop
  | contribute _ => False
  | flatten _ => True

/-- the operation is accepted only before the table is made; a change of one collection by hand always
is -/
def Guarded : RouteOperation → Prop
  | contribute (.edit _ _) => False
  | _ => True

theorem outcome_of_assembled (h : a.assembled = true) (hop : op.Guarded) :
    op.outcome a = .error (.alreadyAssembled "route collections") := by
  have hrefused : a.ensureOpen = .error (.alreadyAssembled "route collections") := by
    rw [RouteAssembler.ensureOpen, if_pos h]
  cases op with
  | flatten order =>
    rw [outcome, RouteAssembler.flatten, hrefused]
    rfl
  | contribute c =>
    cases c with
    | addRoot r =>
      rw [outcome, RouteAssembler.change, RouteAssembler.addRoot, hrefused]
      rfl
    | configure reference group origin =>
      rw [outcome, RouteAssembler.change, RouteAssembler.configure, hrefused]
      rfl
    | create id owner parent group routes =>
      rw [outcome, RouteAssembler.change, RouteAssembler.create, hrefused]
      rfl
    | edit id f => exact hop.elim

theorem assembled_of_flattens (hop : op.Flattens) (h : op.outcome a = .ok (v, last)) :
    last.assembled = true := by
  cases op with
  | contribute c => exact hop.elim
  | flatten order =>
    obtain ⟨r, hr, heq⟩ := AssemblyError.map_eq_ok_iff.mp h
    cases heq
    obtain ⟨-, -, -, -, -, hlast⟩ := RouteAssembler.flatten_eq_ok_iff.mp hr
    rw [hlast]

/-- a collection may still be changed by hand; the mark stays -/
theorem assembled_of_assembled (h : a.assembled = true) (hok : op.outcome a = .ok (v, last)) :
    last.assembled = true := by
  by_cases hop : op.Guarded
  · rw [outcome_of_assembled h hop] at hok
    cases hok
  · -- only a change by hand is left
    cases op with
    | flatten order => exact absurd trivial hop
    | contribute c =>
      cases c with
      | edit id f =>
        cases hok
        exact h
      | addRoot | configure | create => exact absurd trivial hop

theorem finishesOnce : FinishesOnce inPlace outcome Flattens Guarded fun _ => "route collections" := by
  apply finishesOnce_of_closed fun a => a.assembled = true
  case hguards =>
    intro op hop
    cases op with
    | contribute c => exact hop.elim
    | flatten order => trivial
  case hact => exact inPlace_eq
  case hname => exact fun _ _ _ _ _ => rfl
  case hfinish => exact fun _ _ _ _ => assembled_of_flattens
  case hstays => exact fun _ _ _ _ => assembled_of_assembled
  case hrefused => exact fun _ _ => outcome_of_assembled

end RouteOperation

/-- **Assembly succeeds once.** Any operations on pipelines and on route collections come to their
outcomes, also where they are done step by step and stop in between. One that fails, an assembly among
them, changes nothing, and no other answer depends on whether it was tried. After an assembly that
succeeds all anchors are marked, and every guarded operation is refused, another assembly among them. -/
theorem assembly_finishes_once :
    FinishesOnce PipelineOperation.inPlace PipelineOperation.outcome (· = .assemble)
      PipelineOperation.Guarded Pipeline.name ∧
    FinishesOnce RouteOperation.inPlace RouteOperation.outcome RouteOperation.Flattens
      RouteOperation.Guarded (fun _ => "route collections") ∧
    ∀ before later p v,
      (PipelineOperation.inPlace .assemble (after PipelineOperation.inPlace before p)).1 = .ok v →
      ∀ a ∈ (after PipelineOperation.inPlace (before ++ .assemble :: later) p).anchors,
        a.2.state = .flushed := by
  refine ⟨PipelineOperation.finishesOnce, RouteOperation.finishesOnce, fun before later p v h => ?_⟩
  have hfinished := closed_after PipelineOperation.inPlace_eq
    (fun _ _ _ _ => PipelineOperation.finished_of_assemble)
    (fun _ _ _ _ => PipelineOperation.finished_of_finished) rfl h later
  exact hfinished.2

/-- an assembly that fails, the missing content, an assembly that succeeds, and one that is refused -/
example :
    (session PipelineOperation.inPlace
      [.contribute (.anchor "extra"), .assemble, .contribute (.resolveAnchor "extra" [.literal .null]),
        .assemble, .assemble] (.empty "menu")).map Prod.fst =
      [.ok none, .error (.unresolvedAnchor "menu" "extra"), .ok none, .ok (some [.literal .null]),
        .error (.alreadyAssembled "menu")] := rfl

end ServiceGraph
