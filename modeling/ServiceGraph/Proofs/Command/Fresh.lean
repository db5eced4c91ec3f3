import ServiceGraph.Proofs.Kernel.Reuse

/-!
# What the command line calls fresh

A command loads the configuration itself and hands it to a kernel without files and constructors. So nothing
is left of which the inputs of the kernel do not tell: the whole configuration is among them.

* `Command.kernel_follows`: the built-in extensions do what their names say;
* `Command.reused_of_fresh`: what is called fresh was used again;
* `Command.fresh_is_compiled`: it is what the command would print without a cache.
-/

namespace ServiceGraph

/-- what the built-in extensions do -/
def Builtin.behaviour {σ : Type} : Behaviour σ := fun name =>
  if name = Http.name then (some Http.schema, Http.register) else (none, DeclaredServices.register)

namespace Command

variable {file path directory : String} {f : Files} {k : Kernel Unit Empty}

theorem kernel_follows (c : AppConfig) : (kernel c).Follows Builtin.behaviour where
  supplied e he := by
    rcases List.mem_cons.mp he with rfl | he
    · rfl
    · split at he
      · cases List.mem_singleton.mp he
        rfl
      · cases he
  built name build hbuild args journal e he := by
    rcases List.mem_cons.mp (OrderedMap.mem_of_get? hbuild) with heq | hmem
    · cases heq
      cases he
      rfl
    · cases List.mem_singleton.mp hmem
      cases he
      rfl

theorem kernelFor_eq_ok (h : kernelFor f file = .ok k) :
    ∃ c, AppConfig.load f file = .ok c ∧ k = kernel c := by
  rw [kernelFor, Except.map_eq_ok_iff] at h
  obtain ⟨c, hc, rfl⟩ := h
  exact ⟨c, Except.mapError_eq_ok hc, rfl⟩

/-- a command meets what is asked of a run -/
theorem fair_of_kernelFor {run : KernelRun Unit Empty} (h : kernelFor run.files file = .ok run.kernel)
    (htidy : run.files.Tidy) : run.Fair Builtin.behaviour := by
  obtain ⟨c, hload, hk⟩ := kernelFor_eq_ok h
  refine ⟨hk ▸ kernel_follows c, htidy, fun x hx => ?_⟩
  have hone : [file].mapM (AppConfig.load run.files) = .ok [c] := by
    rw [List.mapM_cons, hload]
    rfl
  rw [hk] at hx
  obtain ⟨⟨p, hcanonical⟩, -⟩ := ConfigFiles.loaded_source_known hone hx
  obtain ⟨place, hplace, rfl⟩ := ConfigFiles.canonical_eq_ok htidy hcanonical
  exact Place.nulFree_path hplace

theorem head?_line {start : String} {c : Char} (hstart : start.toList.head? = some c) (line : String) :
    (lines [start ++ line]).toList.head? = some c := by
  show ("" ++ (start ++ line ++ "\n")).toList.head? = some c
  rw [String.empty_append, String.toList_append, String.toList_append, List.append_assoc, List.head?_append,
    hstart]
  rfl

theorem line_inj {start line line' : String} (h : lines [start ++ line] = lines [start ++ line']) :
    line = line' := by
  replace h : "" ++ (start ++ line ++ "\n") = "" ++ (start ++ line' ++ "\n") := h
  rwa [String.append_right_inj, String.append_left_inj, String.append_right_inj] at h

theorem reused_of_compiledOutput {compiled : Compiled Empty}
    (h : compiledOutput directory compiled = .ofText (lines ["Fresh: " ++ path])) :
    compiled = .reused path := by
  have hfresh : (lines ["Fresh: " ++ path]).toList.head? = some 'F' := head?_line rfl path
  cases compiled with
  | reused found =>
    have htold : lines ["Fresh: " ++ found] = lines ["Fresh: " ++ path] := congrArg Output.told h
    rw [line_inj htold]
  | written found =>
    have htold : lines ["Compiled: " ++ found] = lines ["Fresh: " ++ path] := congrArg Output.told h
    rw [← htold, head?_line (c := 'C') rfl found] at hfresh
    cases hfresh
  | interpreted c =>
    have htold : "" = lines ["Fresh: " ++ path] := congrArg Output.told h
    rw [← htold] at hfresh
    cases hfresh

/-- nothing but an artifact that was used again is called fresh -/
theorem reused_of_fresh {force : Bool} (hk : kernelFor f file = .ok k)
    (h : (runCompile file (some directory) force f).1 = .ofText (lines ["Fresh: " ++ path])) :
    (KernelRun.outcome ⟨directory⟩ noServices .empty ⟨k, f, (), !force⟩).1 = some (.ok (.reused path)) := by
  unfold runCompile at h
  rw [hk] at h
  dsimp only at h
  show (k.compileInto ⟨directory⟩ (!force) noServices .empty f ()).1 = _
  generalize k.compileInto ⟨directory⟩ (!force) noServices .empty f () = outcome at h
  obtain ⟨result, g, journal⟩ := outcome
  match result with
  | none =>
    have hfresh : (lines ["Fresh: " ++ path]).toList.head? = some 'F' := head?_line rfl path
    have htold : "" = lines ["Fresh: " ++ path] := congrArg Output.told h
    rw [← htold] at hfresh
    cases hfresh
  | some (.error e) => cases congrArg Output.error h
  | some (.ok compiled) => rw [reused_of_compiledOutput h]

/-- **What a command calls fresh is what it would print.** Let commands run with a cache that was empty at
the beginning, and let other files change between them in any way. If a command calls an artifact fresh, the
text of the artifact is what the command prints without a cache. -/
theorem fresh_is_compiled {runs : List (KernelRun Unit Empty)} {force : Bool}
    (history : CacheHistory ⟨directory⟩ noServices .empty f runs)
    (hruns : ∀ run ∈ runs, ∃ file, kernelFor run.files file = .ok run.kernel) (hk : kernelFor f file = .ok k)
    (htidy : f.Tidy) (htidyBefore : ∀ run ∈ runs, run.files.Tidy)
    (htold : ∀ run ∈ runs, Kernel.ToldApart k run.kernel)
    (hmanifests : ∀ s ∈ runs.filterMap (KernelRun.record? ⟨directory⟩ noServices .empty),
      Manifest.ofText? s.manifest.toText = some s.manifest)
    (hdigests : Digest.Distinct (digested ⟨directory⟩ noServices .empty runs ⟨k, f, (), !force⟩))
    (hfresh : (runCompile file (some directory) force f).1 = .ofText (lines ["Fresh: " ++ path])) :
    ∃ text, f.readText path = .ok text ∧ runCompile file none force f = (.ofText text, f) := by
  obtain ⟨c, -, rfl⟩ := kernelFor_eq_ok hk
  have hkernel : ∀ run ∈ runs, ∃ c, run.kernel = kernel c := by
    intro run hrun
    obtain ⟨file, hfile⟩ := hruns run hrun
    obtain ⟨c, -, hc⟩ := kernelFor_eq_ok hfile
    exact ⟨c, hc⟩
  have hfair : ∀ run ∈ (⟨kernel c, f, (), !force⟩ : KernelRun Unit Empty) :: runs,
      run.Fair Builtin.behaviour := by
    refine List.forall_mem_cons.mpr ⟨fair_of_kernelFor hk htidy, fun run hrun => ?_⟩
    obtain ⟨file, hfile⟩ := hruns run hrun
    exact fair_of_kernelFor hfile (htidyBefore run hrun)
  have hsplit : ∀ run ∈ runs, (kernel c).SameSplit f run.kernel run.files := by
    intro run hrun
    obtain ⟨c', hc'⟩ := hkernel run hrun
    exact Kernel.sameSplit_of_files rfl (by rw [hc']; rfl)
  have hdescends : (kernel c).Descends f := by
    intro loaded hloaded
    cases hloaded
    exact nofun
  obtain ⟨run, hrun, r, text, htext, hsource, hcompile⟩ :=
    KernelRun.exists_same_registry history hfair htold hsplit hdescends hmanifests hdigests
      (reused_of_fresh hk hfresh)
  obtain ⟨c', hc'⟩ := hkernel run hrun
  refine ⟨text, htext, ?_⟩
  have hcompiled : ((kernel c).compile noServices .empty f ()).1 = some (.ok text) :=
    hcompile.trans (Kernel.source?_of_constructors (by rw [hc']; rfl) hsource)
  unfold runCompile
  rw [hk]
  dsimp only
  rw [hcompiled]
  rfl

end Command
end ServiceGraph
