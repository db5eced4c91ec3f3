import ServiceGraph.Proofs.Source.Emitted
import ServiceGraph.Proofs.Source.Naming
import ServiceGraph.Proofs.Source.Uses

/-!
# A generated module is closed

* `Source.functionsIn`, `definedIn`, `declaredIn`, `initialisedIn`: the functions that trees define, and
  the fields that they declare and initialise;
* `Source.Closed`: what the code of a module uses of its container is defined once;
* `SourceModule.definedIn_layout`, `declaredIn_layout`, `initialisedIn_layout`: what a module defines;
* `SourceModule.closed`: a module whose methods have names of their own is closed.
-/

namespace ServiceGraph

namespace Source

/-! ## what trees define -/

def functionName? : List Tree → Option String
  | .word a :: .word b :: ts =>
    if a = "fn" then some b else if a = "pub" then functionName? (.word b :: ts) else none
  | _ => none

/-- the functions with what stands between their brackets -/
def functionsIn (ts : List Tree) : List (String × List Tree) :=
  (blocks ts).filterMap fun b => (functionName? b.1).map (·, b.2)

def definedIn (ts : List Tree) : List (String × List Tree) :=
  (blocks ts).flatMap fun b => functionsIn b.2

def entryName? : List Tree → Option String
  | .word s :: _ => some s
  | _ => none

def entryNames (ts : List Tree) : List String := (segments ',' ts).filterMap entryName?

def isStructure : List Tree → Bool
  | .word a :: .word b :: _ => a = "pub" && b = "struct"
  | _ => false

/-- the fields of the structures in a module -/
def declaredIn (ts : List Tree) : List String :=
  (blocks ts).flatMap fun b => if isStructure b.1 then entryNames b.2 else []

/-- the fields that `new` gives a value -/
def initialisedIn (ts : List Tree) : List String :=
  (definedIn ts).flatMap fun f =>
    if f.1 = "new" then (blocks f.2).flatMap fun b => entryNames b.2 else []

/-- what the code of a module uses of its container is there, once -/
structure Closed (ts : List Tree) : Prop where
  /-- a method that is called is defined once -/
  methods : ∀ name, .call name ∈ uses ts → ((definedIn ts).map Prod.fst).count name = 1
  /-- a field that is used is declared once -/
  declared : ∀ u ∈ uses ts, ∀ name, u.field? = some name → (declaredIn ts).count name = 1
  /-- and initialised once -/
  initialised : ∀ u ∈ uses ts, ∀ name, u.field? = some name → (initialisedIn ts).count name = 1

/-! ## reading functions and fields -/

theorem Flowing.append {ts us : List Tree} (hts : Flowing ts) (hus : Flowing us) :
    Flowing (ts ++ us) := fun inner hmem =>
  (List.mem_append.mp hmem).elim (hts inner) (hus inner)

theorem Flowing.flatMap {α : Type} {f : α → List Tree} {xs : List α}
    (h : ∀ x ∈ xs, Flowing (f x)) : Flowing (xs.flatMap f) := fun inner hmem => by
  obtain ⟨x, hx, hmem⟩ := List.mem_flatMap.mp hmem
  exact h x hx inner hmem

theorem Flowing.field {ts : List Tree} (h : Flowing ts) (name : String) :
    Flowing (Source.field name ts) :=
  (Flowing.append (by simp [Flowing]) h).append (by simp [Flowing])

theorem Pathlike.flowing {path : List Tree} (h : Pathlike path) : Flowing path :=
  h.ne_group .curly

theorem functionsIn_function {name : String} {parameters result body : List Tree}
    (hresult : Flowing result) (rest : List Tree) :
    functionsIn (function name parameters result body ++ rest) = (name, body) :: functionsIn rest := by
  have hheader : Flowing
      ([Tree.word "fn", .word name, .group .round parameters, .mark '-', .mark '>'] ++
      result) := Flowing.append (by simp [Flowing]) hresult
  rw [functionsIn, function, List.append_assoc, List.singleton_append, blocks_append hheader]
  rfl

/-- a function at the end -/
theorem functionsIn_last {name : String} {parameters result body : List Tree}
    (hresult : Flowing result) :
    functionsIn (function name parameters result body) = [(name, body)] := by
  rw [← List.append_nil (function name parameters result body), functionsIn_function hresult]
  rfl

theorem functionsIn_public {name : String} {parameters result body : List Tree}
    (hresult : Flowing result) (rest : List Tree) :
    functionsIn (.word "pub" :: function name parameters result body ++ rest) =
      (name, body) :: functionsIn rest := by
  have hname : Flowing [.word "pub", .word "fn", .word name, .group .round parameters, .mark '-',
      .mark '>'] := by simp [Flowing]
  have hheader : Flowing (.word "pub" :: ([Tree.word "fn", .word name, .group .round parameters,
      .mark '-', .mark '>'] ++ result)) := hname.append hresult
  rw [functionsIn, function, ← List.cons_append, List.append_assoc, List.singleton_append,
    blocks_append hheader]
  rfl

theorem functionsIn_flatMap {α : Type} {f : α → List Tree} {g : α → String × List Tree}
    {xs : List α} (h : ∀ x ∈ xs, ∀ rest, functionsIn (f x ++ rest) = g x :: functionsIn rest)
    (rest : List Tree) : functionsIn (xs.flatMap f ++ rest) = xs.map g ++ functionsIn rest := by
  induction xs with
  | nil => rfl
  | cons x xs ih =>
    rw [List.flatMap_cons, List.append_assoc, h x (List.mem_cons_self ..),
      ih fun y hy => h y (List.mem_cons_of_mem _ hy)]
    rfl

theorem entryNames_field {name : String} {ts : List Tree} (h : .mark ',' ∉ ts)
    (rest : List Tree) : entryNames (field name ts ++ rest) = name :: entryNames rest := by
  have hentry : .mark ',' ∉ [Tree.word name, .mark ':'] ++ ts := by simp [h]
  rw [entryNames, field, List.append_assoc, List.singleton_append, segments_append hentry]
  rfl

theorem entryNames_flatMap {α : Type} {f : α → List Tree} {g : α → String} {xs : List α}
    (h : ∀ x ∈ xs, ∀ rest, entryNames (f x ++ rest) = g x :: entryNames rest) :
    entryNames (xs.flatMap f) = xs.map g := by
  induction xs with
  | nil => rfl
  | cons x xs ih =>
    rw [List.flatMap_cons, h x (List.mem_cons_self ..),
      ih fun y hy => h y (List.mem_cons_of_mem _ hy)]
    rfl

end Source

open Source

namespace SourceModule

variable {m : SourceModule}

/-! ## what a module defines -/

def fieldNames (m : SourceModule) : List String :=
  ["factories", "parameters", "stack"] ++ m.cells.map ("cell_" ++ ·)

theorem entryNames_fields (h : m.options.Legible) : entryNames m.fields = m.fieldNames := by
  have hpath := h.pathlike
  have hunder : ∀ names, .mark ',' ∉ under m.options.path names := fun names =>
    (hpath.under names).ne_mark (by decide)
  have hcell : .mark ',' ∉ under [] ["std", "cell", "OnceCell"] ++ [Tree.mark '<'] ++
      under m.options.path ["Value"] ++ [Tree.mark '>'] := by
    simp [under, hpath.ne_mark]
  rw [fields]
  simp only [List.append_assoc]
  rw [entryNames_field (hunder _), entryNames_field (hunder _), entryNames_field (hunder _),
    entryNames_flatMap fun cell _ => entryNames_field (by simpa [List.append_assoc] using hcell)]
  rfl

theorem entryNames_initials (h : m.options.Legible) : entryNames m.initials = m.fieldNames := by
  have hpath := h.pathlike
  have hmade : ∀ names args, .mark ',' ∉ under m.options.path names ++ [Tree.group .round args] := by
    intro names args
    simp [(hpath.under names).ne_mark (c := ',') (by decide)]
  have hcell : .mark ',' ∉ under [] ["std", "cell", "OnceCell", "new"] ++ [Tree.group .round []] := by
    simp [under]
  have hfactories : ∀ rest, entryNames ([Tree.word "factories", .mark ','] ++ rest) =
      "factories" :: entryNames rest := fun rest => by
    rw [entryNames, show [Tree.word "factories", .mark ','] ++ rest = [Tree.word "factories"] ++
      .mark ',' :: rest from rfl, segments_append (by simp)]
    rfl
  rw [initials]
  simp only [List.append_assoc]
  rw [hfactories, entryNames_field (hmade _ _), entryNames_field (hmade _ _),
    entryNames_flatMap fun cell _ => entryNames_field hcell]
  rfl

theorem flowing_outcome {path : List Tree} (hpath : Pathlike path) : Flowing (outcome path) := by
  have hunder : ∀ names, Flowing (under path names) := fun names => (hpath.under names).flowing
  exact ((((Flowing.append (by simp [Flowing]) (hunder _)).append (by simp [Flowing])).append
    (hunder _)).append (by simp [Flowing]))

theorem functionsIn_functions (h : m.options.Legible) :
    functionsIn m.functions =
      ("new", [.word "Self", .group .curly m.initials]) ::
      ("parameter_table", (Term.map m.table).layout m.options.path) ::
      m.methods.map fun method => (method.name, method.bodyLayout m.options.path) := by
  have hpath := h.pathlike
  have hmethods : functionsIn (m.methods.flatMap (SourceMethod.layout m.options.path)) =
      m.methods.map fun method => (method.name, method.bodyLayout m.options.path) := by
    have hall : functionsIn (m.methods.flatMap (SourceMethod.layout m.options.path) ++ []) =
        (m.methods.map fun method => (method.name, method.bodyLayout m.options.path)) ++
          functionsIn [] :=
      functionsIn_flatMap (fun _ _ => functionsIn_function (flowing_outcome hpath)) []
    rwa [List.append_nil, show functionsIn [] = [] from rfl, List.append_nil] at hall
  rw [functions, List.append_assoc, functionsIn_public (by simp [Flowing]),
    functionsIn_function (hpath.under _).flowing, hmethods]

/-- the functions that answer to lookups, with what stands between their brackets -/
theorem functionsIn_answers (h : m.options.Legible) :
    functionsIn m.answers =
      [("get", m.getLayout), ("has", m.hasLayout), ("tagged", m.taggedLayout),
        ("ids_by_type", m.byTypeLayout), ("parameter", parameterLayout)] := by
  have houtcome := flowing_outcome h.pathlike
  rw [answers]
  simp only [List.append_assoc]
  rw [functionsIn_function houtcome, functionsIn_function (by simp [Flowing]),
    functionsIn_function (by simp [Flowing, pairsType]), functionsIn_function (by simp [Flowing]),
    functionsIn_last houtcome]

/-- the parts of a module between curly brackets -/
theorem blocks_layout (h : m.options.Legible) :
    blocks m.layout =
      [([.word "pub", .word "struct", .word m.options.container], m.fields),
        ([.word "impl", .word m.options.container], m.functions),
        ([Tree.word "impl"] ++ under m.options.path ["Lookup"] ++
          [Tree.word "for", .word m.options.container], m.answers)] := by
  have hheader : Flowing ([Tree.word "impl"] ++ under m.options.path ["Lookup"] ++
      [Tree.word "for", .word m.options.container]) :=
    ((Flowing.append (by simp [Flowing]) (h.pathlike.under _).flowing).append (by simp [Flowing]))
  have hlast := blocks_append hheader m.answers []
  rw [List.append_assoc] at hlast
  rw [layout]
  simp only [List.append_assoc]
  rw [show [Tree.word "pub", .word "struct", .word m.options.container, .group .curly m.fields] =
      [Tree.word "pub", .word "struct", .word m.options.container] ++ [Tree.group .curly m.fields]
      from rfl, List.append_assoc, List.singleton_append, blocks_append (by simp [Flowing]),
    show [Tree.word "impl", .word m.options.container, .group .curly m.functions] =
      [Tree.word "impl", .word m.options.container] ++ [Tree.group .curly m.functions] from rfl,
    List.append_assoc, List.singleton_append, blocks_append (by simp [Flowing])]
  rw [show [Tree.word "for", .word m.options.container, .group .curly m.answers] =
    [Tree.word "for", .word m.options.container] ++ .group .curly m.answers :: [] from rfl]
  simp only [List.append_assoc] at hlast ⊢
  rw [hlast]
  rfl

theorem flowing_fields (h : m.options.Legible) : Flowing m.fields := by
  have hunder : ∀ names, Flowing (under m.options.path names) := fun names =>
    (h.pathlike.under names).flowing
  have hcell : Flowing (under [] ["std", "cell", "OnceCell"] ++ [Tree.mark '<'] ++
      under m.options.path ["Value"] ++ [Tree.mark '>']) :=
    (((Pathlike.nil.under _).flowing.append (by simp [Flowing])).append (hunder _)).append
      (by simp [Flowing])
  exact ((((hunder _).field _).append ((hunder _).field _)).append ((hunder _).field _)).append
    (.flatMap fun cell _ => hcell.field _)

theorem definedIn_layout (h : m.options.Legible) :
    definedIn m.layout = functionsIn m.functions ++ functionsIn m.answers := by
  rw [definedIn, blocks_layout h, List.flatMap_cons, List.flatMap_cons, List.flatMap_singleton,
    functionsIn, blocks_of_flowing (flowing_fields h)]
  rfl

theorem isStructure_impl (ts : List Tree) : isStructure (.word "impl" :: ts) = false := by
  unfold isStructure
  split
  · next a b rest heq =>
    obtain ⟨ha, -⟩ := List.cons.inj heq
    rw [← Tree.word.inj ha]
    rfl
  · rfl

/-- the container declares its fields -/
theorem declaredIn_layout (h : m.options.Legible) : declaredIn m.layout = m.fieldNames := by
  have himpl : ∀ ts, isStructure ([Tree.word "impl"] ++ ts) = false := isStructure_impl
  rw [declaredIn, blocks_layout h, List.flatMap_cons, List.flatMap_cons, List.flatMap_singleton,
    ← entryNames_fields h, List.append_assoc, himpl,
    show isStructure [.word "impl", .word m.options.container] = false from isStructure_impl _]
  exact List.append_nil _

/-- `new` gives each of them a value -/
theorem initialisedIn_layout (h : m.Named) : initialisedIn m.layout = m.fieldNames := by
  have hnone : ∀ fs : List (String × List Tree), (∀ f ∈ fs, f.1 ≠ "new") →
      (fs.flatMap fun f => if f.1 = "new" then (blocks f.2).flatMap fun b => entryNames b.2
        else []) = [] := fun fs hfs =>
    List.flatMap_eq_nil_iff.mpr fun f hf => if_neg (hfs f hf)
  have hmethods : ∀ f ∈ m.methods.map fun method =>
      (method.name, method.bodyLayout m.options.path), f.1 ≠ "new" := by
    intro f hf heq
    obtain ⟨method, hmethod, rfl⟩ := List.mem_map.mp hf
    obtain ⟨rest, hrest, -⟩ := (h.methods method hmethod).name
    rw [show method.name = "new" from heq] at hrest
    cases hrest
  rw [initialisedIn, definedIn_layout h.options, List.flatMap_append,
    functionsIn_functions h.options, List.flatMap_cons, List.flatMap_cons, hnone _ hmethods,
    functionsIn_answers h.options, hnone _ (by simp), ← entryNames_initials h.options]
  show ((blocks [.word "Self", .group .curly m.initials]).flatMap fun b => entryNames b.2) ++
    ([] ++ []) ++ [] = _
  simp [blocks, blocksFrom]

/-! ## what the code of a module uses -/

/-- the methods and the fields that there are -/
def Known (m : SourceModule) : Use → Prop
  | .call name => name ∈ m.methods.map SourceMethod.name
  | .invoke name _ _ => name ∈ m.fieldNames
  | .field name => name ∈ m.fieldNames

section
variable {P : Use → Prop} {path : List Tree}

theorem only_outcome (hpath : Pathlike path) : Only P (outcome path) :=
  ((((Only.inert [.word "Result", .mark '<'] rfl).append
    (.under hpath (by decide))).append (.inert [.mark ','] rfl)).append
    (.under hpath (by decide))).append (.inert [.mark '>'] rfl)

theorem only_function {name : String} {parameters result body : List Tree}
    (hparameters : ∀ u ∈ uses parameters, P u) (hresult : Only P result)
    (hbody : ∀ u ∈ uses body, P u) : Only P (function name parameters result body) := by
  have hname : Only P ([Tree.word "fn"] ++ [Tree.word name, .group .round parameters] ++
      [Tree.mark '-', .mark '>']) :=
    ((Only.inert [.word "fn"] rfl).append (.headed hparameters)).append (.inert _ rfl)
  exact (hname.append hresult).append (.group hbody .curly)

theorem only_question (name : String) : Only P (question name) := by
  have hself : Only P [.word "self", .mark ','] := .followed (by decide)
  have hname : Only P [.word name, .mark ':'] := .followed (by decide)
  exact (((Only.inert [.mark '&'] rfl).append hself).append hname).append
    (.inert [.mark '&', .word "str"] rfl)

theorem only_field {name : String} {ts : List Tree} (hts : Only P ts) :
    Only P (field name ts) := by
  have hname : Only P [.word name, .mark ':'] := .followed (by decide)
  exact (hname.append hts).append (.inert [.mark ','] rfl)

theorem only_arm {pattern : Tree} {answer : List Tree} (hpattern : Source.inert pattern = true)
    (hanswer : Only P answer) : Only P (arm pattern answer) := by
  have hfront : Only P [pattern, .mark '=', .mark '>'] := .inert _ (by
    rw [inertAll, hpattern]
    rfl)
  exact (hfront.append hanswer).append (.inert [.mark ','] rfl)

/-- the cases of a question -/
theorem only_match {name : String} {arms : List Tree} (harms : Only P arms) :
    Only P [.word "match", .word name, .group .curly arms] :=
  (Only.inert [.word "match"] rfl).append (.headed harms.holds)

theorem only_owned (s : String) : Only P (owned s) := .inert _ rfl

end

variable {P : Use → Prop}

theorem only_fields (h : m.options.Legible) : Only P m.fields := by
  have hpath := h.pathlike
  have hcell : Only P (under [] ["std", "cell", "OnceCell"] ++ [Tree.mark '<'] ++
      under m.options.path ["Value"] ++ [Tree.mark '>']) :=
    (((Only.under .nil (by decide)).append (.inert _ rfl)).append (.under hpath (by decide))).append
      (.inert _ rfl)
  exact (((only_field (.under hpath (by decide))).append
    (only_field (.under hpath (by decide)))).append
    (only_field (.under hpath (by decide)))).append (.flatMap fun cell _ => only_field hcell)

theorem only_initials (h : m.options.Legible) : Only P m.initials := by
  have hpath := h.pathlike
  have hmade : ∀ args, inertAll args = true → Only P [.group .round args] := fun args hargs =>
    .group (Only.inert args hargs).holds .round
  have hcell : Only P (under [] ["std", "cell", "OnceCell", "new"] ++ [Tree.group .round []]) :=
    (Only.under .nil (by decide)).append (hmade [] rfl)
  exact (((Only.inert [.word "factories", .mark ','] rfl).append
    (only_field ((Only.under hpath (by decide)).append (hmade _ rfl)))).append
    (only_field ((Only.under hpath (by decide)).append (hmade _ rfl)))).append
    (.flatMap fun cell _ => only_field hcell)

theorem asks_known (m : SourceModule) : Term.Asks m.Known := fun _ _ =>
  ⟨List.mem_append_left _ (by decide), List.mem_append_left _ (by decide)⟩

theorem only_functions (h : m.Named)
    (hcalls : ∀ method ∈ m.methods, ∀ name ∈ method.calls,
      name ∈ m.methods.map SourceMethod.name) : Only m.Known m.functions := by
  have hpath := h.options.pathlike
  have hnew : Only m.Known (.word "pub" :: function "new"
      ([Tree.word "factories", .mark ':'] ++ under m.options.path ["Factories"]) [.word "Self"]
      [.word "Self", .group .curly m.initials]) :=
    (Only.inert [.word "pub"] rfl).append (only_function
      ((Only.inert [.word "factories", .mark ':'] rfl).append
        (.under hpath (by decide))).holds (.inert _ rfl)
      (Only.headed (only_initials h.options).holds).holds)
  have htable : Only m.Known (function "parameter_table" [] (under m.options.path ["Value"])
      ((Term.map m.table).layout m.options.path)) :=
    only_function Only.nil.holds (.under hpath (by decide))
      (Term.only_layout hpath m.asks_known (.map m.table) fun name hname => by
        rw [show (Term.map m.table).calls = [] from h.table] at hname
        cases hname).holds
  refine (hnew.append htable).append (.flatMap fun method hmethod => ?_)
  refine only_function (fun u hu => nomatch hu) (only_outcome hpath)
    (SourceMethod.only_body hpath m.asks_known (hcalls method hmethod) (fun hshared _ _ => ?_)
      (List.mem_append_left _ (by decide))).holds
  exact List.mem_append_right _ (List.mem_map_of_mem
    (List.mem_map_of_mem (List.mem_filter.mpr ⟨hmethod, hshared⟩)))

theorem only_get (h : m.Named) : Only m.Known m.getLayout := by
  have hpath := h.options.pathlike
  refine only_match ((Only.flatMap fun method hmethod => only_arm rfl ?_).append (only_arm rfl ?_))
  · exact .call [] (List.mem_map_of_mem (List.mem_filter.mp hmethod).1) Only.nil.holds
  · exact .headed ((Only.under hpath (by decide)).append (.inert _ rfl)).holds

theorem only_has (m : SourceModule) : Only P m.hasLayout := by
  unfold hasLayout
  split
  · exact .inert _ rfl
  · refine (Only.inert [.word "matches", .mark '!'] rfl).append (.group ?_ .round)
    refine ((Only.inert [.word "id", .mark ','] rfl).append
      (.intercalate (.inert _ rfl) fun part hpart => ?_)).holds
    obtain ⟨method, -, rfl⟩ := List.mem_map.mp hpart
    exact .inert _ rfl

theorem only_tagged (h : m.Named) : Only m.Known m.taggedLayout := by
  refine only_match ((Only.flatMap fun a ha => only_arm rfl (.vector fun part hpart => ?_)).append
    (only_arm rfl (.inert _ rfl)))
  obtain ⟨entry, hentry, rfl⟩ := List.mem_map.mp hpart
  have hattrs : Only m.Known (entry.2.layout m.options.path) :=
    Term.only_layout h.options.pathlike m.asks_known entry.2 fun name hname => by
      rw [h.tags a ha entry hentry] at hname
      cases hname
  exact .group (((only_owned entry.1).append (.inert _ rfl)).append hattrs).holds .round

theorem only_byType (m : SourceModule) : Only P m.byTypeLayout := by
  refine only_match ((Only.flatMap fun a _ => only_arm rfl (.vector fun part hpart => ?_)).append
    (only_arm rfl (.inert _ rfl)))
  obtain ⟨id, -, rfl⟩ := List.mem_map.mp hpart
  exact only_owned id

theorem only_parameter (m : SourceModule) : Only m.Known parameterLayout := by
  have hget : Only m.Known (ofSelf "parameters" ++ invoked "get" [.word "key"]) :=
    .invoked (by decide) (m.asks_known _ _).2 (Only.inert [.word "key"] rfl).holds
  exact .headed hget.holds

theorem only_answers (h : m.Named) : Only m.Known m.answers := by
  have houtcome : Only m.Known (outcome m.options.path) := only_outcome h.options.pathlike
  have hpairs : Only m.Known (pairsType m.options.path) := by
    have hpair : Only m.Known ([Tree.word "String", .mark ','] ++ under m.options.path ["Value"]) :=
      (Only.inert _ rfl).append (.under h.options.pathlike (by decide))
    exact ((Only.inert [.word "Vec", .mark '<'] rfl).append (.group hpair.holds .round)).append
      (.inert [.mark '>'] rfl)
  have hidsType : Only m.Known [.word "Vec", .mark '<', .word "String", .mark '>'] := .inert _ rfl
  exact ((((only_function (only_question "id").holds houtcome (only_get h).holds).append
    (only_function (only_question "id").holds (.inert [.word "bool"] rfl) (only_has m).holds)).append
    (only_function (only_question "tag").holds hpairs (only_tagged h).holds)).append
    (only_function (only_question "type_name").holds hidsType (only_byType m).holds)).append
    (only_function (only_question "key").holds houtcome m.only_parameter.holds)

/-- the code of a module uses methods and fields that there are -/
theorem only_layout (h : m.Named)
    (hcalls : ∀ method ∈ m.methods, ∀ name ∈ method.calls,
      name ∈ m.methods.map SourceMethod.name) : Only m.Known m.layout := by
  have hstruct : Only m.Known [.word "pub", .word "struct", .word m.options.container,
      .group .curly m.fields] :=
    (Only.inert [.word "pub", .word "struct"] rfl).append (.headed (only_fields h.options).holds)
  have himpl : Only m.Known [.word "impl", .word m.options.container, .group .curly m.functions] :=
    (Only.inert [.word "impl"] rfl).append (.headed (only_functions h hcalls).holds)
  have hlookup : Only m.Known ([Tree.word "impl"] ++ under m.options.path ["Lookup"]) :=
    (Only.inert [.word "impl"] rfl).append (.under h.options.pathlike (by decide))
  have hfor : Only m.Known [.word "for", .word m.options.container, .group .curly m.answers] :=
    (Only.inert [.word "for"] rfl).append (.headed (only_answers h).holds)
  have hall := (hstruct.append himpl).append (hlookup.append hfor)
  simpa only [layout, List.append_assoc] using hall

def makers : List String := ["new", "parameter_table"]

def lookups : List String := ["get", "has", "tagged", "ids_by_type", "parameter"]

/-- the names of the functions in a module -/
theorem names_definedIn (h : m.options.Legible) :
    (definedIn m.layout).map Prod.fst =
      makers ++ m.methods.map SourceMethod.name ++ lookups := by
  rw [definedIn_layout h, functionsIn_functions h, functionsIn_answers h]
  simp [makers, lookups]

/-- a method is defined -/
theorem mem_definedIn (h : m.options.Legible) {method : SourceMethod} (hmethod : method ∈ m.methods) :
    (method.name, method.bodyLayout m.options.path) ∈ definedIn m.layout := by
  rw [definedIn_layout h, functionsIn_functions h]
  exact List.mem_append_left _ (List.mem_cons_of_mem _ (List.mem_cons_of_mem _
    (List.mem_map_of_mem hmethod)))

/-- a method is called as none of the other functions is -/
theorem nodup_definedIn (h : m.Named) (hnames : (m.methods.map SourceMethod.name).Nodup) :
    ((definedIn m.layout).map Prod.fst).Nodup := by
  have hother : ∀ name ∈ makers ++ lookups, name.toList.head? ≠ some 's' := by decide
  have hne : ∀ name ∈ m.methods.map SourceMethod.name, name ∉ makers ++ lookups := by
    intro name hname hmem
    obtain ⟨method, hmethod, rfl⟩ := List.mem_map.mp hname
    obtain ⟨rest, hrest, -⟩ := (h.methods method hmethod).name
    exact hother _ hmem (by rw [hrest]; rfl)
  rw [names_definedIn h.options]
  refine List.nodup_append.mpr ⟨List.nodup_append.mpr ⟨by decide, hnames, ?_⟩, by decide, ?_⟩
  · rintro a ha b hb rfl
    exact hne a hb (List.mem_append_left _ ha)
  · rintro a ha b hb rfl
    rcases List.mem_append.mp ha with ha | ha
    · exact (by decide : ∀ name ∈ makers, name ∉ lookups) a ha hb
    · exact hne a ha (List.mem_append_right _ hb)

/-- the fields of a container have names of their own -/
theorem nodup_fieldNames (hnames : (m.methods.map SourceMethod.name).Nodup) :
    m.fieldNames.Nodup := by
  have hcells : m.cells.Nodup := hnames.sublist (List.filter_sublist.map _)
  have hinj : Function.Injective ("cell_" ++ · : String → String) := fun a b hab => by
    have hchars := congrArg String.toList hab
    rw [String.toList_append, String.toList_append] at hchars
    exact String.toList_inj.mp (List.append_cancel_left hchars)
  refine List.nodup_append.mpr ⟨by decide, hcells.map hinj, ?_⟩
  rintro a ha b hb rfl
  obtain ⟨cell, -, rfl⟩ := List.mem_map.mp hb
  have hother : ∀ name ∈ ["factories", "parameters", "stack"],
      name.toList.head? ≠ some 'c' := by decide
  exact hother _ ha (by rw [String.toList_append]; rfl)

/-- **A module whose methods have names of their own is closed.** -/
theorem closed (h : m.Named) (hnames : (m.methods.map SourceMethod.name).Nodup)
    (hcalls : ∀ method ∈ m.methods, ∀ name ∈ method.calls,
      name ∈ m.methods.map SourceMethod.name) : Closed m.layout := by
  have hknown := (only_layout h hcalls).holds
  have hfield : ∀ u ∈ uses m.layout, ∀ name, u.field? = some name → name ∈ m.fieldNames := by
    intro u hu name hname
    have hu := hknown u hu
    cases u with
    | call method => cases hname
    | invoke field method argument =>
      cases hname
      exact hu
    | field field =>
      cases hname
      exact hu
  refine ⟨fun name hname => ?_, fun u hu name hname => ?_, fun u hu name hname => ?_⟩
  · refine List.count_eq_one_of_mem (nodup_definedIn h hnames) ?_
    rw [names_definedIn h.options]
    exact List.mem_append_left _ (List.mem_append_right _ (hknown _ hname))
  · rw [declaredIn_layout h.options]
    exact List.count_eq_one_of_mem (nodup_fieldNames hnames) (hfield u hu name hname)
  · rw [initialisedIn_layout h]
    exact List.count_eq_one_of_mem (nodup_fieldNames hnames) (hfield u hu name hname)

end SourceModule

/-! ## the modules of registries -/

namespace Compile

variable {σ : Type} {r : Registry} {cs : Option (Constructors σ)} {services : Services σ}
  {h : Heap σ} {options : SourceOptions} {m : SourceModule}

theorem Emitted.methodOf (he : Emitted r (context r cs services h) options m) :
    List.Forall₂ (fun id (sm : SourceMethod) =>
      sm.id = id ∧ (methodNames r.ids).get? id = some sm.name) r.ids m.methods :=
  List.forall₂_map_left_iff.mpr (he.methods.imp fun _ _ hd => ⟨hd.id, hd.name⟩)

/-- a method has the name of its id -/
theorem Emitted.methodOf_mem (he : Emitted r (context r cs services h) options m) :
    ∀ sm ∈ m.methods, (methodNames r.ids).get? sm.id = some sm.name :=
  forall_mem_of_forall₂ he.methods fun _ _ hd => hd.id ▸ hd.name

/-- methods have names of their own -/
theorem Emitted.nodup_names (hunique : r.ids.Nodup)
    (he : Emitted r (context r cs services h) options m) :
    (m.methods.map SourceMethod.name).Nodup := by
  have hnames : List.Forall₂ (fun id name => (methodNames r.ids).get? id = some name) r.ids
      (m.methods.map SourceMethod.name) :=
    List.forall₂_map_right_iff.mpr (he.methodOf.imp fun _ _ hsm => hsm.2)
  have hbijective : Relator.BiUnique fun id name => (methodNames r.ids).get? id = some name :=
    ⟨fun _ _ _ hid hid' => methodNames_inj hid hid',
      fun _ _ _ hname hname' => Option.some.inj (hname.symm.trans hname')⟩
  exact (List.rel_nodup hbijective hnames).mp hunique

/-- the method of an id -/
theorem Emitted.exists_method (he : Emitted r (context r cs services h) options m) {id : String}
    (hid : id ∈ r.ids) :
    ∃ sm ∈ m.methods, sm.id = id ∧ (methodNames r.ids).get? id = some sm.name := by
  obtain ⟨i, rfl⟩ := List.mem_iff_get.mp hid
  obtain ⟨hlen, hget⟩ := List.forall₂_iff_get.mp he.methodOf
  exact ⟨_, List.get_mem _ _, hget i i.2 (hlen ▸ i.2)⟩

/-- methods call methods that there are -/
theorem Emitted.calls_known (he : Emitted r (context r cs services h) options m) :
    ∀ sm ∈ m.methods, ∀ name ∈ sm.calls, name ∈ m.methods.map SourceMethod.name := by
  refine forall_mem_of_forall₂ he.methods fun d sm hd name hname => ?_
  obtain ⟨id, hid⟩ := hd.calls name hname
  have hknown : id ∈ r.ids :=
    (methodNames_isSome r.ids id).mp (Option.isSome_iff_exists.mpr ⟨name, hid⟩)
  obtain ⟨sm', hsm', -, hname'⟩ := he.exists_method hknown
  cases hid.symm.trans hname'
  exact List.mem_map_of_mem hsm'

/-- **A generated module is closed and free of name clashes.** Choosing names ends, and the names differ
and are `service_` with lower-case letters, digits and underscores behind it. When the registry
compiles, what the code of the module uses of its container is there once, and each id has a method,
which enters this id and no other. -/
theorem module_closed {r : Registry} (hunique : r.ids.Nodup) :
    (∃ names, Naming [] r.ids names ∧ methodNames r.ids = r.ids.zip names ∧ names.Nodup ∧
      ∀ name ∈ names, ServiceName name) ∧
    ∀ {σ : Type} (cs : Option (Constructors σ)) (services : Services σ) (h : Heap σ)
      (options : SourceOptions) (text : String), options.Legible →
      compile r cs services h options = some (.ok text) →
      ∃ body ts, text = SourceModule.withHeader body ∧ trees? body = some ts ∧ Closed ts ∧
        ∀ id ∈ r.ids, ∃ name code, (methodNames r.ids).get? id = some name ∧
          (name, code) ∈ definedIn ts ∧ ((definedIn ts).map Prod.fst).count name = 1 ∧
          entered code = [some id] := by
  refine ⟨⟨_, naming_namesFor [] r.ids, rfl, namesFor_nodup [] r.ids,
    fun name hname => serviceName_of_mem_namesFor hname⟩, ?_⟩
  intro σ cs services h options text hoptions htext
  obtain ⟨m, hm, rfl⟩ := compile_eq_ok htext
  have he := emitted_of_moduleOf hm
  have hnamed := he.named hoptions
  have hnames := he.nodup_names hunique
  refine ⟨m.body, m.layout, rfl, m.trees?_body hnamed, m.closed hnamed hnames he.calls_known,
    fun id hid => ?_⟩
  obtain ⟨sm, hsm, rfl, hname⟩ := he.exists_method hid
  have hdefined := SourceModule.mem_definedIn hnamed.options hsm
  exact ⟨sm.name, _, hname, hdefined,
    List.count_eq_one_of_mem (SourceModule.nodup_definedIn hnamed hnames)
      (List.mem_map_of_mem hdefined),
    sm.entered_body hnamed.options.pathlike⟩

/-- `a_b` wants the name of `a.b`, and `a_b_2` wants the name that `a_b` gets instead -/
def clashing : Registry :=
  { Registry.ofParameters .empty with
    definitions :=
      [ .ofNode "a.b" (.literal .null), .ofNode "a_b" (.reference "a.b" false),
        .ofNode "a_b_2" (.literal .null) ]
    frozen := true }

theorem clashing_module_closed :
    clashing.ids.Nodup ∧ methodNames clashing.ids =
      [("a.b", "service_a_b"), ("a_b", "service_a_b_2"), ("a_b_2", "service_a_b_2_2")] ∧
    ∃ body ts, compile clashing none (σ := Empty) ⟨nofun, nofun, fun _ _ s => nomatch s⟩ .empty
        .standard = some (.ok (SourceModule.withHeader body)) ∧
      trees? body = some ts ∧ Closed ts ∧
      ∃ code, ("service_a_b_2", code) ∈ definedIn ts ∧ entered code = [some "a_b"] := by
  have hunique : clashing.ids.Nodup := by decide
  obtain ⟨m, hm⟩ : ∃ m, moduleOf clashing none (σ := Empty)
      ⟨nofun, nofun, fun _ _ s => nomatch s⟩ .empty .standard = some (.ok m) := ⟨_, rfl⟩
  have htext : compile clashing none (σ := Empty) ⟨nofun, nofun, fun _ _ s => nomatch s⟩ .empty
      .standard = some (.ok m.text) := by
    rw [compile, hm]
    rfl
  obtain ⟨body, ts, hbody, hts, hclosed, hmethods⟩ :=
    (module_closed hunique).2 _ _ _ _ _ SourceOptions.standard_legible htext
  obtain ⟨name, code, hname, hdefined, -, hentered⟩ := hmethods "a_b" (by decide)
  have hnames : methodNames clashing.ids =
      [("a.b", "service_a_b"), ("a_b", "service_a_b_2"), ("a_b_2", "service_a_b_2_2")] := by decide
  rw [hnames] at hname
  cases hname
  exact ⟨hunique, hnames, body, ts, hbody ▸ htext, hts, hclosed, code, hdefined, hentered⟩

end Compile
end ServiceGraph
