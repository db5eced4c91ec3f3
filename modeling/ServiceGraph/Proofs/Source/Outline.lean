import ServiceGraph.Proofs.Source.Layout
import ServiceGraph.Source.Module

/-!
# The trees of a generated module

* `SourceMethod.layout`: the trees of the method of a service;
* `SourceModule.fields`, `initials`, `functions`, `answers`: what stands between the brackets of a
  module;
* `SourceModule.layout`: the trees of a module;
* `SourceOptions.Legible`: the names in the options are made of letters;
* `SourceModule.trees?_body`: the text of a module has these trees.
-/

namespace ServiceGraph

open Source

/-- the library is named by a path and the container by a word -/
structure SourceOptions.Legible (o : SourceOptions) : Prop where
  library : ∀ c ∈ o.library.toList, Compile.nameLetter c = true ∨ c = ':'
  container : ∀ c ∈ o.container.toList, Compile.nameLetter c = true
  named : o.container ≠ ""

theorem SourceOptions.standard_legible : SourceOptions.standard.Legible :=
  ⟨by decide, by decide, by decide⟩

namespace Source

/-! ## shapes -/

/-- a field of the container -/
def ofSelf (field : String) : List Tree := [.word "self", .mark '.', .word field]

/-- a name with what stands for it, in a list of these -/
def field (name : String) (ts : List Tree) : List Tree :=
  [Tree.word name, .mark ':'] ++ ts ++ [Tree.mark ',']

/-- a pattern with its answer, in a list of these -/
def arm (pattern : Tree) (answer : List Tree) : List Tree :=
  [pattern, .mark '=', .mark '>'] ++ answer ++ [Tree.mark ',']

def function (name : String) (parameters result body : List Tree) : List Tree :=
  [Tree.word "fn", .word name, .group .round parameters, .mark '-', .mark '>'] ++ result ++
    [Tree.group .curly body]

/-- the type of what a service or a parameter comes to -/
def outcome (path : List Tree) : List Tree :=
  [Tree.word "Result", .mark '<'] ++ under path ["Value"] ++ [Tree.mark ','] ++
    under path ["ContainerError"] ++ [Tree.mark '>']

/-- the parameters of a question about a text -/
def question (name : String) : List Tree :=
  [.mark '&', .word "self", .mark ',', .word name, .mark ':', .mark '&', .word "str"]

def owned (s : String) : List Tree :=
  [.literal s, .mark '.', .word "to_string", .group .round []]

def emptyVec : List Tree := under [.word "Vec"] ["new"] ++ [Tree.group .round []]

theorem reads_owned (s : String) : Reads (Text.quoted s ++ ".to_string()") (flat (owned s)) := by
  have h := (sealed_quoted s).text ".to_string()"
    [.mark '.', .word "to_string", .opening .round, .closing .round] (.ofList rfl)
  exact h.reads.of_eq (by simp [owned])

end Source

/-! ## methods -/

namespace SourceMethod

def cell (m : SourceMethod) : String := "cell_" ++ m.name

/-- what is there before the service is built -/
def recalled (m : SourceMethod) : List Tree :=
  if m.shared then
    [Tree.word "if", .word "let", .word "Some", .group .round [.word "value"], .mark '='] ++
      (ofSelf m.cell ++ [Tree.mark '.', .word "get", .group .round []]) ++
      [Tree.group .curly [.word "return", .word "Ok", .group .round
        [.word "value", .mark '.', .word "clone", .group .round []], .mark ';']]
  else []

/-- what is kept after the service is built -/
def kept (m : SourceMethod) : List Tree :=
  if m.shared then
    [Tree.word "let", .word "_", .mark '='] ++
      (ofSelf m.cell ++ [Tree.mark '.', .word "set", .group .round
        [.word "value", .mark '.', .word "clone", .group .round []]]) ++ [Tree.mark ';']
  else []

def setupLayout (path : List Tree) (call : String × List Term) : List Tree :=
  [.word "value", .mark '.', .word "invoke", .group .round
    ([Tree.literal call.1, .mark ','] ++ vector (Term.layoutAll path call.2)), .mark '?', .mark ';']

def bodyLayout (path : List Tree) (m : SourceMethod) : List Tree :=
  m.recalled ++
  [Tree.word "let", .word "_guard", .mark '='] ++
    (ofSelf "stack" ++ invoked "enter" [.literal m.id]) ++ [Tree.mark ';'] ++
  [Tree.word "let", .word "value", .mark '='] ++ m.root.layout path ++ [Tree.mark ';'] ++
  m.setup.flatMap (setupLayout path) ++
  m.kept ++
  [Tree.word "Ok", .group .round [.word "value"]]

def layout (path : List Tree) (m : SourceMethod) : List Tree :=
  function m.name [.mark '&', .word "self"] (outcome path) (m.bodyLayout path)

def calls (m : SourceMethod) : List String :=
  m.root.calls ++ m.setup.flatMap fun call => Term.callsOf call.2

/-- the method and those that it calls have names as methods have -/
structure Named (m : SourceMethod) : Prop where
  name : Compile.MethodName m.name
  calls : ∀ name ∈ m.calls, Compile.MethodName name

variable {library : String} {path : List Tree} {m : SourceMethod}

theorem reads_cell {name : String} (h : Compile.MethodName name) :
    Reads ("cell_" ++ name) [.word ("cell_" ++ name)] := by
  refine reads_word (fun c hc => ?_) fun hempty => ?_
  · rw [String.toList_append, List.mem_append] at hc
    rcases hc with hc | hc
    · exact (by decide : ∀ c ∈ "cell_".toList, Compile.nameLetter c = true) c hc
    · exact h.forall_nameLetter c hc
  · have hlist := congrArg String.toList hempty
    rw [String.toList_append] at hlist
    cases hlist

theorem reads_ofSelf {name : String} (h : Compile.MethodName name) :
    Reads ("self.cell_" ++ name) (flat (ofSelf ("cell_" ++ name))) := by
  have hself : Sealed "self." [.word "self", .mark '.'] := .ofList rfl
  have hreads := hself.append_reads (reads_cell h)
  rw [← String.append_assoc] at hreads
  exact hreads

theorem sealed_recalled (hm : m.Named) :
    Sealed (if m.shared then
        "        if let Some(value) = " ++ ("self.cell_" ++ m.name) ++ ".get() \x7b\n" ++
        "            return Ok(value.clone());\n" ++
        "        \x7d\n"
      else "") (flat m.recalled) := by
  unfold recalled
  split
  · have hopen : Sealed "        if let Some(value) = " (flat [.word "if", .word "let",
      .word "Some", .group .round [.word "value"], .mark '=']) := .ofList rfl
    have hget := (hopen.append_reads (reads_ofSelf hm.name)).seal ".get() \x7b\n"
      [.mark '.', .word "get", .opening .round, .closing .round, .opening .curly]
      (.ofList rfl) (.ofList rfl)
    have hreturn := hget.text "            return Ok(value.clone());\n"
      (flat [.word "return", .word "Ok", .group .round [.word "value", .mark '.', .word "clone",
        .group .round []], .mark ';']) (.ofList rfl)
    have h := hreturn.text "        \x7d\n" [.closing .curly] (.ofList rfl)
    exact h.of_eq (by simp [cell])
  · exact sealed_empty

theorem sealed_kept (hm : m.Named) :
    Sealed (if m.shared then
        "        let _ = " ++ ("self.cell_" ++ m.name) ++ ".set(value.clone());\n"
      else "") (flat m.kept) := by
  unfold kept
  split
  · have hopen : Sealed "        let _ = " (flat [.word "let", .word "_", .mark '=']) := .ofList rfl
    have h := (hopen.append_reads (reads_ofSelf hm.name)).seal ".set(value.clone());\n"
      (flat [.mark '.', .word "set", .group .round [.word "value", .mark '.', .word "clone",
        .group .round []], .mark ';']) (.ofList rfl) (.ofList rfl)
    exact h.of_eq (by simp [cell])
  · exact sealed_empty

section
variable (hlib : Reads library (flat path))
include hlib

/-- the rest of a header whose function comes to a value -/
theorem sealed_outcome {front : String} {ts : List Token}
    (hfront : Sealed front (ts ++ [Token.word "Result", .mark '<'])) :
    Sealed (front ++ library ++ "::Value, " ++ library ++ "::ContainerError> \x7b\n")
      (ts ++ flat (outcome path) ++ [Token.opening .curly]) := by
  have hvalue := (hfront.append_reads hlib).seal "::Value, "
    (flat (under [] ["Value"]) ++ [Token.mark ',']) (.ofList rfl) (.ofList rfl)
  have herror := (hvalue.append_reads hlib).seal "::ContainerError> \x7b\n"
    (flat (under [] ["ContainerError"]) ++ [Token.mark '>', .opening .curly])
    (.ofList rfl) (.ofList rfl)
  exact herror.of_eq (by simp [outcome, under])

theorem sealed_setup {call : String × List Term}
    (hcall : ∀ name ∈ Term.callsOf call.2, Compile.MethodName name) :
    Sealed (setupText library call) (flat (setupLayout path call)) := by
  have hfunction : Reads "value.invoke" (flat [.word "value", .mark '.', .word "invoke"]) :=
    ⟨_, _, rfl, rfl⟩
  have hindent : Sealed "        " [] := .ofList rfl
  have htext := Term.sealed_callText call.1 hfunction (Term.reads_renderAll hlib call.2 hcall)
  have h := (hindent.append htext).text ";\n" [.mark ';'] (.ofList rfl)
  exact h.of_eq (by simp [setupLayout])

/-- the text of a method has the trees of the method -/
theorem sealed_methodText (hm : m.Named) :
    Sealed (methodText library m) (flat (m.layout path)) := by
  have hfn : Sealed "    fn " [.word "fn"] := .ofList rfl
  have hname := (hfn.append_reads (reads_methodName hm.name)).seal "(&self) -> Result<"
    (flat [.group .round [.mark '&', .word "self"], .mark '-', .mark '>', .word "Result",
      .mark '<']) (.ofList rfl) (.ofList rfl)
  have hresult : Sealed ("    fn " ++ m.name ++ "(&self) -> Result<")
      (flat [Tree.word "fn", .word m.name, .group .round [.mark '&', .word "self"], .mark '-',
        .mark '>'] ++ [Token.word "Result", .mark '<']) := hname.of_eq (by simp)
  have hheader := sealed_outcome hlib hresult
  have henter := (hheader.append (sealed_recalled hm)).text "        let _guard = self.stack.enter("
    [.word "let", .word "_guard", .mark '=', .word "self", .mark '.', .word "stack", .mark '.',
      .word "enter", .opening .round] (.ofList rfl)
  have hguard := (henter.append (sealed_quoted m.id)).text ")?;\n"
    [.closing .round, .mark '?', .mark ';'] (.ofList rfl)
  have hvalue := hguard.text "        let value = " [.word "let", .word "value", .mark '=']
    (.ofList rfl)
  have hterm := hvalue.append_reads (Term.reads_render hlib m.root fun name hname =>
    hm.calls name (List.mem_append_left _ hname))
  have hroot := hterm.seal ";\n" [.mark ';'] (.ofList rfl) (.ofList rfl)
  have hsetup := hroot.append (Sealed.join m.setup fun call hcall =>
    sealed_setup hlib fun name hname => hm.calls name
      (List.mem_append_right _ (List.mem_flatMap.mpr ⟨call, hcall, hname⟩)))
  have hkept := (hsetup.append (sealed_kept hm)).text "        Ok(value)\n"
    (flat [.word "Ok", .group .round [.word "value"]]) (.ofList rfl)
  have hend := hkept.text "    \x7d\n" [.closing .curly] (.ofList rfl)
  exact hend.of_eq (by simp [layout, function, bodyLayout, ofSelf, invoked, flat_flatMap])

end

end SourceMethod

/-! ## the module -/

def SourceOptions.path (o : SourceOptions) : List Tree := plain o.library

theorem SourceOptions.Legible.reads_library {o : SourceOptions} (h : o.Legible) :
    Reads o.library (flat o.path) := by
  refine reads_plain fun c hc => ?_
  rcases h.library c hc with hletter | rfl
  · exact .inl hletter
  · decide

theorem SourceOptions.Legible.pathlike {o : SourceOptions} (h : o.Legible) : Pathlike o.path :=
  pathlike_plain h.library

theorem SourceOptions.Legible.reads_container {o : SourceOptions} (h : o.Legible) :
    Reads o.container [.word o.container] := reads_word h.container h.named

namespace SourceModule

def fields (m : SourceModule) : List Tree :=
  let path := m.options.path
  field "factories" (under path ["Factories"]) ++
  field "parameters" (under path ["Parameters"]) ++
  field "stack" (under path ["ResolutionStack"]) ++
  m.cells.flatMap fun cell => field ("cell_" ++ cell)
    (under [] ["std", "cell", "OnceCell"] ++ [Tree.mark '<'] ++ under path ["Value"] ++
      [Tree.mark '>'])

def initials (m : SourceModule) : List Tree :=
  let path := m.options.path
  [Tree.word "factories", .mark ','] ++
  field "parameters" (under path ["Parameters", "from_resolved"] ++
    [Tree.group .round (under [.word "Self"] ["parameter_table"] ++ [Tree.group .round []])]) ++
  field "stack" (under path ["ResolutionStack", "new"] ++ [Tree.group .round []]) ++
  m.cells.flatMap fun cell => field ("cell_" ++ cell)
    (under [] ["std", "cell", "OnceCell", "new"] ++ [Tree.group .round []])

def functions (m : SourceModule) : List Tree :=
  let path := m.options.path
  .word "pub" :: function "new" ([Tree.word "factories", .mark ':'] ++ under path ["Factories"])
    [.word "Self"] [Tree.word "Self", .group .curly m.initials] ++
  function "parameter_table" [] (under path ["Value"]) ((Term.map m.table).layout path) ++
  m.methods.flatMap (SourceMethod.layout path)

def getArm (m : SourceMethod) : List Tree :=
  arm (.literal m.id) (ofSelf m.name ++ [Tree.group .round []])

def tagArm (path : List Tree) (a : String × List (String × Term)) : List Tree :=
  arm (.literal a.1) (vector (a.2.map fun (id, attrs) =>
    [.group .round (owned id ++ [Tree.mark ','] ++ attrs.layout path)]))

def typeArm (a : String × List String) : List Tree :=
  arm (.literal a.1) (vector (a.2.map owned))

/-- the answer for an id that is not public -/
def unknown (path : List Tree) : List Tree :=
  [.word "Err", .group .round (under path ["ContainerError", "UnknownService"] ++
    [Tree.group .curly ([.word "id", .mark ':', .word "id", .mark '.', .word "to_string",
      .group .round []])])]

def hasLayout (m : SourceModule) : List Tree :=
  if m.surface = [] then
    [.word "let", .word "_", .mark '=', .word "id", .mark ';', .word "false"]
  else
    [.word "matches", .mark '!', .group .round ([Tree.word "id", .mark ','] ++
      [Tree.mark '|'].intercalate (m.surface.map fun method => [.literal method.id]))]

def getLayout (m : SourceModule) : List Tree :=
  [.word "match", .word "id", .group .curly
    (m.surface.flatMap getArm ++ arm (.word "_") (unknown m.options.path))]

def taggedLayout (m : SourceModule) : List Tree :=
  [.word "match", .word "tag", .group .curly
    (m.tags.flatMap (tagArm m.options.path) ++ arm (.word "_") emptyVec)]

def byTypeLayout (m : SourceModule) : List Tree :=
  [.word "match", .word "type_name", .group .curly
    (m.types.flatMap typeArm ++ arm (.word "_") emptyVec)]

def parameterLayout : List Tree :=
  [.word "Ok", .group .round (ofSelf "parameters" ++ invoked "get" [.word "key"])]

def pairsType (path : List Tree) : List Tree :=
  [.word "Vec", .mark '<', .group .round ([Tree.word "String", .mark ','] ++ under path ["Value"]),
    .mark '>']

def answers (m : SourceModule) : List Tree :=
  function "get" (question "id") (outcome m.options.path) m.getLayout ++
  function "has" (question "id") [.word "bool"] m.hasLayout ++
  function "tagged" (question "tag") (pairsType m.options.path) m.taggedLayout ++
  function "ids_by_type" (question "type_name") [.word "Vec", .mark '<', .word "String", .mark '>']
    m.byTypeLayout ++
  function "parameter" (question "key") (outcome m.options.path) parameterLayout

/-- the trees of a module: the container's type, its functions, and its answers to lookups -/
def layout (m : SourceModule) : List Tree :=
  [Tree.word "pub", .word "struct", .word m.options.container, .group .curly m.fields] ++
  [Tree.word "impl", .word m.options.container, .group .curly m.functions] ++
  [Tree.word "impl"] ++ under m.options.path ["Lookup"] ++
    [Tree.word "for", .word m.options.container, .group .curly m.answers]

/-- everything in a module is named as its parts are, and its tables call nothing -/
structure Named (m : SourceModule) : Prop where
  options : m.options.Legible
  methods : ∀ method ∈ m.methods, method.Named
  table : Term.callsOfEntries m.table = []
  tags : ∀ a ∈ m.tags, ∀ entry ∈ a.2, entry.2.calls = []

variable {m : SourceModule}

theorem Named.cells (h : m.Named) {cell : String} (hcell : cell ∈ m.cells) :
    Compile.MethodName cell := by
  obtain ⟨method, hmethod, rfl⟩ := List.mem_map.mp hcell
  exact (h.methods method (List.mem_filter.mp hmethod).1).name

theorem Named.surface (h : m.Named) {method : SourceMethod} (hmethod : method ∈ m.surface) :
    method.Named := h.methods method (List.mem_filter.mp hmethod).1

section
variable {library : String} {path : List Tree} (hlib : Reads library (flat path))
include hlib

/-- one more name of the library, with what stands before and behind it -/
theorem sealed_member {front : String} {ts : List Token} (hfront : Sealed front ts) (s : String)
    (us : List Token) (t : String) (names : List String) (vs : List Token) (hs : Sealed s us)
    (ht : Sealed t (flat (under [] names) ++ vs)) (hapart : Apart t) :
    Sealed (front ++ s ++ library ++ t) (ts ++ (us ++ flat (under path names) ++ vs)) :=
  (((hfront.append hs).append_reads hlib).seal t _ ht hapart).of_eq (by simp [under])

end

/-- the text of a cell in the container's type -/
theorem sealed_cellField (h : m.Named) {cell : String} (hcell : cell ∈ m.cells) :
    Sealed ("    cell_" ++ cell ++ ": ::std::cell::OnceCell<" ++ m.options.library ++ "::Value>,\n")
      (flat (field ("cell_" ++ cell) (under [] ["std", "cell", "OnceCell"] ++ [Tree.mark '<'] ++
        under m.options.path ["Value"] ++ [Tree.mark '>']))) := by
  have hindent : Sealed "    " [] := .ofList rfl
  have hname := hindent.append_reads (SourceMethod.reads_cell (h.cells hcell))
  rw [← String.append_assoc] at hname
  have hcolon := hname.seal ": ::std::cell::OnceCell<"
    (.mark ':' :: flat (under [] ["std", "cell", "OnceCell"]) ++ [Token.mark '<'])
    (.ofList rfl) (.ofList rfl)
  have hvalue := (hcolon.append_reads h.options.reads_library).seal "::Value>,\n"
    (flat (under [] ["Value"]) ++ [Token.mark '>', .mark ',']) (.ofList rfl) (.ofList rfl)
  exact hvalue.of_eq (by simp [field, under])

theorem sealed_typeText (h : m.Named) :
    Sealed m.typeText (flat [.word "pub", .word "struct", .word m.options.container,
      .group .curly m.fields]) := by
  have hlib := h.options.reads_library
  have hpub : Sealed "pub struct " [.word "pub", .word "struct"] := .ofList rfl
  have hopen := (hpub.append_reads h.options.reads_container).seal " \x7b\n" [.opening .curly]
    (.ofList rfl) (.ofList rfl)
  have hfactories := sealed_member hlib hopen "    factories: " [.word "factories", .mark ':']
    "::Factories,\n" ["Factories"] [.mark ','] (.ofList rfl) (.ofList rfl) (.ofList rfl)
  have hparameters := sealed_member hlib hfactories "    parameters: "
    [.word "parameters", .mark ':'] "::Parameters,\n" ["Parameters"] [.mark ',']
    (.ofList rfl) (.ofList rfl) (.ofList rfl)
  have hstack := sealed_member hlib hparameters "    stack: " [.word "stack", .mark ':']
    "::ResolutionStack,\n" ["ResolutionStack"] [.mark ','] (.ofList rfl) (.ofList rfl) (.ofList rfl)
  have hcells := hstack.append (Sealed.join m.cells fun cell hcell => sealed_cellField h hcell)
  have hend := hcells.text "\x7d\n\n" [.closing .curly] (.ofList rfl)
  exact hend.of_eq (by simp [fields, field, flat_flatMap])

/-- the text of a cell in a new container -/
theorem sealed_cellInitial (h : m.Named) {cell : String} (hcell : cell ∈ m.cells) :
    Sealed ("            cell_" ++ cell ++ ": ::std::cell::OnceCell::new(),\n")
      (flat (field ("cell_" ++ cell) (under [] ["std", "cell", "OnceCell", "new"] ++
        [Tree.group .round []]))) := by
  have hindent : Sealed "            " [] := .ofList rfl
  have hname := hindent.append_reads (SourceMethod.reads_cell (h.cells hcell))
  rw [← String.append_assoc] at hname
  have hnew := hname.seal ": ::std::cell::OnceCell::new(),\n"
    (.mark ':' :: flat (under [] ["std", "cell", "OnceCell", "new"]) ++
      [Token.opening .round, .closing .round, .mark ',']) (.ofList rfl) (.ofList rfl)
  exact hnew.of_eq (by simp [field])

/-- the text of `new` -/
theorem sealed_new (h : m.Named) {front : String} {ts : List Token} (hfront : Sealed front ts) :
    Sealed (front ++ "    pub fn new(factories: " ++ m.options.library ++
        "::Factories) -> Self \x7b\n" ++ "        Self \x7b\n" ++ "            factories,\n" ++
        "            parameters: " ++ m.options.library ++
        "::Parameters::from_resolved(Self::parameter_table()),\n" ++ "            stack: " ++
        m.options.library ++ "::ResolutionStack::new(),\n" ++
        String.join (m.cells.map fun cell =>
          "            cell_" ++ cell ++ ": ::std::cell::OnceCell::new(),\n") ++
        "        \x7d\n    \x7d\n\n")
      (ts ++ flat (.word "pub" :: function "new"
        ([Tree.word "factories", .mark ':'] ++ under m.options.path ["Factories"]) [.word "Self"]
        [.word "Self", .group .curly m.initials])) := by
  have hlib := h.options.reads_library
  have hheader := sealed_member hlib hfront "    pub fn new(factories: " [.word "pub", .word "fn",
    .word "new", .opening .round, .word "factories", .mark ':'] "::Factories) -> Self \x7b\n"
    ["Factories"] [.closing .round, .mark '-', .mark '>', .word "Self", .opening .curly]
    (.ofList rfl) (.ofList rfl) (.ofList rfl)
  have hopen := hheader.text "        Self \x7b\n" [.word "Self", .opening .curly] (.ofList rfl)
  have hself := hopen.text "            factories,\n" [.word "factories", .mark ','] (.ofList rfl)
  have hparameters := sealed_member hlib hself "            parameters: "
    [.word "parameters", .mark ':'] "::Parameters::from_resolved(Self::parameter_table()),\n"
    ["Parameters", "from_resolved"] (.opening .round :: flat (under [.word "Self"]
      ["parameter_table"]) ++ [Token.opening .round, .closing .round, .closing .round, .mark ','])
    (.ofList rfl) (.ofList rfl) (.ofList rfl)
  have hstack := sealed_member hlib hparameters "            stack: " [.word "stack", .mark ':']
    "::ResolutionStack::new(),\n" ["ResolutionStack", "new"]
    [.opening .round, .closing .round, .mark ','] (.ofList rfl) (.ofList rfl) (.ofList rfl)
  have hcells := hstack.append (Sealed.join m.cells fun cell hcell => sealed_cellInitial h hcell)
  have hend := hcells.text "        \x7d\n    \x7d\n\n" [.closing .curly, .closing .curly]
    (.ofList rfl)
  exact hend.of_eq (by simp [function, initials, field, flat_flatMap])

theorem sealed_methodsText (h : m.Named) :
    Sealed m.methodsText (flat [.word "impl", .word m.options.container,
      .group .curly m.functions]) := by
  have hlib := h.options.reads_library
  have himpl : Sealed "impl " [.word "impl"] := .ofList rfl
  have hopen := (himpl.append_reads h.options.reads_container).seal " \x7b\n" [.opening .curly]
    (.ofList rfl) (.ofList rfl)
  have hheader := sealed_member hlib (sealed_new h hopen) "    fn parameter_table() -> "
    [.word "fn", .word "parameter_table", .opening .round, .closing .round, .mark '-', .mark '>']
    "::Value \x7b\n" ["Value"] [.opening .curly] (.ofList rfl) (.ofList rfl) (.ofList rfl)
  have hindent := hheader.text "        " [] (.ofList rfl)
  have hcalls : ∀ name ∈ (Term.map m.table).calls, Compile.MethodName name := fun name hname => by
    rw [show (Term.map m.table).calls = [] from h.table] at hname
    cases hname
  have htable := (hindent.append_reads (Term.reads_render hlib (.map m.table) hcalls)).seal "\n" []
    (.ofList rfl) (.ofList rfl)
  have hvalue := htable.text "    \x7d\n" [.closing .curly] (.ofList rfl)
  have hline : Sealed "\n" [] := .ofList rfl
  have hmethods := hvalue.append (Sealed.join m.methods fun method hmethod =>
    hline.append (SourceMethod.sealed_methodText hlib (h.methods method hmethod)))
  have hend := hmethods.text "\x7d\n\n" [.closing .curly] (.ofList rfl)
  exact hend.of_eq (by simp [functions, function, flat_flatMap])

/-! ## answers to lookups -/

theorem sealed_getText (h : m.Named) {method : SourceMethod} (hmethod : method ∈ m.surface) :
    Sealed (getText method) (flat (getArm method)) := by
  have hindent : Sealed "            " [] := .ofList rfl
  have hself := (hindent.append (sealed_quoted method.id)).text " => self."
    [.mark '=', .mark '>', .word "self", .mark '.'] (.ofList rfl)
  have hname := (hself.append_reads (reads_methodName (h.surface hmethod).name)).seal "(),\n"
    [.opening .round, .closing .round, .mark ','] (.ofList rfl) (.ofList rfl)
  exact hname.of_eq (by simp [getArm, arm, ofSelf])

theorem sealed_hasText (m : SourceModule) : Sealed m.hasText (flat m.hasLayout) := by
  unfold hasText hasLayout
  split
  · rfl
  · have hopen : Sealed "        matches!(id, " [.word "matches", .mark '!', .opening .round,
      .word "id", .mark ','] := .ofList rfl
    have hids : List.Forall₂ Reads (m.surface.map fun method => Text.quoted method.id)
        ((m.surface.map fun method => [Tree.literal method.id]).map flat) := by
      rw [List.map_map, List.forall₂_map_left_iff, List.forall₂_map_right_iff]
      exact List.forall₂_same.mpr fun method _ => (sealed_quoted method.id).reads
    have hpattern := Reads.intercalate " | " [.mark '|'] (.ofList rfl) (.ofList rfl) hids
    have h := (hopen.append_reads hpattern).seal ")\n" [.closing .round] (.ofList rfl) (.ofList rfl)
    exact h.of_eq (by simp [flat_intercalate])

/-- the text of an arm with a list that is written out -/
theorem sealed_vecArm (key : String) {parts : List String} {tss : List (List Tree)}
    (h : List.Forall₂ (fun s ts => Reads s (flat ts)) parts tss) :
    Sealed ("            " ++ Text.quoted key ++ " => vec![" ++ Term.commas parts ++ "],\n")
      (flat (arm (.literal key) (vector tss))) := by
  have hindent : Sealed "            " [] := .ofList rfl
  have hopen := (hindent.append (sealed_quoted key)).text " => vec!["
    [.mark '=', .mark '>', .word "vec", .mark '!', .opening .square] (.ofList rfl)
  have hend := (hopen.append_reads (reads_commas h)).seal "],\n" [.closing .square, .mark ',']
    (.ofList rfl) (.ofList rfl)
  exact hend.of_eq (by simp [arm, vector])

theorem sealed_tagText (h : m.Named) {a : String × List (String × Term)} (ha : a ∈ m.tags) :
    Sealed (tagText m.options.library a) (flat (tagArm m.options.path a)) := by
  refine sealed_vecArm a.1 ?_
  rw [List.forall₂_map_left_iff, List.forall₂_map_right_iff]
  refine List.forall₂_same.mpr fun entry hentry => ?_
  have hopen : Sealed "(" [.opening .round] := .ofList rfl
  have hid := (hopen.append (sealed_quoted entry.1)).text ".to_string(), "
    [.mark '.', .word "to_string", .opening .round, .closing .round, .mark ','] (.ofList rfl)
  have hattrs := (hid.append_reads (Term.reads_render h.options.reads_library entry.2
    fun name hname => by
      rw [h.tags a ha entry hentry] at hname
      cases hname)).seal ")" [.closing .round] (.ofList rfl) (.ofList rfl)
  exact hattrs.reads.of_eq (by simp [owned])

theorem sealed_typeArm (a : String × List String) :
    Sealed (Source.typeText a) (flat (typeArm a)) := by
  refine sealed_vecArm a.1 ?_
  rw [List.forall₂_map_left_iff, List.forall₂_map_right_iff]
  exact List.forall₂_same.mpr fun id _ => reads_owned id

section
variable {front : String} {ts : List Token} (hfront : Sealed front ts)
include hfront

theorem sealed_get (h : m.Named) :
    Sealed (front ++ "    fn get(&self, id: &str) -> Result<" ++ m.options.library ++ "::Value, " ++
        m.options.library ++ "::ContainerError> \x7b\n" ++ "        match id \x7b\n" ++
        String.join (m.surface.map getText) ++ "            _ => Err(" ++ m.options.library ++
        "::ContainerError::UnknownService \x7b id: id.to_string() \x7d),\n" ++
        "        \x7d\n    \x7d\n\n")
      (ts ++ flat (function "get" (question "id") (outcome m.options.path) m.getLayout)) := by
  have hlib := h.options.reads_library
  have hresult : Sealed (front ++ "    fn get(&self, id: &str) -> Result<")
      (ts ++ flat [Tree.word "fn", .word "get", .group .round (question "id"), .mark '-',
        .mark '>'] ++ [Token.word "Result", .mark '<']) := by
    rw [List.append_assoc]
    exact hfront.append rfl
  have hmatch := (SourceMethod.sealed_outcome hlib hresult).text "        match id \x7b\n"
    [.word "match", .word "id", .opening .curly] (.ofList rfl)
  have harms := hmatch.append (Sealed.join m.surface fun method hmethod => sealed_getText h hmethod)
  have hunknown := sealed_member hlib harms "            _ => Err("
    [.word "_", .mark '=', .mark '>', .word "Err", .opening .round]
    "::ContainerError::UnknownService \x7b id: id.to_string() \x7d),\n"
    ["ContainerError", "UnknownService"]
    (flat [Tree.group .curly [.word "id", .mark ':', .word "id", .mark '.', .word "to_string",
      .group .round []]] ++ [Token.closing .round, .mark ','])
      (.ofList rfl) (.ofList rfl) (.ofList rfl)
  have hend := hunknown.text "        \x7d\n    \x7d\n\n" [.closing .curly, .closing .curly]
    (.ofList rfl)
  exact hend.of_eq (by simp [function, getLayout, unknown, arm, flat_flatMap])

theorem sealed_has (m : SourceModule) :
    Sealed (front ++ "    fn has(&self, id: &str) -> bool \x7b\n" ++ m.hasText ++ "    \x7d\n\n")
      (ts ++ flat (function "has" (question "id") [.word "bool"] m.hasLayout)) := by
  have hheader := hfront.text "    fn has(&self, id: &str) -> bool \x7b\n"
    (flat [Tree.word "fn", .word "has", .group .round (question "id"), .mark '-', .mark '>',
      .word "bool"] ++ [Token.opening .curly]) (.ofList rfl)
  have hend := (hheader.append (sealed_hasText m)).text "    \x7d\n\n" [.closing .curly]
    (.ofList rfl)
  exact hend.of_eq (by simp [function])

theorem sealed_tagged (h : m.Named) :
    Sealed (front ++ "    fn tagged(&self, tag: &str) -> Vec<(String, " ++ m.options.library ++
        "::Value)> \x7b\n" ++ "        match tag \x7b\n" ++
        String.join (m.tags.map (tagText m.options.library)) ++
        "            _ => Vec::new(),\n        \x7d\n    \x7d\n\n")
      (ts ++ flat (function "tagged" (question "tag") (pairsType m.options.path)
        m.taggedLayout)) := by
  have hheader := sealed_member h.options.reads_library hfront
    "    fn tagged(&self, tag: &str) -> Vec<(String, "
    (flat [Tree.word "fn", .word "tagged", .group .round (question "tag"), .mark '-', .mark '>',
      .word "Vec", .mark '<'] ++ [Token.opening .round, .word "String", .mark ','])
    "::Value)> \x7b\n" ["Value"] [.closing .round, .mark '>', .opening .curly]
    (.ofList rfl) (.ofList rfl) (.ofList rfl)
  have hmatch := hheader.text "        match tag \x7b\n" [.word "match", .word "tag",
    .opening .curly] (.ofList rfl)
  have harms := hmatch.append (Sealed.join m.tags fun a ha => sealed_tagText h ha)
  have hend := harms.text "            _ => Vec::new(),\n        \x7d\n    \x7d\n\n"
    (flat (arm (.word "_") emptyVec) ++ [Token.closing .curly, .closing .curly]) (.ofList rfl)
  exact hend.of_eq (by simp [function, pairsType, taggedLayout, flat_flatMap])

theorem sealed_byType (m : SourceModule) :
    Sealed (front ++ "    fn ids_by_type(&self, type_name: &str) -> Vec<String> \x7b\n" ++
        "        match type_name \x7b\n" ++ String.join (m.types.map Source.typeText) ++
        "            _ => Vec::new(),\n        \x7d\n    \x7d\n\n")
      (ts ++ flat (function "ids_by_type" (question "type_name")
        [.word "Vec", .mark '<', .word "String", .mark '>'] m.byTypeLayout)) := by
  have hheader := hfront.text "    fn ids_by_type(&self, type_name: &str) -> Vec<String> \x7b\n"
    (flat [Tree.word "fn", .word "ids_by_type", .group .round (question "type_name"), .mark '-',
      .mark '>', .word "Vec", .mark '<', .word "String", .mark '>'] ++ [Token.opening .curly])
      (.ofList rfl)
  have hmatch := hheader.text "        match type_name \x7b\n" [.word "match", .word "type_name",
    .opening .curly] (.ofList rfl)
  have harms := hmatch.append (Sealed.join m.types fun a _ => sealed_typeArm a)
  have hend := harms.text "            _ => Vec::new(),\n        \x7d\n    \x7d\n\n"
    (flat (arm (.word "_") emptyVec) ++ [Token.closing .curly, .closing .curly]) (.ofList rfl)
  exact hend.of_eq (by simp [function, byTypeLayout, flat_flatMap])

theorem sealed_parameter (h : m.Named) :
    Sealed (front ++ "    fn parameter(&self, key: &str) -> Result<" ++ m.options.library ++
        "::Value, " ++ m.options.library ++ "::ContainerError> \x7b\n" ++
        "        Ok(self.parameters.get(key)?)\n    \x7d\n\x7d\n")
      (ts ++ flat (function "parameter" (question "key") (outcome m.options.path)
        parameterLayout) ++ [Token.closing .curly]) := by
  have hresult : Sealed (front ++ "    fn parameter(&self, key: &str) -> Result<")
      (ts ++ flat [Tree.word "fn", .word "parameter", .group .round (question "key"), .mark '-',
        .mark '>'] ++ [Token.word "Result", .mark '<']) := by
    rw [List.append_assoc]
    exact hfront.append rfl
  have hend := (SourceMethod.sealed_outcome h.options.reads_library hresult).text
    "        Ok(self.parameters.get(key)?)\n    \x7d\n\x7d\n"
    (flat parameterLayout ++ [Token.closing .curly, .closing .curly]) (.ofList rfl)
  exact hend.of_eq (by simp [function])

end

theorem sealed_lookupText (h : m.Named) :
    Sealed m.lookupText (flat ([Tree.word "impl"] ++ under m.options.path ["Lookup"] ++
      [Tree.word "for", .word m.options.container, .group .curly m.answers])) := by
  have hfor := sealed_member h.options.reads_library sealed_empty "impl " [.word "impl"]
    "::Lookup for " ["Lookup"] [.word "for"] (.ofList rfl) (.ofList rfl) (.ofList rfl)
  rw [String.empty_append] at hfor
  have hopen := (hfor.append_reads h.options.reads_container).seal " \x7b\n" [.opening .curly]
    (.ofList rfl) (.ofList rfl)
  have htagged := sealed_tagged (sealed_has (sealed_get hopen h) m) h
  exact (sealed_parameter (sealed_byType htagged m) h).of_eq (by simp [answers])

/-- **The text of a module has the trees of the module.** -/
theorem trees?_body (h : m.Named) : trees? m.body = some m.layout := by
  have hbody := ((sealed_typeText h).append (sealed_methodsText h)).append (sealed_lookupText h)
  have hlayout : Sealed m.body (flat m.layout) := hbody.of_eq (by simp [layout])
  exact hlayout.reads.trees?_eq

end SourceModule
end ServiceGraph
