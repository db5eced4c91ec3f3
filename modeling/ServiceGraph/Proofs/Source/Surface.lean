import ServiceGraph.Proofs.Source.Closed
import ServiceGraph.Proofs.Source.Grouped

/-!
# What a generated module tells of its services

* `Source.Surface`, `Source.surface?`: the arms with which the trees of a module answer to lookups;
* `SourceModule.surface?_layout`: the arms of a module;
* `Source.Answers`: arms that answer as a function does;
* `Source.Surface.Mirrors`: a module tells what a container tells;
* `Compile.surface_mirrors`: the module of a registry tells what its container tells.
-/

namespace ServiceGraph

namespace Source

/-! ## reading arms -/

/-- a pattern and what stands behind its arrow -/
def arm? : List Tree → Option (Tree × List Tree)
  | pattern :: .mark a :: .mark b :: answer =>
    if a = '=' && b = '>' then some (pattern, answer) else none
  | _ => none

def Tree.isWildcard : Tree → Bool
  | .word s => s = "_"
  | _ => false

variable {α : Type} (answer? : List Tree → Option α) (otherwise : List Tree → Bool)

/-- arms for texts, and behind them one for everything else -/
def keyed? : List (List Tree) → Option (OrderedMap α)
  | [] => none
  | part :: parts => do
    let (pattern, answer) ← arm? part
    match pattern with
    | .literal key => return (key, ← answer? answer) :: (← keyed? parts)
    | _ => if pattern.isWildcard && otherwise answer && parts.isEmpty then return [] else none

/-- the arms of a match on a subject -/
def matchOn? (subject : String) : List Tree → Option (OrderedMap α)
  | [.word w, .word s, .group .curly arms] =>
    if w = "match" && s = subject then keyed? answer? otherwise (segments ',' arms) else none
  | _ => none

def calledOnSelf? : List Tree → Option String
  | [.word s, .mark c, .word name, .group .round []] =>
    if s = "self" && c = '.' then some name else none
  | _ => none

def owned? : List Tree → Option String
  | [.literal s, .mark c, .word w, .group .round []] =>
    if c = '.' && w = "to_string" then some s else none
  | _ => none

def pair? : List Tree → Option (String × List Tree)
  | [.group .round (.literal s :: .mark c :: .word w :: .group .round [] :: .mark d :: ts)] =>
    if c = '.' && w = "to_string" && d = ',' then some (s, ts) else none
  | _ => none

def items? (item? : List Tree → Option α) : List Tree → Option (List α)
  | [.word w, .mark c, .group .square items] =>
    if w = "vec" && c = '!' then (segments ',' items).mapM item? else none
  | _ => none

def isEmptyVec : List Tree → Bool
  | [.word v, .mark c, .mark d, .word n, .group .round []] =>
    v = "Vec" && c = ':' && d = ':' && n = "new"
  | _ => false

def isRefusal : List Tree → Bool
  | .word s :: _ => s = "Err"
  | _ => false

/-- the texts to which the answer is yes -/
def alternatives? (subject : String) : List Tree → Option (List String)
  | [.word w, .mark c, .group .round (.word s :: .mark d :: pattern)] =>
    if w = "matches" && c = '!' && s = subject && d = ',' then
      (segments '|' pattern).mapM literal?
    else none
  | [.word l, .word u, .mark c, .word s, .mark d, .word f] =>
    if l = "let" && u = "_" && c = '=' && s = subject && d = ';' && f = "false" then some []
    else none
  | _ => none

/-- how a module answers to lookups -/
structure Surface where
  /-- for each id that may be got, the method that is called -/
  get : OrderedMap String
  has : List String
  /-- for each tag the ids with the trees of their attributes -/
  tagged : OrderedMap (List (String × List Tree))
  byType : OrderedMap (List String)

def isLookup (header : List Tree) : Bool := match header.reverse with
  | .word _ :: .word f :: .word l :: _ => f = "for" && l = "Lookup"
  | _ => false

def answering (ts : List Tree) : OrderedMap (List Tree) :=
  (blocks ts).flatMap fun b => if isLookup b.1 then functionsIn b.2 else []

/-- how trees answer to lookups -/
def surface? (ts : List Tree) : Option Surface := do
  let get ← ((answering ts).get? "get").bind (matchOn? calledOnSelf? isRefusal "id")
  let has ← ((answering ts).get? "has").bind (alternatives? "id")
  let tagged ← ((answering ts).get? "tagged").bind (matchOn? (items? pair?) isEmptyVec "tag")
  let byType ← ((answering ts).get? "ids_by_type").bind
    (matchOn? (items? owned?) isEmptyVec "type_name")
  return { get, has, tagged, byType }

/-! ## arms that are written -/

section
variable {β : Type} {answer? : List Tree → Option β} {otherwise : List Tree → Bool}
  {xs : List α} {key : α → String} {answer : α → List Tree} {value : α → β} {other : List Tree}

theorem keyed?_arms (hanswer : ∀ x ∈ xs, answer? (answer x) = some (value x))
    (hother : otherwise other = true) :
    keyed? answer? otherwise
        (xs.map (fun x => [Tree.literal (key x), .mark '=', .mark '>'] ++ answer x) ++
          [[Tree.word "_", .mark '=', .mark '>'] ++ other]) =
      some (xs.map fun x => (key x, value x)) := by
  induction xs with
  | nil =>
    show (if true && otherwise other && true then some [] else none : Option (OrderedMap β)) = _
    rw [hother]
    rfl
  | cons x xs ih =>
    rw [List.map_cons, List.cons_append, keyed?, ih fun y hy => hanswer y (List.mem_cons_of_mem _ hy)]
    show (do let v ← answer? (answer x); some ((key x, v) :: xs.map fun x => (key x, value x))) = _
    rw [hanswer x (List.mem_cons_self ..)]
    rfl

/-- a match with an arm for each of some texts -/
theorem matchOn?_arms (answer? : List Tree → Option β) (otherwise : List Tree → Bool)
    (subject : String) (xs : List α) (key : α → String) (answer : α → List Tree) (value : α → β)
    (other : List Tree) (hcommas : ∀ x ∈ xs, .mark ',' ∉ answer x)
    (hanswer : ∀ x ∈ xs, answer? (answer x) = some (value x)) (hcomma : .mark ',' ∉ other)
    (hother : otherwise other = true) :
    matchOn? answer? otherwise subject [.word "match", .word subject, .group .curly
        (xs.flatMap (fun x => arm (.literal (key x)) (answer x)) ++ arm (.word "_") other)] =
      some (xs.map fun x => (key x, value x)) := by
  have hparts : segments ','
      (xs.flatMap (fun x => arm (.literal (key x)) (answer x)) ++ arm (.word "_") other) =
      xs.map (fun x => [Tree.literal (key x), .mark '=', .mark '>'] ++ answer x) ++
        [[Tree.word "_", .mark '=', .mark '>'] ++ other] := by
    have hlast : segments ',' (arm (.word "_") other) =
        [[Tree.word "_", .mark '=', .mark '>'] ++ other] :=
      segments_append (by simpa using hcomma) []
    rw [← hlast]
    exact segments_flatMap (fun x hx => by simpa using hcommas x hx) (arm (.word "_") other)
  rw [matchOn?, hparts, if_pos (by simp)]
  exact keyed?_arms hanswer hother

/-- parts that are all read -/
theorem mapM_of_forall {part? : List Tree → Option β} {part : α → List Tree}
    (h : ∀ x ∈ xs, part? (part x) = some (value x)) :
    (xs.map part).mapM part? = some (xs.map value) := by
  induction xs with
  | nil => rfl
  | cons x xs ih =>
    rw [List.map_cons, List.mapM_cons, h x (List.mem_cons_self ..),
      ih fun y hy => h y (List.mem_cons_of_mem _ hy)]
    rfl

theorem items?_vector {item? : List Tree → Option β} (xs : List α) (item : α → List Tree)
    (value : α → β) (hitem : ∀ x ∈ xs, item? (item x) = some (value x))
    (hpart : ∀ x ∈ xs, item x ≠ [] ∧ .mark ',' ∉ item x) :
    items? item? (vector (xs.map item)) = some (xs.map value) := by
  have hparts : segments ',' (listed (xs.map item)) = xs.map item :=
    segments_intercalate fun part hmem => by
      obtain ⟨x, hx, rfl⟩ := List.mem_map.mp hmem
      exact hpart x hx
  show (segments ',' (listed (xs.map item))).mapM item? = _
  rw [hparts]
  exact mapM_of_forall hitem

end

end Source

open Source

namespace SourceModule

variable {m : SourceModule}

def told (m : SourceModule) : Surface where
  get := m.surface.map fun sm => (sm.id, sm.name)
  has := m.surface.map SourceMethod.id
  tagged := m.tags.map fun a => (a.1, a.2.map fun pair => (pair.1, pair.2.layout m.options.path))
  byType := m.types

theorem answering_layout (h : m.options.Legible) : answering m.layout = functionsIn m.answers := by
  have hlookup : isLookup ([Tree.word "impl"] ++ under m.options.path ["Lookup"] ++
      [Tree.word "for", .word m.options.container]) = true := by
    simp [isLookup, under]
  have hstruct : isLookup [.word "pub", .word "struct", .word m.options.container] = false := rfl
  have himpl : isLookup [.word "impl", .word m.options.container] = false := rfl
  rw [answering, blocks_layout h, List.flatMap_cons, List.flatMap_cons, List.flatMap_singleton,
    hstruct, himpl, hlookup]
  exact (List.nil_append _).trans (List.nil_append _)

/-- the body of `get` has an arm for each public service -/
theorem matchOn?_get (m : SourceModule) :
    matchOn? calledOnSelf? isRefusal "id" m.getLayout = some m.told.get := by
  have harms := matchOn?_arms calledOnSelf? isRefusal "id" m.surface SourceMethod.id
    (fun sm => ofSelf sm.name ++ [Tree.group .round []]) SourceMethod.name (unknown m.options.path)
    (by simp [ofSelf]) (fun _ _ => rfl) (by simp [unknown]) rfl
  exact harms

/-- the body of `has` names each public service -/
theorem alternatives?_has (m : SourceModule) :
    alternatives? "id" m.hasLayout = some m.told.has := by
  rw [hasLayout, told]
  split
  · next hnone =>
    rw [hnone]
    rfl
  · have hparts : segments '|' ([.mark '|'].intercalate (m.surface.map fun method =>
        [.literal method.id])) = m.surface.map fun method => [.literal method.id] :=
      segments_intercalate fun part hmem => by
        obtain ⟨method, -, rfl⟩ := List.mem_map.mp hmem
        simp
    show (segments '|' ([.mark '|'].intercalate (m.surface.map fun method =>
      [.literal method.id]))).mapM literal? = _
    rw [hparts]
    exact mapM_of_forall fun _ _ => rfl

/-- the body of `tagged` has an arm for each tag -/
theorem matchOn?_tagged (m : SourceModule) :
    matchOn? (items? pair?) isEmptyVec "tag" m.taggedLayout = some m.told.tagged := by
  have harms := matchOn?_arms (items? pair?) isEmptyVec "tag" m.tags Prod.fst
    (fun a => vector (a.2.map fun pair =>
      [.group .round (owned pair.1 ++ [Tree.mark ','] ++ pair.2.layout m.options.path)]))
    (fun a => a.2.map fun pair => (pair.1, pair.2.layout m.options.path)) emptyVec
    (by simp [vector]) (fun a _ => items?_vector a.2 _ _ (fun _ _ => rfl) (by simp))
    (by simp [emptyVec, under]) rfl
  exact harms

/-- the body of `ids_by_type` has an arm for each type -/
theorem matchOn?_byType (m : SourceModule) :
    matchOn? (items? owned?) isEmptyVec "type_name" m.byTypeLayout = some m.told.byType := by
  have hids : ∀ ids : List String, items? owned? (vector (ids.map owned)) = some ids := fun ids => by
    have hitems : items? owned? (vector (ids.map owned)) = some (ids.map id) :=
      items?_vector ids owned id (fun _ _ => rfl) (by simp [owned])
    rwa [List.map_id] at hitems
  have harms : matchOn? (items? owned?) isEmptyVec "type_name" m.byTypeLayout =
      some (m.types.map fun a => (a.1, a.2)) :=
    matchOn?_arms (items? owned?) isEmptyVec "type_name" m.types Prod.fst
      (fun a => vector (a.2.map owned)) Prod.snd emptyVec (by simp [vector]) (fun a _ => hids a.2)
      (by simp [emptyVec, under]) rfl
  exact harms.trans (congrArg some (List.map_id m.types))

/-- the trees of a module answer as the module does -/
theorem surface?_layout (h : m.options.Legible) : surface? m.layout = some m.told := by
  rw [surface?, answering_layout h, functionsIn_answers h]
  simp only [OrderedMap.get?, reduceIte, String.reduceEq, Option.bind_some, matchOn?_get,
    alternatives?_has, matchOn?_tagged, matchOn?_byType]
  rfl

end SourceModule

/-! ## the arms of a registry -/

namespace Source

/-- arms answer as a function does: there is one where the function has something to tell, which tells the
same in the same order, and none where it has not -/
structure Answers {α β : Type} (R : String → α → β → Prop) (arms : OrderedMap (List β))
    (answer : String → List α) : Prop where
  distinct : OrderedMap.Distinct arms
  absent : ∀ key, arms.get? key = none ↔ answer key = []
  same : ∀ key told, arms.get? key = some told → List.Forall₂ (R key) (answer key) told

theorem Answers.of_groups {α β : Type} {R : String → α → β → Prop} {groups : OrderedMap (List α)}
    {arms : OrderedMap (List β)} {answer : String → List α} (hdistinct : OrderedMap.Distinct groups)
    (hgroups : ∀ key, groups.get? key = Compile.nonempty? (answer key))
    (h : List.Forall₂ (fun g a => a.1 = g.1 ∧ List.Forall₂ (R g.1) g.2 a.2) groups arms) :
    Answers R arms answer := by
  have hrel : ∀ key, Option.Rel (List.Forall₂ (R key)) (Compile.nonempty? (answer key))
      (arms.get? key) := fun key =>
    hgroups key ▸ OrderedMap.get?_rel (R := fun key => List.Forall₂ (R key)) h key
  have hkeys : groups.keys = arms.keys := map_eq_of_forall₂ h fun _ _ hga => hga.1.symm
  refine ⟨?_, fun key => (Compile.of_rel_nonempty? (hrel key)).1,
    fun key => (Compile.of_rel_nonempty? (hrel key)).2⟩
  unfold OrderedMap.Distinct
  rw [← hkeys]
  exact hdistinct

/-- an id with the trees of its attributes, which are written as data -/
def Written (library tag : String) (entry : String × Value) (pair : String × List Tree) : Prop :=
  pair.1 = entry.1 ∧
    ∃ t, Term.static tag entry.2 = .ok t ∧ trees? (t.render library) = some pair.2

/-- arms tell what a container over a registry tells -/
structure Surface.Mirrors {σ : Type} (s : Surface) (library : String) (r : Registry)
    (c : Container σ) : Prop where
  /-- what may be got are the public ids in the order of registration, each by its method -/
  get : s.get.keys = r.surface.map Definition.id
  method : ∀ id name, (id, name) ∈ s.get → (Compile.methodNames r.ids).get? id = some name
  has : s.has = r.surface.map Definition.id
  asked : ∀ id, c.has id = true ↔ id ∈ s.has
  tagged : Answers (Written library) s.tagged c.tagged
  byType : Answers (fun _ id id' => id = id') s.byType c.idsByType

end Source

namespace Compile

variable {σ τ : Type} {r : Registry} {cs : Option (Constructors σ)} {services : Services σ}
  {h : Heap σ} {options : SourceOptions} {m : SourceModule}

/-- a registry that has a module has a container -/
theorem exists_container (hm : moduleOf r cs services h options = some (.ok m))
    (constructors : Constructors τ) (services' : Services τ) :
    ∃ c, Container.ofRegistry r constructors services' = .ok c := by
  obtain ⟨hr, hmethods⟩ := moduleOf_eq_ok hm
  obtain ⟨ds, hds⟩ := exists_substituteAll hmethods
  exact ⟨_, Container.ofRegistry_of_substituteAll hr hds⟩

section
variable (he : Emitted r (context r cs services h) options m)
include he

/-- the public methods are those of the public definitions -/
theorem Emitted.ids_surface : m.surface.map SourceMethod.id = r.surface.map Definition.id := by
  have hsurface : List.Forall₂ (Emits (context r cs services h)) r.surface m.surface :=
    List.rel_filter (fun _ _ hd => iff_of_eq (congrArg (· = true) hd.isPublic.symm)) he.methods
  exact (map_eq_of_forall₂ hsurface fun _ _ hd => hd.id.symm).symm

theorem Emitted.mirrors (hkeyed : r.Keyed) (hoptions : options.Legible) {c : Container τ}
    {constructors : Constructors τ} {services' : Services τ}
    (hc : Container.ofRegistry r constructors services' = .ok c) :
    m.told.Mirrors options.library r c where
  get := by
    rw [← he.ids_surface]
    exact List.map_map
  method id name hmem := by
    obtain ⟨sm, hsm, heq⟩ := List.mem_map.mp hmem
    cases heq
    exact he.methodOf_mem sm (List.mem_filter.mp hsm).1
  has := he.ids_surface
  asked id := by
    rw [Container.has_iff he.frozen hkeyed.ids hc, ← he.ids_surface]
    rfl
  -- both list the tags group by group, over the same public definitions
  tagged := by
    have htags : ∀ d ∈ r.surface, d.tags.Distinct := fun d hd =>
      hkeyed.tags d (List.mem_filter.mp hd).1
    refine .of_groups (tagGroups_distinct r.surface) (fun tag => ?_) ?_
    · rw [get?_tagGroups htags, Container.tagged_eq he.frozen hkeyed.ids hc]
    · refine List.forall₂_map_right_iff.mpr ((tagArms_eq_ok he.tags).imp fun g a hga => ⟨hga.1, ?_⟩)
      refine List.forall₂_map_right_iff.mpr (hga.2.imp fun entry pair hpair => ?_)
      have hcalls : ∀ name ∈ pair.2.calls, MethodName name := by
        rw [Term.calls_static hpair.2]
        exact fun name hname => nomatch hname
      have hlibrary := hoptions.reads_library
      rw [← he.options] at hlibrary ⊢
      exact ⟨hpair.1, pair.2, hpair.2, (Term.reads_render hlibrary pair.2 hcalls).trees?_eq⟩
  byType := by
    have htypes : ∀ d ∈ r.surface, d.types.Nodup := fun d hd =>
      hkeyed.types d (List.mem_filter.mp hd).1
    have hgroups : m.told.byType = typeGroups r.surface := he.types
    rw [hgroups]
    refine .of_groups (typeGroups_distinct r.surface) (fun typeName => ?_) ?_
    · rw [get?_typeGroups htypes, Container.idsByType_eq he.frozen hkeyed.ids hc]
    · exact List.forall₂_same.mpr fun g _ => ⟨rfl, List.forall₂_same.mpr fun _ _ => rfl⟩

end

/-- **A generated module tells what its container tells.** The container of a registry that compiles
opens. The arms that get a service and the answer whether an id is there name the public ids in the order
of registration, and each arm calls the method that enters its id. The arms for tags and for types tell
what the container tells, with attributes written as data, and there are no others. -/
theorem surface_mirrors {r : Registry} (hkeyed : r.Keyed) {options : SourceOptions}
    (hoptions : options.Legible) {text : String}
    (htext : compile r cs services h options = some (.ok text)) (constructors : Constructors τ)
    (services' : Services τ) :
    ∃ c body ts s, Container.ofRegistry r constructors services' = .ok c ∧
      text = SourceModule.withHeader body ∧ trees? body = some ts ∧ surface? ts = some s ∧
      s.Mirrors options.library r c ∧
      ∀ id name, (id, name) ∈ s.get →
        ∃ code, (name, code) ∈ definedIn ts ∧ entered code = [some id] := by
  obtain ⟨m, hm, rfl⟩ := compile_eq_ok htext
  obtain ⟨c, hc⟩ := exists_container hm constructors services'
  have he := emitted_of_moduleOf hm
  have hnamed := he.named hoptions
  refine ⟨c, m.body, m.layout, m.told, hc, rfl, m.trees?_body hnamed,
    SourceModule.surface?_layout hnamed.options, he.mirrors hkeyed hoptions hc, ?_⟩
  intro id name hmem
  obtain ⟨sm, hsm, heq⟩ := List.mem_map.mp hmem
  cases heq
  exact ⟨_, SourceModule.mem_definedIn hnamed.options (List.mem_filter.mp hsm).1,
    sm.entered_body hnamed.options.pathlike⟩

/-- two public services and a private one, which share a tag and a type -/
def stalls : Registry :=
  { Registry.ofParameters .empty with
    definitions :=
      [ { Definition.ofNode "shop" (.literal .null) with
          tags := [("stall", .map [("row", .int 1)])], types := ["Stall"] },
        { Definition.ofNode "store" (.literal .null) with
          tags := [("stall", .null), ("store", .null)], types := ["Stall", "Store"],
          isPublic := false },
        { Definition.ofNode "cart" (.reference "store" false) with
          tags := [("stall", .map [("row", .int 2)])], types := ["Cart", "Stall"] } ]
    frozen := true }

theorem stalls_mirrored :
    stalls.Keyed ∧ SourceOptions.standard.Legible ∧
      ∃ body ts s, compile stalls none (σ := Empty) ⟨nofun, nofun, fun _ _ s => nomatch s⟩ .empty
          .standard = some (.ok (SourceModule.withHeader body)) ∧
        trees? body = some ts ∧ surface? ts = some s ∧ s.has = ["shop", "cart"] ∧
        (∃ pairs, s.tagged.get? "stall" = some pairs ∧ pairs.map Prod.fst = ["shop", "cart"]) ∧
        s.tagged.get? "store" = none ∧ s.byType.get? "Stall" = some ["shop", "cart"] ∧
        s.byType.get? "Store" = none := by
  have hkeyed : stalls.Keyed := by decide
  obtain ⟨m, hm⟩ : ∃ m, moduleOf stalls none (σ := Empty)
      ⟨nofun, nofun, fun _ _ s => nomatch s⟩ .empty .standard = some (.ok m) := ⟨_, rfl⟩
  have htext : compile stalls none (σ := Empty) ⟨nofun, nofun, fun _ _ s => nomatch s⟩ .empty
      .standard = some (.ok m.text) := by
    rw [compile, hm]
    rfl
  obtain ⟨c, body, ts, s, hc, hbody, hts, hs, hmirrors, -⟩ :=
    surface_mirrors hkeyed SourceOptions.standard_legible htext ([] : Constructors Empty)
      ⟨nofun, nofun, fun _ _ s => nomatch s⟩
  cases (rfl : Container.ofRegistry stalls ([] : Constructors Empty)
    ⟨nofun, nofun, fun _ _ s => nomatch s⟩ = .ok _).symm.trans hc
  obtain ⟨pairs, hpairs⟩ : ∃ pairs, s.tagged.get? "stall" = some pairs :=
    Option.ne_none_iff_exists'.mp fun hnone =>
      absurd ((hmirrors.tagged.absent "stall").mp hnone) (by decide)
  obtain ⟨ids, hids⟩ : ∃ ids, s.byType.get? "Stall" = some ids :=
    Option.ne_none_iff_exists'.mp fun hnone =>
      absurd ((hmirrors.byType.absent "Stall").mp hnone) (by decide)
  have hstall := map_eq_of_forall₂ (hmirrors.tagged.same "stall" pairs hpairs)
    (f := Prod.fst) (g := Prod.fst) fun _ _ hpair => hpair.1.symm
  have htyped := map_eq_of_forall₂ (hmirrors.byType.same "Stall" ids hids) (f := id) (g := id)
    fun _ _ hid => hid
  rw [List.map_id, List.map_id] at htyped
  exact ⟨hkeyed, SourceOptions.standard_legible, body, ts, s, hbody ▸ htext, hts, hs, hmirrors.has,
    ⟨pairs, hpairs, hstall.symm⟩, (hmirrors.tagged.absent "store").mpr rfl,
    hids.trans (congrArg some htyped.symm), (hmirrors.byType.absent "Store").mpr rfl⟩

end Compile
end ServiceGraph
