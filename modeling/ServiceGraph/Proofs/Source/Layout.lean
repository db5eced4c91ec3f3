import ServiceGraph.Proofs.Source.Calls
import ServiceGraph.Proofs.Source.Trees

/-!
# The trees of a term

* `Source.plain`: the trees of a text without strings and brackets, such as a path or a number;
* `Source.Pathlike`: the trees of a path;
* `Source.under`, `listed`, `vector`, `invoked`: shapes that recur in generated source;
* `Term.layout`: the trees of a term;
* `Term.reads_render`: they are those of its text.
-/

set_option linter.unusedSectionVars false

namespace ServiceGraph

namespace Source

open Compile (nameLetter)

/-! ## plain text -/

/-- the character belongs to a word or stands for itself -/
def PlainChar (c : Char) : Prop := nameLetter c = true ∨ c ≠ '"' ∧ punctuation c = [.mark c]

instance (c : Char) : Decidable (PlainChar c) :=
  inferInstanceAs (Decidable (nameLetter c = true ∨ c ≠ '"' ∧ punctuation c = [.mark c]))

def wordEnd (word : List Char) : List Tree :=
  if word = [] then [] else [.word (String.ofList word)]

theorem flat_wordEnd (word : List Char) : flat (wordEnd word) = pending word := by
  unfold wordEnd pending
  split <;> rfl

/-- the trees of plain text, going on with a word -/
def plainFrom (word : List Char) : List Char → List Tree
  | [] => wordEnd word
  | c :: cs =>
    if nameLetter c then plainFrom (word ++ [c]) cs
    else wordEnd word ++ .mark c :: plainFrom [] cs

def plain (s : String) : List Tree := plainFrom [] s.toList

theorem scan_plain {cs : List Char} (h : ∀ c ∈ cs, PlainChar c) (word : List Char) :
    ∃ us last, scan (.code word) cs = (us, .code last) ∧
      flat (plainFrom word cs) = us ++ pending last := by
  induction cs generalizing word with
  | nil => exact ⟨[], word, rfl, flat_wordEnd word⟩
  | cons c cs ih =>
    have hcs : ∀ d ∈ cs, PlainChar d := fun d hd => h d (List.mem_cons_of_mem _ hd)
    rw [scan_cons, step, plainFrom]
    rcases h c (List.mem_cons_self ..) with hc | ⟨hquote, hmark⟩
    · obtain ⟨us, last, hscan, hflat⟩ := ih hcs (word ++ [c])
      rw [if_pos hc, if_pos hc, hscan]
      exact ⟨us, last, rfl, hflat⟩
    · by_cases hc : nameLetter c = true
      · obtain ⟨us, last, hscan, hflat⟩ := ih hcs (word ++ [c])
        rw [if_pos hc, if_pos hc, hscan]
        exact ⟨us, last, rfl, hflat⟩
      · obtain ⟨us, last, hscan, hflat⟩ := ih hcs []
        rw [if_neg hc, if_neg hc, if_neg hquote, hscan, hmark]
        refine ⟨pending word ++ [Token.mark c] ++ us, last, rfl, ?_⟩
        rw [flat_append, flat_wordEnd, flat_cons, hflat, flat_mark]
        simp only [List.append_assoc]

theorem reads_plain {s : String} (h : ∀ c ∈ s.toList, PlainChar c) : Reads s (flat (plain s)) := by
  obtain ⟨us, last, hscan, hflat⟩ := scan_plain h []
  exact ⟨us, last, hscan, hflat⟩

theorem mem_wordEnd {word : List Char} {t : Tree} (h : t ∈ wordEnd word) :
    t = .word (String.ofList word) := by
  unfold wordEnd at h
  split at h
  · cases h
  · exact List.mem_singleton.mp h

/-- the trees of plain text are words and marks of its characters -/
theorem mem_plainFrom {word cs : List Char} {t : Tree} (h : t ∈ plainFrom word cs) :
    (∃ w : List Char, t = .word (String.ofList w) ∧ ∀ c ∈ w, c ∈ word ++ cs) ∨
      ∃ c ∈ cs, ¬ nameLetter c = true ∧ t = .mark c := by
  induction cs generalizing word with
  | nil => exact .inl ⟨word, mem_wordEnd h, fun c hc => List.mem_append_left _ hc⟩
  | cons c cs ih =>
    rw [plainFrom] at h
    split at h
    · rcases ih h with ⟨w, hw, hmem⟩ | ⟨d, hd, hmark⟩
      · refine .inl ⟨w, hw, fun e he => ?_⟩
        have hmem := hmem e he
        rwa [List.append_assoc, List.singleton_append] at hmem
      · exact .inr ⟨d, List.mem_cons_of_mem _ hd, hmark⟩
    · next hletter =>
      rcases List.mem_append.mp h with h | h
      · exact .inl ⟨word, mem_wordEnd h, fun c hc => List.mem_append_left _ hc⟩
      · rcases List.mem_cons.mp h with rfl | h
        · exact .inr ⟨c, List.mem_cons_self .., hletter, rfl⟩
        · rcases ih h with ⟨w, hw, hmem⟩ | ⟨d, hd, hmark⟩
          · exact .inl ⟨w, hw, fun e he => List.mem_append_right _
              (List.mem_cons_of_mem _ (hmem e he))⟩
          · exact .inr ⟨d, List.mem_cons_of_mem _ hd, hmark⟩

/-! ## paths -/

def Pathlike (path : List Tree) : Prop := ∀ t ∈ path, (∃ w, t = .word w) ∨ t = .mark ':'

theorem pathlike_plain {s : String} (h : ∀ c ∈ s.toList, nameLetter c = true ∨ c = ':') :
    Pathlike (plain s) := by
  intro t ht
  rcases mem_plainFrom ht with ⟨w, rfl, -⟩ | ⟨c, hc, hletter, rfl⟩
  · exact .inl ⟨_, rfl⟩
  · exact .inr (congrArg Tree.mark ((h c hc).resolve_left hletter))

namespace Pathlike

variable {path : List Tree}

theorem nil : Pathlike [] := fun _ ht => nomatch ht

theorem ne_group (h : Pathlike path) (b : Bracket) (inner : List Tree) :
    .group b inner ∉ path := by
  intro hmem
  rcases h _ hmem with ⟨w, hw⟩ | hmark
  · cases hw
  · cases hmark

theorem ne_mark (h : Pathlike path) {c : Char} (hc : c ≠ ':') : .mark c ∉ path := by
  intro hmem
  rcases h _ hmem with ⟨w, hw⟩ | hmark
  · cases hw
  · exact hc (Tree.mark.inj hmark)

end Pathlike

/-- a path below another, with the names that lead there -/
def under (path : List Tree) (names : List String) : List Tree :=
  path ++ names.flatMap fun name => [Tree.mark ':', .mark ':', .word name]

theorem Pathlike.under {path : List Tree} (h : Pathlike path) (names : List String) :
    Pathlike (under path names) := by
  intro t ht
  rcases List.mem_append.mp ht with ht | ht
  · exact h t ht
  · obtain ⟨n, -, ht⟩ := List.mem_flatMap.mp ht
    simp only [List.mem_cons, List.not_mem_nil, or_false] at ht
    rcases ht with rfl | rfl | rfl
    · exact .inr rfl
    · exact .inr rfl
    · exact .inl ⟨n, rfl⟩

/-- trees with commas between them -/
def listed (parts : List (List Tree)) : List Tree := [Tree.mark ','].intercalate parts

def vector (items : List (List Tree)) : List Tree :=
  [.word "vec", .mark '!', .group .square (listed items)]

/-- a method is called on what stands before, and its outcome is passed on -/
def invoked (method : String) (args : List Tree) : List Tree :=
  [.mark '.', .word method, .group .round args, .mark '?']

theorem flat_listed (parts : List (List Tree)) :
    flat (listed parts) = [Token.mark ','].intercalate (parts.map flat) :=
  flat_intercalate [.mark ','] parts

/-- a method's name is read as a word -/
theorem reads_methodName {name : String} (h : Compile.MethodName name) :
    Reads name [.word name] := by
  refine reads_word h.forall_nameLetter fun hempty => ?_
  obtain ⟨rest, hrest, -⟩ := h
  rw [hempty] at hrest
  cases hrest

/-- texts with commas between them are read as what stands between the commas -/
theorem reads_commas {parts : List String} {tss : List (List Tree)}
    (h : List.Forall₂ (fun s ts => Reads s (flat ts)) parts tss) :
    Reads (Term.commas parts) (flat (listed tss)) := by
  rw [flat_listed]
  exact Reads.intercalate ", " [.mark ','] (.ofList rfl) (.ofList rfl)
    (List.forall₂_map_right_iff.mpr h)

end Source

namespace Term

open Source

/-! ## terms -/

mutual

/-- the trees of a term -/
def layout (path : List Tree) : Term → List Tree
  | null => under path ["Value", "Null"]
  | bool b =>
    under path ["Value", "Bool"] ++ [Tree.group .round [.word (if b then "true" else "false")]]
  | int n => under path ["Value", "Int"] ++ [Tree.group .round (plain (intText n))]
  | float x => under path ["Value", "Float"] ++ [Tree.group .round (plain (floatText x))]
  | str s => under path ["Value", "from"] ++ [Tree.group .round [.literal s]]
  | list items =>
    under path ["Value", "List"] ++ [Tree.group .round (vector (layoutAll path items))]
  | map [] => under path ["Value", "empty_map"] ++ [Tree.group .round []]
  | map (e :: es) =>
    under path ["Value", "map"] ++
      [Tree.group .round [.group .square (listed (layoutEntries path (e :: es)))]]
  | revive typeName state =>
    [Tree.word "self", .mark '.', .word "factories"] ++
      invoked "revive" ([Tree.word "self", .mark ',', .literal typeName, .mark ','] ++
        layout path state)
  | parameter key =>
    [Tree.word "self", .mark '.', .word "parameters"] ++ invoked "get" [.literal key]
  | service method => .word "self" :: invoked method []
  | construct name args =>
    [Tree.word "self", .mark '.', .word "factories"] ++
      invoked "invoke" ([Tree.word "self", .mark ',', .literal name, .mark ','] ++
        vector (layoutAll path args))
  | invoke receiver method args =>
    layout path receiver ++
      invoked "invoke" ([Tree.literal method, .mark ','] ++ vector (layoutAll path args))
  | fluent receiver method args =>
    layout path receiver ++
      invoked "fluent" ([Tree.literal method, .mark ','] ++ vector (layoutAll path args))

def layoutAll (path : List Tree) : List Term → List (List Tree)
  | [] => []
  | t :: ts => layout path t :: layoutAll path ts

def layoutEntries (path : List Tree) : List (String × Term) → List (List Tree)
  | [] => []
  | (k, t) :: es =>
    [.group .round ([Tree.literal k, .mark ','] ++ layout path t)] :: layoutEntries path es

end

/-- a call with a name and arguments, behind the name of a function -/
theorem sealed_callText {function : String} (name : String) {args : List String} {ts : List Tree}
    {tss : List (List Tree)} (hfunction : Reads function (flat ts))
    (hargs : List.Forall₂ (fun s ts => Reads s (flat ts)) args tss) :
    Sealed (callText function name args)
      (flat (ts ++
        [Tree.group .round ([Tree.literal name, .mark ','] ++ vector tss), .mark '?'])) := by
  have hround := hfunction.seal "(" [.opening .round] (.ofList rfl) (.ofList rfl)
  have hname := hround.append (sealed_quoted name)
  have hopen := hname.text ", vec![" [.mark ',', .word "vec", .mark '!', .opening .square]
    (.ofList rfl)
  have h := (hopen.append_reads (reads_commas hargs)).seal "])?"
    [.closing .square, .closing .round, .mark '?'] (.ofList rfl) (.ofList rfl)
  exact h.of_eq (by simp [vector])

/-- the same behind a value and the name of a function of it -/
theorem reads_called {receiver function : String} (name : String) {args : List String}
    {us ts : List Tree} {tss : List (List Tree)} (hreceiver : Reads receiver (flat us))
    (hfunction : Reads function (flat ts)) (hapart : Apart function)
    (hargs : List.Forall₂ (fun s ts => Reads s (flat ts)) args tss) :
    Reads (callText (receiver ++ function) name args)
      (flat (us ++ ts ++
        [Tree.group .round ([Tree.literal name, .mark ','] ++ vector tss), .mark '?'])) := by
  have hwhole := hreceiver.append hfunction hapart
  rw [← flat_append] at hwhole
  exact (sealed_callText name hwhole hargs).reads

theorem plainChar_of_numeral : ∀ c ∈ numeralChars, PlainChar c := by decide

section
variable {library : String} {path : List Tree} (hlib : Reads library (flat path))
include hlib

/-- a value that the library makes of one text in brackets -/
theorem reads_made {s t : String} (names : List String) {ts : List Tree}
    (hs : Sealed s (flat (under [] names) ++ [Token.opening .round])) (hapart : Apart s)
    (ht : Reads t (flat ts)) :
    Reads (library ++ s ++ t ++ ")") (flat (under path names ++ [Tree.group .round ts])) := by
  have h := ((hlib.seal s _ hs hapart).append_reads ht).seal ")" [.closing .round]
    (.ofList rfl) (.ofList rfl)
  exact h.reads.of_eq (by simp [under])

mutual

/-- the text of a term has the trees of the term -/
theorem reads_render (t : Term) (ht : ∀ m ∈ t.calls, Compile.MethodName m) :
    Reads (t.render library) (flat (t.layout path)) := by
  cases t with
  | null =>
    have hnull : Reads "::Value::Null" (flat (under [] ["Value", "Null"])) := ⟨_, _, rfl, rfl⟩
    have h := hlib.append hnull (.ofList rfl)
    exact h.of_eq (by simp [layout, under])
  | bool b =>
    have hword : Reads (if b then "true" else "false")
        (flat [.word (if b then "true" else "false")]) := by
      cases b <;> exact reads_word (by decide) (by decide)
    exact reads_made hlib ["Value", "Bool"] (.ofList rfl) (.ofList rfl) hword
  | int n =>
    exact reads_made hlib ["Value", "Int"] (.ofList rfl) (.ofList rfl)
      (reads_plain fun c hc => plainChar_of_numeral c (mem_numeralChars_of_intText n c hc))
  | float x =>
    exact reads_made hlib ["Value", "Float"] (.ofList rfl) (.ofList rfl)
      (reads_plain fun c hc => plainChar_of_numeral c (mem_numeralChars_of_floatText x c hc))
  | str s =>
    exact reads_made hlib ["Value", "from"] (.ofList rfl) (.ofList rfl) (sealed_quoted s).reads
  | list items =>
    have hopen := hlib.seal "::Value::List(vec![" (flat (under [] ["Value", "List"]) ++
      [Token.opening .round, .word "vec", .mark '!', .opening .square]) (.ofList rfl) (.ofList rfl)
    have h := (hopen.append_reads (reads_commas (reads_renderAll items ht))).seal "])"
      [.closing .square, .closing .round] (.ofList rfl) (.ofList rfl)
    exact h.reads.of_eq (by simp [layout, under, vector])
  | map entries =>
    cases entries with
    | nil =>
      have h := hlib.seal "::Value::empty_map()" (flat (under [] ["Value", "empty_map"]) ++
        [Token.opening .round, .closing .round]) (.ofList rfl) (.ofList rfl)
      exact h.reads.of_eq (by simp [layout, under])
    | cons e es =>
      have hopen := hlib.seal "::Value::map([" (flat (under [] ["Value", "map"]) ++
        [Token.opening .round, .opening .square]) (.ofList rfl) (.ofList rfl)
      have h := (hopen.append_reads (reads_commas (reads_renderEntries (e :: es) ht))).seal "])"
        [.closing .square, .closing .round] (.ofList rfl) (.ofList rfl)
      exact h.reads.of_eq (by simp [layout, under])
  | revive typeName state =>
    have hopen : Sealed "self.factories.revive(self, " [.word "self", .mark '.', .word "factories",
      .mark '.', .word "revive", .opening .round, .word "self", .mark ','] := .ofList rfl
    have hname := (hopen.append (sealed_quoted typeName)).text ", " [.mark ','] (.ofList rfl)
    have h := (hname.append_reads (reads_render state ht)).seal ")?" [.closing .round, .mark '?']
      (.ofList rfl) (.ofList rfl)
    exact h.reads.of_eq (by simp [layout, invoked])
  | parameter key =>
    have hopen : Sealed "self.parameters.get(" [.word "self", .mark '.', .word "parameters",
      .mark '.', .word "get", .opening .round] := .ofList rfl
    have h := (hopen.append (sealed_quoted key)).text ")?" [.closing .round, .mark '?']
      (.ofList rfl)
    exact h.reads.of_eq (by simp [layout, invoked])
  | service method =>
    have hname := ht method (List.mem_singleton_self method)
    have hself : Sealed "self." [.word "self", .mark '.'] := .ofList rfl
    have h := (hself.append_reads (reads_methodName hname)).seal "()?"
      [.opening .round, .closing .round, .mark '?'] (.ofList rfl) (.ofList rfl)
    exact h.reads.of_eq (by simp [layout, invoked])
  | construct name args =>
    have hopen : Sealed "self.factories.invoke(self, " [.word "self", .mark '.', .word "factories",
      .mark '.', .word "invoke", .opening .round, .word "self", .mark ','] := .ofList rfl
    have hname := (hopen.append (sealed_quoted name)).text ", vec!["
      [.mark ',', .word "vec", .mark '!', .opening .square] (.ofList rfl)
    have h := (hname.append_reads (reads_commas (reads_renderAll args ht))).seal "])?"
      [.closing .square, .closing .round, .mark '?'] (.ofList rfl) (.ofList rfl)
    exact h.reads.of_eq (by simp [layout, invoked, vector])
  | invoke receiver method args =>
    have ht' : ∀ m ∈ receiver.calls ++ callsOf args, Compile.MethodName m := ht
    have hreceiver := reads_render receiver fun m hm => ht' m (List.mem_append_left _ hm)
    have hargs := reads_renderAll args fun m hm => ht' m (List.mem_append_right _ hm)
    have hmethod : Reads ".invoke" (flat [.mark '.', .word "invoke"]) := ⟨_, _, rfl, rfl⟩
    have h := reads_called method hreceiver hmethod (.ofList rfl) hargs
    exact h.of_eq (by simp [layout, invoked])
  | fluent receiver method args =>
    have ht' : ∀ m ∈ receiver.calls ++ callsOf args, Compile.MethodName m := ht
    have hreceiver := reads_render receiver fun m hm => ht' m (List.mem_append_left _ hm)
    have hargs := reads_renderAll args fun m hm => ht' m (List.mem_append_right _ hm)
    have hmethod : Reads ".fluent" (flat [.mark '.', .word "fluent"]) := ⟨_, _, rfl, rfl⟩
    have h := reads_called method hreceiver hmethod (.ofList rfl) hargs
    exact h.of_eq (by simp [layout, invoked])

theorem reads_renderAll (ts : List Term) (ht : ∀ m ∈ callsOf ts, Compile.MethodName m) :
    List.Forall₂ (fun s ts => Reads s (flat ts)) (renderAll library ts) (layoutAll path ts) := by
  cases ts with
  | nil => exact .nil
  | cons t ts =>
    have ht' : ∀ m ∈ t.calls ++ callsOf ts, Compile.MethodName m := ht
    exact .cons (reads_render t fun m hm => ht' m (List.mem_append_left _ hm))
      (reads_renderAll ts fun m hm => ht' m (List.mem_append_right _ hm))

theorem reads_renderEntries (es : List (String × Term))
    (ht : ∀ m ∈ callsOfEntries es, Compile.MethodName m) :
    List.Forall₂ (fun s ts => Reads s (flat ts)) (renderEntries library es)
      (layoutEntries path es) := by
  cases es with
  | nil => exact .nil
  | cons e es =>
    obtain ⟨k, t⟩ := e
    have ht' : ∀ m ∈ t.calls ++ callsOfEntries es, Compile.MethodName m := ht
    have hrest := reads_renderEntries es fun m hm => ht' m (List.mem_append_right _ hm)
    refine .cons ?_ hrest
    have hopen : Sealed "(" [.opening .round] := .ofList rfl
    have hkey := (hopen.append (sealed_quoted k)).text ", " [.mark ','] (.ofList rfl)
    have h := (hkey.append_reads (reads_render t fun m hm =>
      ht' m (List.mem_append_left _ hm))).seal ")" [.closing .round] (.ofList rfl) (.ofList rfl)
    exact h.reads.of_eq (by simp)

end

end

end Term
end ServiceGraph
