import Mathlib.Data.List.Basic
import ServiceGraph.Kernel.Cached
import ServiceGraph.Proofs.Decimal.Digits
import ServiceGraph.Proofs.Outcomes

/-!
# What the inputs of a kernel tell

The inputs are one digest of many texts, each closed by a NUL. None of these texts holds one, so the
digest tells the sources, the inline configurations and the parameters apart.

* `Digest.terminated_inj`: texts without NUL are told by their closed row;
* `Value.nulFree_written?`: no document holds a NUL;
* `Kernel.inputTexts?_eq_some`: the texts of the inputs;
* `Kernel.SameInputs`, `Kernel.sameInputs_of_texts`: equal texts tell the same sources, configurations
  and parameters.
-/

namespace ServiceGraph

/-! ## rows of texts -/

def Text.NulFree (cs : List Char) : Prop := ∀ c ∈ cs, c ≠ '\x00'

instance Text.decidableNulFree (cs : List Char) : Decidable (NulFree cs) := List.decidableBAll _ cs

namespace Digest

theorem bytes_append (s t : String) : bytes (s ++ t) = bytes s ++ bytes t := by
  rw [bytes, bytes, bytes, String.toUTF8, String.toUTF8, String.toUTF8, String.toByteArray_append,
    ByteArray.data_append, Array.toList_append]

theorem bytes_inj {s t : String} (h : bytes s = bytes t) : s = t :=
  String.toByteArray_inj.mp (ByteArray.ext (Array.toList_inj.mp h))

/-- a row of texts, each closed by a NUL -/
def closedRow (parts : List String) : List Char := parts.flatMap fun p => p.toList ++ ['\x00']

theorem terminated_eq_bytes (parts : List String) :
    terminated parts = bytes (String.ofList (closedRow parts)) := by
  induction parts with
  | nil => rfl
  | cons p parts ih =>
    rw [closedRow, List.flatMap_cons, ← closedRow, String.ofList_append, String.ofList_append,
      bytes_append, bytes_append, ← ih, String.ofList_toList]
    rfl

theorem closedRow_inj {parts parts' : List String} (hfree : ∀ p ∈ parts, Text.NulFree p.toList)
    (hfree' : ∀ p ∈ parts', Text.NulFree p.toList) (h : closedRow parts = closedRow parts') :
    parts = parts' := by
  induction parts generalizing parts' with
  | nil =>
    cases parts' with
    | nil => rfl
    | cons p' parts' =>
      rw [closedRow, closedRow, List.flatMap_cons] at h
      exact absurd h.symm (by simp)
  | cons p parts ih =>
    cases parts' with
    | nil =>
      rw [closedRow, closedRow, List.flatMap_cons] at h
      exact absurd h (by simp)
    | cons p' parts' =>
      obtain ⟨hp, hparts⟩ := List.forall_mem_cons.mp hfree
      obtain ⟨hp', hparts'⟩ := List.forall_mem_cons.mp hfree'
      have hmem : '\x00' ∉ p.toList := fun hc => hp _ hc rfl
      have hmem' : '\x00' ∉ p'.toList := fun hc => hp' _ hc rfl
      rw [closedRow, closedRow, List.flatMap_cons, List.flatMap_cons, List.append_assoc,
        List.append_assoc, List.singleton_append, List.singleton_append] at h
      obtain ⟨hfirst, hrest⟩ := List.cut_unique hmem hmem' h
      rw [String.toList_inj.mp hfirst, ih hparts hparts' hrest]

/-- texts without NUL are told by their closed row -/
theorem terminated_inj {parts parts' : List String} (hfree : ∀ p ∈ parts, Text.NulFree p.toList)
    (hfree' : ∀ p ∈ parts', Text.NulFree p.toList) (h : terminated parts = terminated parts') :
    parts = parts' := by
  rw [terminated_eq_bytes, terminated_eq_bytes] at h
  exact closedRow_inj hfree hfree' (String.ofList_injective (bytes_inj h))

end Digest

/-! ## documents -/

namespace Text.NulFree

variable {cs ds : List Char}

theorem nil : NulFree [] := fun _ hc => absurd hc List.not_mem_nil

theorem append (hc : NulFree cs) (hd : NulFree ds) : NulFree (cs ++ ds) :=
  List.forall_mem_append.mpr ⟨hc, hd⟩

theorem cons {c : Char} (h : c ≠ '\x00') (hc : NulFree cs) : NulFree (c :: cs) :=
  List.forall_mem_cons.mpr ⟨h, hc⟩

end Text.NulFree

namespace Yaml.Written

open Text (NulFree)

theorem nulFree_escape (c : Char) : NulFree (escape c) := by
  rw [escape]
  split
  next hplain =>
    intro d hd
    rw [List.mem_singleton.mp hd]
    rintro rfl
    exact absurd hplain (by decide)
  next =>
    refine .cons (by decide) (.cons (by decide) fun d hd => ?_)
    obtain ⟨i, -, rfl⟩ := List.mem_map.mp hd
    have hdigits : ∀ n < 16, digit n ≠ '\x00' := by decide
    exact hdigits _ (Nat.mod_lt _ (by decide))

theorem nulFree_text (s : String) : NulFree (text s) := by
  refine .append (.cons (by decide) fun c hc => ?_) (.cons (by decide) .nil)
  obtain ⟨d, -, hd⟩ := List.mem_flatMap.mp hc
  exact nulFree_escape d c hd

theorem nulFree_separated {items : List (List Char)} (h : ∀ t ∈ items, NulFree t) :
    NulFree (separated items) := by
  rw [separated]
  induction items with
  | nil => exact .nil
  | cons t rest ih =>
    obtain ⟨ht, hrest⟩ := List.forall_mem_cons.mp h
    cases rest with
    | nil =>
      rw [List.intercalate_singleton]
      exact ht
    | cons u rest =>
      rw [List.intercalate_cons_cons]
      exact (ht.append (.cons (by decide) (.cons (by decide) .nil))).append (ih hrest)

theorem nulFree_list {items : List (List Char)} (h : ∀ t ∈ items, NulFree t) : NulFree (list items) :=
  .append (.cons (by decide) (nulFree_separated h)) (.cons (by decide) .nil)

theorem nulFree_map {entries : List (String × List Char)} (h : ∀ e ∈ entries, NulFree e.2) :
    NulFree (map entries) := by
  refine .append (.cons (by decide) (nulFree_separated fun t ht => ?_)) (.cons (by decide) .nil)
  obtain ⟨e, he, rfl⟩ := List.mem_map.mp ht
  have hspace : NulFree [' ', ':', ' '] := by decide
  exact .append (.append (.append (by decide) (nulFree_text e.1)) hspace) (h e he)

end Yaml.Written

namespace Value

open Text (NulFree)

theorem nulFree_document (x : Binary64) : NulFree x.document.toList := by
  rw [Binary64.document]
  split
  · decide
  · split
    · split <;> decide
    · rw [Binary64.render]
      split
      · decide
      · rw [String.toList_ofList]
        have hlayout : NulFree (NumeralStyle.document.layout (x.shortest NumeralStyle.document.tie)) :=
          NumeralStyle.forall_mem_layout (by decide) (by decide) (by decide) (by decide) _ _
        split
        · exact hlayout.cons (by decide)
        · exact hlayout

mutual

/-- no document holds a NUL -/
theorem nulFree_written? {v : Value} {cs : List Char} (h : v.written? = some cs) : NulFree cs := by
  cases v with
  | null =>
    cases h
    decide
  | bool b =>
    cases h
    cases b <;> decide
  | int n =>
    cases h
    exact forall_mem_toString_int (by decide) (by decide) _
  | float x =>
    cases h
    exact nulFree_document x
  | str s =>
    cases h
    exact Yaml.Written.nulFree_text s
  | list items =>
    rw [written?, Option.map_eq_some_iff] at h
    obtain ⟨ts, hts, rfl⟩ := h
    exact Yaml.Written.nulFree_list (nulFree_writtenItems? hts)
  | map entries =>
    rw [written?, Option.map_eq_some_iff] at h
    obtain ⟨ts, hts, rfl⟩ := h
    exact Yaml.Written.nulFree_map (nulFree_writtenEntries? hts)
  | service id => cases h

theorem nulFree_writtenItems? {vs : List Value} {ts : List (List Char)}
    (h : writtenItems? vs = some ts) : ∀ t ∈ ts, NulFree t := by
  cases vs with
  | nil =>
    cases h
    exact nofun
  | cons v vs =>
    rw [writtenItems?] at h
    split at h
    next t ts ht hts =>
      cases h
      exact List.forall_mem_cons.mpr ⟨nulFree_written? ht, nulFree_writtenItems? hts⟩
    next => cases h

theorem nulFree_writtenEntries? {es : List (String × Value)} {ts : List (String × List Char)}
    (h : writtenEntries? es = some ts) : ∀ t ∈ ts, NulFree t.2 := by
  cases es with
  | nil =>
    cases h
    exact nofun
  | cons e es =>
    obtain ⟨k, v⟩ := e
    rw [writtenEntries?] at h
    split at h
    next t ts ht hts =>
      cases h
      exact List.forall_mem_cons.mpr ⟨nulFree_written? ht, nulFree_writtenEntries? hts⟩
    next => cases h

end

end Value

/-! ## the inputs of a kernel -/

namespace Kernel

variable {σ τ : Type} {k k' : Kernel σ τ} {c c' : AppConfig} {texts texts' : List String}

/-- the texts of the inputs -/
theorem inputTexts?_eq_some (h : k.inputTexts? c = some texts) :
    ∃ configs parameters, k.configs.mapM AppConfig.written? = some configs ∧
      (Value.map k.parameters).written? = some parameters ∧
      texts = "files" :: (c.sources ++ "configs" :: (configs.map String.ofList ++
        ["parameters", String.ofList parameters])) := by
  rw [inputTexts?] at h
  cases hconfigs : k.configs.mapM AppConfig.written? with
  | none =>
    rw [hconfigs] at h
    cases h
  | some configs =>
    cases hparameters : (Value.map k.parameters).written? with
    | none =>
      rw [hconfigs, hparameters] at h
      cases h
    | some parameters =>
      rw [hconfigs, hparameters] at h
      refine ⟨configs, parameters, rfl, rfl, ?_⟩
      rw [← Option.some.inj h, List.cons_append, List.cons_append, List.append_assoc, List.cons_append]

theorem nulFree_configs {cs : List AppConfig} {written : List (List Char)}
    (h : cs.mapM AppConfig.written? = some written) : ∀ t ∈ written, Text.NulFree t :=
  forall_mem_of_forall₂ (Option.mapM_eq_some_iff.mp h) fun _ _ => Value.nulFree_written?

theorem nulFree_inputTexts (h : k.inputTexts? c = some texts)
    (hsources : ∀ x ∈ c.sources, Text.NulFree x.toList) : ∀ t ∈ texts, Text.NulFree t.toList := by
  obtain ⟨configs, parameters, hconfigs, hparameters, rfl⟩ := inputTexts?_eq_some h
  have htext : ∀ cs, Text.NulFree cs → Text.NulFree (String.ofList cs).toList := by
    intro cs hcs
    rw [String.toList_ofList]
    exact hcs
  refine List.forall_mem_cons.mpr ⟨by decide, List.forall_mem_append.mpr
    ⟨hsources, List.forall_mem_cons.mpr ⟨by decide,
      List.forall_mem_append.mpr ⟨fun x hx => ?_, List.forall_mem_cons.mpr ⟨by decide,
        List.forall_mem_singleton.mpr (htext _ (Value.nulFree_written? hparameters))⟩⟩⟩⟩⟩
  obtain ⟨t, ht, rfl⟩ := List.mem_map.mp hx
  exact htext t (nulFree_configs hconfigs t ht)

/-- the same sources, inline configurations and parameters, as far as their texts tell -/
structure SameInputs (k k' : Kernel σ τ) (c c' : AppConfig) : Prop where
  sources : c'.sources = c.sources
  configs : k'.configs.mapM AppConfig.written? = k.configs.mapM AppConfig.written?
  parameters : (Value.map k'.parameters).written? = (Value.map k.parameters).written?

theorem head?_written?_map {entries : List (String × Value)} {cs : List Char}
    (h : (Value.map entries).written? = some cs) : cs.head? = some '\x7b' := by
  rw [Value.written?, Option.map_eq_some_iff] at h
  obtain ⟨ts, -, rfl⟩ := h
  rfl

/-- the word in front of the configurations does not come again -/
theorem word_not_mem {cs : List AppConfig} {entries : List (String × Value)} {written : List (List Char)}
    {last : List Char} (hwritten : cs.mapM AppConfig.written? = some written)
    (hlast : (Value.map entries).written? = some last) :
    "configs" ∉ written.map String.ofList ++ ["parameters", String.ofList last] := by
  have hdocument : ∀ t : List Char, t.head? = some '\x7b' → "configs" ≠ String.ofList t := by
    intro t ht heq
    rw [← String.toList_ofList (l := t), ← heq] at ht
    exact absurd ht (by decide)
  have hconfigs : ∀ t ∈ written, t.head? = some '\x7b' :=
    forall_mem_of_forall₂ (Option.mapM_eq_some_iff.mp hwritten) fun _ _ => head?_written?_map
  intro hmem
  rcases List.mem_append.mp hmem with hmem | hmem
  · obtain ⟨t, ht, heq⟩ := List.mem_map.mp hmem
    exact hdocument t (hconfigs t ht) heq.symm
  · rcases List.mem_cons.mp hmem with heq | hmem
    · exact absurd heq (by decide)
    · exact hdocument last (head?_written?_map hlast) (List.mem_singleton.mp hmem)

/-- equal texts tell the same inputs -/
theorem sameInputs_of_texts (h : k.inputTexts? c = some texts) (h' : k'.inputTexts? c' = some texts) :
    SameInputs k k' c c' := by
  obtain ⟨configs, parameters, hconfigs, hparameters, htexts⟩ := inputTexts?_eq_some h
  obtain ⟨configs', parameters', hconfigs', hparameters', htexts'⟩ := inputTexts?_eq_some h'
  obtain ⟨hsame, hrest⟩ := List.cut_unique_last (word_not_mem hconfigs' hparameters')
    (word_not_mem hconfigs hparameters) (List.cons.inj (htexts'.symm.trans htexts)).2
  obtain ⟨hwritten, hlast⟩ := List.append_inj' hrest rfl
  have hall : configs' = configs :=
    List.map_injective_iff.mpr (fun _ _ => String.ofList_injective) hwritten
  have hparam : parameters' = parameters :=
    String.ofList_injective (List.cons.inj (List.cons.inj hlast).2).1
  exact ⟨hsame, by rw [hconfigs, hconfigs', hall], by rw [hparameters, hparameters', hparam]⟩

/-- equal rows of texts tell the same inputs -/
theorem sameInputs_of_terminated (h : k.inputTexts? c = some texts) (h' : k'.inputTexts? c' = some texts')
    (hsources : ∀ x ∈ c.sources, Text.NulFree x.toList) (hsources' : ∀ x ∈ c'.sources, Text.NulFree x.toList)
    (hrows : Digest.terminated texts' = Digest.terminated texts) : SameInputs k k' c c' := by
  obtain rfl := Digest.terminated_inj (nulFree_inputTexts h' hsources') (nulFree_inputTexts h hsources) hrows
  exact sameInputs_of_texts h h'

/-- a module is no row of inputs -/
theorem terminated_ne_module (h : k.inputTexts? c = some texts) (m : SourceModule) :
    Digest.bytes m.text ≠ Digest.terminated texts := by
  intro hrow
  obtain ⟨configs, parameters, -, -, rfl⟩ := inputTexts?_eq_some h
  rw [Digest.terminated_eq_bytes] at hrow
  have hmodule : m.text.toList.head? = some '/' := by
    unfold SourceModule.text SourceModule.withHeader
    generalize Digest.ofText m.body = digest
    rw [String.append_assoc, String.append_assoc, String.append_assoc, String.append_assoc,
      String.toList_append, List.head?_append_of_ne_nil _ (by decide)]
    rfl
  rw [Digest.bytes_inj hrow, String.toList_ofList] at hmodule
  exact absurd (Option.some.inj hmodule) (by decide)

end Kernel
end ServiceGraph
