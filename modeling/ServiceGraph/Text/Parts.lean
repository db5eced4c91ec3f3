/-!
# Texts cut at a separator

* `List.cut_unique`, `List.cut_unique_last`: a list is cut in one way at something that stands there for
  the first or the last time;
* `Text.parts`: what stands between the separators, as `List.splitOn` has it (`Text.parts_eq_splitOn`);
  a text without separator is one part.
-/

namespace ServiceGraph

namespace List

variable {α : Type} [DecidableEq α] {x : α} {as as' bs bs' : List α}

theorem cut_unique (h : x ∉ as) (h' : x ∉ as') (heq : as ++ x :: bs = as' ++ x :: bs') :
    as = as' ∧ bs = bs' := by
  have hsplit := congrArg (List.splitOn x) heq
  rw [List.splitOn_append_cons_self_of_not_mem h, List.splitOn_append_cons_self_of_not_mem h'] at hsplit
  obtain rfl := (List.cons.inj hsplit).1
  exact ⟨rfl, (List.cons.inj (List.append_cancel_left heq)).2⟩

theorem cut_unique_last (h : x ∉ bs) (h' : x ∉ bs') (heq : as ++ x :: bs = as' ++ x :: bs') :
    as = as' ∧ bs = bs' := by
  have hreverse : bs.reverse ++ x :: as.reverse = bs'.reverse ++ x :: as'.reverse := by
    simpa using congrArg List.reverse heq
  obtain ⟨hbs, has⟩ := cut_unique (mt List.mem_reverse.mp h) (mt List.mem_reverse.mp h') hreverse
  exact ⟨List.reverse_inj.mp has, List.reverse_inj.mp hbs⟩

end List

namespace Text

/-- what stands between the separators -/
def parts (separator : Char) : List Char → List (List Char)
  | [] => [[]]
  | c :: rest =>
    if c = separator then [] :: parts separator rest
    else match parts separator rest with
      | [] => [[c]]
      | part :: more => (c :: part) :: more

variable {separator : Char} {s part : List Char}

theorem parts_eq_splitOn (separator : Char) (s : List Char) : parts separator s = s.splitOn separator := by
  induction s with
  | nil => exact (List.splitOn_nil separator).symm
  | cons c rest ih =>
    rw [parts, List.splitOn_cons_eq_if_modifyHead, ih]
    by_cases hc : c = separator
    · rw [if_pos hc, if_pos (beq_iff_eq.mpr hc)]
    · rw [if_neg hc, if_neg (mt beq_iff_eq.mp hc)]
      cases hsplit : rest.splitOn separator with
      | nil => exact absurd hsplit (List.splitOn_ne_nil separator rest)
      | cons part more => rfl

theorem parts_of_not_mem (h : separator ∉ s) : parts separator s = [s] := by
  rw [parts_eq_splitOn, List.splitOn_eq_singleton h]

theorem parts_ne_nil (separator : Char) (s : List Char) : parts separator s ≠ [] := by
  rw [parts_eq_splitOn]
  exact List.splitOn_ne_nil separator s

theorem parts_append (separator : Char) (s t : List Char) :
    parts separator (s ++ separator :: t) = parts separator s ++ parts separator t := by
  rw [parts_eq_splitOn, parts_eq_splitOn, parts_eq_splitOn, List.splitOn_append_cons_self]

/-- the parts of a text with the separator between them are the text -/
theorem intercalate_parts (separator : Char) (s : List Char) :
    [separator].intercalate (parts separator s) = s := by
  rw [parts_eq_splitOn, List.intercalate_splitOn]

theorem not_mem_of_mem_parts (h : part ∈ parts separator s) : separator ∉ part := by
  induction s generalizing part with
  | nil =>
    cases List.mem_singleton.mp h
    exact List.not_mem_nil
  | cons c rest ih =>
    rw [parts] at h
    split at h
    next =>
      rcases List.mem_cons.mp h with rfl | hrest
      · exact List.not_mem_nil
      · exact ih hrest
    next hc =>
      split at h
      next heq => exact absurd heq (parts_ne_nil separator rest)
      next first more heq =>
        rcases List.mem_cons.mp h with rfl | hmore
        · exact List.not_mem_cons_of_ne_of_not_mem (Ne.symm hc) (ih (heq ▸ List.mem_cons_self))
        · exact ih (heq ▸ List.mem_cons_of_mem _ hmore)

end Text

end ServiceGraph
