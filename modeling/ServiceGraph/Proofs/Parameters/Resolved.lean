import ServiceGraph.Proofs.Parameters.Room

/-!
# Resolving keeps the values

A resolved tree holds what expansion gave, and looks nothing up again.

* `Parameters.walk?_ends`: what lies at a path of an expanded value is the expansion of what lies
  there before;
* `Parameters.raw?_ends`: the same for the keys of a resolved tree;
* `Parameters.find_resolve`: a key without references that has a value keeps it;
* `Parameters.get_resolve`: so does a key with references, and a resolved tree gives every value
  as it stands.
-/

namespace ServiceGraph.Parameters

variable {p r : Parameters}

/-! ## paths through expanded values -/

/-- an expanded map has the keys it had, with the expanded values -/
theorem get?_ends {entries expanded : OrderedMap Value}
    (h : p.Ends (Value.inquiryOfEntries entries) (.ok expanded)) (key : String) :
    Option.Rel (fun v w => p.Ends v.inquiry (.ok w)) (entries.get? key) (expanded.get? key) := by
  induction entries generalizing expanded with
  | nil =>
    cases h
    exact .none
  | cons e rest ih =>
    obtain ⟨k, u⟩ := e
    rw [Value.inquiryOfEntries] at h
    obtain ⟨u', hu', h⟩ := ends_bind_ok_iff.mp h
    obtain ⟨rest', hrest', h⟩ := ends_bind_ok_iff.mp h
    cases h
    rw [OrderedMap.get?, OrderedMap.get?]
    by_cases hk : k = key
    · rw [if_pos hk, if_pos hk]
      exact .some hu'
    · rw [if_neg hk, if_neg hk]
      exact ih hrest'

theorem exists_get?_ends {entries expanded : OrderedMap Value}
    (h : p.Ends (Value.inquiryOfEntries entries) (.ok expanded)) {key : String} {v : Value}
    (hv : entries.get? key = some v) :
    ∃ w, expanded.get? key = some w ∧ p.Ends v.inquiry (.ok w) := by
  have hrel := get?_ends h key
  rw [hv] at hrel
  generalize expanded.get? key = found at hrel ⊢
  cases hrel with
  | some hends => exact ⟨_, rfl, hends⟩

theorem walk?_ends {path : List String} {v v' w : Value} (h : p.Ends v.inquiry (.ok w))
    (hv : v.walk? path = some v') :
    ∃ w', w.walk? path = some w' ∧ p.Ends v'.inquiry (.ok w') := by
  induction path generalizing v w with
  | nil =>
    cases hv
    exact ⟨w, rfl, h⟩
  | cons key rest ih =>
    obtain ⟨u, hu, hrest⟩ := Option.bind_eq_some_iff.mp hv
    obtain ⟨entries, hentries, hkey⟩ := Option.bind_eq_some_iff.mp hu
    cases v with
    | map es =>
      cases hentries
      obtain ⟨expanded, hexpanded, hw⟩ := ends_bind_ok_iff.mp h
      cases hw
      obtain ⟨u', hu', hends⟩ := exists_get?_ends hexpanded hkey
      obtain ⟨w', hw', hends'⟩ := ih hends hrest
      exact ⟨w', Option.bind_eq_some_iff.mpr ⟨u', hu', hw'⟩, hends'⟩
    | null | bool _ | int _ | float _ | str _ | list _ | service _ => cases hentries

/-! ## the resolved tree -/

theorem get_eq_find {key : String} (hkey : '%' ∉ key.toList) : p.get key = p.find key := by
  have hcontains : key.toList.contains '%' = false := by simpa using hkey
  rw [get, expandKey, hcontains]
  rfl

section
variable (hp : p.resolved = false) (hr : p.resolve = .ok r)
include hp hr

theorem ends_of_resolve :
    p.Ends (Value.inquiryOfEntries p.tree) (.ok r.tree) ∧ r.resolved = true := by
  have hends : p.Ends (resolveInquiry p.tree) (.ok r) := (bounded_resolve hp).eq_ok_iff.mp hr
  obtain ⟨tree, htree, h⟩ := ends_bind_ok_iff.mp hends
  cases h
  exact ⟨htree, rfl⟩

theorem raw?_ends {key : String} {v : Value} (hv : p.raw? key = some v) :
    ∃ w, r.raw? key = some w ∧ p.Ends v.inquiry (.ok w) := by
  have htree : p.Ends (Value.inquiryOfEntries p.tree) (.ok r.tree) := (ends_of_resolve hp hr).1
  unfold raw? at hv ⊢
  cases htop : p.tree.get? key with
  | some u =>
    rw [htop] at hv
    cases hv
    obtain ⟨w, hw, hends⟩ := exists_get?_ends htree htop
    rw [hw]
    exact ⟨w, rfl, hends⟩
  | none =>
    rw [htop] at hv
    have hmap : p.Ends (Value.map p.tree).inquiry (.ok (.map r.tree)) :=
      ends_bind_ok_iff.mpr ⟨r.tree, htree, ends_pure _⟩
    have hrel := get?_ends htree key
    rw [htop] at hrel
    generalize r.tree.get? key = found at hrel ⊢
    cases hrel with
    | none => exact walk?_ends hmap hv

/-- a key with a value in the tree has an expanded value, which stands in the resolved tree -/
theorem find_resolve {key : String} {v : Value} (hv : p.raw? key = some v) :
    ∃ w, p.find key = .ok w ∧ r.raw? key = some w ∧ r.find key = .ok w := by
  obtain ⟨w, hw, hends⟩ := raw?_ends hp hr hv
  refine ⟨w, ?_, hw, find_of_resolved (ends_of_resolve hp hr).2 hw⟩
  rw [← Inquiry.answer_ofKey p.find key]
  exact (bounded_find hp _).ends _ ((ends_ofKey_iff hv).mpr hends)

theorem find_resolve_of_ok (key : String) (v : Value) (h : p.find key = .ok v) :
    r.find key = .ok v := by
  cases hv : p.raw? key with
  | none =>
    rw [find_of_unknown hv] at h
    cases h
  | some u =>
    obtain ⟨w, hw, -, hrw⟩ := find_resolve hp hr hv
    rw [hw] at h
    cases h
    exact hrw

/-- **Resolving keeps the values.** A key that has a value, with references in it or without, has
the same value in the resolved tree. For a key without references the value stands there, and
what stands in the resolved tree is given as it is: nothing is expanded again. -/
theorem get_resolve :
    (∀ key v, p.get key = .ok v → r.get key = .ok v) ∧
    (∀ key, '%' ∉ key.toList → ∀ v, p.raw? key = some v →
      ∃ w, p.get key = .ok w ∧ r.raw? key = some w) ∧
    ∀ key, '%' ∉ key.toList → ∀ w, r.raw? key = some w → r.get key = .ok w := by
  refine ⟨fun key v h => ?_, fun key hkey v hv => ?_, fun key hkey w hw => ?_⟩
  · rw [get_eq_answer] at h ⊢
    exact Inquiry.answer_mono p.find (find_resolve_of_ok hp hr) h
  · obtain ⟨w, hw, hraw, -⟩ := find_resolve hp hr hv
    rw [get_eq_find hkey]
    exact ⟨w, hw, hraw⟩
  · rw [get_eq_find hkey]
    exact find_of_resolved (ends_of_resolve hp hr).2 hw

end

/-- a value that turns into a map, a key computed from a value, and escapes that write what looks
like a reference -/
def escaped : Parameters :=
  .ofTree
    [ ("env", .str "prod"), ("db", .map [("prod", .map [("host", .str "%%env%%")])]),
      ("copy", .str "%db%"), ("rate", .list [.str "100%%", .str "%db.%env%.host%"]) ]

def escapedResolved : Parameters where
  tree :=
    [ ("env", .str "prod"), ("db", .map [("prod", .map [("host", .str "%env%")])]),
      ("copy", .map [("prod", .map [("host", .str "%env%")])]),
      ("rate", .list [.str "100%", .str "%env%"]) ]
  resolved := true

theorem escaped_get_resolve :
    escaped.resolved = false ∧ escaped.resolve = .ok escapedResolved ∧
    (∀ key v, escaped.get key = .ok v → escapedResolved.get key = .ok v) ∧
    (∀ key, '%' ∉ key.toList → ∀ v, escaped.raw? key = some v →
      ∃ w, escaped.get key = .ok w ∧ escapedResolved.raw? key = some w) ∧
    ∀ key, '%' ∉ key.toList → ∀ w, escapedResolved.raw? key = some w →
      escapedResolved.get key = .ok w := by
  have hp : escaped.resolved = false := rfl
  have hr : escaped.resolve = .ok escapedResolved := by decide +kernel
  exact ⟨hp, hr, get_resolve hp hr⟩

end ServiceGraph.Parameters
