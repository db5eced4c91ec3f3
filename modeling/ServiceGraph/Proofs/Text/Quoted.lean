import ServiceGraph.Text.Quoted
import ServiceGraph.Proofs.Decimal.Digits

/-!
# Quoted strings are read back

A quoted string ends at its first quote that is not escaped, and what stands before it says which
string it is.

* `Text.unescape?`: the character at the front of an escaped text, and what is left;
* `Text.unescape?_escape`: it reads back what is written;
* `Text.quoted_append_inj`: two quoted strings at the front of one text are the same.
-/

namespace ServiceGraph.Text

/-! ## hexadecimal digits -/

def hexDigit (c : Char) : Nat := if c.isDigit then c.toNat - 48 else c.toNat - 87

def hexValue (ds : List Char) : Nat := ds.foldl (fun n d => 16 * n + hexDigit d) 0

theorem hexDigit_digitChar : ∀ d < 16, hexDigit (Nat.digitChar d) = d := by decide

theorem hexValue_append (ds : List Char) (d : Char) :
    hexValue (ds ++ [d]) = 16 * hexValue ds + hexDigit d := by
  rw [hexValue, List.foldl_append]
  rfl

theorem hexValue_hex (n : Nat) : hexValue (hex n) = n := by
  induction n using Nat.strongRecOn with
  | ind n ih =>
    unfold hex at *
    rw [Nat.toDigits_eq_if (by decide)]
    split
    · next h =>
      show 16 * 0 + hexDigit n.digitChar = n
      rw [hexDigit_digitChar n h, Nat.mul_zero, Nat.zero_add]
    · next h =>
      have hdigit : hexDigit (n % 16).digitChar = n % 16 :=
        hexDigit_digitChar _ (Nat.mod_lt _ (by decide))
      rw [hexValue_append, ih (n / 16) (by omega), hdigit]
      omega

theorem forall_mem_hex {P : Char → Prop} (hP : ∀ d < 16, P (Nat.digitChar d)) (n : Nat) :
    ∀ c ∈ hex n, P c := forall_mem_toDigits (by decide) hP n

/-! ## one character -/

def shortEscape (c : Char) : Char :=
  match c with
  | 't' => '\t'
  | 'r' => '\r'
  | 'n' => '\n'
  | '0' => '\x00'
  | c => c

/-- the character at the front of an escaped text, and the rest of the text -/
def unescape? : List Char → Option (Char × List Char)
  | '\\' :: 'u' :: '\x7b' :: rest =>
    some (Char.ofNat (hexValue (rest.takeWhile (· ≠ '\x7d'))),
      (rest.dropWhile (· ≠ '\x7d')).tail)
  | '\\' :: c :: rest => some (shortEscape c, rest)
  | c :: rest => some (c, rest)
  | [] => none

/-- the ways in which a character is written -/
theorem escape_cases (c : Char) :
    (∃ d, escape c = ['\\', d] ∧ d ≠ 'u' ∧ shortEscape d = c) ∨
    escape c = ['\\', 'u', '\x7b'] ++ hex c.toNat ++ ['\x7d'] ∨
    (escape c = [c] ∧ c ≠ '\\' ∧ c ≠ '"') := by
  unfold escape
  split
  · exact .inl ⟨'t', rfl, by decide, rfl⟩
  · exact .inl ⟨'r', rfl, by decide, rfl⟩
  · exact .inl ⟨'n', rfl, by decide, rfl⟩
  · exact .inl ⟨'0', rfl, by decide, rfl⟩
  · exact .inl ⟨'"', rfl, by decide, rfl⟩
  · exact .inl ⟨'\\', rfl, by decide, rfl⟩
  · next hquote hslash =>
    split
    · exact .inr (.inl rfl)
    · exact .inr (.inr ⟨rfl, hslash, hquote⟩)

theorem unescape?_escape (c : Char) (rest : List Char) :
    unescape? (escape c ++ rest) = some (c, rest) := by
  rcases escape_cases c with ⟨d, hd, hu, hs⟩ | hd | ⟨hd, hslash, -⟩
  · rw [hd]
    show unescape? ('\\' :: d :: rest) = some (c, rest)
    unfold unescape?
    split
    · next heq =>
      cases heq
      exact absurd rfl hu
    · next heq =>
      cases heq
      rw [hs]
    · next hno heq =>
      cases heq
      exact absurd rfl (hno d rest rfl)
    · next heq => cases heq
  -- a code point in braces: the digits end at the first closing brace
  · have hdigits : ∀ x ∈ hex c.toNat, x ≠ '\x7d' :=
      forall_mem_hex (P := (· ≠ '\x7d')) (by decide) _
    have htake : (hex c.toNat ++ '\x7d' :: rest).takeWhile (· ≠ '\x7d') = hex c.toNat := by
      rw [List.takeWhile_append_of_pos fun x hx => decide_eq_true (hdigits x hx)]
      simp
    have hdrop : (hex c.toNat ++ '\x7d' :: rest).dropWhile (· ≠ '\x7d') = '\x7d' :: rest := by
      rw [List.dropWhile_append_of_pos fun x hx => decide_eq_true (hdigits x hx)]
      simp
    rw [hd, List.append_assoc, List.append_assoc]
    show some (Char.ofNat (hexValue ((hex c.toNat ++ '\x7d' :: rest).takeWhile (· ≠ '\x7d'))),
      ((hex c.toNat ++ '\x7d' :: rest).dropWhile (· ≠ '\x7d')).tail) = _
    rw [htake, hdrop, hexValue_hex, Char.ofNat_toNat]
    rfl
  · rw [hd]
    show unescape? (c :: rest) = some (c, rest)
    unfold unescape?
    split
    · next heq =>
      cases heq
      exact absurd rfl hslash
    · next heq =>
      cases heq
      exact absurd rfl hslash
    · next heq =>
      cases heq
      rfl
    · next heq => cases heq

/-- what a character is written as does not begin like the end of a string -/
theorem escape_ne_quote (c : Char) (rest tail : List Char) :
    escape c ++ rest ≠ '"' :: tail := by
  intro h
  rcases escape_cases c with ⟨d, hd, -⟩ | hd | ⟨hd, -, hquote⟩
  · rw [hd] at h
    cases h
  · rw [hd] at h
    cases h
  · rw [hd] at h
    cases h
    exact hquote rfl

/-! ## strings -/

theorem toList_quoted (s : String) :
    (quoted s).toList = '"' :: s.toList.flatMap escape ++ ['"'] := String.toList_ofList

theorem flatMap_escape_append_inj {s t : List Char} {a b : List Char}
    (h : s.flatMap escape ++ '"' :: a = t.flatMap escape ++ '"' :: b) : s = t ∧ a = b := by
  induction s generalizing t with
  | nil =>
    cases t with
    | nil => exact ⟨rfl, (List.cons.inj h).2⟩
    | cons c t =>
      rw [List.flatMap_cons, List.append_assoc] at h
      exact absurd h.symm (escape_ne_quote c _ _)
  | cons c s ih =>
    cases t with
    | nil =>
      rw [List.flatMap_cons, List.append_assoc] at h
      exact absurd h (escape_ne_quote c _ _)
    | cons d t =>
      rw [List.flatMap_cons, List.flatMap_cons, List.append_assoc, List.append_assoc] at h
      have hread := congrArg unescape? h
      rw [unescape?_escape, unescape?_escape] at hread
      obtain ⟨rfl, hrest⟩ := Prod.mk.inj (Option.some.inj hread)
      obtain ⟨rfl, hab⟩ := ih hrest
      exact ⟨rfl, hab⟩

/-- two quoted strings at the front of one text are the same -/
theorem quoted_append_inj {s t : String} {a b : List Char}
    (h : (quoted s).toList ++ a = (quoted t).toList ++ b) : s = t ∧ a = b := by
  rw [toList_quoted, toList_quoted, List.append_assoc, List.append_assoc] at h
  obtain ⟨hst, hab⟩ := flatMap_escape_append_inj (List.cons.inj h).2
  exact ⟨String.toList_inj.mp hst, hab⟩

end ServiceGraph.Text
