import ServiceGraph.Proofs.Source.Names
import ServiceGraph.Proofs.Text.Quoted
import Mathlib.Data.List.Forall2

/-!
# Source text as tokens

Generated source consists of words, quoted strings, brackets and other marks. How far a word reaches
shows in the character behind it, so a text is read in a mode and leaves another.

* `Source.Token`, `Source.Mode`, `Source.scan`: the tokens of a text;
* `Source.scan_append`: texts are read one after the other;
* `Source.Sealed`, `Source.Reads`: a text as tokens, behind which a word may begin or must not;
* `Source.sealed_quoted`: a quoted string is one token, whatever stands in it.
-/

namespace ServiceGraph.Source

open Compile (nameLetter)

inductive Bracket where
  | round
  | square
  | curly
deriving DecidableEq

inductive Token where
  | word (s : String)
  /-- a quoted string, without its quotes and escapes -/
  | literal (s : String)
  | mark (c : Char)
  | opening (b : Bracket)
  | closing (b : Bracket)
deriving DecidableEq

/-- where in a text its reader is -/
inductive Mode where
  /-- in code, with the beginning of a word behind -/
  | code (word : List Char)
  | inString (text : List Char)
  /-- behind a backslash -/
  | escaped (text : List Char)
deriving DecidableEq

/-! ## reading -/

/-- an escaped text, with room for that many characters -/
def unescape : Nat → List Char → List Char
  | 0, _ => []
  | room + 1, cs =>
    match Text.unescape? cs with
    | some (c, rest) => c :: unescape room rest
    | none => []

def decoded (text : List Char) : String := String.ofList (unescape text.length text)

/-- the word that ends -/
def pending (word : List Char) : List Token :=
  if word = [] then [] else [.word (String.ofList word)]

/-- the token of a character outside of words and strings -/
def punctuation : Char → List Token
  | ' ' | '\n' => []
  | '(' => [.opening .round]
  | ')' => [.closing .round]
  | '[' => [.opening .square]
  | ']' => [.closing .square]
  | '\x7b' => [.opening .curly]
  | '\x7d' => [.closing .curly]
  | c => [.mark c]

def step : Mode → Char → List Token × Mode
  | .code word, c =>
    if nameLetter c then ([], .code (word ++ [c]))
    else if c = '"' then (pending word, .inString [])
    else (pending word ++ punctuation c, .code [])
  | .inString text, c =>
    if c = '"' then ([.literal (decoded text)], .code [])
    else if c = '\\' then ([], .escaped (text ++ [c]))
    else ([], .inString (text ++ [c]))
  | .escaped text, c => ([], .inString (text ++ [c]))

def scan : Mode → List Char → List Token × Mode
  | m, [] => ([], m)
  | m, c :: cs =>
    let (ts, m) := step m c
    let (us, m) := scan m cs
    (ts ++ us, m)

/-- the tokens of a text, if no string is left open -/
def tokens? (source : String) : Option (List Token) :=
  match scan (.code []) source.toList with
  | (ts, .code word) => some (ts ++ pending word)
  | _ => none

theorem scan_cons (m : Mode) (c : Char) (cs : List Char) :
    scan m (c :: cs) = ((step m c).1 ++ (scan (step m c).2 cs).1, (scan (step m c).2 cs).2) := rfl

/-- a text is read piece after piece -/
theorem scan_append (m : Mode) (a b : List Char) :
    scan m (a ++ b) = ((scan m a).1 ++ (scan (scan m a).2 b).1, (scan (scan m a).2 b).2) := by
  induction a generalizing m with
  | nil => rfl
  | cons c cs ih => rw [List.cons_append, scan_cons, scan_cons, ih, List.append_assoc]

theorem scan_append_of_eq {m m' : Mode} {a : List Char} {ts : List Token}
    (h : scan m a = (ts, m')) (b : List Char) :
    scan m (a ++ b) = (ts ++ (scan m' b).1, (scan m' b).2) := by
  rw [scan_append, h]

/-! ## texts with tokens -/

/-- these are the tokens of a text, behind which nothing is left of a word -/
def Sealed (s : String) (ts : List Token) : Prop :=
  scan (.code []) s.toList = (ts, .code [])

/-- these are the tokens of a text if no letter comes next -/
def Reads (s : String) (ts : List Token) : Prop :=
  ∃ us word, scan (.code []) s.toList = (us, .code word) ∧ ts = us ++ pending word

/-- the text begins with a character that ends a word -/
def Apart (s : String) : Prop := s.toList.head?.any (!nameLetter ·) = true

variable {s t : String} {ts us : List Token}

-- a literal unfolds to the list of its characters at once, but back from its bytes only slowly
theorem Sealed.ofList {cs : List Char} (h : scan (.code []) cs = (ts, .code [])) :
    Sealed (String.ofList cs) ts := by
  rw [Sealed, String.toList_ofList, h]

theorem Apart.ofList {cs : List Char} (h : cs.head?.any (!nameLetter ·) = true) :
    Apart (String.ofList cs) := by
  rw [Apart, String.toList_ofList, h]

theorem Reads.tokens?_eq (h : Reads s ts) : tokens? s = some ts := by
  obtain ⟨us, word, hscan, rfl⟩ := h
  rw [tokens?, hscan]

theorem Sealed.reads (h : Sealed s ts) : Reads s ts :=
  ⟨ts, [], h, (List.append_nil ts).symm⟩

theorem Sealed.of_eq (h : Sealed s ts) (heq : ts = us) : Sealed s us := heq ▸ h

theorem Reads.of_eq (h : Reads s ts) (heq : ts = us) : Reads s us := heq ▸ h

theorem sealed_empty : Sealed "" [] := rfl

theorem Sealed.append (hs : Sealed s ts) (ht : Sealed t us) : Sealed (s ++ t) (ts ++ us) := by
  unfold Sealed
  rw [String.toList_append, scan_append_of_eq hs, ht]

/-- a text followed by a fixed one -/
theorem Sealed.text (hs : Sealed s ts) (t : String) (us : List Token) (ht : Sealed t us) :
    Sealed (s ++ t) (ts ++ us) := hs.append ht

theorem Sealed.append_reads (hs : Sealed s ts) (ht : Reads t us) :
    Reads (s ++ t) (ts ++ us) := by
  obtain ⟨vs, word, hscan, rfl⟩ := ht
  refine ⟨ts ++ vs, word, ?_, (List.append_assoc ..).symm⟩
  rw [String.toList_append, scan_append_of_eq hs, hscan]

/-- a character that ends a word is read behind it as it is read behind nothing -/
theorem step_apart {c : Char} (hc : nameLetter c = false) (word : List Char) :
    step (.code word) c = (pending word ++ (step (.code []) c).1, (step (.code []) c).2) := by
  have hnot : ¬ nameLetter c = true := by rw [hc]; exact Bool.false_ne_true
  rw [step, step, if_neg hnot, if_neg hnot]
  split
  · rw [show pending [] = [] from rfl, List.append_nil]
  · rfl

theorem scan_apart (ht : Apart t) (word : List Char) :
    scan (.code word) t.toList =
      (pending word ++ (scan (.code []) t.toList).1, (scan (.code []) t.toList).2) := by
  unfold Apart at ht
  cases hchars : t.toList with
  | nil =>
    rw [hchars] at ht
    cases ht
  | cons c cs =>
    rw [hchars, List.head?_cons, Option.any_some, Bool.not_eq_true'] at ht
    rw [scan_cons, scan_cons, step_apart ht word, List.append_assoc]

theorem Reads.append (hs : Reads s ts) (ht : Reads t us) (hapart : Apart t) :
    Reads (s ++ t) (ts ++ us) := by
  obtain ⟨vs, word, hscan, rfl⟩ := hs
  obtain ⟨ws, word', hscan', rfl⟩ := ht
  refine ⟨vs ++ (pending word ++ ws), word', ?_, by simp only [List.append_assoc]⟩
  rw [String.toList_append, scan_append_of_eq hscan, scan_apart hapart, hscan']

/-- a text followed by a fixed one that ends a word -/
theorem Reads.seal (hs : Reads s ts) (t : String) (us : List Token) (ht : Sealed t us)
    (hapart : Apart t) : Sealed (s ++ t) (ts ++ us) := by
  obtain ⟨vs, word, hscan, rfl⟩ := hs
  unfold Sealed at *
  rw [String.toList_append, scan_append_of_eq hscan, scan_apart hapart, ht, List.append_assoc]

/-! ## many texts -/

theorem Sealed.join {α : Type} {f : α → String} {g : α → List Token} (xs : List α)
    (h : ∀ x ∈ xs, Sealed (f x) (g x)) : Sealed (String.join (xs.map f)) (xs.flatMap g) := by
  induction xs with
  | nil => exact sealed_empty
  | cons x xs ih =>
    rw [List.map_cons, String.join_cons, List.flatMap_cons]
    exact (h x (List.mem_cons_self ..)).append (ih fun y hy => h y (List.mem_cons_of_mem _ hy))

/-- texts with a separator between them -/
theorem Reads.intercalate (sep : String) (vs : List Token) (hsep : Sealed sep vs)
    (hapart : Apart sep) {parts : List String} {tss : List (List Token)}
    (h : List.Forall₂ Reads parts tss) : Reads (sep.intercalate parts) (vs.intercalate tss) := by
  induction h with
  | nil => exact sealed_empty.reads
  | @cons s ts parts tss hs hrest ih =>
    cases hrest with
    | nil =>
      rw [String.intercalate_singleton, List.intercalate_singleton]
      exact hs
    | cons hs' hrest =>
      rw [String.intercalate_cons_cons, List.intercalate_cons_cons]
      exact (hs.seal sep vs hsep hapart).append_reads ih

/-! ## words -/

theorem scan_letters {cs : List Char} (h : ∀ c ∈ cs, nameLetter c = true) (word : List Char) :
    scan (.code word) cs = ([], .code (word ++ cs)) := by
  induction cs generalizing word with
  | nil => rw [List.append_nil]; rfl
  | cons c cs ih =>
    rw [scan_cons, step, if_pos (h c (List.mem_cons_self ..)),
      ih fun d hd => h d (List.mem_cons_of_mem _ hd)]
    rw [List.append_assoc, List.singleton_append, List.nil_append]

/-- letters are read as a word -/
theorem reads_word (h : ∀ c ∈ s.toList, nameLetter c = true) (hne : s ≠ "") :
    Reads s [.word s] := by
  have hchars : s.toList ≠ [] := fun hnil => hne (String.toList_inj.mp hnil)
  refine ⟨[], s.toList, scan_letters h [], ?_⟩
  rw [pending, if_neg hchars, String.ofList_toList, List.nil_append]

/-! ## strings -/

theorem unescape_escaped (cs : List Char) (room : Nat) (h : cs.length ≤ room) :
    unescape room (cs.flatMap Text.escape) = cs := by
  induction cs generalizing room with
  | nil => cases room <;> rfl
  | cons c cs ih =>
    cases room with
    | zero => exact absurd h (Nat.not_succ_le_zero _)
    | succ room =>
      rw [List.flatMap_cons, unescape, Text.unescape?_escape]
      exact congrArg (c :: ·) (ih room (Nat.le_of_succ_le_succ h))

theorem length_le_escaped (cs : List Char) : cs.length ≤ (cs.flatMap Text.escape).length := by
  induction cs with
  | nil => exact Nat.zero_le _
  | cons c cs ih =>
    have hone : 1 ≤ (Text.escape c).length := by
      rcases Text.escape_cases c with ⟨d, hd, -⟩ | hd | ⟨hd, -⟩
      · rw [hd]
        exact Nat.le_succ 1
      · rw [hd]
        simp
      · rw [hd]
        exact Nat.le_refl _
    rw [List.flatMap_cons, List.length_append, List.length_cons]
    omega

theorem decoded_escaped (s : String) : decoded (s.toList.flatMap Text.escape) = s := by
  rw [decoded, unescape_escaped _ _ (length_le_escaped _), String.ofList_toList]

/-- text without quotes and backslashes goes on with a string -/
theorem scan_inString {cs : List Char} (h : ∀ c ∈ cs, c ≠ '"' ∧ c ≠ '\\') (text : List Char) :
    scan (.inString text) cs = ([], .inString (text ++ cs)) := by
  induction cs generalizing text with
  | nil => rw [List.append_nil]; rfl
  | cons c cs ih =>
    obtain ⟨hquote, hslash⟩ := h c (List.mem_cons_self ..)
    rw [scan_cons, step, if_neg hquote, if_neg hslash,
      ih fun d hd => h d (List.mem_cons_of_mem _ hd)]
    rw [List.append_assoc, List.singleton_append, List.nil_append]

/-- an escaped character goes on with a string -/
theorem scan_escape (c : Char) (text : List Char) :
    scan (.inString text) (Text.escape c) = ([], .inString (text ++ Text.escape c)) := by
  rcases Text.escape_cases c with ⟨d, hd, -⟩ | hd | ⟨hd, hslash, hquote⟩
  · rw [hd]
    show ([], Mode.inString (text ++ ['\\'] ++ [d])) = _
    rw [List.append_assoc]
    rfl
  · have hplain : ∀ d ∈ '\x7b' :: (Text.hex c.toNat ++ ['\x7d']), d ≠ '"' ∧ d ≠ '\\' := by
      intro d hmem
      simp only [List.mem_cons, List.mem_append, List.not_mem_nil, or_false] at hmem
      rcases hmem with rfl | hmem | rfl
      · decide
      · exact Text.forall_mem_hex (P := fun d => d ≠ '"' ∧ d ≠ '\\') (by decide) _ d hmem
      · decide
    rw [hd]
    -- the letter behind the backslash is read whatever it is
    show scan (.inString (text ++ ['\\'] ++ ['u'])) ('\x7b' :: (Text.hex c.toNat ++ ['\x7d'])) = _
    rw [scan_inString hplain, List.append_assoc, List.append_assoc]
    rfl
  · rw [hd]
    exact scan_inString (fun d hmem => List.mem_singleton.mp hmem ▸ ⟨hquote, hslash⟩) text

theorem scan_escaped (cs text : List Char) :
    scan (.inString text) (cs.flatMap Text.escape) =
      ([], .inString (text ++ cs.flatMap Text.escape)) := by
  induction cs generalizing text with
  | nil => rw [List.flatMap_nil, List.append_nil]; rfl
  | cons c cs ih =>
    rw [List.flatMap_cons, scan_append_of_eq (scan_escape c text), ih, List.append_assoc]
    rfl

/-- a quoted string is one token -/
theorem sealed_quoted (s : String) : Sealed (Text.quoted s) [.literal s] := by
  unfold Sealed
  rw [Text.toList_quoted]
  show scan (.code []) ('"' :: (s.toList.flatMap Text.escape ++ ['"'])) = _
  rw [scan_cons]
  show ([] ++ (scan (.inString []) _).1, (scan (.inString []) _).2) = _
  rw [scan_append_of_eq (scan_escaped s.toList [])]
  show ([Token.literal (decoded (s.toList.flatMap Text.escape))], Mode.code []) = _
  rw [decoded_escaped]

end ServiceGraph.Source
