import ServiceGraph.Digest.Text

/-!
# The hash on natural numbers

The kernel adds, shifts and compares natural numbers at once, but words only by way of what they are made
of, and an entry of an array only by way of the list. So a compression is carried out here on sixteen
numbers that have names.

* `Blake3.stir`, `Blake3.Sixteen.round`, `Blake3.Sixteen.rounds`: the rounds;
* `Blake3.unrolled`: the compression; `Blake3.compress_eq_unrolled`: it is the same;
* `Blake3.hashBy`, `Blake3.hash_eq_unrolled`: the whole hash.
-/

namespace ServiceGraph.Blake3

/-! ## words -/

/-- the sum of two words -/
def plus (x y : Nat) : Nat := Nat.mod (Nat.add x y) 4294967296

/-- a word rotated to the right; `n` and `m` are thirty-two together -/
def turn (x n m : Nat) : Nat := Nat.lor (Nat.shiftRight x n) (Nat.mod (Nat.shiftLeft x m) 4294967296)

theorem plus_toNat (x y : UInt32) : plus x.toNat y.toNat = (x + y).toNat := (UInt32.toNat_add x y).symm

theorem turn_toNat (x n : UInt32) (hn : n.toNat % 32 = n.toNat) (hm : (32 - n).toNat % 32 = (32 - n).toNat) :
    turn x.toNat n.toNat (32 - n).toNat = (rotate x n).toNat := by
  rw [rotate, UInt32.toNat_or, UInt32.toNat_shiftRight, UInt32.toNat_shiftLeft, hn, hm]
  rfl

/-- mix two words of the block into four words, and go on with these -/
def stir {α : Type} (a b c d x y : Nat) (next : Nat → Nat → Nat → Nat → α) : α :=
  let a := plus (plus a b) x
  let d := turn (Nat.xor d a) 16 16
  let c := plus c d
  let b := turn (Nat.xor b c) 12 20
  let a := plus (plus a b) y
  let d := turn (Nat.xor d a) 8 24
  let c := plus c d
  let b := turn (Nat.xor b c) 7 25
  next a b c d

/-- the same with words -/
def stirWords {α : Type} (a b c d x y : UInt32) (next : UInt32 → UInt32 → UInt32 → UInt32 → α) : α :=
  let a := a + b + x
  let d := rotate (d ^^^ a) 16
  let c := c + d
  let b := rotate (b ^^^ c) 12
  let a := a + b + y
  let d := rotate (d ^^^ a) 8
  let c := c + d
  let b := rotate (b ^^^ c) 7
  next a b c d

theorem stir_toNat {α : Type} (a b c d x y : UInt32) (next : Nat → Nat → Nat → Nat → α) :
    stir a.toNat b.toNat c.toNat d.toNat x.toNat y.toNat next =
      stirWords a b c d x y fun a b c d => next a.toNat b.toNat c.toNat d.toNat := by
  have hxor : ∀ x y : UInt32, Nat.xor x.toNat y.toNat = (x ^^^ y).toNat := fun x y =>
    (UInt32.toNat_xor x y).symm
  have h16 : ∀ x : UInt32, turn x.toNat 16 16 = (rotate x 16).toNat := fun x => turn_toNat x 16 rfl rfl
  have h12 : ∀ x : UInt32, turn x.toNat 12 20 = (rotate x 12).toNat := fun x => turn_toNat x 12 rfl rfl
  have h8 : ∀ x : UInt32, turn x.toNat 8 24 = (rotate x 8).toNat := fun x => turn_toNat x 8 rfl rfl
  have h7 : ∀ x : UInt32, turn x.toNat 7 25 = (rotate x 7).toNat := fun x => turn_toNat x 7 rfl rfl
  simp only [stir, stirWords, plus_toNat, hxor, h16, h12, h8, h7]

/-! ## the state and the block -/

/-- sixteen numbers: the state of a compression, or the words of a block -/
structure Sixteen where
  (v0 v1 v2 v3 v4 v5 v6 v7 v8 v9 v10 v11 v12 v13 v14 v15 : Nat)

namespace Sixteen

/-- sixteen words as numbers, zeros after the last one -/
def of (s : Words) : Sixteen :=
  ⟨(word s 0).toNat, (word s 1).toNat, (word s 2).toNat, (word s 3).toNat, (word s 4).toNat,
    (word s 5).toNat, (word s 6).toNat, (word s 7).toNat, (word s 8).toNat, (word s 9).toNat,
    (word s 10).toNat, (word s 11).toNat, (word s 12).toNat, (word s 13).toNat, (word s 14).toNat,
    (word s 15).toNat⟩

def round (s m : Sixteen) : Sixteen :=
  stir s.v0 s.v4 s.v8 s.v12 m.v0 m.v1 fun v0 v4 v8 v12 =>
  stir s.v1 s.v5 s.v9 s.v13 m.v2 m.v3 fun v1 v5 v9 v13 =>
  stir s.v2 s.v6 s.v10 s.v14 m.v4 m.v5 fun v2 v6 v10 v14 =>
  stir s.v3 s.v7 s.v11 s.v15 m.v6 m.v7 fun v3 v7 v11 v15 =>
  stir v0 v5 v10 v15 m.v8 m.v9 fun v0 v5 v10 v15 =>
  stir v1 v6 v11 v12 m.v10 m.v11 fun v1 v6 v11 v12 =>
  stir v2 v7 v8 v13 m.v12 m.v13 fun v2 v7 v8 v13 =>
  stir v3 v4 v9 v14 m.v14 m.v15 fun v3 v4 v9 v14 =>
  ⟨v0, v1, v2, v3, v4, v5, v6, v7, v8, v9, v10, v11, v12, v13, v14, v15⟩

def permute (m : Sixteen) : Sixteen :=
  ⟨m.v2, m.v6, m.v3, m.v10, m.v7, m.v0, m.v4, m.v13, m.v1, m.v11, m.v12, m.v5, m.v9, m.v14, m.v15, m.v8⟩

def rounds : Nat → Sixteen → Sixteen → Sixteen
  | 0, s, _ => s
  | n + 1, s, m => rounds n (s.round m) m.permute

end Sixteen

theorem exists_sixteen {s : Words} (h : s.size = 16) :
    ∃ v0 v1 v2 v3 v4 v5 v6 v7 v8 v9 v10 v11 v12 v13 v14 v15,
      s = #[v0, v1, v2, v3, v4, v5, v6, v7, v8, v9, v10, v11, v12, v13, v14, v15] := by
  obtain ⟨l⟩ := s
  match l, h with
  | [v0, v1, v2, v3, v4, v5, v6, v7, v8, v9, v10, v11, v12, v13, v14, v15], _ =>
    exact ⟨v0, v1, v2, v3, v4, v5, v6, v7, v8, v9, v10, v11, v12, v13, v14, v15, rfl⟩

theorem exists_eight {s : Words} (h : s.size = 8) :
    ∃ v0 v1 v2 v3 v4 v5 v6 v7, s = #[v0, v1, v2, v3, v4, v5, v6, v7] := by
  obtain ⟨l⟩ := s
  match l, h with
  | [v0, v1, v2, v3, v4, v5, v6, v7], _ => exact ⟨v0, v1, v2, v3, v4, v5, v6, v7, rfl⟩

theorem mix_toArray (l : List UInt32) (ia ib ic id : Nat) (x y : UInt32) :
    mix l.toArray (ia, ib, ic, id) x y =
      stirWords (l.getD ia 0) (l.getD ib 0) (l.getD ic 0) (l.getD id 0) x y fun a b c d =>
        ((((l.set ia a).set ib b).set ic c).set id d).toArray := by
  have hword : ∀ i, word l.toArray i = l.getD i 0 := fun i => by
    rw [word, Array.getD_eq_getD_getElem?, List.getElem?_toArray, List.getD_eq_getElem?_getD]
  simp only [mix, stirWords, hword, List.setIfInBounds_toArray]

theorem mix_stirWords (a b c d x y : UInt32) (next : UInt32 → UInt32 → UInt32 → UInt32 → Words)
    (q : Nat × Nat × Nat × Nat) (x' y' : UInt32) :
    mix (stirWords a b c d x y next) q x' y' =
      stirWords a b c d x y fun a b c d => mix (next a b c d) q x' y' := (rfl)

theorem round_eq (v0 v1 v2 v3 v4 v5 v6 v7 v8 v9 v10 v11 v12 v13 v14 v15 : UInt32) (block : Words) :
    round #[v0, v1, v2, v3, v4, v5, v6, v7, v8, v9, v10, v11, v12, v13, v14, v15] block =
      stirWords v0 v4 v8 v12 (word block 0) (word block 1) fun v0 v4 v8 v12 =>
      stirWords v1 v5 v9 v13 (word block 2) (word block 3) fun v1 v5 v9 v13 =>
      stirWords v2 v6 v10 v14 (word block 4) (word block 5) fun v2 v6 v10 v14 =>
      stirWords v3 v7 v11 v15 (word block 6) (word block 7) fun v3 v7 v11 v15 =>
      stirWords v0 v5 v10 v15 (word block 8) (word block 9) fun v0 v5 v10 v15 =>
      stirWords v1 v6 v11 v12 (word block 10) (word block 11) fun v1 v6 v11 v12 =>
      stirWords v2 v7 v8 v13 (word block 12) (word block 13) fun v2 v7 v8 v13 =>
      stirWords v3 v4 v9 v14 (word block 14) (word block 15) fun v3 v4 v9 v14 =>
      #[v0, v1, v2, v3, v4, v5, v6, v7, v8, v9, v10, v11, v12, v13, v14, v15] := by
  simp only [round, quarters, List.zipIdx_cons, List.zipIdx_nil, List.foldl_cons, List.foldl_nil,
    mix_toArray, mix_stirWords, List.getD_cons_zero, List.getD_cons_succ, List.set_cons_zero,
    List.set_cons_succ, Nat.reduceMul, Nat.reduceAdd]

theorem size_round (s block : Words) : (round s block).size = s.size := by
  have hmix : ∀ (s : Words) q x y, (mix s q x y).size = s.size := fun s q x y => by
    simp only [mix, Array.size_setIfInBounds]
  simp only [round, quarters, List.zipIdx_cons, List.zipIdx_nil, List.foldl_cons, List.foldl_nil, hmix]

namespace Sixteen

theorem of_stirWords (a b c d x y : UInt32) (next : UInt32 → UInt32 → UInt32 → UInt32 → Words) :
    of (stirWords a b c d x y next) = stirWords a b c d x y fun a b c d => of (next a b c d) := (rfl)

theorem of_round {s : Words} (h : s.size = 16) (block : Words) :
    of (Blake3.round s block) = (of s).round (of block) := by
  obtain ⟨v0, v1, v2, v3, v4, v5, v6, v7, v8, v9, v10, v11, v12, v13, v14, v15, rfl⟩ := exists_sixteen h
  have hof : ∀ v0 v1 v2 v3 v4 v5 v6 v7 v8 v9 v10 v11 v12 v13 v14 v15 : UInt32,
      of #[v0, v1, v2, v3, v4, v5, v6, v7, v8, v9, v10, v11, v12, v13, v14, v15] =
        ⟨v0.toNat, v1.toNat, v2.toNat, v3.toNat, v4.toNat, v5.toNat, v6.toNat, v7.toNat, v8.toNat,
          v9.toNat, v10.toNat, v11.toNat, v12.toNat, v13.toNat, v14.toNat, v15.toNat⟩ := by
    intros
    rfl
  simp only [round_eq, of_stirWords, hof, round]
  simp only [of, stir_toNat]

theorem of_permute (block : Words) : of (Blake3.permute block) = (of block).permute := rfl

theorem of_rounds {s : Words} (h : s.size = 16) (n : Nat) (block : Words) :
    of (Blake3.rounds n s block) = rounds n (of s) (of block) := by
  induction n generalizing s block with
  | zero => rfl
  | succ n ih =>
    rw [Blake3.rounds, rounds, ih ((size_round s block).trans h), of_round h, of_permute]

end Sixteen

/-! ## the compression -/

namespace Sixteen

def folded (s : Sixteen) : Words :=
  #[UInt32.ofNat (Nat.xor s.v0 s.v8), UInt32.ofNat (Nat.xor s.v1 s.v9),
    UInt32.ofNat (Nat.xor s.v2 s.v10), UInt32.ofNat (Nat.xor s.v3 s.v11),
    UInt32.ofNat (Nat.xor s.v4 s.v12), UInt32.ofNat (Nat.xor s.v5 s.v13),
    UInt32.ofNat (Nat.xor s.v6 s.v14), UInt32.ofNat (Nat.xor s.v7 s.v15)]

theorem folded_of (s : Words) :
    (of s).folded = ((List.range 8).map fun i => word s i ^^^ word s (i + 8)).toArray := by
  have hxor : ∀ x y : UInt32, UInt32.ofNat (Nat.xor x.toNat y.toNat) = x ^^^ y := fun x y => by
    rw [show Nat.xor x.toNat y.toNat = (x ^^^ y).toNat from (UInt32.toNat_xor x y).symm, UInt32.ofNat_toNat]
  simp only [folded, of, hxor]
  rfl

end Sixteen

def opened (p : Pending) (marks : UInt32) : Sixteen :=
  ⟨(word p.chaining 0).toNat, (word p.chaining 1).toNat, (word p.chaining 2).toNat,
    (word p.chaining 3).toNat, (word p.chaining 4).toNat, (word p.chaining 5).toNat,
    (word p.chaining 6).toNat, (word p.chaining 7).toNat,
    0x6a09e667, 0xbb67ae85, 0x3c6ef372, 0xa54ff53a,
    (UInt32.ofNat p.counter).toNat, (UInt32.ofNat (p.counter / Nat.pow 2 32)).toNat,
    (UInt32.ofNat p.length).toNat, (p.flags ||| marks).toNat⟩

/-- a compression on numbers; eight words have to be chained -/
def unrolled (p : Pending) (marks : UInt32) : Words :=
  if p.chaining.size = 8 then (Sixteen.rounds 7 (opened p marks) (.of p.block)).folded else compress p marks

theorem opened_eq {p : Pending} (h : p.chaining.size = 8) (marks : UInt32) :
    opened p marks = Sixteen.of (p.chaining ++ initial.take 4 ++
      #[UInt32.ofNat p.counter, UInt32.ofNat (p.counter / Nat.pow 2 32), UInt32.ofNat p.length,
        p.flags ||| marks]) := by
  obtain ⟨chaining, block, counter, length, flags⟩ := p
  obtain ⟨c0, c1, c2, c3, c4, c5, c6, c7, rfl⟩ := exists_eight h
  generalize hl : UInt32.ofNat counter = low
  generalize hh : UInt32.ofNat (counter / Nat.pow 2 32) = high
  simp only [opened, hl, hh]
  rfl

theorem compress_eq_unrolled : compress = unrolled := by
  funext p marks
  rw [unrolled]
  split
  next hsize =>
    have hstate : (p.chaining ++ initial.take 4 ++
        #[UInt32.ofNat p.counter, UInt32.ofNat (p.counter / Nat.pow 2 32), UInt32.ofNat p.length,
          p.flags ||| marks]).size = 16 := by
      rw [Array.size_append, Array.size_append, hsize]
      rfl
    rw [opened_eq hsize, ← Sixteen.of_rounds hstate, Sixteen.folded_of, compress]
  next => rfl

/-! ## the hash -/

/-- the blocks of a chunk, with some compression -/
def blocksBy (carry : Pending → UInt32 → Words) (counter : Nat) (chaining : Words) (start : UInt32) :
    List (List UInt8) → Pending
  | [] => ⟨chaining, #[], counter, 0, start ||| chunkEnd⟩
  | [block] => ⟨chaining, (wordsOf block).toArray, counter, block.length, start ||| chunkEnd⟩
  | block :: rest =>
    let p : Pending := ⟨chaining, (wordsOf block).toArray, counter, block.length, start⟩
    blocksBy carry counter (carry p 0) 0 rest

def chunkBy (carry : Pending → UInt32 → Words) (counter : Nat) (bytes : List UInt8) : Pending :=
  blocksBy carry counter initial chunkStart (pieces 64 16 bytes)

def pushBy (carry : Pending → UInt32 → Words) (value : Words) : (count : Nat) → List Words → List Words
  | _, [] => [value]
  | count, top :: rest =>
    if count % 2 = 0 then pushBy carry (carry (parent top value) 0) (count / 2) rest
    else value :: top :: rest

def closeBy (carry : Pending → UInt32 → Words) : Pending → List Words → Pending
  | p, [] => p
  | p, top :: rest => closeBy carry (parent top (carry p 0)) rest

def chunksBy (carry : Pending → UInt32 → Words) (counter : Nat) (stack : List Words) :
    List (List UInt8) → Pending
  | [] => closeBy carry (chunkBy carry counter []) stack
  | [last] => closeBy carry (chunkBy carry counter last) stack
  | c :: rest =>
    chunksBy carry (counter + 1) (pushBy carry (carry (chunkBy carry counter c) 0) (counter + 1) stack) rest

/-- the digest of a message, with some compression -/
def hashBy (carry : Pending → UInt32 → Words) (message : List UInt8) : List UInt8 :=
  (carry (chunksBy carry 0 [] (pieces 1024 message.length message)) rootMark).toList.flatMap bytesOf

theorem blocks_eq (counter : Nat) (chaining : Words) (start : UInt32) (bs : List (List UInt8)) :
    blocks counter chaining start bs = blocksBy compress counter chaining start bs := by
  fun_induction blocks counter chaining start bs with
  | case1 => rfl
  | case2 => rfl
  | case3 chaining start block rest hrest p ih =>
    rw [blocksBy, ih]
    exact hrest

theorem push_eq (value : Words) (count : Nat) (stack : List Words) :
    push value count stack = pushBy compress value count stack := by
  fun_induction push value count stack with
  | case1 => rfl
  | case2 value count top rest heven ih => rw [pushBy, if_pos heven, ih]
  | case3 value count top rest hodd => rw [pushBy, if_neg hodd]

theorem close_eq (p : Pending) (stack : List Words) : close p stack = closeBy compress p stack := by
  fun_induction close p stack with
  | case1 => rfl
  | case2 p top rest ih => rw [closeBy, ih]

theorem chunk_eq (counter : Nat) (bytes : List UInt8) : chunk counter bytes = chunkBy compress counter bytes :=
  blocks_eq ..

theorem chunks_eq (counter : Nat) (stack : List Words) (cs : List (List UInt8)) :
    chunks counter stack cs = chunksBy compress counter stack cs := by
  fun_induction chunks counter stack cs with
  | case1 => rw [chunksBy, close_eq, chunk_eq]
  | case2 => rw [chunksBy, close_eq, chunk_eq]
  | case3 counter stack c rest hrest ih =>
    rw [chunksBy, ih, push_eq, chunk_eq]
    exact hrest

/-- **The digest on numbers** is the digest. -/
theorem hash_eq_unrolled (message : List UInt8) : hash message = hashBy unrolled message := by
  rw [hash, hashBy, chunks_eq, ← compress_eq_unrolled]

end ServiceGraph.Blake3

namespace ServiceGraph.Digest

theorem digits_eq_unrolled (content : List UInt8) :
    digits content = hexText (Blake3.hashBy Blake3.unrolled content) := by
  rw [digits, Blake3.hash_eq_unrolled]

theorem ofBytes_eq_unrolled (content : List UInt8) :
    ofBytes content = "blake3:" ++ String.ofList (hexText (Blake3.hashBy Blake3.unrolled content)) := by
  rw [ofBytes, digits_eq_unrolled]

theorem ofText_eq_unrolled (s : String) :
    ofText s = "blake3:" ++ String.ofList (hexText (Blake3.hashBy Blake3.unrolled (bytes s))) :=
  ofBytes_eq_unrolled (bytes s)

end ServiceGraph.Digest
