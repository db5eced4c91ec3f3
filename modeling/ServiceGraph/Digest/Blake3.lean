/-!
# The BLAKE3 hash function

* `Blake3.mix`, `Blake3.compress`: the compression function on words of thirty-two bits;
* `Blake3.Pending`: a compression that is not carried out yet, because the last one of all carries
  a mark of its own;
* `Blake3.chunk`, `Blake3.parent`: the leaves and the inner nodes of the hash tree;
* `Blake3.hash`: the thirty-two bytes of the digest.

The message is cut into chunks of 1024 bytes and a chunk into blocks of 64 bytes. Subtrees of equal
size are joined as soon as both are complete.
-/

namespace ServiceGraph.Blake3

/-- eight words: a chaining value, or a digest -/
abbrev Words := Array UInt32

def word (a : Words) (i : Nat) : UInt32 := a.getD i 0

def rotate (x : UInt32) (n : UInt32) : UInt32 := (x >>> n) ||| (x <<< (32 - n))

def initial : Words :=
  #[0x6a09e667, 0xbb67ae85, 0x3c6ef372, 0xa54ff53a, 0x510e527f, 0x9b05688c, 0x1f83d9ab, 0x5be0cd19]

/-- the order in which a round leaves the words of the block for the next one -/
def permutation : List Nat := [2, 6, 3, 10, 7, 0, 4, 13, 1, 11, 12, 5, 9, 14, 15, 8]

/-- the four words of the state that each step of a round mixes: first the columns, then the
diagonals -/
def quarters : List (Nat × Nat × Nat × Nat) :=
  [ (0, 4, 8, 12), (1, 5, 9, 13), (2, 6, 10, 14), (3, 7, 11, 15),
    (0, 5, 10, 15), (1, 6, 11, 12), (2, 7, 8, 13), (3, 4, 9, 14) ]

def mix (s : Words) (q : Nat × Nat × Nat × Nat) (x y : UInt32) : Words :=
  let (ia, ib, ic, id) := q
  let a := word s ia + word s ib + x
  let d := rotate (word s id ^^^ a) 16
  let c := word s ic + d
  let b := rotate (word s ib ^^^ c) 12
  let a := a + b + y
  let d := rotate (d ^^^ a) 8
  let c := c + d
  let b := rotate (b ^^^ c) 7
  (((s.setIfInBounds ia a).setIfInBounds ib b).setIfInBounds ic c).setIfInBounds id d

def round (s block : Words) : Words :=
  quarters.zipIdx.foldl (fun s (q, i) => mix s q (word block (2 * i)) (word block (2 * i + 1))) s

/-- the words of a block in the order of the next round -/
def permute (block : Words) : Words := (permutation.map (word block)).toArray

def rounds : Nat → Words → Words → Words
  | 0, s, _ => s
  | n + 1, s, block => rounds n (round s block) (permute block)

/-- a compression that is not carried out yet -/
structure Pending where
  chaining : Words
  block : Words
  counter : Nat
  length : Nat
  flags : UInt32

/-- marks of the first and the last block of a chunk, of an inner node, and of the last
compression -/
def chunkStart : UInt32 := 1
def chunkEnd : UInt32 := 2
def parentMark : UInt32 := 4
def rootMark : UInt32 := 8

/-- carry a compression out with further marks: the eight words of its outcome -/
def compress (p : Pending) (marks : UInt32) : Words :=
  let s := p.chaining ++ (initial.take 4) ++
    #[UInt32.ofNat p.counter, UInt32.ofNat (p.counter / Nat.pow 2 32), UInt32.ofNat p.length,
      p.flags ||| marks]
  let s := rounds 7 s p.block
  ((List.range 8).map fun i => word s i ^^^ word s (i + 8)).toArray

/-- bytes as little-endian words, filled up with zeros -/
def wordsOf : List UInt8 → List UInt32
  | a :: b :: c :: d :: rest =>
    (a.toUInt32 ||| (b.toUInt32 <<< 8) ||| (c.toUInt32 <<< 16) ||| (d.toUInt32 <<< 24)) ::
      wordsOf rest
  | [] => []
  | [a] => [a.toUInt32]
  | [a, b] => [a.toUInt32 ||| (b.toUInt32 <<< 8)]
  | [a, b, c] => [a.toUInt32 ||| (b.toUInt32 <<< 8) ||| (c.toUInt32 <<< 16)]

/-- a list cut into pieces of a size, at least one; `fuel` bounds their number -/
def pieces {α : Type} (size : Nat) : (fuel : Nat) → List α → List (List α)
  | 0, xs => [xs]
  | fuel + 1, xs =>
    if xs.length ≤ size then [xs] else xs.take size :: pieces size fuel (xs.drop size)

/-- the blocks of a chunk, one after the other; the last one stays pending -/
def blocks (counter : Nat) (chaining : Words) (start : UInt32) : List (List UInt8) → Pending
  | [] => ⟨chaining, #[], counter, 0, start ||| chunkEnd⟩
  | [block] => ⟨chaining, (wordsOf block).toArray, counter, block.length, start ||| chunkEnd⟩
  | block :: rest =>
    let p : Pending := ⟨chaining, (wordsOf block).toArray, counter, block.length, start⟩
    blocks counter (compress p 0) 0 rest

/-- a leaf of the tree -/
def chunk (counter : Nat) (bytes : List UInt8) : Pending :=
  blocks counter initial chunkStart (pieces 64 16 bytes)

/-- an inner node of the tree -/
def parent (left right : Words) : Pending :=
  ⟨initial, left ++ right, 0, 64, parentMark⟩

/-- add the `count`th complete chunk to the stack of complete subtrees, largest last: two subtrees
of equal size become one -/
def push (value : Words) : (count : Nat) → List Words → List Words
  | _, [] => [value]
  | count, top :: rest =>
    if count % 2 = 0 then push (compress (parent top value) 0) (count / 2) rest
    else value :: top :: rest

/-- close the tree: join what is pending with every complete subtree -/
def close : Pending → List Words → Pending
  | p, [] => p
  | p, top :: rest => close (parent top (compress p 0)) rest

/-- the chunks in order, the last one pending, over the stack of complete subtrees -/
def chunks (counter : Nat) (stack : List Words) : List (List UInt8) → Pending
  | [] => close (chunk counter []) stack
  | [last] => close (chunk counter last) stack
  | c :: rest => chunks (counter + 1) (push (compress (chunk counter c) 0) (counter + 1) stack) rest

/-- the bytes of a word, lowest first -/
def bytesOf (w : UInt32) : List UInt8 :=
  [w.toUInt8, (w >>> 8).toUInt8, (w >>> 16).toUInt8, (w >>> 24).toUInt8]

def hash (message : List UInt8) : List UInt8 :=
  let root := chunks 0 [] (pieces 1024 message.length message)
  (compress root rootMark).toList.flatMap bytesOf

end ServiceGraph.Blake3
