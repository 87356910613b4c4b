import RingOverlay.Bytes.BigEndian
/-!
The hash that turns seed material into ring positions: a binary tree over chunks of 1024 bytes,
each of which is compressed block by block.
-/

set_option autoImplicit false
set_option relaxedAutoImplicit false

namespace RingOverlay.Blake3

def start : List UInt32 :=
  [0x6a09e667, 0xbb67ae85, 0x3c6ef372, 0xa54ff53a, 0x510e527f, 0x9b05688c, 0x1f83d9ab, 0x5be0cd19]

def wordOrder : List Nat := [2, 6, 3, 10, 7, 0, 4, 13, 1, 11, 12, 5, 9, 14, 15, 8]

def chunkLength : Nat := 1024

def blockLength : Nat := 64

def chunkStart : UInt32 := 1

def chunkEnd : UInt32 := 2

def parent : UInt32 := 4

def root : UInt32 := 8

def rotate (x : UInt32) (n : UInt32) : UInt32 := (x >>> n) ||| (x <<< (32 - n))

/-- Mixes two words of a block into four words of the state. -/
def mix (v : Array UInt32) (a b c d : Nat) (x y : UInt32) : Array UInt32 :=
  let va := v.getD a 0 + v.getD b 0 + x
  let vd := rotate (v.getD d 0 ^^^ va) 16
  let vc := v.getD c 0 + vd
  let vb := rotate (v.getD b 0 ^^^ vc) 12
  let va := va + vb + y
  let vd := rotate (vd ^^^ va) 8
  let vc := vc + vd
  let vb := rotate (vb ^^^ vc) 7
  (((v.setIfInBounds a va).setIfInBounds b vb).setIfInBounds c vc).setIfInBounds d vd

def quadruples : List (Nat × Nat × Nat × Nat) :=
  [(0, 4, 8, 12), (1, 5, 9, 13), (2, 6, 10, 14), (3, 7, 11, 15),
   (0, 5, 10, 15), (1, 6, 11, 12), (2, 7, 8, 13), (3, 4, 9, 14)]

def mixRound (block : List UInt32) (v : Array UInt32) : Array UInt32 :=
  (quadruples.zipIdx).foldl
    (fun v (q, i) => mix v q.1 q.2.1 q.2.2.1 q.2.2.2 (block.getD (2 * i) 0) (block.getD (2 * i + 1) 0)) v

def mixRounds : (n : Nat) → (block : List UInt32) → Array UInt32 → Array UInt32
  | 0, _, v => v
  | n + 1, block, v => mixRounds n (wordOrder.map fun i => block.getD i 0) (mixRound block v)

structure Node where
  chaining : List UInt32
  block : List UInt32
  counter : Nat
  length : Nat
  flags : UInt32

def Node.compress (n : Node) (extra : UInt32) : List UInt32 :=
  let tail := start.take 4 ++
    [UInt32.ofNat n.counter, UInt32.ofNat (n.counter >>> 32), UInt32.ofNat n.length, n.flags ||| extra]
  let v := (mixRounds 7 n.block (n.chaining ++ tail).toArray).toList
  List.zipWith (· ^^^ ·) (v.take 8) (v.drop 8)

/-- The word that up to four bytes spell, the first being the least significant. -/
def word (bs : Bytes) : UInt32 := UInt32.ofNat (BigEndian.value bs.reverse)

def wordBytes (w : UInt32) : Bytes := (BigEndian.digits 4 w.toNat).reverse

/-- The pieces of a list of the given positive length; the last one may be shorter. -/
def pieces {α : Type} (length : Nat) (xs : List α) : List (List α) :=
  (List.range ((xs.length + length - 1) / length)).map fun i => (xs.drop (i * length)).take length

def blockWords (bs : Bytes) : List UInt32 :=
  (List.range 16).map fun i => word ((bs.drop (4 * i)).take 4)

/-- Absorbs the blocks of a chunk in order; the last one stays to be compressed. -/
def absorb (counter : Nat) (chaining : List UInt32) (flags : UInt32) : List Bytes → Node
  | [] => ⟨chaining, blockWords [], counter, 0, flags ||| chunkEnd⟩
  | [b] => ⟨chaining, blockWords b, counter, b.length, flags ||| chunkEnd⟩
  | b :: rest =>
    absorb counter (Node.compress ⟨chaining, blockWords b, counter, b.length, flags⟩ 0) 0 rest

def chunkNode (counter : Nat) (chunk : Bytes) : Node :=
  absorb counter start chunkStart (pieces blockLength chunk)

/-- The node over a run of chunks, the first of which has the given number. The left subtree takes
the largest power of two that leaves something for the right one. -/
def treeNode (first : Nat) (chunks : List Bytes) : Node :=
  if _h : chunks.length ≤ 1 then chunkNode first (chunks.headD [])
  else
    let split := min (1 <<< (chunks.length - 1).log2) (chunks.length - 1)
    let left := treeNode first (chunks.take split)
    let right := treeNode (first + split) (chunks.drop split)
    ⟨start, left.compress 0 ++ right.compress 0, 0, blockLength, parent⟩
termination_by chunks.length
decreasing_by
  all_goals
    have : 0 < 1 <<< (chunks.length - 1).log2 := by
      rw [Nat.one_shiftLeft]
      exact Nat.two_pow_pos _
    simp only [List.length_take, List.length_drop]
    omega

def hash (bs : Bytes) : Bytes :=
  ((treeNode 0 (pieces chunkLength bs)).compress root).flatMap wordBytes

end RingOverlay.Blake3
