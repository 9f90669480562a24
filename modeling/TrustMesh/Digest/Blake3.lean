/-!
# BLAKE3

The unkeyed BLAKE3 hash with 32 bytes of output. The input is cut into chunks of
1024 bytes; a chunk is compressed block by block, and chunks are joined in a binary
tree whose left subtrees are complete. `Blake3.hash` is the compression of the root.
-/

namespace TrustMesh.Blake3

/-- Cut a list into pieces of `size` elements, the last one possibly shorter; an empty list is one
empty piece. -/
def pieces {α : Type} (size : Nat) (elements : List α) : List (List α) :=
  if 0 < size ∧ size < elements.length then
    elements.take size :: pieces size (elements.drop size)
  else [elements]
termination_by elements.length
decreasing_by simp only [List.length_drop]; omega

/-- Eight words that a block is compressed with. -/
abbrev Chain := Vector UInt32 8

/-- The sixteen words of a block. -/
abbrev Block := Vector UInt32 16

/-- The chaining value that every chunk starts from. -/
def start : Chain :=
  #v[0x6A09E667, 0xBB67AE85, 0x3C6EF372, 0xA54FF53A, 0x510E527F, 0x9B05688C, 0x1F83D9AB, 0x5BE0CD19]

/-- Where each word of a block comes from in the next round. -/
def permutation : Vector (Fin 16) 16 := #v[2, 6, 3, 10, 7, 0, 4, 13, 1, 11, 12, 5, 9, 14, 15, 8]

/-- The first block of a chunk. -/
def chunkStart : UInt32 := 1
/-- The last block of a chunk. -/
def chunkEnd : UInt32 := 2
/-- A block of two chaining values. -/
def parentBlock : UInt32 := 4
/-- The compression that yields the output. -/
def rootBlock : UInt32 := 8

/-- Rotate a word to the right. -/
def rotateRight (x : UInt32) (amount : UInt32) : UInt32 := (x >>> amount) ||| (x <<< (32 - amount))

/-- Mix two message words into four words of the state. -/
def mix (s : Block) (a b c d : Fin 16) (x y : UInt32) : Block :=
  let s := s.set a (s[a] + s[b] + x)
  let s := s.set d (rotateRight (s[d] ^^^ s[a]) 16)
  let s := s.set c (s[c] + s[d])
  let s := s.set b (rotateRight (s[b] ^^^ s[c]) 12)
  let s := s.set a (s[a] + s[b] + y)
  let s := s.set d (rotateRight (s[d] ^^^ s[a]) 8)
  let s := s.set c (s[c] + s[d])
  s.set b (rotateRight (s[b] ^^^ s[c]) 7)

/-- One round: the columns of the state, then its diagonals. -/
def round (s m : Block) : Block :=
  let s := mix s 0 4 8 12 m[0] m[1]
  let s := mix s 1 5 9 13 m[2] m[3]
  let s := mix s 2 6 10 14 m[4] m[5]
  let s := mix s 3 7 11 15 m[6] m[7]
  let s := mix s 0 5 10 15 m[8] m[9]
  let s := mix s 1 6 11 12 m[10] m[11]
  let s := mix s 2 7 8 13 m[12] m[13]
  mix s 3 4 9 14 m[14] m[15]

/-- The message words of the next round. -/
def permute (m : Block) : Block := permutation.map fun i => m[i]

/-- The rounds that remain, with the message words of the next one. -/
def rounds : Nat → Block → Block → Block
  | 0, s, _ => s
  | left + 1, s, m => rounds left (round s m) (permute m)

/-- A compression that has not been carried out. -/
structure Node where
  chain : Chain
  block : Block
  counter : UInt64
  length : UInt32
  flags : UInt32

/-- The first half of the compressed state. -/
def Node.compress (n : Node) (extraFlags : UInt32) : Chain :=
  let s : Block := #v[n.chain[0], n.chain[1], n.chain[2], n.chain[3], n.chain[4], n.chain[5],
    n.chain[6], n.chain[7], start[0], start[1], start[2], start[3], n.counter.toUInt32,
    (n.counter >>> 32).toUInt32, n.length, n.flags ||| extraFlags]
  let s := rounds 7 s n.block
  #v[s[0] ^^^ s[8], s[1] ^^^ s[9], s[2] ^^^ s[10], s[3] ^^^ s[11], s[4] ^^^ s[12],
    s[5] ^^^ s[13], s[6] ^^^ s[14], s[7] ^^^ s[15]]

/-- The chaining value of a node that is not the root. -/
def Node.value (n : Node) : Chain := n.compress 0

/-- A word of four bytes, the least significant first. -/
def wordOf (bytes : List UInt8) : UInt32 :=
  bytes.foldr (fun byte word => (word <<< 8) ||| byte.toUInt32) 0

/-- The sixteen words of at most 64 bytes, padded with zeros. -/
def blockOf (bytes : List UInt8) : Block :=
  Vector.ofFn fun i => wordOf ((bytes.drop (4 * i)).take 4)

/-- The node of the blocks of a chunk that follow the chaining value `chain`. -/
def blocksNode (counter : UInt64) (chain : Chain) (flags : UInt32) : List (List UInt8) → Node
  | [] => ⟨chain, blockOf [], counter, 0, flags ||| chunkEnd⟩
  | [last] => ⟨chain, blockOf last, counter, last.length.toUInt32, flags ||| chunkEnd⟩
  | block :: rest =>
    blocksNode counter (Node.value ⟨chain, blockOf block, counter, 64, flags⟩) 0 rest

/-- The node of one chunk. -/
def chunkNode (counter : Nat) (bytes : List UInt8) : Node :=
  blocksNode counter.toUInt64 start chunkStart (pieces 64 bytes)

/-- The node above two subtrees. -/
def parentNode (left right : Chain) : Node :=
  ⟨start, #v[left[0], left[1], left[2], left[3], left[4], left[5], left[6], left[7], right[0],
    right[1], right[2], right[3], right[4], right[5], right[6], right[7]], 0, 64, parentBlock⟩

/-- How many of `count` chunks the left subtree holds: the greatest power of two below `count`. -/
def leftCount (count : Nat) : Nat := Nat.pow 2 (count - 1).log2

/-- The left subtree of two chunks or more is neither empty nor everything. -/
theorem leftCount_bounds {count : Nat} (many : 2 ≤ count) :
    0 < leftCount count ∧ leftCount count < count := by
  refine ⟨Nat.two_pow_pos _, ?_⟩
  have bound : leftCount count ≤ count - 1 := Nat.log2_self_le (by omega)
  omega

/-- The node of a list of chunks, the first of which has the number `first`. -/
def treeNode (first : Nat) (chunks : List (List UInt8)) : Node :=
  if _ : 2 ≤ chunks.length then
    let left := leftCount chunks.length
    parentNode (treeNode first (chunks.take left)).value
      (treeNode (first + left) (chunks.drop left)).value
  else chunkNode first (chunks.headD [])
termination_by chunks.length
decreasing_by
  all_goals
    have := leftCount_bounds ‹2 ≤ chunks.length›
    simp only [List.length_take, List.length_drop]
    omega

/-- The four bytes of a word, the least significant first. -/
def bytesOf (word : UInt32) : List UInt8 :=
  [word.toUInt8, (word >>> 8).toUInt8, (word >>> 16).toUInt8, (word >>> 24).toUInt8]

/-- The hash of a list of bytes. -/
def hash (bytes : List UInt8) : List UInt8 :=
  ((treeNode 0 (pieces 1024 bytes)).compress rootBlock).toList.flatMap bytesOf

/-- A hash has 32 bytes. -/
theorem length_hash (bytes : List UInt8) : (hash bytes).length = 32 := by
  simp [hash, bytesOf, List.length_flatMap, List.map_const']

end TrustMesh.Blake3
