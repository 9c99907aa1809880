import HeapAtlas.Bytes

/-! The BLAKE3 hash: chunks of 1024 bytes under a binary tree of chaining values. -/

namespace HeapAtlas.Blake3

/-- Eight words that carry the hash from block to block and from child to parent. -/
abbrev Chain := Vector UInt32 8

/-- The sixteen words of a block, or of the state while a block is mixed in. -/
abbrev Block := Vector UInt32 16

/-- The words that the hash starts from. -/
def initial : Chain :=
  #v[0x6A09E667, 0xBB67AE85, 0x3C6EF372, 0xA54FF53A, 0x510E527F, 0x9B05688C, 0x1F83D9AB,
    0x5BE0CD19]

/-- Marks the first block of a chunk. -/
def chunkStart : UInt32 := 1

/-- Marks the last block of a chunk. -/
def chunkEnd : UInt32 := 2

/-- Marks a block that holds two children. -/
def parentFlag : UInt32 := 4

/-- Marks the block that gives the digest. -/
def rootFlag : UInt32 := 8

/-- Rotates a word to the right. -/
def rotateRight (word count : UInt32) : UInt32 := (word >>> count) ||| (word <<< (32 - count))

/-- Mixes two message words into four words of the state. -/
def mix (state : Block) (a b c d : Fin 16) (x y : UInt32) : Block :=
  -- The first message word, with the wide rotations.
  let state := state.set a (state[a] + state[b] + x)
  let state := state.set d (rotateRight (state[d] ^^^ state[a]) 16)
  let state := state.set c (state[c] + state[d])
  let state := state.set b (rotateRight (state[b] ^^^ state[c]) 12)
  -- The second message word, with the narrow ones.
  let state := state.set a (state[a] + state[b] + y)
  let state := state.set d (rotateRight (state[d] ^^^ state[a]) 8)
  let state := state.set c (state[c] + state[d])
  state.set b (rotateRight (state[b] ^^^ state[c]) 7)

/-- Mixes the columns of the state and then its diagonals. -/
def round (state message : Block) : Block :=
  -- The columns.
  let state := mix state 0 4 8 12 message[0] message[1]
  let state := mix state 1 5 9 13 message[2] message[3]
  let state := mix state 2 6 10 14 message[4] message[5]
  let state := mix state 3 7 11 15 message[6] message[7]
  -- The diagonals.
  let state := mix state 0 5 10 15 message[8] message[9]
  let state := mix state 1 6 11 12 message[10] message[11]
  let state := mix state 2 7 8 13 message[12] message[13]
  mix state 3 4 9 14 message[14] message[15]

/-- The order in which the next round takes the message words. -/
def permute (message : Block) : Block :=
  #v[message[2], message[6], message[3], message[10], message[7], message[0], message[4],
    message[13], message[1], message[11], message[12], message[5], message[9], message[14],
    message[15], message[8]]

/-- A number of rounds, with the message permuted between them. -/
def rounds : Nat → Block → Block → Block
  | 0, state, _ => state
  | count + 1, state, message => rounds count (round state message) (permute message)

/-- Mixes a block into a chaining value. -/
def compress (chain : Chain) (message : Block) (counter : Nat) (length flags : UInt32) : Chain :=
  -- The counter takes two words, and the number of bytes and the flags one each.
  let state : Block :=
    #v[chain[0], chain[1], chain[2], chain[3], chain[4], chain[5], chain[6], chain[7],
      initial[0], initial[1], initial[2], initial[3], UInt32.ofNat counter,
      UInt32.ofNat (counter >>> 32), length, flags]
  let mixed := rounds 7 state message
  Vector.ofFn fun i => mixed[i.val] ^^^ mixed[i.val + 8]

/-- The message words of at most 64 bytes, filled up with zeros. -/
def blockOf (bytes : Bytes) : Block :=
  Vector.ofFn fun i => bytes.word32 (4 * i.val)

/-- What is left to compress once it is known whether the node is the root. -/
structure Node where
  chain : Chain
  message : Block
  counter : Nat
  length : UInt32
  flags : UInt32

/-- The chaining value that a node hands to its parent. -/
def Node.value (node : Node) : Chain :=
  compress node.chain node.message node.counter node.length node.flags

/-- The chaining value of a node that is the root. -/
def Node.rootValue (node : Node) : Chain :=
  compress node.chain node.message 0 node.length (node.flags ||| rootFlag)

/-- The node of a chunk, from a chaining value on, with at most `blocks` blocks to come. -/
def chunkFrom (counter : Nat) : (blocks : Nat) → Chain → (flags : UInt32) → Bytes → Node
  | 0, chain, flags, bytes =>
    ⟨chain, blockOf bytes, counter, UInt32.ofNat bytes.length, flags ||| chunkEnd⟩
  | blocks + 1, chain, flags, bytes =>
    -- The last block is kept back, as only the root is compressed with its flag.
    if bytes.length ≤ 64 then
      ⟨chain, blockOf bytes, counter, UInt32.ofNat bytes.length, flags ||| chunkEnd⟩
    else
      let chain := compress chain (blockOf (bytes.take 64)) counter 64 flags
      -- Only the first block bears the flags of the beginning.
      chunkFrom counter blocks chain 0 (bytes.drop 64)

/-- The node of the chunk with the given number. -/
def chunkNode (counter : Nat) (bytes : Bytes) : Node :=
  chunkFrom counter 15 initial chunkStart bytes

/-- The node above two children. -/
def parentNode (left right : Chain) : Node :=
  ⟨initial, left ++ right, 0, 64, parentFlag⟩

/-- The nodes of the chunks from a number on, with at most `count` chunks behind the first. -/
def chunkNodes : (count : Nat) → (counter : Nat) → Bytes → List Node
  | 0, counter, bytes => [chunkNode counter bytes]
  | count + 1, counter, bytes =>
    -- A message that ends with a chunk has no empty chunk behind it.
    match bytes.drop 1024 with
    | [] => [chunkNode counter bytes]
    | rest => chunkNode counter (bytes.take 1024) :: chunkNodes count (counter + 1) rest

/-- Joins neighbours under parents; a last node without a neighbour moves up unchanged. -/
def pairUp : List Node → List Node
  | left :: right :: rest => parentNode left.value right.value :: pairUp rest
  | rest => rest

/-- Joins the nodes of a level until one is left, within `levels` levels. -/
def joined : (levels : Nat) → List Node → Option Node
  | 0, nodes => nodes.head?
  -- Every level has about half the nodes of the one below.
  | levels + 1, nodes => if nodes.length ≤ 1 then nodes.head? else joined levels (pairUp nodes)

/-- The root of the tree over all chunks of a message. -/
def root (bytes : Bytes) : Node :=
  let nodes := chunkNodes (bytes.length / 1024) 0 bytes
  (joined nodes.length nodes).getD (chunkNode 0 [])

/-- The 32 bytes of the digest of a message. -/
def digest (bytes : Bytes) : Bytes :=
  (root bytes).rootValue.toList.flatMap fun word => Bytes.ofNat 4 word.toNat

/-- A digest has 32 bytes. -/
@[simp] theorem length_digest (bytes : Bytes) : (digest bytes).length = 32 := by
  -- Eight words of four bytes each.
  simp [digest, List.length_flatMap, List.map_const']

end HeapAtlas.Blake3
