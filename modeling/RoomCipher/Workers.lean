import RoomCipher.Bytes.Blocks

/-! Sharing the blocks of a message among workers. The blocks are cut into runs of
one length, one to a worker, and every block is told its number in the whole
message, so the result does not depend on how many workers there are or which one
is done first. -/

namespace RoomCipher

namespace Workers

/-- Blocks that make a further worker worth its while. -/
def minBlocks : Nat := 64

/-- How many workers share `blocks` blocks when at most `limit` may. -/
def effective (blocks limit : Nat) : Nat :=
  min (max 1 ((blocks + minBlocks - 1) / minBlocks)) (max 1 limit)

/-- A block function: from a block's number and bytes to a block of the same length. -/
abbrev BlockFunction := Nat → Bytes → Except Error Bytes

/-- One call of a block function, which must return a block as long as the one it got. -/
def apply (f : BlockFunction) (number : Nat) (block : Bytes) : Except Error Bytes :=
  match f number block with
  | .error (.aborted cause) => .error (.aborted cause)
  | .error source => .error (.worker number source)
  | .ok out =>
    if out.length = block.length then .ok out
    else .error (.internal
      s!"block {number} produced {out.length} bytes, expected {block.length}")

/-- The blocks one after the other, the first one with number `first`; the first failure ends it. -/
def run (f : BlockFunction) : (first : Nat) → List Bytes → Except Error Bytes
  | _, [] => .ok []
  | first, block :: rest => do
    let out ← apply f first block
    let outs ← run f (first + 1) rest
    return out ++ outs

/-- What is left of a run that gave up, seen from outside its worker. -/
def contain (result : Except Error Bytes) : Except Error Bytes :=
  match result with
  | .error (.aborted _) => .error (.internal "block worker panicked")
  | result => result

/-- The results in order, or the first failure among them. -/
def gather : List (Except Error Bytes) → Except Error Bytes
  | [] => .ok []
  | result :: rest => do
    let out ← result
    let outs ← gather rest
    return out ++ outs

/-- Applies a block function to all blocks of `data`, shared among at most `limit` workers. Data
shorter than a block comes back as zeros; a single worker is the caller itself. -/
def processBlocks (data : Bytes) (blockSize limit : Nat) (f : BlockFunction) :
    Except Error Bytes :=
  if blockSize = 0 then .error (.aborted .zeroBlockSize)
  else
    let count := data.length / blockSize
    let workers := effective count limit
    let blocks := Bytes.pieces blockSize data
    if count = 0 then .ok (List.replicate data.length 0)
    else if workers = 1 then run f 0 blocks
    else
      let share := (count + workers - 1) / workers
      let tasks := (Bytes.pieces share blocks).mapIdx fun i part =>
        Task.spawn fun _ => contain (run f (i * share) part)
      gather (tasks.map Task.get)

end Workers

end RoomCipher
