import RoomCipher.Bytes.Basic

/-! Readers and writers as data. A reader is the run of events it will produce; a
writer is what it has received and how much more it will take. Both may be slow,
stop half-way or fail, and what they do is decided before anybody uses them. -/

namespace RoomCipher

/-- Something that a reader produces: some bytes, or one fault. -/
inductive ReadEvent where
  | bytes (data : Bytes)
  | fault (fault : IoFault)
  deriving DecidableEq

/-- A reader that is at its end once its events are used up. -/
abbrev Reader := List ReadEvent

namespace Reader

/-- One read of at most `limit` bytes. What does not fit stays in front, and a read of no bytes
says that the input is over. -/
def read (limit : Nat) : Reader → Except IoFault Bytes × Reader
  | [] => (.ok [], [])
  | .fault fault :: rest => (.error fault, rest)
  | .bytes data :: rest =>
    if data.length ≤ limit then (.ok data, rest)
    else (.ok (data.take limit), .bytes (data.drop limit) :: rest)

/-- One read that is tried again as long as it is merely interrupted. -/
def readSome (limit : Nat) : Reader → Except IoFault Bytes × Reader
  | .fault fault :: rest =>
    if fault.kind = .interrupted then readSome limit rest else (.error fault, rest)
  | reader => reader.read limit

/-- How much a reader still has to give: its events and the bytes in them. -/
def size : Reader → Nat
  | [] => 0
  | .fault _ :: rest => 1 + size rest
  | .bytes data :: rest => 1 + data.length + size rest

theorem size_read_lt {limit : Nat} {reader rest : Reader} {data : Bytes}
    (answer : reader.read limit = (.ok data, rest)) (some : data ≠ []) :
    size rest < size reader := by
  match reader with
  | [] => simp_all [read]
  | .fault _ :: _ => simp [read] at answer
  | .bytes whole :: tail =>
    simp only [read] at answer
    split at answer
    · simp only [Prod.mk.injEq] at answer
      rw [← answer.2]
      simp only [size]
      omega
    · simp only [Prod.mk.injEq, Except.ok.injEq] at answer
      have positive : 0 < limit := by
        rcases Nat.eq_zero_or_pos limit with zero | positive
        · simp_all
        · exact positive
      rw [← answer.2]
      simp only [size, List.length_drop]
      omega

/-- A read that yields something leaves less to read. -/
theorem size_readSome_lt {limit : Nat} {reader rest : Reader} {data : Bytes}
    (answer : reader.readSome limit = (.ok data, rest)) (some : data ≠ []) :
    size rest < size reader := by
  induction reader with
  | nil => exact size_read_lt answer some
  | cons event tail ih =>
    cases event with
    | bytes whole => exact size_read_lt answer some
    | fault fault =>
      simp only [readSome] at answer
      split at answer
      · have := ih answer
        simp only [size]
        omega
      · simp at answer

end Reader

/-- A writer: what it has received, the room it has left if that is limited, the most it takes at
a time, and whether it fails when it is flushed. -/
structure Writer where
  received : Bytes
  room : Option Nat
  maxWrite : Option Nat
  failsFlush : Bool

namespace Writer

/-- A writer that takes everything. -/
def unlimited : Writer := ⟨[], none, none, false⟩

/-- The smaller of a number and a bound, if there is one. -/
def atMost (n : Nat) : Option Nat → Nat
  | none => n
  | some bound => min n bound

/-- One write: how many bytes, from the front of `data`, were taken. -/
def write (writer : Writer) (data : Bytes) : Writer × Except IoFault Nat :=
  if writer.room = some 0 then (writer, .error ⟨.brokenPipe, "writer full"⟩)
  else
    let count := atMost (atMost data.length writer.room) writer.maxWrite
    ({ writer with
        received := writer.received ++ data.take count
        room := writer.room.map (· - count) }, .ok count)

/-- Writes on until all of `data` is taken; a write that takes nothing counts as a fault. -/
def writeAll (writer : Writer) : (data : Bytes) → Writer × Except IoFault Unit
  | [] => (writer, .ok ())
  | b :: bs =>
    match writer.write (b :: bs) with
    | (writer, .error fault) => (writer, .error fault)
    | (writer, .ok 0) => (writer, .error ⟨.writeZero, "failed to write whole buffer"⟩)
    | (writer, .ok (count + 1)) => writer.writeAll (bs.drop count)
termination_by data => data.length
decreasing_by
  simp only [List.length_drop, List.length_cons]
  omega

def flush (writer : Writer) : Except IoFault Unit :=
  if writer.failsFlush then .error ⟨.other, "flush failed"⟩ else .ok ()

end Writer

end RoomCipher
