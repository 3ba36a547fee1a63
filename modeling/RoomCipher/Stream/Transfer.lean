import RoomCipher.Stream.Channel
import RoomCipher.Stream.Incremental

/-! Encrypting and decrypting from a reader to a writer, and from file to file. The
input is read a buffer at a time and each piece is written out before the next one
is read, so a fault in the middle leaves the writer with what was ready until then. -/

namespace RoomCipher

/-- What came of a transfer: the writer afterwards, and the number of bytes written or the reason
why it ended early. -/
structure Transfer where
  writer : Writer
  result : Except Error Nat

namespace Transfer

/-- Runs the input through `update`, a piece of at most `limit` bytes at a time. -/
def pump {S : Type} (update : S → Bytes → S × Except Error Bytes) (limit : Nat) (state : S)
    (writer : Writer) (written : Nat) (reader : Reader) : S × Transfer :=
  match _ : reader.readSome limit with
  | (.error fault, _) => (state, ⟨writer, .error (.io fault)⟩)
  | (.ok [], _) => (state, ⟨writer, .ok written⟩)
  | (.ok (b :: bs), rest) =>
    match update state (b :: bs) with
    | (state, .error e) => (state, ⟨writer, .error e⟩)
    | (state, .ok out) =>
      match writer.writeAll out with
      | (writer, .error fault) => (state, ⟨writer, .error (.io fault)⟩)
      | (writer, .ok ()) => pump update limit state writer (written + out.length) rest
termination_by reader.size
decreasing_by exact Reader.size_readSome_lt (by assumption) (by simp)

/-- Writes the last piece, unless the transfer or the piece has failed, and flushes the writer. -/
def finish (transfer : Transfer) (last : Except Error Bytes) : Transfer :=
  match transfer.result, last with
  | .error _, _ => transfer
  | .ok _, .error e => { transfer with result := .error e }
  | .ok written, .ok tail =>
    match transfer.writer.writeAll tail with
    | (writer, .error fault) => ⟨writer, .error (.io fault)⟩
    | (writer, .ok ()) =>
      match writer.flush with
      | .error fault => ⟨writer, .error (.io fault)⟩
      | .ok () => ⟨writer, .ok (written + tail.length)⟩

end Transfer

/-- What came of a transfer between files: its outcome, and the contents of the output file if
there is one afterwards. -/
structure FileTransfer where
  result : Except Error Unit
  output : Option Bytes

namespace FileTransfer

/-- The fault of a path that leads nowhere. -/
def noSuchFile : IoFault := ⟨.notFound, "No such file or directory (os error 2)"⟩

/-- A transfer from a file, which may not exist, to a new file, which may be impossible to make.
The input is opened first. -/
def between (input : Option Bytes) (creatable : Bool) (run : Reader → Writer → Transfer) :
    FileTransfer :=
  match input with
  | none => ⟨.error (.io noSuchFile), none⟩
  | some contents =>
    if creatable then
      let transfer := run [.bytes contents] Writer.unlimited
      ⟨transfer.result.map fun _ => (), some transfer.writer.received⟩
    else ⟨.error (.io noSuchFile), none⟩

end FileTransfer

namespace Context

variable {C : Type}

/-- The length of the buffer of a stream, a 64-bit count that wraps around. -/
def streamBuffer (context : Context C) : Nat :=
  context.config.streamBlocks * context.blockSize % UInt64.size

variable [BlockCipher C]

/-- Encrypts all that a reader produces into a writer. Nothing is read before there is a buffer. -/
def encryptStream (context : Context C) (reader : Reader) (writer : Writer) (source : Entropy) :
    Transfer :=
  match Encryptor.start context source, Bytes.checkRoom context.streamBuffer with
  | .error e, _ => ⟨writer, .error e⟩
  | .ok _, .error e => ⟨writer, .error e⟩
  | .ok (state, source), .ok () =>
    let (state, transfer) :=
      Transfer.pump Encryptor.update context.streamBuffer state writer 0 reader
    transfer.finish ((state.finalize source).map (·.1))

/-- Decrypts all that a reader produces into a writer. Nothing is read before there is a buffer. -/
def decryptStream (context : Context C) (reader : Reader) (writer : Writer) : Transfer :=
  match Bytes.checkRoom context.streamBuffer with
  | .error e => ⟨writer, .error e⟩
  | .ok () =>
    let (state, transfer) := Transfer.pump Decryptor.update context.streamBuffer
      (Decryptor.start context) writer 0 reader
    transfer.finish state.finalize

def encryptFile (context : Context C) (input : Option Bytes) (creatable : Bool)
    (source : Entropy) : FileTransfer :=
  FileTransfer.between input creatable fun reader writer =>
    context.encryptStream reader writer source

def decryptFile (context : Context C) (input : Option Bytes) (creatable : Bool) : FileTransfer :=
  FileTransfer.between input creatable context.decryptStream

/-- Encryption from file to file as a task of its own. -/
def encryptFileTask (context : Context C) (input : Option Bytes) (creatable : Bool)
    (source : Entropy) : Task FileTransfer :=
  Task.spawn fun _ => context.encryptFile input creatable source

/-- Decryption from file to file as a task of its own. -/
def decryptFileTask (context : Context C) (input : Option Bytes) (creatable : Bool) :
    Task FileTransfer :=
  Task.spawn fun _ => context.decryptFile input creatable

end Context

end RoomCipher
