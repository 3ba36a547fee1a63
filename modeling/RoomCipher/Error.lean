/-! The ways an operation of this library can fail. Each layer has its own type
of causes; `Error` gathers them, `Error.message` is the one place that words
them, and `Error.toIoFault` is how a failure looks to a reader or writer that
only knows about input and output. -/

namespace RoomCipher

/-- Kinds of input/output fault, as a reader or a writer reports them. -/
inductive IoKind where
  | notFound
  | permissionDenied
  | connectionRefused
  | connectionReset
  | connectionAborted
  | notConnected
  | addrInUse
  | addrNotAvailable
  | brokenPipe
  | alreadyExists
  | wouldBlock
  | invalidInput
  | invalidData
  | timedOut
  | writeZero
  | interrupted
  | unsupported
  | unexpectedEof
  | outOfMemory
  | other
  deriving DecidableEq

namespace IoKind

def all : List IoKind :=
  [notFound, permissionDenied, connectionRefused, connectionReset, connectionAborted, notConnected,
    addrInUse, addrNotAvailable, brokenPipe, alreadyExists, wouldBlock, invalidInput, invalidData,
    timedOut, writeZero, interrupted, unsupported, unexpectedEof, outOfMemory, other]

def name : IoKind → String
  | notFound => "NotFound"
  | permissionDenied => "PermissionDenied"
  | connectionRefused => "ConnectionRefused"
  | connectionReset => "ConnectionReset"
  | connectionAborted => "ConnectionAborted"
  | notConnected => "NotConnected"
  | addrInUse => "AddrInUse"
  | addrNotAvailable => "AddrNotAvailable"
  | brokenPipe => "BrokenPipe"
  | alreadyExists => "AlreadyExists"
  | wouldBlock => "WouldBlock"
  | invalidInput => "InvalidInput"
  | invalidData => "InvalidData"
  | timedOut => "TimedOut"
  | writeZero => "WriteZero"
  | interrupted => "Interrupted"
  | unsupported => "Unsupported"
  | unexpectedEof => "UnexpectedEof"
  | outOfMemory => "OutOfMemory"
  | other => "Other"

end IoKind

/-- A fault reported by a reader or a writer. -/
structure IoFault where
  kind : IoKind
  text : String
  deriving DecidableEq

/-- Settings that do not fit together. -/
inductive ConfigError where
  /-- A key of `bytes` bytes is of no size a context takes. -/
  | keySize (bytes : Nat)
  | ivSize (expected actual : Nat)
  /-- The cipher works on blocks of `cipher` bytes, the settings say `declared`. -/
  | blockSizeMismatch (cipher declared : Nat)
  | unknownMode (tag : String)
  | unknownPadding (tag : String)
  | unknownAlgorithm (tag : String)
  | wordSize (bits : Nat)
  | parameter (reason : String)
  deriving DecidableEq

/-- Operands that a cipher or a byte operation refuses. -/
inductive CryptoError where
  | keyLength (expected actual : Nat)
  | emptyKey
  | blockLength (expected actual : Nat)
  | keyNotSet
  | lengthMismatch (left right : Nat)
  deriving DecidableEq

/-- Padding that cannot be written or is not there. -/
inductive PaddingError where
  | empty
  | invalidLength (length : Nat)
  | mismatch
  | tooLong (length : Nat)
  deriving DecidableEq

/-- Key agreement that cannot go on. -/
inductive ExchangeError where
  | primeSize (bits : Nat)
  | modulus
  | publicKey
  | encoding (reason : String)
  deriving DecidableEq

/-- Why an operation gave up without an error of its own: its caller broke a
promise, or a block function did not come back. -/
inductive Abort where
  | zeroBlockSize
  | zeroModulus
  /-- More bytes were asked for than one buffer can hold. -/
  | oversize
  | blockFunction
  /-- A round asked for a round key, and there are none. -/
  | emptySchedule
  /-- A number was to be written into fewer bytes than it has. -/
  | wideNumber
  deriving DecidableEq

inductive Error where
  | io (fault : IoFault)
  | config (cause : ConfigError)
  | crypto (cause : CryptoError)
  | padding (cause : PaddingError)
  | exchange (cause : ExchangeError)
  | data (reason : String)
  /-- The work on one block of a message failed. -/
  | worker (block : Nat) (source : Error)
  | entropy (reason : String)
  | state (expected actual : String)
  | internal (reason : String)
  | aborted (cause : Abort)
  deriving DecidableEq

def ConfigError.message : ConfigError → String
  | .keySize bytes => s!"key size is invalid: {bytes} bytes"
  | .ivSize expected actual => s!"invalid IV size: expected {expected}, got {actual}"
  | .blockSizeMismatch cipher declared =>
    s!"block size mismatch: cipher uses {cipher} bytes, context declared {declared}"
  | .unknownMode tag => s!"unsupported cipher mode: {tag}"
  | .unknownPadding tag => s!"unsupported padding mode: {tag}"
  | .unknownAlgorithm tag => s!"unsupported algorithm: {tag}"
  | .wordSize bits => s!"unsupported word size: {bits} bits"
  | .parameter reason => s!"invalid parameter: {reason}"

def CryptoError.message : CryptoError → String
  | .keyLength expected actual => s!"key size must be {expected} bytes, got {actual}"
  | .emptyKey => "key cannot be empty"
  | .blockLength expected actual => s!"block size must be {expected} bytes, got {actual}"
  | .keyNotSet => "cipher key not set"
  | .lengthMismatch left right => s!"operands must have the same length: {left} != {right}"

def PaddingError.message : PaddingError → String
  | .empty => "data is empty"
  | .invalidLength length => s!"invalid padding length: {length}"
  | .mismatch => "invalid PKCS7 padding"
  | .tooLong length => s!"padding length {length} must be between 1 and 255"

def ExchangeError.message : ExchangeError → String
  | .primeSize bits => s!"prime size must be at least 2 bits, got {bits}"
  | .modulus => "invalid modulus"
  | .publicKey => "invalid public key"
  | .encoding reason => s!"invalid hex encoding: {reason}"

def Abort.message : Abort → String
  | .zeroBlockSize => "a block size of zero has no blocks"
  | .zeroModulus => "a modulus of zero has no residues"
  | .oversize => "no buffer holds that many bytes"
  | .blockFunction => "the block function gave up"
  | .emptySchedule => "a schedule of no round keys has none for any round"
  | .wideNumber => "the number does not fit its bytes"

namespace Error

/-- What a user is told. -/
def message : Error → String
  | .io fault => s!"IO error: {fault.text}"
  | .config cause => s!"Invalid configuration: {cause.message}"
  | .crypto cause => s!"Cryptographic operation failed: {cause.message}"
  | .padding cause => s!"Padding error: {cause.message}"
  | .exchange cause => s!"Key exchange failed: {cause.message}"
  | .data reason => s!"Invalid data: {reason}"
  | .worker block source => s!"Worker failed at block {block}: {source.message}"
  | .entropy reason => s!"Entropy source failure: {reason}"
  | .state expected actual =>
    s!"Session not in correct state: expected {expected}, but was {actual}"
  | .internal reason => s!"Internal error: {reason}"
  | .aborted cause => s!"Operation aborted: {cause.message}"

/-- The text of the failure behind this one, where one layer wraps another. -/
def cause? : Error → Option String
  | .io fault => some fault.text
  | .config cause => some cause.message
  | .crypto cause => some cause.message
  | .padding cause => some cause.message
  | .exchange cause => some cause.message
  | .worker _ source => some source.message
  | _ => none

/-- The failure as a reader or a writer would report it. -/
def toIoFault : Error → IoFault
  | .io fault => fault
  | .config cause => ⟨.invalidInput, cause.message⟩
  | .crypto cause => ⟨.invalidData, cause.message⟩
  | .padding cause => ⟨.invalidData, cause.message⟩
  | .exchange cause => ⟨.invalidInput, cause.message⟩
  | .data reason => ⟨.invalidData, reason⟩
  | .worker block source => ⟨.other, (Error.worker block source).message⟩
  | .entropy reason => ⟨.other, reason⟩
  | .state expected actual =>
    ⟨.notConnected, s!"Invalid state: expected {expected}, but was {actual}"⟩
  | .internal reason => ⟨.other, reason⟩
  | .aborted cause => ⟨.other, cause.message⟩

end Error

end RoomCipher
