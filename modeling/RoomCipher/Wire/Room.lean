import RoomCipher.Session.Basic
import RoomCipher.Wire.Value

/-! What the members of a room send each other: an invitation with the parameters
of the room, and announcements of public keys. Large numbers travel as hex text
and the cipher settings as their tags, so they are checked only when they are
used and not when they are read. -/

namespace RoomCipher

namespace Config

def toValue (config : Config) : Wire.Value :=
  .object [("algorithm", .text config.algorithm.label), ("mode", .text config.mode.label),
    ("padding", .text config.padding.label), ("block_size", .natural config.blockSize),
    ("workers", .natural config.workers), ("stream_buffer_blocks", .natural config.streamBlocks)]

def ofValue? (value : Wire.Value) : Option Config := do
  let names := ["algorithm", "mode", "padding", "block_size", "workers", "stream_buffer_blocks"]
  match ← value.record? names with
  | [algorithm, mode, padding, blockSize, workers, streamBlocks] =>
    return {
      algorithm := ← algorithm.choice? Tag.all Algorithm.label
      mode := ← mode.choice? Tag.all Mode.label
      padding := ← padding.choice? Tag.all Padding.label
      blockSize := ← blockSize.natural? Wire.Value.maxWord
      workers := ← workers.natural? Wire.Value.maxWord
      streamBlocks := ← streamBlocks.natural? Wire.Value.maxWord }
  | _ => none

end Config

namespace SessionState

def toValue (state : SessionState) : Wire.Value := .text state.name

def ofValue? (value : Wire.Value) : Option SessionState :=
  value.choice? all name

end SessionState

/-- The version of the invitations of this library. -/
def wireVersion : Nat := 1

/-- The parameters of a room as its creator sends them around. -/
structure Invitation where
  version : Nat
  roomId : String
  algorithm : String
  mode : String
  padding : String
  prime : String
  deriving DecidableEq

namespace Invitation

def ofParts (roomId : String) (config : Config) (parameters : Exchange.Parameters) :
    Invitation where
  version := wireVersion
  roomId := roomId
  algorithm := config.algorithm.name
  mode := config.mode.name
  padding := config.padding.name
  prime := parameters.primeHex

def ofSession (session : Session) : Invitation :=
  ofParts session.roomId session.config session.parameters

/-- The settings and the key exchange that an invitation stands for, on a machine of `cores`
cores. -/
def parts (cores : Nat) (invitation : Invitation) :
    Except Error (Config × Exchange.Parameters) := do
  if invitation.version ≠ wireVersion then
    .error (.data s!"unsupported room parameter version {invitation.version}")
  else
    let config ← Config.ofTags cores invitation.algorithm invitation.mode invitation.padding
    let parameters ← Exchange.Parameters.ofHex invitation.prime
    return (config, parameters)

/-- Joins the room: a new session with the parameters of the invitation. -/
def join (cores : Nat) (invitation : Invitation) (clientId : String) (source : Entropy) :
    Except Error (Session × Entropy) := do
  let (config, parameters) ← invitation.parts cores
  Session.create invitation.roomId clientId config parameters source

def toValue (invitation : Invitation) : Wire.Value :=
  .object [("version", .natural invitation.version), ("room_id", .text invitation.roomId),
    ("algorithm", .text invitation.algorithm), ("mode", .text invitation.mode),
    ("padding", .text invitation.padding), ("prime", .text invitation.prime)]

/-- Reads an invitation, which is always an object. -/
def ofValue? (value : Wire.Value) : Option Invitation := do
  return {
    version := ← (← value.field? "version").natural? Wire.Value.maxByte
    roomId := ← (← value.field? "room_id").text?
    algorithm := ← (← value.field? "algorithm").text?
    mode := ← (← value.field? "mode").text?
    padding := ← (← value.field? "padding").text?
    prime := ← (← value.field? "prime").text? }

end Invitation

/-- A member's public key as it is sent around. -/
structure Announcement where
  roomId : String
  clientId : String
  publicKey : String
  deriving DecidableEq

namespace Announcement

def ofSession (session : Session) : Announcement :=
  ⟨session.roomId, session.clientId, session.publicKeyHex⟩

/-- Offers the announced key to a session of the same room. -/
def applyTo (announcement : Announcement) (session : Session) : Session × Except Error Bool :=
  if announcement.roomId = session.roomId then
    session.acceptHex announcement.clientId announcement.publicKey
  else
    (session, .error (.data
      s!"public key for room {announcement.roomId} offered to room {session.roomId}"))

def toValue (announcement : Announcement) : Wire.Value :=
  .object [("room_id", .text announcement.roomId), ("client_id", .text announcement.clientId),
    ("public_key", .text announcement.publicKey)]

def ofValue? (value : Wire.Value) : Option Announcement := do
  match ← value.record? ["room_id", "client_id", "public_key"] with
  | [roomId, clientId, publicKey] => return ⟨← roomId.text?, ← clientId.text?, ← publicKey.text?⟩
  | _ => none

end Announcement

end RoomCipher
