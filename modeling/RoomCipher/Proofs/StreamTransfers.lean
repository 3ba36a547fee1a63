import RoomCipher.Proofs.StreamCuts
import RoomCipher.Proofs.StreamEncryption
import RoomCipher.Proofs.TransferFaults

/-! Messages on their way from a reader to a writer, either of which may fail. Where
nothing is drawn, the pieces of a message are all taken and come to the same each
time, so a transfer with faults is a transfer without them that was cut short. The
one thing that a context may ask for in vain is a buffer: the number of its bytes
may fit a 64-bit count and still be more than any buffer can hold. -/
namespace RoomCipher.StreamTransfers
open ByteLaws KeyedContexts PaddingLaws ContextRoundTrip StreamPieces StreamEncryption StreamCuts
open ChannelRuns TransferFaults

variable {C : Type} [BlockCipher C] {context : Context C}

/-! ### Buffers -/

theorem withCipher_streamBlocks {cipher : C}
    (built : Context.withCipher cipher key iv config = .ok context) : 0 < config.streamBlocks :=
  Nat.pos_of_ne_zero (validate_eq_ok.mp (withCipher_valid built)).2.2

/-- What an encryptor ends with, whatever is drawn. -/
def sealed (source : Entropy) (state : Encryptor C) : Except Error Bytes :=
  (state.finalize source).map (·.1)

omit [BlockCipher C] in
theorem start_plain (plain : context.config.mode ≠ .randomDelta) (source : Entropy) :
    Encryptor.start context source = .ok (⟨context, context.newChain, [], []⟩, source) := by
  simp only [Encryptor.start, beginEncrypt_plain plain, bind, Except.bind, pure, Except.pure]

theorem encryptStream_carry (plain : context.config.mode ≠ .randomDelta)
    (room : Bytes.checkRoom context.streamBuffer = .ok ()) (reader : Reader) (writer : Writer)
    (source : Entropy) :
    context.encryptStream reader writer source = carry Encryptor.update (sealed source)
      context.streamBuffer ⟨context, context.newChain, [], []⟩ reader writer := by
  simp only [Context.encryptStream, start_plain plain, room]
  rfl

theorem encryptStream_oversize (plain : context.config.mode ≠ .randomDelta)
    (long : Bytes.checkRoom context.streamBuffer = .error (.aborted .oversize)) (reader : Reader)
    (writer : Writer) (source : Entropy) :
    context.encryptStream reader writer source = ⟨writer, .error (.aborted .oversize)⟩ := by
  simp only [Context.encryptStream, start_plain plain, long]

/-- A writer that takes five bytes at a time and is full after twenty. -/
def narrow : Writer := ⟨[9], some 20, some 5, false⟩

end RoomCipher.StreamTransfers
