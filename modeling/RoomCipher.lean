import RoomCipher.Session.Registry
import RoomCipher.Stream.Transfer
import RoomCipher.Wire.Room
import RoomCipher.Proofs.ChainParts
import RoomCipher.Proofs.FirstKey
import RoomCipher.Proofs.KeyAgreement
import RoomCipher.Proofs.SessionEstablishment
import RoomCipher.Proofs.StreamDecryption
import RoomCipher.Proofs.StreamRoundTrip
import RoomCipher.Proofs.StreamTransfers
import RoomCipher.Proofs.ContextAnswers
import RoomCipher.Proofs.GenuineCiphertexts
import RoomCipher.Proofs.SharedContexts
import RoomCipher.Proofs.HexText
import RoomCipher.Proofs.WireRecords
import RoomCipher.Proofs.RoomTransport
import RoomCipher.Proofs.KeylessDelta
import RoomCipher.Proofs.RefusedOffers
import RoomCipher.Proofs.Keystreams
import RoomCipher.Proofs.ChainAccounts
import RoomCipher.Proofs.FailedParts
import RoomCipher.Proofs.LostBlocks
import RoomCipher.Proofs.MagentaDifferences
import RoomCipher.Proofs.MagentaKeyBytes
import RoomCipher.Proofs.Rc5Reference
import RoomCipher.Proofs.Rc5Refinement
import RoomCipher.Proofs.PaddingGrammar
import RoomCipher.Proofs.BlockwiseDecryption
import RoomCipher.Proofs.DamageLocality
import RoomCipher.Proofs.ForgottenOrder
import RoomCipher.Proofs.PrimalityTest
import RoomCipher.Proofs.UniformDraws
import RoomCipher.Proofs.CompositeWitnesses
import RoomCipher.Proofs.SafePrimes
import RoomCipher.Proofs.HonestKeys
import RoomCipher.Proofs.BigEndianSums
import RoomCipher.Proofs.PolynomialRemainders
import RoomCipher.Proofs.PrimeShapes
import RoomCipher.Proofs.HexNumerals
import RoomCipher.Proofs.LastKey
import RoomCipher.Proofs.EquivalentKeys
import RoomCipher.Proofs.StreamBuffers
