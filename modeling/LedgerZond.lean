import LedgerZond.Lib.BigEndian
import LedgerZond.Lib.Rlp
import LedgerZond.Lib.RlpBytes
import LedgerZond.Lib.RlpShortest
import LedgerZond.Lib.Machine
import LedgerZond.Lib.Client
import LedgerZond.Lib.Server
import LedgerZond.Lib.Refinement
import LedgerZond.Lib.Decimal
import LedgerZond.Lib.Slices
import LedgerZond.CTypes
import LedgerZond.Types
import LedgerZond.TxGrammar
import LedgerZond.RlpDecode
import LedgerZond.RlpDecodeSoundness
import LedgerZond.DecodeGrammar
import LedgerZond.DecodeBounds
import LedgerZond.DecodeTargets
import LedgerZond.ItemKinds
import LedgerZond.QrlTx
import LedgerZond.Amount
import LedgerZond.AmountText
import LedgerZond.Numerals
import LedgerZond.Platform
import LedgerZond.Address
import LedgerZond.AddressText
import LedgerZond.AppState
import LedgerZond.Review
import LedgerZond.App
import LedgerZond.Requests
import LedgerZond.Displays
import LedgerZond.PublicKey
import LedgerZond.Steps
import LedgerZond.SignedBytes
import LedgerZond.ShortestHeaders
import LedgerZond.ReviewFields
import LedgerZond.Parameters
import LedgerZond.ShownFigures
import LedgerZond.PathGate
import LedgerZond.BlindSigning
import LedgerZond.Approval
import LedgerZond.SignatureRelease
import LedgerZond.Freeze
import LedgerZond.Answers
import LedgerZond.OptIn
import LedgerZond.ParameterWalk
import LedgerZond.PublicKeyChunks
import LedgerZond.Independence
import LedgerZond.Chunking
import LedgerZond.Dialogue
import LedgerZond.HostClient
import LedgerZond.HostSession
import LedgerZond.HostProgress
import LedgerZond.HostAddress
import LedgerZond.SignedEnvelope
import LedgerZond.HostReview
import LedgerZond.NormalForm
import LedgerZond.Encodings
import LedgerZond.EndToEnd
import LedgerZond.Signer
import LedgerZond.Settings
import LedgerZond.ShownHash
import LedgerZond.Replies
import LedgerZond.Queries
import LedgerZond.Responses
