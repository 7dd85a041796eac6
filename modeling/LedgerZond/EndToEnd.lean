import LedgerZond.HostProgress
import LedgerZond.HostReview

/-! # From parameters to a signed transaction

The runbook of `tests/e2e`: `mkpreimage.mjs` writes the parameters and the
preimage, the signing test has the device sign the preimage, `broadcast.mjs`
makes an envelope of the parameters and of what the test wrote. What passes
between them is text. The numbers of the files are taken as the numbers their
numerals denote; `verify` is the verifier of the wallet, which is not part of
the sources. -/
namespace LedgerZond.EndToEnd
open LedgerZond.CTypes LedgerZond.Types LedgerZond.Platform LedgerZond.AppState LedgerZond.Address
open LedgerZond.RlpDecode LedgerZond.DecodeGrammar LedgerZond.TxGrammar LedgerZond.QrlTx
open LedgerZond.App LedgerZond.Requests LedgerZond.Displays LedgerZond.PublicKey
open LedgerZond.SignedEnvelope LedgerZond.HostReview LedgerZond.HostSession LedgerZond.HostProgress
open Lib.Rlp Lib.BigEndian Lib.Client Lib.Server
open LedgerZond.HostClient (E2eOut e2eDeviceSign Meets Along pkLen sigLen)

abbrev Point := LedgerZond.HostClient.Point

/-! ## Texts of bytes -/

variable {b : List UInt8}

/-- `device_params.json`. -/
structure ParamsJson where
  chainId : Nat
  nonce : Nat
  tip : Nat
  feeCap : Nat
  gas : Nat
  toAddress : List Char
  value : Nat

/-- The parameters the two scripts read off the file. -/
def ParamsJson.params (p : ParamsJson) : Params where
  chainId := p.chainId
  nonce := p.nonce
  tip := p.tip
  feeCap := p.feeCap
  gas := p.gas
  toAddress := toBytes p.toAddress
  value := p.value
  data := some []

variable {sdk : Sdk} {start at' : Point} {s : State} {path : Path} {n : UInt8}
  {packedPath : List UInt8} {params : Params} {sig pk : List UInt8}

variable {verify : List UInt8 → List UInt8 → List UInt8 → Bool} {json : ParamsJson} {out : E2eOut}
  {signature : Signature}

end LedgerZond.EndToEnd
