import RazorTrade.Kraken.Nonce

/-! # Signatures (`auth.rs`)

A request and a challenge are signed in the same way: SHA-256 of the text, HMAC-SHA-512 of the
digest under the decoded secret, base64 of that.  Only the text differs: for a request it is
the post data, the nonce and the path, one right after the other.  The hash functions and the
alphabet are those of their crates, so they are parameters. -/

namespace RazorTrade

/-- The crates that `auth.rs` calls. -/
structure Crypto where
  /-- `Sha256`. -/
  sha256 : ByteArray → ByteArray
  /-- `HmacSha512::new_from_slice` with the key, then the MAC of the message; `none` for a key
  that it refuses. -/
  hmacSha512 : ByteArray → ByteArray → Option ByteArray
  /-- `BASE64.decode`, with the text of its error. -/
  base64Decode : ByteArray → Except String ByteArray
  base64Encode : ByteArray → String

/-- The `Display` text. -/
def AuthError.text : AuthError → String
  | .base64Decode message => "base64 decode of api_secret failed: " ++ message
  | .invalidKeyLength => "base64 key has invalid length for HMAC-SHA-512"
  | .systemClockBeforeEpoch => "system clock is before UNIX epoch"

namespace Crypto

variable (K : Crypto)

/-- The steps from the digest on. -/
def signDigest (apiSecretB64 : String) (digest : ByteArray) : Except AuthError String := do
  let secretBytes ← (K.base64Decode apiSecretB64.toByteArray).mapError .base64Decode
  match K.hmacSha512 secretBytes digest with
  | none => .error .invalidKeyLength
  | some mac => .ok (K.base64Encode mac)

/-- The bytes that a request hashes. -/
def signedBytes (postData nonce endpointPath : String) : ByteArray :=
  postData.toByteArray ++ nonce.toByteArray ++ endpointPath.toByteArray

/-- `sign_rest_request`. -/
def signRestRequest (apiSecretB64 postData nonce endpointPath : String) :
    Except AuthError String :=
  K.signDigest apiSecretB64 (K.sha256 (signedBytes postData nonce endpointPath))

/-- `sign_ws_challenge`. -/
def signWsChallenge (apiSecretB64 challenge : String) : Except AuthError String :=
  K.signDigest apiSecretB64 (K.sha256 challenge.toByteArray)

end Crypto

end RazorTrade
