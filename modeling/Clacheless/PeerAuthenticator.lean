import Mathlib.Tactic.Ring
import Clacheless.NodeView

set_option autoImplicit false

/-! # Peer authentication tokens

Every peer RPC carries an `internal-auth` header with a token
`b64url(time | HMAC-SHA3-256(key, time))`, where `time` is the big-endian `u64` clock of the
sender. The server's interceptor accepts a request only if `is_token_valid` holds of the header.

The MAC and the base64url codec come from an external library (`tyst`), so they are parameters:
`createMac` is `create_mac` over the shared secret (`None` when the library has no such algorithm),
`decodeUrl` and `encodeUrl` are the codec.

A Rust slice `v[lo..hi]` past the end of `v` panics; the model's `slice` returns `none` there, and
`isTokenValid` returns `none` for a panic. `is_token_valid` checks only that the decoded token is
nonempty before slicing `[0..8]`, so it panics on every header that decodes to one to seven bytes
(`isTokenValid_eq_none_iff`). The client's interceptor sets the header from `create_token` when
there is a token. Every replica reads the same mounted secret, so client and server share one
`PeerAuthenticator`, and a peer request passes the server's interceptor exactly when the MAC
algorithm is available and the token is younger than a second
(`authorizationInterceptor_handshake`). -/

namespace Clacheless

/-- `PeerAuthenticator::TOKEN_VALIDITY`: one second. -/
def tokenValidity : Nat := 1000000

/-- `u64::from_be_bytes`. -/
def fromBeBytes (bytes : List UInt8) : Nat := bytes.foldl (fun acc b => acc * 256 + b.toNat) 0

/-- `u64::to_be_bytes`. -/
def toBeBytes (n : Nat) : List UInt8 :=
  (List.range 8).reverse.map fun i => UInt8.ofNat (n / 256 ^ i % 256)

/-- `&v[lo..hi]`, `none` for a panic. -/
def slice (v : List UInt8) (lo hi : Nat) : Option (List UInt8) :=
  if lo ≤ hi ∧ hi ≤ v.length then some ((v.drop lo).take (hi - lo)) else none

@[simp] theorem length_toBeBytes (n : Nat) : (toBeBytes n).length = 8 := by simp [toBeBytes]

/-- `PeerAuthenticator`: the MAC under the shared secret. -/
structure PeerAuthenticator where
  /-- `create_mac`: HMAC-SHA3-256 of a message under the shared secret. -/
  createMac : List UInt8 → Option (List UInt8)

namespace PeerAuthenticator

/-- `create_token` at clock `nowMicros`. -/
def createToken (pa : PeerAuthenticator) (encodeUrl : List UInt8 → String) (nowMicros : Nat) :
    Option String :=
  (pa.createMac (toBeBytes nowMicros)).map fun mac => encodeUrl (toBeBytes nowMicros ++ mac)

/-- `is_token_valid` at clock `nowMicros`; `none` is a panic. -/
def isTokenValid (pa : PeerAuthenticator) (decodeUrl : String → Except String (List UInt8))
    (nowMicros : Nat) (b64urlenc : String) : Option Bool :=
  let timeAndMac := match decodeUrl b64urlenc with
    | .ok v => v
    | .error _ => []
  if timeAndMac.isEmpty then some false
  else do
    let timeBytes ← slice timeAndMac 0 8
    let tsMicros := fromBeBytes timeBytes
    let mac := (pa.createMac timeBytes).getD []
    let rest ← slice timeAndMac 8 timeAndMac.length
    some (decide (mac = rest) && decide (tsMicros > wrappingSub nowMicros tokenValidity))

/-- The server's `authorization_interceptor` on the `internal-auth` header: `Ok` or
    `unauthenticated`; `none` is a panic of the check. -/
def authorizationInterceptor (pa : PeerAuthenticator)
    (decodeUrl : String → Except String (List UInt8)) (nowMicros : Nat) (token : Option String) :
    Option (Except String Unit) :=
  let valid := match token with
    | some t => pa.isTokenValid decodeUrl nowMicros t
    | none => some false
  valid.map fun ok => if ok then .ok () else .error "No valid auth token."

/-! ## What `is_token_valid` decides -/

theorem isTokenValid_of_decode_error (pa : PeerAuthenticator)
    (decodeUrl : String → Except String (List UInt8)) (nowMicros : Nat) (s e : String)
    (h : decodeUrl s = .error e) : pa.isTokenValid decodeUrl nowMicros s = some false := by
  simp [isTokenValid, h]

/-- On a decoded token of at least 8 bytes the check is the MAC comparison and the freshness
    test. -/
theorem isTokenValid_of_length (pa : PeerAuthenticator)
    (decodeUrl : String → Except String (List UInt8)) (nowMicros : Nat) (s : String)
    (b : List UInt8) (h : decodeUrl s = .ok b) (hlen : 8 ≤ b.length) :
    pa.isTokenValid decodeUrl nowMicros s =
      some (decide ((pa.createMac (b.take 8)).getD [] = b.drop 8) &&
        decide (fromBeBytes (b.take 8) > wrappingSub nowMicros tokenValidity)) := by
  have hne : b.isEmpty = false := by
    cases b with
    | nil => simp at hlen
    | cons _ _ => rfl
  have hrest : (b.drop 8).take (b.length - 8) = b.drop 8 := List.take_of_length_le (by simp)
  simp [isTokenValid, h, hne, slice, hlen, hrest]

/-- **`is_token_valid` panics exactly on the headers that decode to one to seven bytes.** -/
theorem isTokenValid_eq_none_iff (pa : PeerAuthenticator)
    (decodeUrl : String → Except String (List UInt8)) (nowMicros : Nat) (s : String) :
    pa.isTokenValid decodeUrl nowMicros s = none ↔
      ∃ b, decodeUrl s = .ok b ∧ 0 < b.length ∧ b.length < 8 := by
  cases hd : decodeUrl s with
  | error e => simp [isTokenValid_of_decode_error pa decodeUrl nowMicros s e hd]
  | ok b =>
    by_cases hlen : 8 ≤ b.length
    · simp [isTokenValid_of_length pa decodeUrl nowMicros s b hd hlen]; omega
    · cases b with
      | nil => simp [isTokenValid, hd]
      | cons x xs => simp [isTokenValid, hd, slice, hlen]; omega

/-! ## Big-endian bytes -/

/-- Reading back `k` big-endian bytes of `n` after an accumulator `a`. -/
theorem foldl_beBytes (n a k : Nat) :
    ((List.range k).reverse.map fun i => UInt8.ofNat (n / 256 ^ i % 256)).foldl
      (fun acc b => acc * 256 + b.toNat) a = a * 256 ^ k + n % 256 ^ k := by
  induction k generalizing a with
  | zero => simp [Nat.mod_one]
  | succ k ih =>
    rw [List.range_succ, List.reverse_append, List.reverse_singleton, List.singleton_append,
      List.map_cons, List.foldl_cons, ih, UInt8.toNat_ofNat_of_lt (Nat.mod_lt _ (by decide)),
      Nat.mod_pow_succ, pow_succ]
    ring

theorem fromBeBytes_toBeBytes (n : Nat) (h : n < u64Size) : fromBeBytes (toBeBytes n) = n := by
  rw [fromBeBytes, toBeBytes, foldl_beBytes, Nat.zero_mul, Nat.zero_add]
  exact Nat.mod_eq_of_lt h

/-! ## The handshake -/

/-- The gRPC client's `authorization_interceptor` at clock `nowMicros`: the `internal-auth`
    header it sets, `none` when `create_token` has no token. -/
def clientAuthorizationInterceptor (pa : PeerAuthenticator) (encodeUrl : List UInt8 → String)
    (nowMicros : Nat) : Option String :=
  pa.createToken encodeUrl nowMicros

/-- **The handshake.** Between a client and a server that hold the same secret (`pa` on both
    sides), with a base64url codec that round-trips, a peer request whose header the client's
    interceptor set at `sentMicros < 2^64` passes the server's interceptor at `nowMicros` exactly
    when the MAC algorithm is available and the token is younger than a second (as a release
    build subtracts), and is refused as unauthenticated otherwise, never with a panic. -/
theorem authorizationInterceptor_handshake (pa : PeerAuthenticator)
    (encodeUrl : List UInt8 → String) (decodeUrl : String → Except String (List UInt8))
    (hcodec : ∀ b, decodeUrl (encodeUrl b) = .ok b) (sentMicros nowMicros : Nat)
    (hlt : sentMicros < u64Size) :
    pa.authorizationInterceptor decodeUrl nowMicros
        (pa.clientAuthorizationInterceptor encodeUrl sentMicros) =
      if (pa.createMac (toBeBytes sentMicros)).isSome ∧
          wrappingSub nowMicros tokenValidity < sentMicros then some (.ok ())
      else some (.error "No valid auth token.") := by
  unfold clientAuthorizationInterceptor createToken
  cases hmac : pa.createMac (toBeBytes sentMicros) with
  | none => simp [authorizationInterceptor]
  | some mac =>
    simp only [Option.map_some', authorizationInterceptor]
    rw [isTokenValid_of_length pa decodeUrl nowMicros _ _ (hcodec _) (by simp),
      List.take_left' (length_toBeBytes _), List.drop_left' (length_toBeBytes _), hmac,
      fromBeBytes_toBeBytes _ hlt]
    by_cases hfresh : wrappingSub nowMicros tokenValidity < sentMicros <;> simp [hfresh]

/-- A one-character-per-byte stand-in for the base64url codec. -/
def latin1Encode (b : List UInt8) : String := ⟨b.map fun x => Char.ofNat x.toNat⟩

/-- The inverse of `latin1Encode`. -/
def latin1Decode (s : String) : Except String (List UInt8) :=
  .ok (s.toList.map fun c => UInt8.ofNat c.toNat)

theorem latin1Decode_latin1Encode (b : List UInt8) : latin1Decode (latin1Encode b) = .ok b := by
  have hbyte : ∀ x : UInt8, UInt8.ofNat (Char.ofNat x.toNat).toNat = x := fun x => by
    rw [Char.ofNat, dif_pos (Or.inl (Nat.lt_trans x.toNat_lt_size (by decide)))]
    exact UInt8.eq_of_toBitVec_eq (BitVec.eq_of_toNat_eq (UInt8.toNat_ofNat_of_lt x.toNat_lt_size))
  simp [latin1Decode, latin1Encode, Function.comp_def, hbyte]

/-- A peer whose MAC is the message itself sends at `5000000` µs: the server accepts the header
    at `5000001` µs and refuses it at `6000000` µs, when it is a second old. -/
theorem authorizationInterceptor_handshake_example :
    ((∀ b, latin1Decode (latin1Encode b) = .ok b) ∧ 5000000 < u64Size) ∧
      (⟨some⟩ : PeerAuthenticator).authorizationInterceptor latin1Decode 5000001
          ((⟨some⟩ : PeerAuthenticator).clientAuthorizationInterceptor latin1Encode 5000000) =
        some (.ok ()) ∧
      (⟨some⟩ : PeerAuthenticator).authorizationInterceptor latin1Decode 6000000
          ((⟨some⟩ : PeerAuthenticator).clientAuthorizationInterceptor latin1Encode 5000000) =
        some (.error "No valid auth token.") := by
  have hacc := authorizationInterceptor_handshake ⟨some⟩ latin1Encode latin1Decode
    latin1Decode_latin1Encode 5000000 5000001 (by decide)
  have href := authorizationInterceptor_handshake ⟨some⟩ latin1Encode latin1Decode
    latin1Decode_latin1Encode 5000000 6000000 (by decide)
  rw [if_pos (by decide)] at hacc
  rw [if_neg (by decide)] at href
  exact ⟨⟨latin1Decode_latin1Encode, by decide⟩, hacc, href⟩

end PeerAuthenticator

end Clacheless
