import Clacheless.DistributedCache
import Clacheless.Config

set_option autoImplicit false

/-! # The REST API

`PUT /api/v1/cache/{key}` (`put_object`) rejects a declared `content-length` above 5 MiB, reads
the body chunk by chunk and rejects it as soon as it would grow past 5 MiB, decodes it as UTF-8 and
stores it with `put_string`, answering `204`. `GET /api/v1/cache/{key}` (`get_object`) answers
`200` with the string `get_string` returns, and maps its errors through `ApiErrorMapper`.

UTF-8 comes from the standard library, so the codec is a parameter: `asBytes` is `str::as_bytes`
and `fromUtf8` is `std::str::from_utf8` (equally `String::from_utf8`), with the `Display` of its
error on failure. An actix-web error is its status and the text of its body.

The chunk loop decides by the total length: a stream of chunks is accepted exactly when all of it
fits in 5 MiB (`readFullBodyText_map_ok`). A rejected `PUT` leaves the replica as it was and sends
nothing (`putObject_rejected_unchanged`), and a string a `PUT` stored is what a `GET` of the key
returns while the write is live and was not older than the incumbent
(`getObject_after_putObject`). -/

namespace Clacheless

/-- An actix-web error response: its status code and the text of its body. -/
structure HttpError where
  status : Nat
  body : String
deriving DecidableEq, Repr

/-- `Display` of `ClachelessErrorKind`: its `Debug` name. -/
def ClachelessErrorKind.toString : ClachelessErrorKind → String
  | .unspecified => "Unspecified"
  | .connection => "Connection"
  | .notFound => "NotFound"
  | .malformed => "Malformed"

/-- `Display` of `ClachelessError`: the kind, then the message if any. -/
def ClachelessError.toString (e : ClachelessError) : String :=
  match e.msg with
  | some msg => e.kind.toString ++ " " ++ msg
  | none => e.kind.toString

/-- `ApiErrorMapper::from_error`: `Malformed` is a `400`, `NotFound` a `404`, any other kind a
    `500`, each with the error's text. -/
def ApiErrorMapper.fromError (e : ClachelessError) : HttpError :=
  match e.kind with
  | .malformed => ⟨400, e.toString⟩
  | .notFound => ⟨404, e.toString⟩
  | _ => ⟨500, e.toString⟩

namespace DistributedCache

/-- `put_string`: `put_bytes` of the string's bytes. -/
def putString (asBytes : String → List UInt8) (dc : DistributedCache) (cacheKey cacheValue : String)
    (nowMicros : Nat) : DistributedCache × List Envelope :=
  dc.putBytes cacheKey (asBytes cacheValue) nowMicros

/-- `get_string`: `get_bytes`, then UTF-8 decoding; a failure is `Malformed`. -/
def getString (fromUtf8 : List UInt8 → Except String String) (dc : DistributedCache)
    (cacheKey : String) (nowMicros : Nat) : Except ClachelessError String :=
  match dc.getBytes cacheKey nowMicros with
  | .error e => .error e
  | .ok cachedContent =>
    match fromUtf8 cachedContent with
    | .ok s => .ok s
    | .error e => .error (ClachelessErrorKind.malformed.errorWithMsg
        ("Entry for " ++ cacheKey ++ " was not an UTF-8 string: " ++ e))

end DistributedCache

namespace RestApi

/-- `MAX_DOCUMENT_SIZE`: 5 MiB. -/
def maxDocumentSize : Nat := 5 * 1024 * 1024

/-- `assert_declared_content_length`, given the `content-length` header if present and visible
    ASCII: its value parsed as a `usize`, `1024` when absent or unparsable, rejected above
    `maxSize`. -/
def assertDeclaredContentLength (contentLength : Option String) (maxSize : Nat) :
    Except HttpError Nat :=
  let contentLengthEstimate := (contentLength.bind (parseUnsigned u64Size)).getD 1024
  if contentLengthEstimate > maxSize then .error ⟨400, "overflow"⟩ else .ok contentLengthEstimate

/-- The error of a body that grows past `MAX_DOCUMENT_SIZE`. -/
def bodyExceeded : HttpError :=
  ⟨400, "Message body exceeded " ++ toString maxDocumentSize ++ " bytes."⟩

/-- The loop of `read_full_body_text` from the bytes read so far: every item of the payload
    stream is an error (returned as is by `chunk?`) or a chunk, which may not take the body past
    `MAX_DOCUMENT_SIZE`. -/
def readChunks (body : List UInt8) : List (Except HttpError (List UInt8)) →
    Except HttpError (List UInt8)
  | [] => .ok body
  | .error e :: _ => .error e
  | .ok chunk :: payload =>
    if body.length + chunk.length > maxDocumentSize then .error bodyExceeded
    else readChunks (body ++ chunk) payload

/-- `read_full_body_text` (its capacity hint changes nothing): the body, decoded as UTF-8. -/
def readFullBodyText (fromUtf8 : List UInt8 → Except String String)
    (payload : List (Except HttpError (List UInt8))) : Except HttpError String :=
  match readChunks [] payload with
  | .error e => .error e
  | .ok body =>
    match fromUtf8 body with
    | .ok s => .ok s
    | .error e => .error ⟨400, "Message body was not valid UTF-8: " ++ e⟩

/-- `put_object` on replica `dc` at clock `nowMicros`: the replica after it, the requests it
    broadcast, and the response (`204`, as `put_string` cannot fail). -/
def putObject (asBytes : String → List UInt8) (fromUtf8 : List UInt8 → Except String String)
    (dc : DistributedCache) (cacheKey : String) (contentLength : Option String)
    (payload : List (Except HttpError (List UInt8))) (nowMicros : Nat) :
    DistributedCache × List Envelope × Except HttpError Nat :=
  match assertDeclaredContentLength contentLength maxDocumentSize with
  | .error e => (dc, [], .error e)
  | .ok _ =>
    match readFullBodyText fromUtf8 payload with
    | .error e => (dc, [], .error e)
    | .ok rawCacheValue =>
      let (dc', out) := dc.putString asBytes cacheKey rawCacheValue nowMicros
      (dc', out, .ok 204)

/-- `get_object` on replica `dc` at clock `nowMicros`: `200` with the string, or the mapped
    error. -/
def getObject (fromUtf8 : List UInt8 → Except String String) (dc : DistributedCache)
    (cacheKey : String) (nowMicros : Nat) : Except HttpError (Nat × String) :=
  match dc.getString fromUtf8 cacheKey nowMicros with
  | .ok object => .ok (200, object)
  | .error e => .error (ApiErrorMapper.fromError e)

/-! ## The chunk loop -/

/-- On a stream without errors, the loop accepts exactly when everything fits. -/
theorem readChunks_map_ok (body : List UInt8) (chunks : List (List UInt8))
    (hbody : body.length ≤ maxDocumentSize) :
    readChunks body (chunks.map .ok) =
      if body.length + chunks.flatten.length ≤ maxDocumentSize then .ok (body ++ chunks.flatten)
      else .error bodyExceeded := by
  induction chunks generalizing body with
  | nil => simp [readChunks, hbody]
  | cons chunk chunks ih =>
    simp only [List.map_cons, readChunks, List.flatten_cons, List.length_append]
    by_cases hover : body.length + chunk.length > maxDocumentSize
    · rw [if_pos hover, if_neg (by omega)]
    · rw [if_neg hover, ih _ (by simp only [List.length_append]; omega), List.length_append,
        List.append_assoc, Nat.add_assoc]

/-- **The body limit is a limit on the whole body.** A stream of chunks with no stream error is
    read as the concatenation of its chunks, decoded, exactly when it is at most 5 MiB long, and is
    otherwise rejected with `400 Message body exceeded 5242880 bytes.`, however it is cut into
    chunks. -/
theorem readFullBodyText_map_ok (fromUtf8 : List UInt8 → Except String String)
    (chunks : List (List UInt8)) :
    readFullBodyText fromUtf8 (chunks.map .ok) =
      if chunks.flatten.length ≤ maxDocumentSize then
        match fromUtf8 chunks.flatten with
        | .ok s => .ok s
        | .error e => .error ⟨400, "Message body was not valid UTF-8: " ++ e⟩
      else .error ⟨400, "Message body exceeded 5242880 bytes."⟩ := by
  unfold readFullBodyText
  rw [readChunks_map_ok [] chunks (Nat.zero_le _), List.length_nil, Nat.zero_add, List.nil_append]
  by_cases hfit : chunks.flatten.length ≤ maxDocumentSize
  · simp only [if_pos hfit]
  · simp only [if_neg hfit]
    rfl

/-! ## Requests -/

/-- **A rejected `PUT` changes nothing.** Whatever the request, a `put_object` that does not
    answer `204` leaves the replica as it was and sends no request to its peers. -/
theorem putObject_rejected_unchanged (asBytes : String → List UInt8)
    (fromUtf8 : List UInt8 → Except String String) (dc : DistributedCache) (cacheKey : String)
    (contentLength : Option String) (payload : List (Except HttpError (List UInt8)))
    (nowMicros : Nat)
    (h : (putObject asBytes fromUtf8 dc cacheKey contentLength payload nowMicros).2.2 ≠ .ok 204) :
    (putObject asBytes fromUtf8 dc cacheKey contentLength payload nowMicros).1 = dc ∧
      (putObject asBytes fromUtf8 dc cacheKey contentLength payload nowMicros).2.1 = [] := by
  unfold putObject at h ⊢
  split
  · exact ⟨rfl, rfl⟩
  · split
    · exact ⟨rfl, rfl⟩
    · next hassert _ _ hread => simp only [hassert, hread] at h; exact absurd rfl h

/-- **What a `PUT` stores, a `GET` returns.** If `put_object` answers `204` on a body that decodes
    to `s`, whose bytes decode back to `s`, and the replica held no entry for the key at least as
    new as the write, then `get_object` of the key on the replica answers `200` with `s` as long
    as the write has not expired. -/
theorem getObject_after_putObject (asBytes : String → List UInt8)
    (fromUtf8 : List UInt8 → Except String String) (dc : DistributedCache) (cacheKey : String)
    (contentLength : Option String) (payload : List (Except HttpError (List UInt8)))
    (nowMicros nowMicros' : Nat) (s : String)
    (hok : (putObject asBytes fromUtf8 dc cacheKey contentLength payload nowMicros).2.2 = .ok 204)
    (hbody : readFullBodyText fromUtf8 payload = .ok s) (hcodec : fromUtf8 (asBytes s) = .ok s)
    (hnewer : ∀ old, dc.localCache.cache.get cacheKey = some old →
      old.thisUpdateMicros < nowMicros)
    (hlive : nowMicros' ≤ wrappingAdd nowMicros dc.cacheItemTtlMicros) :
    getObject fromUtf8 (putObject asBytes fromUtf8 dc cacheKey contentLength payload nowMicros).1
      cacheKey nowMicros' = .ok (200, s) := by
  have hstored : (putObject asBytes fromUtf8 dc cacheKey contentLength payload nowMicros).1 =
      (dc.putBytes cacheKey (asBytes s) nowMicros).1 := by
    unfold putObject at hok ⊢
    split at hok
    · cases hok
    · next hassert => simp only [hassert, hbody]; rfl
  have hlww : LocalCache.lww (dc.localCache.cache.get cacheKey) ⟨nowMicros, dc.localNodeId,
      dc.clusterView.nextLocalUpdateSeq.2, wrappingAdd nowMicros dc.cacheItemTtlMicros,
      asBytes s⟩ = ⟨nowMicros, dc.localNodeId, dc.clusterView.nextLocalUpdateSeq.2,
      wrappingAdd nowMicros dc.cacheItemTtlMicros, asBytes s⟩ := by
    cases hold : dc.localCache.cache.get cacheKey with
    | none => rfl
    | some old => simp [LocalCache.lww, hnewer old hold]
  have hget : (dc.putBytes cacheKey (asBytes s) nowMicros).1.getBytes cacheKey nowMicros' =
      .ok (asBytes s) := by
    simp only [DistributedCache.getBytes, LocalCache.get, DistributedCache.get_putBytes,
      if_pos rfl, hlww]
    simp [Option.filter, hlive]
  simp only [getObject, DistributedCache.getString, hstored, hget, hcodec]

/-- A `PUT` of `hi` on a fresh replica with a one-byte-per-character codec, read back. -/
theorem getObject_after_putObject_example :
    let asBytes : String → List UInt8 := fun s => s.toList.map fun c => c.toNat.toUInt8
    let fromUtf8 : List UInt8 → Except String String :=
      fun b => .ok ⟨b.map fun x => Char.ofNat x.toNat⟩
    let dc := DistributedCache.new 0 10 0
    ((putObject asBytes fromUtf8 dc "k" none [.ok (asBytes "hi")] 0).2.2 = .ok 204 ∧
        readFullBodyText fromUtf8 [.ok (asBytes "hi")] = .ok "hi" ∧
        fromUtf8 (asBytes "hi") = .ok "hi" ∧
        (∀ old, dc.localCache.cache.get "k" = some old → old.thisUpdateMicros < 0) ∧
        5 ≤ wrappingAdd 0 dc.cacheItemTtlMicros) ∧
      getObject fromUtf8 (putObject asBytes fromUtf8 dc "k" none [.ok (asBytes "hi")] 0).1 "k" 5 =
        .ok (200, "hi") := by
  intro asBytes fromUtf8 dc
  have hnewer : ∀ old, dc.localCache.cache.get "k" = some old → old.thisUpdateMicros < 0 :=
    fun _ h => by cases h
  have hlive : 5 ≤ wrappingAdd 0 dc.cacheItemTtlMicros := by decide
  exact ⟨⟨rfl, rfl, rfl, hnewer, hlive⟩,
    getObject_after_putObject asBytes fromUtf8 dc "k" none _ 0 5 "hi" rfl rfl rfl hnewer hlive⟩

end RestApi

end Clacheless
