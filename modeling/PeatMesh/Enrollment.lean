/-
Enrollment of a node into a mesh (`security/enrollment.rs`) over the
enrollment stream (`storage/enrollment_transport.rs`). A length is cut to the
width of its field, a request has a largest size, and the expiry of a
certificate is a sum of 64-bit numbers: `overflowChecks` says whether the crate
is built to panic where it overflows, or to wrap.
-/
import PeatMesh.Certificate

namespace PeatMesh

open Bytes List Option CertificateBundle UInt64

inductive EnrollmentStatus
  | pending
  | approved
  | denied (reason : String)
  | revoked (reason : String)
  deriving DecidableEq, Repr

def EnrollmentStatus.toByte : EnrollmentStatus → UInt8
  | .pending => 0
  | .approved => 1
  | .denied _ => 2
  | .revoked _ => 3

def SecurityError.display : SecurityError → String
  | .invalidPublicKey text => "invalid public key: " ++ text
  | .invalidSignature text => "invalid signature: " ++ text
  | .certificateError text => "certificate error: " ++ text
  | .serializationError text => "serialization error: " ++ text

/-- `DeviceKeypair`, as far as it signs. -/
structure DeviceKeypair where
  publicKeyBytes : PublicKey
  sign : List UInt8 → Signature

/-- The key is a valid one, and its signatures verify. -/
def Ed25519.Accepts (ed : Ed25519) (k : DeviceKeypair) : Prop :=
  ed.fromBytes k.publicKeyBytes = .ok () ∧
    ∀ bytes, ed.verify k.publicKeyBytes bytes (k.sign bytes) = .ok ()

/-! ## Requests -/

structure EnrollmentRequest where
  subjectPublicKey : PublicKey
  meshId : String
  nodeId : String
  requestedTier : MeshTier
  bootstrapToken : List UInt8
  timestampMs : UInt64
  signature : Signature
  deriving DecidableEq, Repr

namespace EnrollmentRequest

def signableBytes (r : EnrollmentRequest) : List UInt8 :=
  r.subjectPublicKey.toList ++ ([UInt8.ofNat r.meshId.utf8ByteSize] ++ (utf8 r.meshId ++
    ([UInt8.ofNat r.nodeId.utf8ByteSize] ++ (utf8 r.nodeId ++ ([r.requestedTier.toByte] ++
      (toLE 2 r.bootstrapToken.length ++ (r.bootstrapToken ++ toLE 8 r.timestampMs.toNat)))))))

def encode (r : EnrollmentRequest) : List UInt8 := r.signableBytes ++ r.signature.toList

def decode (data : List UInt8) : Except (Bytes.Failure SecurityError) EnrollmentRequest := do
  ensure (109 ≤ data.length)
    (.serializationError ("enrollment request too short: " ++ toString data.length ++ " bytes (min 109)"))
  let subjectPublicKey ← array data 0 32
  let meshIdLen := (← byteAt data 32).toNat
  ensure (33 + meshIdLen + 1 ≤ data.length)
    (.serializationError "enrollment request truncated at mesh_id")
  let meshId ← text (← slice data 33 meshIdLen) (.serializationError "invalid mesh_id: ")
  let nodeIdLen := (← byteAt data (33 + meshIdLen)).toNat
  ensure (33 + meshIdLen + 1 + nodeIdLen + 1 + 2 ≤ data.length)
    (.serializationError "enrollment request truncated at node_id")
  let nodeId ← text (← slice data (33 + meshIdLen + 1) nodeIdLen)
    (.serializationError "invalid node_id: ")
  let pos := 33 + meshIdLen + 1 + nodeIdLen
  let requestedTier ← decodeTier (← byteAt data pos)
  let tokenLen := ofLE (← slice data (pos + 1) 2)
  ensure (pos + 1 + 2 + tokenLen + 8 + 64 ≤ data.length)
    (.serializationError "enrollment request truncated at token")
  let bootstrapToken ← slice data (pos + 1 + 2) tokenLen
  let timestamp ← slice data (pos + 1 + 2 + tokenLen) 8
  let signature ← array data (pos + 1 + 2 + tokenLen + 8) 64
  return ⟨subjectPublicKey, meshId, nodeId, requestedTier, bootstrapToken, UInt64.ofNat (ofLE timestamp),
    signature⟩
where
  /-- The tier, or the error of a byte that is none. -/
  decodeTier (b : UInt8) : Except (Bytes.Failure SecurityError) MeshTier :=
    match MeshTier.fromByte b with
    | some tier => .ok tier
    | none => .error (.error (.serializationError "invalid tier byte"))

def verifySignature (ed : Ed25519) (r : EnrollmentRequest) : Except SecurityError Unit :=
  match ed.fromBytes r.subjectPublicKey with
  | .error e => .error (.invalidPublicKey e)
  | .ok _ =>
    match ed.verify r.subjectPublicKey r.signableBytes r.signature with
    | .error e => .error (.invalidSignature e)
    | .ok _ => .ok ()

end EnrollmentRequest

/-! ## Responses -/

structure EnrollmentResponse where
  status : EnrollmentStatus
  certificate : Option MeshCertificate
  formationSecret : Option (List UInt8)
  timestampMs : UInt64
  deriving DecidableEq, Repr

namespace EnrollmentResponse

def approved (certificate : MeshCertificate) (formationSecret : Option (List UInt8)) (timestampMs : UInt64) :
    EnrollmentResponse :=
  ⟨.approved, some certificate, formationSecret, timestampMs⟩

def denied (reason : String) (timestampMs : UInt64) : EnrollmentResponse :=
  ⟨.denied reason, none, none, timestampMs⟩

def encodeReason : EnrollmentStatus → List UInt8
  | .denied reason => toLE 2 reason.utf8ByteSize ++ utf8 reason
  | .revoked reason => toLE 2 reason.utf8ByteSize ++ utf8 reason
  | _ => toLE 2 0

def encodeOptional : Option (List UInt8) → List UInt8
  | some bytes => [1] ++ (toLE 2 bytes.length ++ bytes)
  | none => [0]

def encode (r : EnrollmentResponse) : List UInt8 :=
  [r.status.toByte] ++ (encodeReason r.status ++ (encodeOptional (r.certificate.map (·.encode)) ++
    (encodeOptional r.formationSecret ++ toLE 8 r.timestampMs.toNat)))

def decodeStatus (b : UInt8) (reason : String) : Except (Bytes.Failure SecurityError) EnrollmentStatus :=
  if b = 0 then .ok .pending
  else if b = 1 then .ok .approved
  else if b = 2 then .ok (.denied reason)
  else if b = 3 then .ok (.revoked reason)
  else .error (.error (.serializationError ("invalid status byte: " ++ toString b)))

def decodeOptional (data : List UInt8) (pos : Nat) (flag len what : String) :
    Except (Bytes.Failure SecurityError) (Option (List UInt8) × Nat) := do
  ensure (pos < data.length) (.serializationError ("enrollment response truncated at " ++ flag))
  if (← byteAt data pos) = 1 then do
    ensure (pos + 1 + 2 ≤ data.length) (.serializationError ("enrollment response truncated at " ++ len))
    let n := ofLE (← slice data (pos + 1) 2)
    ensure (pos + 1 + 2 + n ≤ data.length) (.serializationError ("enrollment response truncated at " ++ what))
    return (some (← slice data (pos + 1 + 2) n), pos + 1 + 2 + n)
  else return (none, pos + 1)

def decodeCertificate : Option (List UInt8) → Except (Bytes.Failure SecurityError) (Option MeshCertificate)
  | some bytes => do return some (← MeshCertificate.decode bytes)
  | none => .ok none

def decode (data : List UInt8) : Except (Bytes.Failure SecurityError) EnrollmentResponse := do
  ensure (13 ≤ data.length)
    (.serializationError ("enrollment response too short: " ++ toString data.length ++ " bytes (min 13)"))
  let statusByte ← byteAt data 0
  let reasonLen := ofLE (← slice data 1 2)
  ensure (3 + reasonLen < data.length) (.serializationError "enrollment response truncated at reason")
  let reason ← text (← slice data 3 reasonLen) (.serializationError "invalid reason: ")
  let status ← decodeStatus statusByte reason
  let cert ← decodeOptional data (3 + reasonLen) "certificate flag" "cert_len" "certificate"
  let certificate ← decodeCertificate cert.1
  let secret ← decodeOptional data cert.2 "secret flag" "secret_len" "secret"
  ensure (secret.2 + 8 ≤ data.length) (.serializationError "enrollment response truncated at timestamp")
  let timestamp ← slice data secret.2 8
  return ⟨status, certificate, secret.1, UInt64.ofNat (ofLE timestamp)⟩

end EnrollmentResponse

open EnrollmentResponse

/-! ## The service -/

structure StaticEnrollmentService where
  authority : DeviceKeypair
  meshId : String
  allowedTokens : Std.ExtTreeMap (List UInt8) (MeshTier × UInt8)
  validityMs : UInt64

namespace StaticEnrollmentService

def expiry (overflowChecks : Bool) (s : StaticEnrollmentService) (now : UInt64) : Option UInt64 :=
  if overflowChecks ∧ 18446744073709551616 ≤ now.toNat + s.validityMs.toNat then none else some (now + s.validityMs)

def issue (s : StaticEnrollmentService) (r : EnrollmentRequest) (tier : MeshTier) (permissions : UInt8)
    (now expires : UInt64) : MeshCertificate :=
  let cert : MeshCertificate := ⟨r.subjectPublicKey, s.meshId, r.nodeId, tier, permissions, now, expires,
    s.authority.publicKeyBytes, Vector.replicate 64 0⟩
  { cert with signature := s.authority.sign cert.signableBytes }

def processRequest (overflowChecks : Bool) (ed : Ed25519) (s : StaticEnrollmentService) (r : EnrollmentRequest)
    (now : UInt64) : Option (Except SecurityError EnrollmentResponse) :=
  match r.verifySignature ed with
  | .error e => some (.error e)
  | .ok _ =>
    if r.meshId ≠ s.meshId then
      some (.ok (.denied ("mesh ID mismatch: expected " ++ s.meshId ++ ", got " ++ r.meshId) r.timestampMs))
    else
      match s.allowedTokens[r.bootstrapToken]? with
      | none => some (.ok (.denied "invalid bootstrap token" r.timestampMs))
      | some (tier, permissions) =>
        (s.expiry overflowChecks now).map fun expires =>
          .ok (.approved (s.issue r tier permissions now expires) none now)

end StaticEnrollmentService

open StaticEnrollmentService

/-! ## The stream -/

def MAX_REQUEST_SIZE : Nat := 65536

def MAX_RESPONSE_SIZE : Nat := 65536

def framed (bytes : List UInt8) : List UInt8 := toLE 4 bytes.length ++ bytes

def readFrame {ε : Type} (max : Nat) (early : ε) (tooLarge : Nat → ε) (stream : List UInt8) :
    Except (Bytes.Failure ε) (List UInt8) := do
  ensure (4 ≤ stream.length) early
  let len := ofLE (← slice stream 0 4)
  ensure (len ≤ max) (tooLarge len)
  ensure (4 + len ≤ stream.length) early
  slice stream 4 len

/-- Why the handler has no request: its connection failed, or it answers with
a denial. -/
inductive RequestError
  | connection (text : String)
  | denial (reason : String)
  deriving DecidableEq, Repr

def receiveRequest (stream : List UInt8) : Except (Bytes.Failure RequestError) EnrollmentRequest := do
  let bytes ← readFrame MAX_REQUEST_SIZE (.connection "stream finished early")
    (fun len => .denial ("request too large: " ++ toString len ++ " bytes (max " ++ toString MAX_REQUEST_SIZE ++ ")"))
    stream
  match EnrollmentRequest.decode bytes with
  | .ok request => .ok request
  | .error (.error e) => .error (.error (.denial ("malformed request: " ++ e.display)))
  | .error .outOfBounds => .error .outOfBounds

/-- How `handle_enrollment` ends: with an error, or with a response, the bytes
it wrote of it and whether it approved. -/
inductive HandlerEnd
  | panicked
  | failed (text : String)
  | answered (response : EnrollmentResponse) (written : List UInt8) (approved : Bool)
  deriving DecidableEq, Repr

def sendResponse (response : EnrollmentResponse) : HandlerEnd :=
  if MAX_RESPONSE_SIZE < response.encode.length then
    .failed ("response too large: " ++ toString response.encode.length ++ " bytes (max " ++
      toString MAX_RESPONSE_SIZE ++ ")")
  else .answered response (framed response.encode) (response.status = .approved)

variable (overflowChecks : Bool)

def handleEnrollment (ed : Ed25519) (s : StaticEnrollmentService) (stream : List UInt8)
    (now handlerNow : UInt64) : HandlerEnd :=
  match receiveRequest stream with
  | .error .outOfBounds => .panicked
  | .error (.error (.connection text)) => .failed text
  | .error (.error (.denial reason)) => sendResponse (.denied reason handlerNow)
  | .ok request =>
    match s.processRequest overflowChecks ed request now with
    | none => .panicked
    | some (.ok response) => sendResponse response
    | some (.error e) => sendResponse (.denied ("enrollment error: " ++ e.display) handlerNow)

def receiveResponse (stream : List UInt8) : Except (Bytes.Failure String) EnrollmentResponse := do
  let bytes ← readFrame MAX_RESPONSE_SIZE "stream finished early"
    (fun len => "response too large: " ++ toString len ++ " bytes (max " ++ toString MAX_RESPONSE_SIZE ++ ")") stream
  match decode bytes with
  | .ok response => .ok response
  | .error (.error e) => .error (.error ("failed to decode enrollment response: " ++ e.display))
  | .error .outOfBounds => .error .outOfBounds

/-! ## The two messages read back -/

section Frames

variable {ε : Type} {max : Nat} {early : ε} {tooLarge : Nat → ε} {bytes : List UInt8}

theorem readFrame_frame (hmax : bytes.length ≤ max) (hlen : bytes.length < 2 ^ 32) :
    readFrame max early tooLarge (framed bytes) = .ok bytes := by
  have hlenBytes : ofLE (toLE 4 bytes.length) = bytes.length := ofLE_toLE_of_lt hlen
  have htotal : (framed bytes).length = 4 + bytes.length := by simp [framed]
  have hat : At (framed bytes) 0 (toLE 4 bytes.length ++ bytes) := at_zero.mpr (prefix_refl _)
  rw [at_append] at hat
  simp only [readFrame, bind_eq_ok, ensure_eq_ok, slice_eq_ok]
  refine ⟨(), by omega, _, ⟨length_toLE _ _, hat.1⟩, ?_⟩
  rw [hlenBytes]
  exact ⟨(), hmax, (), by omega, rfl, hat.2⟩

theorem le_of_readFrame {bytes'} (h : readFrame max early tooLarge (framed bytes) = .ok bytes') :
    bytes.length % 2 ^ 32 ≤ max := by
  simp only [readFrame, bind_eq_ok, ensure_eq_ok, slice_eq_ok] at h
  obtain ⟨-, -, lenBytes, ⟨hlen, hat⟩, -, hle, -⟩ := h
  have hpre : lenBytes = toLE 4 bytes.length := by
    have hfront : toLE 4 bytes.length <+: framed bytes := prefix_append _ _
    have hboth := prefix_of_prefix_length_le (at_zero.mp hat) hfront (by rw [hlen, length_toLE])
    exact hboth.eq_of_length (by rw [hlen, length_toLE])
  rw [hpre, ofLE_toLE] at hle
  exact hle

end Frames

namespace EnrollmentRequest

variable {r : EnrollmentRequest} {data : List UInt8}

variable (r)

theorem encode_eq : r.encode =
    r.subjectPublicKey.toList ++ ([UInt8.ofNat r.meshId.utf8ByteSize] ++ (utf8 r.meshId ++
      ([UInt8.ofNat r.nodeId.utf8ByteSize] ++ (utf8 r.nodeId ++ ([r.requestedTier.toByte] ++
        (toLE 2 r.bootstrapToken.length ++ (r.bootstrapToken ++ (toLE 8 r.timestampMs.toNat ++
          r.signature.toList)))))))) := by
  simp only [encode, signableBytes, append_assoc]

theorem length_encode :
    r.encode.length = 109 + r.meshId.utf8ByteSize + r.nodeId.utf8ByteSize + r.bootstrapToken.length := by
  simp only [encode_eq, length_append, length_singleton, Vector.length_toList, length_toLE,
    length_utf8]
  omega

theorem decodeTier_eq_ok {b tier} : decode.decodeTier b = .ok tier ↔ tier.toByte = b :=
  MeshCertificate.tierAt_eq_ok

/-- Each text fits its length field. -/
def Sized : Prop :=
  r.meshId.utf8ByteSize < 256 ∧ r.nodeId.utf8ByteSize < 256 ∧ r.bootstrapToken.length < 65536

variable {r}

theorem sized_of_decode (h : decode data = .ok r) : r.Sized ∧ Bytes.At data 0 r.encode := by
  simp only [decode, bind_eq_ok, ensure_eq_ok, slice_eq_ok, byteAt_eq_ok, text_eq_ok,
    array_eq_ok, decodeTier_eq_ok] at h
  obtain ⟨-, -, subject, hat₀, meshByte, hat₁, -, -, meshBytes, ⟨hmesh, hat₂⟩, meshId, rfl, nodeByte, hat₃, -, -,
    nodeBytes, ⟨hnode, hat₄⟩, nodeId, rfl, tierByte, hat₅, tier, rfl, tokenLen, ⟨htokenLen, hat₆⟩, -, -, token,
    ⟨htoken, hat₇⟩, time, ⟨htime, hat₈⟩, signature, hat₉, hret⟩ := h
  cases hret
  rw [length_utf8] at hmesh hnode
  have hlt : ofLE tokenLen < 256 ^ tokenLen.reverse.length := ofBE_lt tokenLen.reverse
  rw [length_reverse, htokenLen, ← htoken] at hlt
  have hmeshLt := meshByte.toNat_lt
  have hnodeLt := nodeByte.toNat_lt
  have hsized : Sized ⟨subject, meshId, nodeId, tier, token, ofNat (ofLE time), signature⟩ :=
    ⟨hmesh ▸ hmeshLt, hnode ▸ hnodeLt, hlt⟩
  refine ⟨hsized, ?_⟩
  simp only [encode_eq, at_append, length_singleton, Vector.length_toList, length_utf8, Nat.zero_add,
    hmesh, hnode, UInt8.ofNat_toNat, htoken, toLE_ofLE htokenLen, htokenLen, toLE_ofNat_ofLE htime, htime]
  exact ⟨hat₀, hat₁, hat₂, hat₃, hat₄, hat₅, hat₆, hat₇, hat₈, hat₉⟩

theorem decode_of_at (hmesh : r.meshId.utf8ByteSize < 256) (hnode : r.nodeId.utf8ByteSize < 256)
    (htoken : r.bootstrapToken.length < 65536) (hat : Bytes.At data 0 r.encode) : decode data = .ok r := by
  have hle := hat.le
  rw [length_encode] at hle
  have htokenLen : ofLE (toLE 2 r.bootstrapToken.length) = r.bootstrapToken.length :=
    ofLE_toLE_of_lt htoken
  simp only [encode_eq, at_append, length_singleton, Vector.length_toList, length_toLE,
    length_utf8, Nat.zero_add] at hat
  obtain ⟨hat₀, hat₁, hat₂, hat₃, hat₄, hat₅, hat₆, hat₇, hat₈, hat₉⟩ := hat
  simp only [decode, bind_eq_ok, ensure_eq_ok, slice_eq_ok, byteAt_eq_ok, text_eq_ok,
    array_eq_ok, decodeTier_eq_ok]
  refine ⟨(), by omega, _, hat₀, _, hat₁, ?_⟩
  rw [toNat_ofNat_of_lt hmesh]
  refine ⟨(), by omega, _, ⟨length_utf8 _, hat₂⟩, _, rfl, _, hat₃, ?_⟩
  rw [toNat_ofNat_of_lt hnode]
  refine ⟨(), by omega, _, ⟨length_utf8 _, hat₄⟩, _, rfl, _, hat₅, _, rfl, _,
    ⟨length_toLE _ _, hat₆⟩, ?_⟩
  rw [htokenLen]
  refine ⟨(), by omega, _, ⟨rfl, hat₇⟩, _, ⟨length_toLE _ _, hat₈⟩, _, hat₉, ?_⟩
  rw [ofNat_ofLE_toLE]
  rfl

variable (r)

/-- The names fit their length bytes, and all of it the largest request. -/
def Fits : Prop :=
  r.meshId.utf8ByteSize ≤ 255 ∧ r.nodeId.utf8ByteSize ≤ 255 ∧
    109 + r.meshId.utf8ByteSize + r.nodeId.utf8ByteSize + r.bootstrapToken.length ≤ MAX_REQUEST_SIZE
  deriving Decidable

theorem receiveRequest_frame_iff : receiveRequest (framed r.encode) = .ok r ↔ r.Fits := by
  have hlen := r.length_encode
  constructor
  · intro h
    rw [receiveRequest, bind_eq_ok] at h
    obtain ⟨bytes, hframe, hdecode⟩ := h
    have hmax := le_of_readFrame hframe
    have hsizes : decode bytes = .ok r := by
      split at hdecode <;> simp_all
    obtain ⟨⟨hmesh, hnode, htoken⟩, -⟩ := sized_of_decode hsizes
    rw [Nat.mod_eq_of_lt (by omega), hlen] at hmax
    exact ⟨by omega, by omega, hmax⟩
  · rintro ⟨hmesh, hnode, hmax⟩
    rw [← hlen] at hmax
    have hsmall : r.encode.length ≤ 65536 := hmax
    rw [receiveRequest, readFrame_frame hmax (by omega), ok_bind,
      decode_of_at (by omega) (by omega) (by omega) (at_zero.mpr (prefix_refl _))]

end EnrollmentRequest

def EnrollmentStatus.reason : EnrollmentStatus → String
  | .denied reason => reason
  | .revoked reason => reason
  | _ => ""

namespace EnrollmentResponse

variable {r : EnrollmentResponse} {data : List UInt8} {pos : Nat}

theorem encodeReason_eq (s : EnrollmentStatus) :
    encodeReason s = toLE 2 s.reason.utf8ByteSize ++ utf8 s.reason := by
  cases s <;> rfl

theorem decodeStatus_toByte (s : EnrollmentStatus) : decodeStatus s.toByte s.reason = .ok s := by
  cases s <;> rfl

theorem decodeOptional_of_at {bytes} (flag len what : String)
    (hfits : ∀ b ∈ bytes, b.length < 65536) (hat : Bytes.At data pos (encodeOptional bytes)) :
    decodeOptional data pos flag len what = .ok (bytes, pos + (encodeOptional bytes).length) := by
  have hle := hat.le
  cases bytes with
  | none =>
    have hpos : pos < data.length := by
      simp only [encodeOptional, length_singleton] at hle
      omega
    simp only [decodeOptional, bind_eq_ok, ensure_eq_ok, byteAt_eq_ok]
    exact ⟨(), hpos, 0, hat, rfl⟩
  | some b =>
    have hlen : ofLE (toLE 2 b.length) = b.length := ofLE_toLE_of_lt (hfits b rfl)
    have htotal : (encodeOptional (some b)).length = 1 + 2 + b.length := by
      simp only [encodeOptional, length_append, length_singleton, length_toLE]
      omega
    rw [htotal] at hle ⊢
    simp only [encodeOptional, at_append, length_singleton, length_toLE] at hat
    obtain ⟨hat₀, hat₁, hat₂⟩ := hat
    simp only [decodeOptional, bind_eq_ok, ensure_eq_ok, byteAt_eq_ok]
    refine ⟨(), by omega, 1, hat₀, ?_⟩
    simp only [if_true, bind_eq_ok, ensure_eq_ok, slice_eq_ok]
    refine ⟨(), by omega, _, ⟨length_toLE _ _, hat₁⟩, ?_⟩
    rw [hlen]
    refine ⟨(), by omega, b, ⟨rfl, hat₂⟩, ?_⟩
    rw [← Nat.add_assoc]
    rfl

/-- What a response carries fits the lengths it is written with. -/
structure Fits (r : EnrollmentResponse) : Prop where
  reason : r.status.reason.utf8ByteSize < 65536
  certificate : ∀ c ∈ r.certificate, c.meshId.utf8ByteSize < 256 ∧ c.nodeId.utf8ByteSize < 256
  secret : ∀ b ∈ r.formationSecret, b.length < 65536

theorem decode_of_at (hfits : r.Fits) (hat : Bytes.At data 0 r.encode) : decode data = .ok r := by
  have hle := hat.le
  have hreason : ofLE (toLE 2 r.status.reason.utf8ByteSize) = r.status.reason.utf8ByteSize :=
    ofLE_toLE_of_lt hfits.reason
  have hcert : ∀ b ∈ r.certificate.map (·.encode), b.length < 65536 := by
    intro b hb
    obtain ⟨c, hc, rfl⟩ := mem_map.mp hb
    obtain ⟨hmesh, hnode⟩ := hfits.certificate c hc
    rw [MeshCertificate.length_encode]
    omega
  have hflag : ∀ bytes : Option (List UInt8), 1 ≤ (encodeOptional bytes).length := by
    intro bytes
    cases bytes <;> simp [encodeOptional]
  have hcertFlag := hflag (r.certificate.map (·.encode))
  have hsecretFlag := hflag r.formationSecret
  simp only [encode, encodeReason_eq, length_append, length_singleton, length_toLE,
    length_utf8] at hle
  simp only [encode, encodeReason_eq, append_assoc, at_append, length_singleton, length_toLE,
    length_utf8, Nat.zero_add] at hat
  obtain ⟨hat₀, hat₁, hat₂, hat₃, hat₄, hat₅⟩ := hat
  simp only [decode, bind_eq_ok, ensure_eq_ok, slice_eq_ok, byteAt_eq_ok, text_eq_ok]
  refine ⟨(), by omega, _, hat₀, _, ⟨length_toLE _ _, hat₁⟩, ?_⟩
  rw [hreason]
  refine ⟨(), by omega, _, ⟨length_utf8 _, hat₂⟩, _, rfl, _, decodeStatus_toByte r.status, _,
    decodeOptional_of_at _ _ _ hcert hat₃, r.certificate, ?_, _, decodeOptional_of_at _ _ _ hfits.secret hat₄, (), ?_,
    _, ⟨length_toLE _ _, hat₅⟩, ?_⟩
  · cases hc : r.certificate with
    | none => rfl
    | some c =>
      obtain ⟨hmesh, hnode⟩ := hfits.certificate c hc
      have hdecode := MeshCertificate.decode_of_at hmesh hnode (at_zero.mpr (prefix_refl c.encode))
      rw [map_some, decodeCertificate, hdecode]
      rfl
  · omega
  · rw [ofNat_ofLE_toLE]
    rfl

end EnrollmentResponse

/-! ## From a signed request to a certificate that validates -/

variable (s : StaticEnrollmentService)

/-- The expiry does not overflow, or wraps to 0 unchecked. -/
def WindowFits (now : UInt64) : Prop :=
  now.toNat + s.validityMs.toNat < 2 ^ 64 ∨ overflowChecks = false ∧ now.toNat + s.validityMs.toNat = 2 ^ 64

instance (now : UInt64) :
    Decidable (WindowFits overflowChecks s now) := inferInstanceAs (Decidable (_ ∨ _))

/-- The request is approved, and the response the joiner reads has a certificate for its key and node id that a
bundle trusting the authority accepts and that validates for as long as the service says. -/
structure Enrolls (overflowChecks : Bool) (ed : Ed25519) (s : StaticEnrollmentService) (r : EnrollmentRequest)
    (now handlerNow addedAt : UInt64) : Prop where
  arrives : receiveRequest (framed r.encode) = .ok r
  enrolled : ∃ response written received cert bundle,
    handleEnrollment overflowChecks ed s (framed r.encode) now handlerNow = .answered response written true ∧
    receiveResponse written = .ok received ∧ received.certificate = some cert ∧
    cert.subjectPublicKey = r.subjectPublicKey ∧ cert.nodeId = r.nodeId ∧
    (CertificateBundle.new.addAuthority s.authority.publicKeyBytes).addCertificate ed cert addedAt = .ok bundle ∧
    ∀ t : UInt64, now ≤ t → t.toNat < now.toNat + s.validityMs.toNat →
      bundle.validatePeer ed r.subjectPublicKey t = true

section EndToEnd

variable {overflowChecks : Bool} {ed : Ed25519} {s : StaticEnrollmentService} {r : EnrollmentRequest}
  {now handlerNow addedAt expires : UInt64} {tier : MeshTier} {permissions : UInt8}

theorem StaticEnrollmentService.processRequest_eq (overflowChecks : Bool) (now : UInt64)
    (hsigned : r.verifySignature ed = .ok ())
    (hmesh : r.meshId = s.meshId) (htoken : s.allowedTokens[r.bootstrapToken]? = some (tier, permissions)) :
    s.processRequest overflowChecks ed r now = (s.expiry overflowChecks now).map fun expires =>
      .ok (.approved (s.issue r tier permissions now expires) none now) := by
  simp only [processRequest, hsigned, hmesh, ne_eq, not_true_eq_false, if_false, htoken]

theorem StaticEnrollmentService.verifies_issue (haccepts : ed.Accepts s.authority) :
    (s.issue r tier permissions now expires).verifies ed = true := by
  obtain ⟨hkey, hsig⟩ := haccepts
  have hsigned : ed.verify s.authority.publicKeyBytes (s.issue r tier permissions now expires).signableBytes
      (s.issue r tier permissions now expires).signature = .ok () := hsig _
  rw [MeshCertificate.verifies, MeshCertificate.verify]
  simp only [show (s.issue r tier permissions now expires).issuerPublicKey = s.authority.publicKeyBytes from rfl,
    hkey, hsigned]
  rfl

theorem receiveResponse_approved (tier : MeshTier) (permissions : UInt8) (now expires : UInt64)
    (hmesh : s.meshId.utf8ByteSize ≤ 255) (hnode : r.nodeId.utf8ByteSize ≤ 255) :
    ∃ written, sendResponse (.approved (s.issue r tier permissions now expires) none now) =
        .answered (.approved (s.issue r tier permissions now expires) none now) written true ∧
      receiveResponse written = .ok (.approved (s.issue r tier permissions now expires) none now) := by
  generalize hcert : s.issue r tier permissions now expires = cert
  have hcertMesh : cert.meshId = s.meshId := by rw [← hcert]; rfl
  have hcertNode : cert.nodeId = r.nodeId := by rw [← hcert]; rfl
  have hfits : (approved cert none now).Fits := by
    have hreason : "".utf8ByteSize < 65536 := by decide
    refine ⟨hreason, ?_, by simp [approved]⟩
    intro c hc
    cases hc
    rw [hcertMesh, hcertNode]
    omega
  have hlen : (approved cert none now).encode.length ≤ MAX_RESPONSE_SIZE := by
    have hclen := cert.length_encode
    rw [hcertMesh, hcertNode] at hclen
    simp only [approved, encode, encodeReason,
      encodeOptional, map_some, length_append, length_singleton,
      length_toLE, hclen, MAX_RESPONSE_SIZE]
    omega
  have hsmall : (approved cert none now).encode.length ≤ 65536 := hlen
  refine ⟨framed (approved cert none now).encode, ?_, ?_⟩
  · rw [sendResponse, if_neg (Nat.not_lt.mpr hlen)]
    rfl
  · rw [receiveResponse, readFrame_frame hlen (by omega), ok_bind,
      decode_of_at hfits (at_zero.mpr (prefix_refl _))]

theorem addCertificate_issue (haccepts : ed.Accepts s.authority) :
    (CertificateBundle.new.addAuthority s.authority.publicKeyBytes).addCertificate ed
        (s.issue r tier permissions now expires) addedAt =
      .ok ((CertificateBundle.new.addAuthority s.authority.publicKeyBytes).addCertificateUnchecked
        (s.issue r tier permissions now expires)) := by
  rw [addCertificate_eq_ok]
  refine ⟨verifies_issue haccepts, .inr ?_, rfl⟩
  rw [isTrustedIssuer_iff]
  exact .inl (mem_authorities_addAuthority.mpr (.inl rfl))

theorem validatePeer_issue (haccepts : ed.Accepts s.authority) {b : CertificateBundle} (t : UInt64) :
    (b.addCertificateUnchecked (s.issue r tier permissions now expires)).validatePeer ed r.subjectPublicKey t = true ↔
      now ≤ t ∧ (expires = 0 ∨ t < expires) := by
  have hget : (b.addCertificateUnchecked (s.issue r tier permissions now expires)).certificates[r.subjectPublicKey]? =
      some (s.issue r tier permissions now expires) := by
    rw [getElem?_addCertificateUnchecked]
    exact if_pos rfl
  have hver : (s.issue r tier permissions now expires).verifies ed = true :=
    verifies_issue haccepts
  have hvalid : (s.issue r tier permissions now expires).isValid t = true ↔ now ≤ t ∧ (expires = 0 ∨ t < expires) :=
    MeshCertificate.isValid_iff
  rw [validatePeer_iff, ← hvalid]
  constructor
  · rintro ⟨c, hc, hv, -⟩
    rw [hget] at hc
    cases hc
    exact hv
  · intro hv
    exact ⟨_, hget, hv, hver⟩

theorem StaticEnrollmentService.expiry_eq_some : s.expiry overflowChecks now = some expires ↔
    (overflowChecks = true → now.toNat + s.validityMs.toNat < 2 ^ 64) ∧ expires = now + s.validityMs := by
  unfold expiry
  split
  · rename_i h
    simp only [reduceCtorEq, false_iff]
    rintro ⟨hlt, -⟩
    have hsum := hlt h.1
    omega
  · rename_i h
    rw [some.injEq, @eq_comm _ expires]
    refine (and_iff_right ?_).symm
    intro hchecks
    by_contra hge
    exact h ⟨hchecks, by omega⟩

theorem window_iff (hexpires : s.expiry overflowChecks now = some expires) :
    (∀ t : UInt64, now ≤ t → t.toNat < now.toNat + s.validityMs.toNat → expires = 0 ∨ t < expires) ↔
      WindowFits overflowChecks s now := by
  obtain ⟨hchecks, rfl⟩ := expiry_eq_some.mp hexpires
  have hnow := now.toNat_lt
  have hvalidity := s.validityMs.toNat_lt
  have hsum : (now + s.validityMs).toNat = (now.toNat + s.validityMs.toNat) % 2 ^ 64 := UInt64.toNat_add _ _
  constructor
  · intro h
    by_cases hlt : now.toNat + s.validityMs.toNat < 2 ^ 64
    · exact .inl hlt
    -- the sum has wrapped to before the time of issue, or to zero
    have hoff : overflowChecks = false := by
      by_contra hon
      exact hlt (hchecks (by simpa using hon))
    refine .inr ⟨hoff, ?_⟩
    rcases h now (UInt64.le_refl now) (by omega) with hzero | hbefore
    · rw [hzero] at hsum
      have hmod : (0 : UInt64).toNat = 0 := rfl
      omega
    · rw [lt_iff_toNat_lt] at hbefore
      omega
  · rintro (hlt | ⟨-, heq⟩) t - htime
    · right
      rw [lt_iff_toNat_lt]
      omega
    · left
      rw [← UInt64.toNat_inj, hsum, heq]
      rfl

theorem Enrolls.fits (h : Enrolls overflowChecks ed s r now handlerNow addedAt) (haccepts : ed.Accepts s.authority)
    (hsigned : r.verifySignature ed = .ok ()) (hmesh : r.meshId = s.meshId)
    (htoken : s.allowedTokens[r.bootstrapToken]? = some (tier, permissions)) :
    r.Fits ∧ WindowFits overflowChecks s now := by
  obtain ⟨harrives, response, written, received, cert, bundle, hhandle, hreceive, hcert, -, -, hadd, hwindow⟩ := h
  have hfits := (EnrollmentRequest.receiveRequest_frame_iff r).mp harrives
  refine ⟨hfits, ?_⟩
  rw [handleEnrollment, harrives] at hhandle
  simp only [processRequest_eq overflowChecks now hsigned hmesh htoken] at hhandle
  cases hexpires : s.expiry overflowChecks now with
  | none => simp [hexpires] at hhandle
  | some expires =>
    simp only [hexpires, map_some] at hhandle
    -- what was sent is what is received, and added
    obtain ⟨written', hsend, hback⟩ :=
      receiveResponse_approved tier permissions now expires (hmesh ▸ hfits.1) hfits.2.1
    rw [hsend] at hhandle
    cases hhandle
    rw [hback] at hreceive
    cases hreceive
    cases hcert
    rw [addCertificate_issue haccepts] at hadd
    cases hadd
    refine (window_iff hexpires).mp ?_
    intro t hle hlt
    exact ((validatePeer_issue haccepts t).mp (hwindow t hle hlt)).2

theorem enrolls_of_fits (haccepts : ed.Accepts s.authority) (hsigned : r.verifySignature ed = .ok ())
    (hmesh : r.meshId = s.meshId) (htoken : s.allowedTokens[r.bootstrapToken]? = some (tier, permissions))
    (hfits : r.Fits) (hwindow : WindowFits overflowChecks s now) :
    Enrolls overflowChecks ed s r now handlerNow addedAt := by
  have harrives := (EnrollmentRequest.receiveRequest_frame_iff r).mpr hfits
  have hchecks : overflowChecks = true → now.toNat + s.validityMs.toNat < 2 ^ 64 := by
    rintro rfl
    exact hwindow.resolve_right (by simp)
  have hexpires := expiry_eq_some.mpr ⟨hchecks, rfl⟩
  obtain ⟨written, hsend, hback⟩ :=
    receiveResponse_approved tier permissions now (now + s.validityMs) (hmesh ▸ hfits.1) hfits.2.1
  have hhandle : handleEnrollment overflowChecks ed s (framed r.encode) now handlerNow =
      .answered (.approved (s.issue r tier permissions now (now + s.validityMs)) none now) written true := by
    rw [handleEnrollment, harrives]
    simp only [processRequest_eq overflowChecks now hsigned hmesh htoken, hexpires,
      map_some]
    exact hsend
  refine ⟨harrives, _, written, _, _, _, hhandle, hback, rfl, rfl, rfl, addCertificate_issue haccepts, ?_⟩
  intro t hle hlt
  exact (validatePeer_issue haccepts t).mpr ⟨hle, (window_iff hexpires).mpr hwindow t hle hlt⟩

/-- A signed request of the mesh with a known token ends in a certificate that validates for its window exactly when
the request fits its message and the window the clock. -/
theorem enrollment_iff (overflowChecks : Bool) (ed : Ed25519) (s : StaticEnrollmentService) (r : EnrollmentRequest)
    (now handlerNow addedAt : UInt64) (haccepts : ed.Accepts s.authority) (hsigned : r.verifySignature ed = .ok ())
    (hmesh : r.meshId = s.meshId) (htoken : r.bootstrapToken ∈ s.allowedTokens) :
    Enrolls overflowChecks ed s r now handlerNow addedAt ↔ r.Fits ∧ WindowFits overflowChecks s now := by
  obtain ⟨⟨tier, permissions⟩, hknown⟩ := isSome_iff_exists.mp
    (Std.ExtTreeMap.isSome_getElem?_iff_mem.mpr htoken)
  constructor
  · intro h
    exact h.fits haccepts hsigned hmesh hknown
  · rintro ⟨hfits, hwindow⟩
    exact enrolls_of_fits haccepts hsigned hmesh hknown hfits hwindow

def acceptingEd25519 : Ed25519 where
  fromBytes _ := .ok ()
  verify _ _ _ := .ok ()

def smallService (validityMs : UInt64) : StaticEnrollmentService where
  authority := ⟨Vector.replicate 32 1, fun _ => Vector.replicate 64 0⟩
  meshId := "m"
  allowedTokens := (∅ : Std.ExtTreeMap (List UInt8) (MeshTier × UInt8)).insert [7] (.edge, 0)
  validityMs := validityMs

def smallRequest (nodeId : String) : EnrollmentRequest where
  subjectPublicKey := Vector.replicate 32 2
  meshId := "m"
  nodeId := nodeId
  requestedTier := .edge
  bootstrapToken := [7]
  timestampMs := 0
  signature := Vector.replicate 64 0

theorem smallRequest_enrolls : Enrolls true acceptingEd25519 (smallService 3600000) (smallRequest "b") 1000 1000 2000 :=
  (enrollment_iff true acceptingEd25519 (smallService 3600000) (smallRequest "b") 1000 1000 2000
    ⟨rfl, fun _ => rfl⟩ rfl rfl (by decide +kernel)).mpr ⟨by decide +kernel, by decide +kernel⟩

/-- A node id of 256 bytes does not arrive. A validity of the largest number
panics, or is over before it starts. -/
theorem enrollment_fails :
    ¬Enrolls false acceptingEd25519 (smallService 3600000) (smallRequest (String.ofList (List.replicate 256 'b')))
      1000 1000 2000 ∧
    ¬Enrolls true acceptingEd25519 (smallService 18446744073709551615) (smallRequest "b") 1000 1000 2000 ∧
    ¬Enrolls false acceptingEd25519 (smallService 18446744073709551615) (smallRequest "b") 1000 1000 2000 := by
  have haccepts : ∀ v, acceptingEd25519.Accepts (smallService v).authority := fun _ => ⟨rfl, fun _ => rfl⟩
  have htoken : ∀ v, (smallService v).allowedTokens[([7] : List UInt8)]? = some (MeshTier.edge, (0 : UInt8)) := by
    intro v
    simp [smallService]
  refine ⟨?_, ?_, ?_⟩ <;> intro h
  · exact absurd (h.fits (haccepts _) rfl rfl (htoken _)).1 (by decide +kernel)
  all_goals exact absurd (h.fits (haccepts _) rfl rfl (htoken _)).2 (by decide +kernel)

end EndToEnd

end PeatMesh
