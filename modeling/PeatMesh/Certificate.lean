/-
Mesh certificates and the bundle a node keeps of them
(`security/certificate.rs`). `Ed25519` is what is called of that package;
everything here is for any such functions.
-/
import Std.Data.ExtTreeMap
import PeatMesh.Bytes

namespace PeatMesh

open Bytes

/-- An Ed25519 public key, 32 bytes. -/
abbrev PublicKey := Vector UInt8 32

abbrev Signature := Vector UInt8 64

open List

/-- `VerifyingKey::from_bytes` and `VerifyingKey::verify`, an error as its
text. -/
structure Ed25519 where
  fromBytes : PublicKey → Except String Unit
  verify : PublicKey → List UInt8 → Signature → Except String Unit

/-- `SecurityError`, the variants certificates meet. -/
inductive SecurityError
  | invalidPublicKey (text : String)
  | invalidSignature (text : String)
  | certificateError (text : String)
  | serializationError (text : String)
  deriving DecidableEq, Repr

inductive MeshTier
  | enterprise
  | regional
  | tactical
  | edge
  deriving DecidableEq, Repr

def MeshTier.toByte : MeshTier → UInt8
  | .enterprise => 0
  | .regional => 1
  | .tactical => 2
  | .edge => 3

def MeshTier.fromByte (b : UInt8) : Option MeshTier :=
  if b = 0 then some .enterprise
  else if b = 1 then some .regional
  else if b = 2 then some .tactical
  else if b = 3 then some .edge
  else none

theorem MeshTier.fromByte_toByte (t : MeshTier) : MeshTier.fromByte t.toByte = some t := by
  cases t <;> rfl

def MeshTier.asStr : MeshTier → String
  | .enterprise => "Enterprise"
  | .regional => "Regional"
  | .tactical => "Tactical"
  | .edge => "Edge"

def ENROLL : UInt8 := 0b00000100

structure MeshCertificate where
  subjectPublicKey : PublicKey
  meshId : String
  nodeId : String
  tier : MeshTier
  permissions : UInt8
  issuedAtMs : UInt64
  expiresAtMs : UInt64
  issuerPublicKey : PublicKey
  signature : Signature
  deriving DecidableEq, Repr

namespace MeshCertificate

variable (c : MeshCertificate)

def signableBytes : List UInt8 :=
  c.subjectPublicKey.toList ++ UInt8.ofNat c.meshId.utf8ByteSize :: c.meshId.toUTF8.data.toList ++
    UInt8.ofNat c.nodeId.utf8ByteSize :: c.nodeId.toUTF8.data.toList ++ [c.tier.toByte, c.permissions] ++
    toLE 8 c.issuedAtMs.toNat ++ toLE 8 c.expiresAtMs.toNat ++ c.issuerPublicKey.toList

def encode : List UInt8 := c.signableBytes ++ c.signature.toList

def decode (data : List UInt8) : Except (Bytes.Failure SecurityError) MeshCertificate := do
  if data.length < 148 then
    throw (.error (.serializationError
      ("certificate too short: " ++ toString data.length ++ " bytes (min 148)")))
  let subjectPublicKey ← array data 0 32
  let meshIdLen := (← byteAt data 32).toNat
  if data.length ≤ 33 + meshIdLen then
    throw (.error (.serializationError "certificate truncated at mesh_id"))
  let some meshId := String.fromUTF8? ⟨(← slice data 33 meshIdLen).toArray⟩
    | throw (.error (.serializationError "invalid mesh_id: "))
  let pos := 33 + meshIdLen
  let nodeIdLen := (← byteAt data pos).toNat
  if data.length < pos + 1 + nodeIdLen + 1 + 1 + 8 + 8 + 32 + 64 then
    throw (.error (.serializationError "certificate truncated at node_id"))
  let some nodeId := String.fromUTF8? ⟨(← slice data (pos + 1) nodeIdLen).toArray⟩
    | throw (.error (.serializationError "invalid node_id: "))
  let pos := pos + 1 + nodeIdLen
  let some tier := MeshTier.fromByte (← byteAt data pos)
    | throw (.error (.serializationError "invalid tier byte"))
  return {
    subjectPublicKey, meshId, nodeId, tier
    permissions := ← byteAt data (pos + 1)
    issuedAtMs := UInt64.ofNat (ofLE (← slice data (pos + 2) 8))
    expiresAtMs := UInt64.ofNat (ofLE (← slice data (pos + 10) 8))
    issuerPublicKey := ← array data (pos + 18) 32
    signature := ← array data (pos + 50) 64 }

def verify (ed : Ed25519) (c : MeshCertificate) : Except SecurityError Unit :=
  match ed.fromBytes c.issuerPublicKey with
  | .error e => .error (.invalidPublicKey e)
  | .ok _ =>
    match ed.verify c.issuerPublicKey c.signableBytes c.signature with
    | .error e => .error (.invalidSignature e)
    | .ok _ => .ok ()

def verifies (ed : Ed25519) (c : MeshCertificate) : Bool := (c.verify ed).isOk

def isRoot : Bool := c.subjectPublicKey = c.issuerPublicKey

def isValid (nowMs : UInt64) : Bool :=
  c.issuedAtMs ≤ nowMs && (c.expiresAtMs = 0 || nowMs < c.expiresAtMs)

def usable (ed : Ed25519) (c : MeshCertificate) : Bool :=
  c.verifies ed && (c.expiresAtMs = 0 || c.issuedAtMs < c.expiresAtMs)

def hasPermission (perm : UInt8) : Bool := c.permissions &&& perm = perm

theorem isValid_iff {c : MeshCertificate} {nowMs} :
    c.isValid nowMs = true ↔ c.issuedAtMs ≤ nowMs ∧ (c.expiresAtMs = 0 ∨ nowMs < c.expiresAtMs) := by
  simp only [isValid, Bool.and_eq_true, Bool.or_eq_true, decide_eq_true_eq]

theorem usable_iff {ed} {c : MeshCertificate} :
    c.usable ed = true ↔ ∃ nowMs, (c.isValid nowMs && c.verifies ed) = true := by
  simp only [usable, isValid, Bool.and_eq_true, Bool.or_eq_true, decide_eq_true_eq]
  constructor
  · rintro ⟨hver, hwindow⟩
    exact ⟨c.issuedAtMs, ⟨UInt64.le_refl _, hwindow⟩, hver⟩
  · rintro ⟨nowMs, ⟨hle, hwindow⟩, hver⟩
    exact ⟨hver, hwindow.imp_right fun hlt => UInt64.lt_of_le_of_lt hle hlt⟩

theorem verify_of_verifies {ed} {c : MeshCertificate} (h : c.verifies ed = true) :
    ed.verify c.issuerPublicKey c.signableBytes c.signature = .ok () := by
  unfold verifies verify at h
  split at h
  · simp [Except.isOk, Except.toBool] at h
  · split at h
    · simp [Except.isOk, Except.toBool] at h
    · assumption

theorem encode_eq : c.encode =
    c.subjectPublicKey.toList ++ ([UInt8.ofNat c.meshId.utf8ByteSize] ++ (utf8 c.meshId ++
      ([UInt8.ofNat c.nodeId.utf8ByteSize] ++ (utf8 c.nodeId ++ ([c.tier.toByte] ++ ([c.permissions] ++
        (toLE 8 c.issuedAtMs.toNat ++ (toLE 8 c.expiresAtMs.toNat ++ (c.issuerPublicKey.toList ++
          c.signature.toList))))))))) := by
  simp only [encode, signableBytes, utf8, append_assoc, cons_append, nil_append]

theorem length_encode : c.encode.length = 148 + c.meshId.utf8ByteSize + c.nodeId.utf8ByteSize := by
  simp only [encode_eq, length_append, length_singleton, Vector.length_toList, length_toLE,
    length_utf8]
  omega

def tierAt (b : UInt8) : Except (Bytes.Failure SecurityError) MeshTier :=
  match MeshTier.fromByte b with
  | some tier => .ok tier
  | none => .error (.error (.serializationError "invalid tier byte"))

theorem decode_eq (data : List UInt8) : decode data = (do
    ensure (148 ≤ data.length)
      (.serializationError ("certificate too short: " ++ toString data.length ++ " bytes (min 148)"))
    let subjectPublicKey ← array data 0 32
    let meshIdLen ← byteAt data 32
    ensure (33 + meshIdLen.toNat < data.length) (.serializationError "certificate truncated at mesh_id")
    let meshId ← text (← slice data 33 meshIdLen.toNat) (.serializationError "invalid mesh_id: ")
    let nodeIdLen ← byteAt data (33 + meshIdLen.toNat)
    let pos := 33 + meshIdLen.toNat + 1 + nodeIdLen.toNat
    ensure (pos + 1 + 1 + 8 + 8 + 32 + 64 ≤ data.length)
      (.serializationError "certificate truncated at node_id")
    let nodeId ← text (← slice data (33 + meshIdLen.toNat + 1) nodeIdLen.toNat)
      (.serializationError "invalid node_id: ")
    let tier ← tierAt (← byteAt data pos)
    let permissions ← byteAt data (pos + 1)
    let issuedAtMs ← slice data (pos + 2) 8
    let expiresAtMs ← slice data (pos + 10) 8
    let issuerPublicKey ← array data (pos + 18) 32
    let signature ← array data (pos + 50) 64
    return ⟨subjectPublicKey, meshId, nodeId, tier, permissions, UInt64.ofNat (ofLE issuedAtMs),
      UInt64.ofNat (ofLE expiresAtMs), issuerPublicKey, signature⟩) := by
  unfold decode
  by_cases hlong : data.length < 148
  · rw [if_pos hlong, ensure, if_neg (by omega)]
    rfl
  rw [if_neg hlong, ensure, if_pos (by omega)]
  refine congrArg _ (funext fun subject => congrArg _ (funext fun meshByte => ?_))
  by_cases hmesh : data.length ≤ 33 + meshByte.toNat
  · rw [if_pos hmesh, ensure, if_neg (by omega)]
    rfl
  rw [if_neg hmesh, ensure, if_pos (by omega)]
  refine congrArg _ (funext fun meshBytes => ?_)
  unfold text
  cases String.fromUTF8? ⟨meshBytes.toArray⟩ with
  | none => rfl
  | some meshId =>
  dsimp only
  refine congrArg _ (funext fun nodeByte => ?_)
  by_cases hnode : data.length < 33 + meshByte.toNat + 1 + nodeByte.toNat + 1 + 1 + 8 + 8 + 32 + 64
  · rw [if_pos hnode, ensure, if_neg (by omega)]
    rfl
  rw [if_neg hnode, ensure, if_pos (by omega)]
  refine congrArg _ (funext fun nodeBytes => ?_)
  cases String.fromUTF8? ⟨nodeBytes.toArray⟩ with
  | none => rfl
  | some nodeId =>
  dsimp only
  refine congrArg _ (funext fun tierByte => ?_)
  unfold tierAt
  cases MeshTier.fromByte tierByte with
  | none => rfl
  | some tier => rfl

theorem tierAt_eq_ok {b tier} : tierAt b = .ok tier ↔ tier.toByte = b := by
  unfold tierAt
  constructor
  · intro h
    unfold MeshTier.fromByte at h
    split_ifs at h <;> cases h <;> simp_all [MeshTier.toByte]
  · rintro rfl
    rw [MeshTier.fromByte_toByte]

/-- The names fit their length bytes. -/
def NamesFit : Prop := c.meshId.utf8ByteSize < 256 ∧ c.nodeId.utf8ByteSize < 256
  deriving Decidable

variable {c : MeshCertificate} {data : List UInt8}

theorem namesFit_of_decode (h : decode data = .ok c) : c.NamesFit ∧ Bytes.At data 0 c.encode := by
  simp only [decode_eq, bind_eq_ok, ensure_eq_ok, slice_eq_ok, byteAt_eq_ok, text_eq_ok,
    array_eq_ok, tierAt_eq_ok] at h
  obtain ⟨-, -, subject, hat₀, meshByte, hat₁, -, -, meshBytes, ⟨hmesh, hat₂⟩, meshId, rfl, nodeByte, hat₃, -, -,
    nodeBytes, ⟨hnode, hat₄⟩, nodeId, rfl, tierByte, hat₅, tier, rfl, permissions, hat₆, issued, ⟨hissued, hat₇⟩,
    expires, ⟨hexpires, hat₈⟩, issuer, hat₉, signature, hat₁₀, hret⟩ := h
  cases hret
  rw [length_utf8] at hmesh hnode
  have hfits : meshId.utf8ByteSize < 256 ∧ nodeId.utf8ByteSize < 256 := by
    rw [hmesh, hnode]
    exact ⟨meshByte.toNat_lt, nodeByte.toNat_lt⟩
  refine ⟨hfits, ?_⟩
  simp only [encode_eq, at_append, length_singleton, Vector.length_toList, length_utf8, Nat.zero_add,
    hmesh, hnode, UInt8.ofNat_toNat, toLE_ofNat_ofLE hissued, toLE_ofNat_ofLE hexpires, hissued, hexpires]
  exact ⟨hat₀, hat₁, hat₂, hat₃, hat₄, hat₅, hat₆, hat₇, hat₈, hat₉, hat₁₀⟩

theorem decode_of_at (hmesh : c.meshId.utf8ByteSize < 256) (hnode : c.nodeId.utf8ByteSize < 256)
    (hat : Bytes.At data 0 c.encode) : decode data = .ok c := by
  have hle := hat.le
  rw [length_encode] at hle
  simp only [encode_eq, at_append, length_singleton, Vector.length_toList, length_toLE,
    length_utf8, Nat.zero_add] at hat
  obtain ⟨hat₀, hat₁, hat₂, hat₃, hat₄, hat₅, hat₆, hat₇, hat₈, hat₉, hat₁₀⟩ := hat
  simp only [decode_eq, bind_eq_ok, ensure_eq_ok, slice_eq_ok, byteAt_eq_ok, text_eq_ok,
    array_eq_ok, tierAt_eq_ok]
  refine ⟨(), by omega, _, hat₀, _, hat₁, ?_⟩
  rw [toNat_ofNat_of_lt hmesh]
  refine ⟨(), by omega, _, ⟨length_utf8 _, hat₂⟩, _, rfl, _, hat₃, ?_⟩
  rw [toNat_ofNat_of_lt hnode]
  refine ⟨(), by omega, _, ⟨length_utf8 _, hat₄⟩, _, rfl, _, hat₅, _, rfl, _, hat₆, _,
    ⟨length_toLE _ _, hat₇⟩, _, ⟨length_toLE _ _, hat₈⟩, _, hat₉, _, hat₁₀, ?_⟩
  rw [ofNat_ofLE_toLE, ofNat_ofLE_toLE]
  rfl

theorem decode_eq_ok : decode data = .ok c ↔ c.NamesFit ∧ Bytes.At data 0 c.encode := by
  refine ⟨namesFit_of_decode, ?_⟩
  rintro ⟨⟨hmesh, hnode⟩, hat⟩
  exact decode_of_at hmesh hnode hat

end MeshCertificate

structure CertificateBundle where
  authorities : List PublicKey
  certificates : Std.ExtTreeMap PublicKey MeshCertificate
  nodeIdIndex : Std.ExtTreeMap String PublicKey
  /-- A certificate is kept under its subject's key. -/
  keyed : ∀ (key : PublicKey) (c : MeshCertificate), certificates[key]? = some c → c.subjectPublicKey = key

namespace CertificateBundle

def new : CertificateBundle := ⟨[], ∅, ∅, by simp⟩

variable (b : CertificateBundle) (ed : Ed25519) (key : PublicKey)

def addAuthority : CertificateBundle :=
  if key ∈ b.authorities then b else { b with authorities := b.authorities ++ [key] }

def addCertificateUnchecked (c : MeshCertificate) : CertificateBundle where
  authorities := b.authorities
  certificates := b.certificates.insert c.subjectPublicKey c
  nodeIdIndex := if c.nodeId = "" then b.nodeIdIndex else b.nodeIdIndex.insert c.nodeId c.subjectPublicKey
  keyed := by
    intro key c' h
    simp only [Std.ExtTreeMap.getElem?_insert, Std.compare_eq_iff_eq] at h
    split at h
    · cases h; assumption
    · exact b.keyed key c' h

variable (nowMs : UInt64)

def isTrustedIssuer : Bool :=
  if key ∈ b.authorities then true
  else
    match b.certificates[key]? with
    | some c => c.hasPermission ENROLL && c.isValid nowMs && c.verifies ed
    | none => false

def addCertificate (c : MeshCertificate) (nowMs : UInt64) : Except SecurityError CertificateBundle :=
  match c.verify ed with
  | .error e => .error e
  | .ok _ =>
    if !c.isRoot && !b.isTrustedIssuer ed c.issuerPublicKey nowMs then
      .error (.certificateError "issuer not in trusted authorities and has no ENROLL delegation")
    else .ok (b.addCertificateUnchecked c)

def validatePeer : Bool :=
  match b.certificates[key]? with
  | some c => c.isValid nowMs && c.verifies ed
  | none => false

def getCertificate : Option MeshCertificate := b.certificates[key]?

def getCertificateByNodeId (nodeId : String) : Option MeshCertificate :=
  b.nodeIdIndex[nodeId]?.bind fun key => b.certificates[key]?

def validateNodeId (nodeId : String) (nowMs : UInt64) : Bool :=
  match b.getCertificateByNodeId nodeId with
  | some c => c.isValid nowMs && c.verifies ed
  | none => false

def removeExpired : CertificateBundle × Nat :=
  let kept := b.certificates.filter fun _ c => c.isValid nowMs
  let gone := b.certificates.filter fun _ c => !c.isValid nowMs
  ({ authorities := b.authorities
     certificates := kept
     nodeIdIndex := gone.toList.foldl (fun index e =>
       if e.2.nodeId = "" then index else index.erase e.2.nodeId) b.nodeIdIndex
     keyed := by
       intro key c h
       simp only [kept, Std.ExtTreeMap.getElem?_filter', Option.filter_eq_some_iff] at h
       exact b.keyed key c h.1 },
   b.certificates.size - kept.size)

/-! ## What the operations leave in the bundle -/

variable {b b' : CertificateBundle} {ed : Ed25519} {c : MeshCertificate} {key : PublicKey} {nowMs : UInt64}

theorem certificates_addAuthority : (b.addAuthority key).certificates = b.certificates := by
  unfold addAuthority
  split <;> rfl

theorem mem_authorities_addAuthority {key'} :
    key' ∈ (b.addAuthority key).authorities ↔ key' = key ∨ key' ∈ b.authorities := by
  unfold addAuthority
  split
  · constructor
    · exact .inr
    · rintro (rfl | h') <;> assumption
  · simp [or_comm]

theorem getElem?_addCertificateUnchecked {key'} :
    (b.addCertificateUnchecked c).certificates[key']? =
      if c.subjectPublicKey = key' then some c else b.certificates[key']? := by
  simp [addCertificateUnchecked, Std.ExtTreeMap.getElem?_insert]

theorem addCertificate_eq_ok : b.addCertificate ed c nowMs = .ok b' ↔
    c.verifies ed = true ∧ (c.isRoot = true ∨ b.isTrustedIssuer ed c.issuerPublicKey nowMs = true) ∧
      b' = b.addCertificateUnchecked c := by
  unfold addCertificate MeshCertificate.verifies
  cases c.verify ed with
  | error e => simp [Except.isOk, Except.toBool]
  | ok u =>
    cases c.isRoot <;> cases b.isTrustedIssuer ed c.issuerPublicKey nowMs <;>
      simp [Except.isOk, Except.toBool, eq_comm]

theorem isTrustedIssuer_iff : b.isTrustedIssuer ed key nowMs = true ↔
    key ∈ b.authorities ∨ ∃ c, b.certificates[key]? = some c ∧ c.hasPermission ENROLL = true ∧
      c.isValid nowMs = true ∧ c.verifies ed = true := by
  unfold isTrustedIssuer
  split
  · rename_i h; simp [h]
  · rename_i h
    cases hc : b.certificates[key]? <;> simp [h, and_assoc]

theorem validatePeer_iff : b.validatePeer ed key nowMs = true ↔
    ∃ c, b.certificates[key]? = some c ∧ c.isValid nowMs = true ∧ c.verifies ed = true := by
  unfold validatePeer
  cases b.certificates[key]? <;> simp

theorem validatePeer_eq_false_iff : (∀ nowMs, b.validatePeer ed key nowMs = false) ↔
    ∀ c, b.getCertificate key = some c → c.usable ed = false := by
  simp only [validatePeer, getCertificate]
  cases b.certificates[key]? with
  | none => simp
  | some c =>
    simp only [Option.some.injEq, forall_eq', ← Bool.not_eq_true, MeshCertificate.usable_iff, not_exists]

theorem of_getElem?_removeExpired (h : (b.removeExpired nowMs).1.certificates[key]? = some c) :
    b.certificates[key]? = some c := by
  simp only [removeExpired, Std.ExtTreeMap.getElem?_filter', Option.filter_eq_some_iff] at h
  exact h.1

end CertificateBundle

end PeatMesh
