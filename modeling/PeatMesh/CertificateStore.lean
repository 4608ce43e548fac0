/-
The certificate store (`storage/certificate_store.rs`): certificates and
revocations as documents of two collections that every node writes, and the
bundle reloaded as changes arrive. Hex and base64 are functions; the order of a
scan and the clock of each certificate are part of a call's label.
-/
import PeatMesh.Store
import PeatMesh.Certificate

namespace PeatMesh

structure Codecs where
  hexEncode : List UInt8 → String
  hexDecode : String → Option (List UInt8)
  base64Encode : List UInt8 → String
  base64Decode : String → Option (List UInt8)

structure CertificateEntry where
  certData : String
  nodeId : String
  tier : String
  subject : String
  issuer : String
  permissions : UInt8
  expiresAtMs : UInt64
  writtenAtMs : UInt64
  deriving DecidableEq, Repr

structure RevocationEntry where
  subject : String
  reason : String
  timestampMs : UInt64
  deriving DecidableEq, Repr

def CertificateEntry.fromCertificate (codecs : Codecs) (cert : MeshCertificate) (nowMs : UInt64) :
    CertificateEntry where
  certData := codecs.base64Encode cert.encode
  nodeId := cert.nodeId
  tier := cert.tier.asStr
  subject := codecs.hexEncode cert.subjectPublicKey.toList
  issuer := codecs.hexEncode cert.issuerPublicKey.toList
  permissions := cert.permissions
  expiresAtMs := cert.expiresAtMs
  writtenAtMs := nowMs

def CertificateEntry.toCertificate (codecs : Codecs) (entry : CertificateEntry) : Option MeshCertificate :=
  (codecs.base64Decode entry.certData).bind fun bytes => (MeshCertificate.decode bytes).toOption

/-- `CertificateStore`: the documents of the two collections by their ids,
`none` for one that does not deserialize, and the bundle. -/
structure CertificateStore where
  certificates : Table (Option CertificateEntry)
  revocations : Table (Option RevocationEntry)
  bundle : CertificateBundle

namespace CertificateStore

def entry {ν : Type} (collection : Table (Option ν)) (id : String) : Option ν := collection[id]?.join

variable (st : CertificateStore)

def loadRevocationSet : List String := st.revocations.values.filterMap fun e => e.map (·.subject)

def new (certificates : Table (Option CertificateEntry)) (revocations : Table (Option RevocationEntry))
    (trustedAuthorities : List PublicKey) : CertificateStore :=
  ⟨certificates, revocations, trustedAuthorities.foldl .addAuthority .new⟩

variable (ed : Ed25519)

def offer (b : CertificateBundle) (cert : MeshCertificate) (nowMs : UInt64) : CertificateBundle :=
  match b.addCertificate ed cert nowMs with
  | .ok b' => b'
  | .error _ => b

variable (codecs : Codecs)

def reload (revoked : List String) (b : CertificateBundle)
    (scan : List (CertificateEntry × UInt64)) : CertificateBundle :=
  scan.foldl (fun b e =>
    if e.1.subject ∈ revoked then b
    else
      match e.1.toCertificate codecs with
      | some cert => offer ed b cert e.2
      | none => b) b

def entries : List CertificateEntry := st.certificates.values.filterMap id

variable (scan : List (CertificateEntry × UInt64))

/-- The scan has the entries of the store, in some order. -/
def IsScan : Prop :=
  (scan.map (·.1)).Perm st.entries
  deriving Decidable

/-- A call on the store, or a write that sync brings. A `scan` of `none` is one that failed, `stored` and `read` say
whether the store call succeeded. -/
inductive Call
  | publishCertificate (cert : MeshCertificate) (nowMs : UInt64) (stored : Bool)
  | publishRevocation (key : PublicKey) (reason : String) (nowMs : UInt64) (stored : Bool)
  | loadAll (scan : Option (List (CertificateEntry × UInt64)))
  | handleCertChange (id : String) (nowMs : UInt64) (read : Bool)
  | handleRevocationChange (id : String) (scan : Option (List (CertificateEntry × UInt64)))
  /-- Another node writes a certificate document, or deletes it. -/
  | remoteCertificate (id : String) (doc : Option (Option CertificateEntry))
  /-- Another node writes a revocation document. -/
  | remoteRevocation (id : String) (doc : Option RevocationEntry)

def reloaded (st : CertificateStore) :
    Option (List (CertificateEntry × UInt64)) → Option CertificateStore
  | none => some st
  | some scan =>
    if st.IsScan scan then some { st with bundle := reload ed codecs st.loadRevocationSet st.bundle scan } else none

def revokedKey (e : RevocationEntry) : Option PublicKey :=
  (codecs.hexDecode e.subject).bind fun bytes =>
    if h : bytes.length = 32 then some ⟨bytes.toArray, by simpa using h⟩ else none

def step (st : CertificateStore) : Call → Option CertificateStore
  | .publishCertificate cert nowMs true =>
    some { st with
      certificates := st.certificates.insert (codecs.hexEncode cert.subjectPublicKey.toList)
        (some (.fromCertificate codecs cert nowMs))
      bundle :=
        match st.bundle.addCertificate ed cert nowMs with
        | .ok b => b
        | .error _ => st.bundle.addCertificateUnchecked cert }
  | .publishRevocation key reason nowMs true =>
    some { st with
      revocations := st.revocations.insert (codecs.hexEncode key.toList)
        (some ⟨codecs.hexEncode key.toList, reason, nowMs⟩) }
  | .publishCertificate _ _ false | .publishRevocation _ _ _ false => some st
  | .loadAll scan => reloaded ed codecs st scan
  | .handleCertChange id nowMs read =>
    -- only a revocation that is read and deserializes stops the change
    if read && (entry st.revocations id).isSome then some st
    else
      match (entry st.certificates id).bind (·.toCertificate codecs) with
      | some cert => some { st with bundle := offer ed st.bundle cert nowMs }
      | none => some st
  | .handleRevocationChange id scan =>
    match (entry st.revocations id).bind (revokedKey codecs) with
    | some _ => reloaded ed codecs st scan
    | none => some st
  | .remoteCertificate id (some doc) => some { st with certificates := st.certificates.insert id doc }
  | .remoteCertificate id none => some { st with certificates := st.certificates.erase id }
  | .remoteRevocation id doc => some { st with revocations := st.revocations.insert id doc }

end CertificateStore

end PeatMesh
