/-
The two certificate checks a peer meets: the connector looks a discovered peer
up under the node id it announced (`peer_connector.rs`), the node dialled looks
it up under the endpoint derived from that (`mesh_sync_transport.rs`). HKDF and
the public keys of endpoints are any functions.
-/
import PeatMesh.TrustChain

namespace PeatMesh

open CertificateBundle

/-! ## Validity windows -/

/-- A validity window that some time is in; an expiry of zero is none. -/
@[ext]
structure Window where
  issuedAtMs : UInt64
  expiresAtMs : UInt64
  inhabited : expiresAtMs = 0 ∨ issuedAtMs < expiresAtMs

namespace Window

def contains (w : Window) (nowMs : UInt64) : Bool :=
  w.issuedAtMs ≤ nowMs && (w.expiresAtMs = 0 || nowMs < w.expiresAtMs)

theorem contains_iff {w : Window} {nowMs} : w.contains nowMs = true ↔
    w.issuedAtMs ≤ nowMs ∧ (w.expiresAtMs = 0 ∨ nowMs < w.expiresAtMs) := by
  simp [contains]

theorem contains_issuedAtMs (w : Window) : w.contains w.issuedAtMs = true :=
  contains_iff.mpr ⟨UInt64.le_refl _, w.inhabited⟩

variable {w w' : Window}

theorem issuedAtMs_le (h : ∀ nowMs, w.contains nowMs = w'.contains nowMs) : w'.issuedAtMs ≤ w.issuedAtMs :=
  (contains_iff.mp ((h _).symm.trans w.contains_issuedAtMs)).1

theorem expiresAtMs_le (h : ∀ nowMs, w.contains nowMs = w'.contains nowMs) (h' : w'.expiresAtMs ≠ 0) :
    w.expiresAtMs ≠ 0 ∧ w.expiresAtMs ≤ w'.expiresAtMs := by
  have hstart : w'.issuedAtMs < w'.expiresAtMs := w'.inhabited.resolve_left h'
  have hout : ¬ w'.contains w'.expiresAtMs = true := by
    simp [contains_iff, h']
  rw [← h, contains_iff] at hout
  have hle : w.issuedAtMs ≤ w'.expiresAtMs :=
    UInt64.le_trans (issuedAtMs_le fun nowMs => (h nowMs).symm) (UInt64.le_of_lt hstart)
  simpa [hle] using hout

theorem eq_of_contains (h : ∀ nowMs, w.contains nowMs = w'.contains nowMs) : w = w' := by
  have h' := fun nowMs => (h nowMs).symm
  refine Window.ext (UInt64.le_antisymm (issuedAtMs_le h') (issuedAtMs_le h)) ?_
  by_cases hw : w.expiresAtMs = 0
  · by_contra hne
    exact (expiresAtMs_le h fun hw' => hne (hw.trans hw'.symm)).1 hw
  · obtain ⟨hw', hle⟩ := expiresAtMs_le h' hw
    exact UInt64.le_antisymm (expiresAtMs_le h hw').2 hle

end Window

def MeshCertificate.window? (ed : Ed25519) (c : MeshCertificate) : Option Window :=
  if h : c.verifies ed ∧ (c.expiresAtMs = 0 ∨ c.issuedAtMs < c.expiresAtMs) then
    some ⟨c.issuedAtMs, c.expiresAtMs, h.2⟩
  else none

theorem MeshCertificate.any_window? {ed} {c : MeshCertificate} {nowMs} :
    (c.window? ed).any (·.contains nowMs) = (c.isValid nowMs && c.verifies ed) := by
  unfold window?
  split
  · rename_i h
    simp [Window.contains, isValid, h.1]
  rename_i h
  -- no time is in the window of a certificate that is out of one
  have hno : ¬ ∃ nowMs, (c.isValid nowMs && c.verifies ed) = true := by
    rw [← usable_iff]
    simpa [usable] using h
  simpa using fun hvalid => (Bool.eq_false_iff.mpr fun hver => hno ⟨nowMs, by simp [hvalid, hver]⟩)

theorem any_contains_iff {w w' : Option Window} :
    (∀ nowMs, w.any (·.contains nowMs) = w'.any (·.contains nowMs)) ↔ w = w' := by
  refine ⟨fun h => ?_, fun h _ => h ▸ rfl⟩
  cases w with
  | none =>
    cases w' with
    | none => rfl
    | some v => simpa [v.contains_issuedAtMs] using h v.issuedAtMs
  | some v =>
    cases w' with
    | none => simpa [v.contains_issuedAtMs] using h v.issuedAtMs
    | some v' => exact congrArg some (Window.eq_of_contains (by simpa using h))

/-! ## The checks -/

/-- What the connector calls to derive keys: `Hkdf::<Sha256>::new(None, secret)`
expanded with an info to 32 bytes, and `SecretKey::from_bytes(..).public()`. -/
structure KeyDerivation where
  hkdfExpand : List UInt8 → List UInt8 → Vector UInt8 32
  publicKey : Vector UInt8 32 → PublicKey

/-- `PeerConnector`, what its checks read. -/
structure PeerConnector where
  formationSecret : List UInt8
  certificateBundle : Option CertificateBundle

def PeerConnector.derivePeerEndpointId (pc : PeerConnector) (kd : KeyDerivation) (hostname : String) : PublicKey :=
  kd.publicKey (kd.hkdfExpand pc.formationSecret ("iroh:" ++ hostname).toUTF8.data.toList)

def PeerConnector.admits (pc : PeerConnector) (ed : Ed25519) (nodeId : String) (nowMs : UInt64) : Bool :=
  match pc.certificateBundle with
  | some bundle => bundle.validateNodeId ed nodeId nowMs
  | none => true

/-- `SyncProtocolHandler`, what its certificate check reads. -/
structure SyncProtocolHandler where
  certificateBundle : Option CertificateBundle

def SyncProtocolHandler.admits (sph : SyncProtocolHandler) (ed : Ed25519) (peer : PublicKey) (nowMs : UInt64) : Bool :=
  match sph.certificateBundle with
  | some bundle => bundle.validatePeer ed peer nowMs
  | none => true

namespace CertificateBundle

variable {b : CertificateBundle} {ed : Ed25519} {nowMs : UInt64}

theorem validatePeer_eq_any {key} : b.validatePeer ed key nowMs =
    ((b.getCertificate key).bind (·.window? ed)).any (·.contains nowMs) := by
  unfold validatePeer getCertificate
  cases b.certificates[key]? with
  | none => rfl
  | some c => exact MeshCertificate.any_window?.symm

theorem validateNodeId_eq_any {nodeId} : b.validateNodeId ed nodeId nowMs =
    ((b.getCertificateByNodeId nodeId).bind (·.window? ed)).any (·.contains nowMs) := by
  unfold validateNodeId
  cases b.getCertificateByNodeId nodeId with
  | none => rfl
  | some c => exact MeshCertificate.any_window?.symm

end CertificateBundle

/-- The checks agree on a node id at every time exactly when the certificates under it and under its derived
endpoint are of one window, or neither lets anyone in. -/
theorem admission_agrees_iff (ed : Ed25519) (kd : KeyDerivation) (secret : List UInt8) (b : CertificateBundle)
    (nodeId : String) :
    (∀ nowMs, (PeerConnector.mk secret (some b)).admits ed nodeId nowMs =
      (SyncProtocolHandler.mk (some b)).admits ed
        ((PeerConnector.mk secret (some b)).derivePeerEndpointId kd nodeId) nowMs) ↔
    (b.getCertificateByNodeId nodeId).bind (·.window? ed) =
      (b.getCertificate ((PeerConnector.mk secret (some b)).derivePeerEndpointId kd nodeId)).bind (·.window? ed) := by
  simp only [PeerConnector.admits, SyncProtocolHandler.admits, validateNodeId_eq_any,
    validatePeer_eq_any]
  exact any_contains_iff

/-! An enrolled member is found and not let in. The secret is 32 bytes 9;
the keys are HKDF-SHA256's for the info `iroh:b`, and Ed25519's of that seed. -/

def KeyDerivation.ofB : KeyDerivation where
  hkdfExpand secret info :=
    if secret = List.replicate 32 9 ∧ info = "iroh:b".toUTF8.data.toList then
      #v[151, 225, 210, 139, 148, 230, 207, 160, 242, 193, 236, 209, 99, 249, 168, 134, 218, 23, 86, 106,
         22, 40, 215, 180, 229, 135, 180, 131, 54, 68, 12, 26]
    else Vector.replicate 32 0
  publicKey seed :=
    if seed = #v[151, 225, 210, 139, 148, 230, 207, 160, 242, 193, 236, 209, 99, 249, 168, 134, 218, 23, 86,
        106, 22, 40, 215, 180, 229, 135, 180, 131, 54, 68, 12, 26] then
      #v[9, 64, 104, 25, 177, 54, 243, 174, 32, 95, 144, 238, 231, 81, 54, 1, 163, 234, 139, 101, 48, 146,
         213, 100, 97, 255, 178, 19, 246, 224, 141, 86]
    else Vector.replicate 32 0

def memberBundle : CertificateBundle :=
  bundleAfter (.knowing [memberCertificate]) [.addAuthority authorityKey, .addCertificate memberCertificate 1000]

theorem member_dialled_not_accepted :
    let pc : PeerConnector := ⟨List.replicate 32 9, some memberBundle⟩
    pc.admits (.knowing [memberCertificate]) "b" 2000 = true ∧
      (SyncProtocolHandler.mk (some memberBundle)).admits (.knowing [memberCertificate])
        (pc.derivePeerEndpointId .ofB "b") 2000 = false := by
  decide +kernel

end PeatMesh
