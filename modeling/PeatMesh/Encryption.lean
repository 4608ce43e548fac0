/-
Encryption of documents at rest (`security/encryption.rs`), over X25519,
HKDF-SHA256 and ChaCha20-Poly1305. Random values are drawn by the caller. The key
of documents at rest is derived from the device's public key and a constant.
-/
import PeatMesh.Bytes
import PeatMesh.Symbolic
import Std.Data.ExtTreeMap

namespace PeatMesh

abbrev DeviceId := Vector UInt8 16

/-- `SecurityError`, of the kinds met here. -/
inductive EncryptionFailure
  | encryptionError (message : String)
  | decryptionError (message : String)
  deriving DecidableEq, Repr

/-- The primitives over the values they work on. An error is its text. -/
structure Primitives (M : Type) where
  /-- A constant of the program. -/
  bytes : List UInt8 → M
  publicKey : M → M
  diffieHellman : M → M → M
  /-- HKDF with no salt, expanded to 32 bytes. -/
  hkdf : M → M → M
  /-- Under a key and a nonce. -/
  encrypt : M → M → M → Except String M
  decrypt : M → M → M → Except String M

def Primitives.Lawful {M : Type} (p : Primitives M) : Prop :=
  ∀ key nonce plaintext c, p.encrypt key nonce plaintext = .ok c → p.decrypt key nonce c = .ok plaintext

structure EncryptionKeypair (M : Type) where
  secret : M
  publicKey : M

structure EncryptedData (M : Type) where
  nonce : M
  ciphertext : M

structure SecureChannel (M : Type) where
  peerId : DeviceId
  key : M

structure GroupKey (M : Type) where
  cellId : String
  key : M
  generation : UInt64

structure EncryptedDocument (M : Type) where
  encrypted : EncryptedData M
  encryptedBy : DeviceId
  encryptedAt : UInt64

structure EncryptionManager (M : Type) where
  keypair : EncryptionKeypair M
  deviceId : DeviceId
  peerChannels : Std.ExtTreeMap DeviceId (SecureChannel M)
  cellKeys : Std.ExtTreeMap String (GroupKey M)
  deviceKey : M

section Manager

variable {M : Type} (p : Primitives M)

def EncryptionKeypair.fromSecretBytes (secret : M) : EncryptionKeypair M := ⟨secret, p.publicKey secret⟩

def EncryptionKeypair.dhExchange (k : EncryptionKeypair M) (peerPublic : M) : M := p.diffieHellman k.secret peerPublic

def deriveForPeer (sharedSecret : M) : M := p.hkdf sharedSecret (p.bytes (Bytes.utf8 "peat-protocol-v1-peer"))

def encryptWith (key nonce plaintext : M) : Except EncryptionFailure (EncryptedData M) :=
  match p.encrypt key nonce plaintext with
  | .ok ciphertext => .ok ⟨nonce, ciphertext⟩
  | .error e => .error (.encryptionError e)

def decryptWith (key : M) (encrypted : EncryptedData M) : Except EncryptionFailure M :=
  match p.decrypt key encrypted.nonce encrypted.ciphertext with
  | .ok plaintext => .ok plaintext
  | .error e => .error (.decryptionError e)

namespace GroupKey

def generate (cellId : String) (drawn : M) : GroupKey M := ⟨cellId, drawn, 1⟩

def rotate (k : GroupKey M) (drawn : M) : GroupKey M := ⟨k.cellId, drawn, k.generation + 1⟩

end GroupKey

namespace EncryptionManager

def new (keypair : EncryptionKeypair M) (deviceId : DeviceId) : EncryptionManager M where
  keypair := keypair
  deviceId := deviceId
  peerChannels := ∅
  cellKeys := ∅
  deviceKey := p.hkdf keypair.publicKey (p.bytes (Bytes.utf8 "peat-protocol-v1-device"))

variable (m : EncryptionManager M)

def establishChannel (peerId : DeviceId) (peerPublicKey : M) : EncryptionManager M :=
  let key := deriveForPeer p (m.keypair.dhExchange p peerPublicKey)
  { m with peerChannels := m.peerChannels.insert peerId ⟨peerId, key⟩ }

def removeChannel (peerId : DeviceId) : EncryptionManager M :=
  { m with peerChannels := m.peerChannels.erase peerId }

variable (cellId : String)

def getOrCreateCellKey (drawn : M) : EncryptionManager M × GroupKey M :=
  match m.cellKeys[cellId]? with
  | some key => (m, key)
  | none => ({ m with cellKeys := m.cellKeys.insert cellId (.generate cellId drawn) }, .generate cellId drawn)

def setCellKey (key : GroupKey M) : EncryptionManager M :=
  { m with cellKeys := m.cellKeys.insert key.cellId key }

def rotateCellKey (drawn : M) : EncryptionManager M × Except EncryptionFailure (GroupKey M) :=
  match m.cellKeys[cellId]? with
  | some key => ({ m with cellKeys := m.cellKeys.insert cellId (key.rotate drawn) }, .ok (key.rotate drawn))
  | none => (m, .error (.encryptionError s!"no key for cell: {cellId}"))

def removeCellKey : EncryptionManager M :=
  { m with cellKeys := m.cellKeys.erase cellId }

def encryptDocument (nonce : M) (now : UInt64) (plaintext : M) :
    Except EncryptionFailure (EncryptedDocument M) := do
  let encrypted ← encryptWith p m.deviceKey nonce plaintext
  return ⟨encrypted, m.deviceId, now⟩

def decryptDocument (document : EncryptedDocument M) : Except EncryptionFailure M :=
  if document.encryptedBy ≠ m.deviceId then .error (.decryptionError "document encrypted by different device")
  else decryptWith p m.deviceKey document.encrypted

end EncryptionManager

end Manager

/-! ## Whole runs of a manager -/

inductive ManagerOp (M : Type)
  | establishChannel (peerId : DeviceId) (peerPublicKey : M)
  | removeChannel (peerId : DeviceId)
  | getOrCreateCellKey (cellId : String) (drawn : M)
  | setCellKey (key : GroupKey M)
  | rotateCellKey (cellId : String) (drawn : M)
  | removeCellKey (cellId : String)

namespace EncryptionManager

variable {M : Type} {p : Primitives M}

def apply (p : Primitives M) (m : EncryptionManager M) : ManagerOp M → EncryptionManager M
  | .establishChannel peerId peerPublicKey => m.establishChannel p peerId peerPublicKey
  | .removeChannel peerId => m.removeChannel peerId
  | .getOrCreateCellKey cellId drawn => (m.getOrCreateCellKey cellId drawn).1
  | .setCellKey key => m.setCellKey key
  | .rotateCellKey cellId drawn => (m.rotateCellKey cellId drawn).1
  | .removeCellKey cellId => m.removeCellKey cellId

def run (p : Primitives M) (m : EncryptionManager M) (ops : List (ManagerOp M)) : EncryptionManager M :=
  ops.foldl (apply p) m

structure SameDevice (m m' : EncryptionManager M) : Prop where
  keypair : m'.keypair = m.keypair
  deviceId : m'.deviceId = m.deviceId
  deviceKey : m'.deviceKey = m.deviceKey

theorem sameDevice_apply (m : EncryptionManager M) (op : ManagerOp M) : SameDevice m (m.apply p op) := by
  cases op with
  | getOrCreateCellKey cellId drawn =>
    rw [apply]
    fun_cases getOrCreateCellKey m cellId drawn <;> exact ⟨rfl, rfl, rfl⟩
  | rotateCellKey cellId drawn =>
    rw [apply]
    fun_cases rotateCellKey m cellId drawn <;> exact ⟨rfl, rfl, rfl⟩
  | _ => exact ⟨rfl, rfl, rfl⟩

theorem sameDevice_run (m : EncryptionManager M) (ops : List (ManagerOp M)) : SameDevice m (m.run p ops) := by
  induction ops generalizing m with
  | nil => exact ⟨rfl, rfl, rfl⟩
  | cons op ops ih =>
    have hop := sameDevice_apply (p := p) m op
    have hrest := ih (m.apply p op)
    exact ⟨hrest.keypair.trans hop.keypair, hrest.deviceId.trans hop.deviceId, hrest.deviceKey.trans hop.deviceKey⟩

theorem decryptWith_encryptWith (hp : p.Lawful) {key nonce plaintext encrypted}
    (h : encryptWith p key nonce plaintext = .ok encrypted) : decryptWith p key encrypted = .ok plaintext := by
  rw [encryptWith] at h
  split at h
  · rename_i ciphertext hc
    cases h
    rw [decryptWith, hp _ _ _ _ hc]
  · simp at h

theorem decryptDocument_encryptDocument (hp : p.Lawful) (m : EncryptionManager M) (ops : List (ManagerOp M))
    {nonce plaintext now document}
    (h : m.encryptDocument p nonce now plaintext = .ok document) :
    (m.run p ops).decryptDocument p document = .ok plaintext := by
  obtain ⟨-, hid, hkey⟩ := sameDevice_run m ops
  rw [encryptDocument] at h
  cases henc : encryptWith p m.deviceKey nonce plaintext with
  | error e => simp [henc, bind, Except.bind] at h
  | ok encrypted =>
    simp only [henc, bind, Except.bind, pure, Except.pure, Except.ok.injEq] at h
    subst h
    rw [decryptDocument, hid, hkey]
    simpa using decryptWith_encryptWith hp henc

end EncryptionManager

/-! ## The adversary -/

section Adversary

open Symbolic

/-- Messages of the symbolic model; the program's constants are bytes. -/
abbrev Message (α : Type) := Term α (List UInt8)

variable {α : Type}

def seen (encrypted : EncryptedData (Message α)) : Set (Message α) :=
  Set.range Term.publicKey ∪ {encrypted.nonce, encrypted.ciphertext}

section Seen

variable {encrypted : EncryptedData (Message α)} {key nonce plaintext secret : Message α}

theorem derivable_publicKey : Derivable (seen encrypted) (.publicKey secret) :=
  Derivable.known (.inl ⟨secret, rfl⟩)

theorem derivable_of_key (hc : encrypted.ciphertext = .aead key nonce plaintext)
    (hkey : Derivable (seen encrypted) key) :
    Derivable (seen encrypted) plaintext := by
  have haead : Derivable (seen encrypted) (.aead key nonce plaintext) := Derivable.known (.inr (.inr hc.symm))
  exact haead.opened hkey

end Seen

variable [DecidableEq α]

def symbolic : Primitives (Message α) where
  bytes := .const
  publicKey := .publicKey
  diffieHellman := Term.exchange
  hkdf := .kdf
  encrypt key nonce plaintext := .ok (.aead key nonce plaintext)
  decrypt key nonce
    | .aead key' nonce' plaintext => if key' = key ∧ nonce' = nonce then .ok plaintext else .error "aead::Error"
    | _ => .error "aead::Error"

theorem symbolic_lawful : (symbolic : Primitives (Message α)).Lawful := by
  intro key nonce plaintext c h
  cases h
  simp [symbolic]

/-- An encrypted document is derived from itself and the device's public key, whatever the device did before. -/
theorem document_derivable (secret : Message α) (deviceId : DeviceId) (ops : List (ManagerOp (Message α)))
    (nonce : Message α) (now : UInt64) (plaintext : Message α) :
    ∃ document, ((EncryptionManager.new symbolic (.fromSecretBytes symbolic secret) deviceId).run symbolic
        ops).encryptDocument symbolic nonce now plaintext = .ok document ∧
      Derivable (seen document.encrypted) plaintext := by
  have hkey := ((EncryptionManager.new symbolic (.fromSecretBytes symbolic secret) deviceId).sameDevice_run
    (p := symbolic) ops).deviceKey
  refine ⟨⟨⟨nonce, _⟩, _, now⟩, rfl, derivable_of_key rfl ?_⟩
  -- the key is made of the public key and a constant
  rw [hkey]
  exact Derivable.kdf derivable_publicKey (Derivable.const _)

def storedDocument : EncryptedDocument (Message Nat) where
  encrypted := ⟨.atom 2, .aead (.kdf (.publicKey (.atom 0)) (.const (Bytes.utf8 "peat-protocol-v1-device")))
    (.atom 2) (.atom 1)⟩
  encryptedBy := Vector.replicate 16 0
  encryptedAt := 0

/-- The adversary derives atom 1 from the stored document. It does not derive
the device's secret, nor atom 1 before it has the ciphertext. -/
theorem storedDocument_derivable :
    (EncryptionManager.new symbolic (.fromSecretBytes symbolic (.atom 0)) (Vector.replicate 16 0)).encryptDocument
        symbolic (.atom 2) 0 (.atom 1) = .ok storedDocument ∧
      Derivable (seen storedDocument.encrypted) (.atom 1) ∧
      ¬Derivable (seen storedDocument.encrypted) (.atom 0) ∧
      ¬Derivable (Set.range Term.publicKey ∪ {.atom 2} : Set (Message Nat)) (.atom 1) := by
  refine ⟨rfl, ?_, ?_, ?_⟩
  · exact derivable_of_key rfl (Derivable.kdf derivable_publicKey (Derivable.const _))
  · refine not_derivable_atom ?_ (rfl : (· = 0) 0)
    rintro m (⟨secret, rfl⟩ | rfl | rfl)
    · trivial
    · simp [storedDocument, Term.Safe]
    · simp [storedDocument, Term.Safe]
  · refine not_derivable_atom ?_ (rfl : (· = 1) 1)
    rintro m (⟨secret, rfl⟩ | rfl)
    · trivial
    · simp [Term.Safe]

end Adversary

end PeatMesh
