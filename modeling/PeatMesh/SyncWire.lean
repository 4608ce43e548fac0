/-
The wire formats of the sync messages: entries and batches
(`storage/automerge_sync.rs`) and tombstones (`qos/deletion.rs`). A length is
written cut to the width of its field. An index out of bounds is a failure apart
from the errors a decoder returns, and a decoder that asks for memory by a count
it has read (`Vec::with_capacity`) does not return if it is refused.
-/
import PeatMesh.Bytes
import PeatMesh.Deletion

namespace PeatMesh

open Bytes List UInt64

inductive SyncMessageType
  | deltaSync
  | stateSnapshot
  | windowedHistory
  | tombstone
  | tombstoneBatch
  | tombstoneAck
  | syncBatch
  | negentropyInit
  | negentropyResponse
  | negentropyRequest
  deriving DecidableEq, Repr

namespace SyncMessageType

def toByte : SyncMessageType → UInt8
  | deltaSync => 0x00
  | stateSnapshot => 0x01
  | windowedHistory => 0x02
  | tombstone => 0x04
  | tombstoneBatch => 0x05
  | tombstoneAck => 0x06
  | syncBatch => 0x07
  | negentropyInit => 0x08
  | negentropyResponse => 0x09
  | negentropyRequest => 0x0A

def inEntries : SyncMessageType → Bool
  | negentropyInit | negentropyResponse | negentropyRequest => false
  | _ => true

end SyncMessageType

inductive SyncDirection
  | upward
  | downward
  | lateral
  | broadcast
  deriving DecidableEq, Repr

def hex02 (b : UInt8) : String :=
  String.ofList [Nat.digitChar (b.toNat / 16), Nat.digitChar (b.toNat % 16)]

/-! ## Entries -/

structure SyncEntry where
  docKey : String
  syncType : SyncMessageType
  payload : List UInt8
  deriving DecidableEq, Repr

namespace SyncEntry

variable (e : SyncEntry)

def encode : List UInt8 :=
  toBE 2 e.docKey.utf8ByteSize ++ (utf8 e.docKey ++ ([e.syncType.toByte] ++
    (toBE 4 e.payload.length ++ e.payload)))

def decodeType (b : UInt8) : Except (Bytes.Failure String) SyncMessageType :=
  if b = 0x00 then .ok .deltaSync
  else if b = 0x01 then .ok .stateSnapshot
  else if b = 0x02 then .ok .windowedHistory
  else if b = 0x04 then .ok .tombstone
  else if b = 0x05 then .ok .tombstoneBatch
  else if b = 0x06 then .ok .tombstoneAck
  else if b = 0x07 then .ok .syncBatch
  else .error (.error ("Unknown sync type: 0x" ++ hex02 b))

def decode (bytes : List UInt8) : Except (Bytes.Failure String) (SyncEntry × Nat) := do
  ensure (7 ≤ bytes.length) ("SyncEntry too short: " ++ toString bytes.length ++ " bytes")
  let docKeyLen := ofBE (← slice bytes 0 2)
  ensure (2 + docKeyLen + 1 + 4 ≤ bytes.length) "SyncEntry truncated at doc_key"
  let docKey ← text (← slice bytes 2 docKeyLen) "Invalid UTF-8 in doc_key"
  let syncType ← decodeType (← byteAt bytes (2 + docKeyLen))
  let payloadLen := ofBE (← slice bytes (2 + docKeyLen + 1) 4)
  ensure (2 + docKeyLen + 1 + 4 + payloadLen ≤ bytes.length) "SyncEntry truncated at payload"
  let payload ← slice bytes (2 + docKeyLen + 1 + 4) payloadLen
  return (⟨docKey, syncType, payload⟩, 2 + docKeyLen + 1 + 4 + payloadLen)

/-- The lengths fit their fields, and the type is decoded. -/
def Fits : Prop :=
  e.docKey.utf8ByteSize < 2 ^ 16 ∧ e.syncType.inEntries ∧ e.payload.length < 2 ^ 32
  deriving Decidable

theorem length_encode : e.encode.length = 2 + e.docKey.utf8ByteSize + 1 + 4 + e.payload.length := by
  simp [encode]
  omega

theorem decodeType_eq_ok {b ty} :
    decodeType b = .ok ty ↔ ty.toByte = b ∧ ty.inEntries = true := by
  constructor
  · intro h
    unfold decodeType at h
    split_ifs at h <;> cases h <;> simp_all [SyncMessageType.toByte, SyncMessageType.inEntries]
  · rintro ⟨rfl, h⟩
    cases ty <;> first | rfl | cases h

variable {bytes : List UInt8} {e : SyncEntry} {n : Nat}

theorem fits_of_decode (h : decode bytes = .ok (e, n)) : e.Fits ∧ Bytes.At bytes 0 e.encode ∧ n = e.encode.length := by
  simp only [decode, bind_eq_ok, ensure_eq_ok, slice_eq_ok, byteAt_eq_ok,
    text_eq_ok, decodeType_eq_ok] at h
  obtain ⟨-, -, keyLen, ⟨hkeyLen, hat₀⟩, -, -, key, ⟨hkey, hat₁⟩, docKey, rfl, b, hat₂, ty, ⟨rfl, hty⟩,
    len, ⟨hlen, hat₃⟩, -, -, payload, ⟨hpayload, hat₄⟩, hret⟩ := h
  cases hret
  rw [length_utf8] at hkey
  -- the lengths that were read are the lengths of what they led to
  have henc : encode ⟨docKey, ty, payload⟩ =
      keyLen ++ (utf8 docKey ++ ([ty.toByte] ++ (len ++ payload))) := by
    simp only [encode, hkey, hpayload, toBE_ofBE hkeyLen, toBE_ofBE hlen]
  have hkeyLt : docKey.utf8ByteSize < 2 ^ 16 := by
    have hlt := ofBE_lt keyLen
    rw [hkeyLen] at hlt
    omega
  have hpayloadLt : payload.length < 2 ^ 32 := by
    have hlt := ofBE_lt len
    rw [hlen] at hlt
    omega
  refine ⟨⟨hkeyLt, hty, hpayloadLt⟩, ?_, by rw [length_encode, hkey, hpayload]⟩
  simp only [henc, at_append, length_utf8, hkeyLen, hlen, hkey, Nat.zero_add, length_singleton]
  exact ⟨hat₀, hat₁, hat₂, hat₃, hat₄⟩

theorem decode_of_fits (hfits : e.Fits) (hat : Bytes.At bytes 0 e.encode) :
    decode bytes = .ok (e, e.encode.length) := by
  have hle := hat.le
  obtain ⟨hkey, hty, hpayload⟩ := hfits
  have hkeyLen : ofBE (toBE 2 e.docKey.utf8ByteSize) = e.docKey.utf8ByteSize :=
    ofBE_toBE_of_lt hkey
  have hlen : ofBE (toBE 4 e.payload.length) = e.payload.length := ofBE_toBE_of_lt hpayload
  rw [length_encode] at hle ⊢
  simp only [encode, at_append, length_utf8, length_toBE, length_singleton,
    Nat.zero_add] at hat
  obtain ⟨hat₀, hat₁, hat₂, hat₃, hat₄⟩ := hat
  simp only [decode, bind_eq_ok, ensure_eq_ok, slice_eq_ok, byteAt_eq_ok,
    text_eq_ok, decodeType_eq_ok]
  refine ⟨(), by omega, _, ⟨length_toBE _ _, hat₀⟩, ?_⟩
  rw [hkeyLen]
  refine ⟨(), by omega, _, ⟨rfl, hat₁⟩, e.docKey, rfl, _, hat₂, e.syncType, ⟨rfl, hty⟩, _,
    ⟨length_toBE _ _, hat₃⟩, ?_⟩
  rw [hlen]
  exact ⟨(), by omega, e.payload, ⟨rfl, hat₄⟩, rfl⟩

theorem decode_eq_ok : decode bytes = .ok (e, n) ↔ e.Fits ∧ Bytes.At bytes 0 e.encode ∧ n = e.encode.length := by
  refine ⟨fits_of_decode, ?_⟩
  rintro ⟨hfits, hat, rfl⟩
  exact decode_of_fits hfits hat

end SyncEntry

/-! ## Tombstones -/

inductive TombstoneDecodeError
  | tooShort
  | invalidUtf8
  | invalidDirection
  deriving DecidableEq, Repr

def TombstoneDecodeError.display : TombstoneDecodeError → String
  | tooShort => "Tombstone message too short"
  | invalidUtf8 => "Invalid UTF-8 in tombstone message"
  | invalidDirection => "Invalid propagation direction byte"

def PropagationDirection.toByte : PropagationDirection → UInt8
  | bidirectional => 0x00
  | upOnly => 0x01
  | downOnly => 0x02
  | systemWide => 0x03

namespace TombstoneSyncMessage

def encodeText (s : String) : List UInt8 := toBE 2 s.utf8ByteSize ++ utf8 s

variable (m : TombstoneSyncMessage)

def encode : List UInt8 :=
  encodeText m.tombstone.collection ++ encodeText m.tombstone.documentId ++
    toBE 8 (m.tombstone.deletedAt.toNat / 1000000) ++ toBE 8 m.tombstone.lamport.toNat ++
    encodeText m.tombstone.deletedBy ++ encodeText (m.tombstone.reason.getD "") ++ [m.direction.toByte]

variable (bytes : List UInt8)

def decodeText (pos : Nat) : Except (Bytes.Failure TombstoneDecodeError) (String × Nat) := do
  ensure (pos + 2 ≤ bytes.length) .tooShort
  let len := ofBE (← slice bytes pos 2)
  ensure (pos + 2 + len ≤ bytes.length) .tooShort
  return (← text (← slice bytes (pos + 2) len) .invalidUtf8, pos + 2 + len)

def decodeU64 (pos : Nat) : Except (Bytes.Failure TombstoneDecodeError) UInt64 := do
  ensure (pos + 8 ≤ bytes.length) .tooShort
  return UInt64.ofNat (ofBE (← slice bytes pos 8))

def decodeDirection (b : UInt8) : Except (Bytes.Failure TombstoneDecodeError) PropagationDirection :=
  if b = 0x00 then .ok .bidirectional
  else if b = 0x01 then .ok .upOnly
  else if b = 0x02 then .ok .downOnly
  else if b = 0x03 then .ok .systemWide
  else .error (.error .invalidDirection)

def decode : Except (Bytes.Failure TombstoneDecodeError) TombstoneSyncMessage := do
  let (collection, pos) ← decodeText bytes 0
  let (documentId, pos) ← decodeText bytes pos
  let deletedAtMillis ← decodeU64 bytes pos
  let lamport ← decodeU64 bytes (pos + 8)
  let (deletedBy, pos) ← decodeText bytes (pos + 16)
  let (reason, pos) ← decodeText bytes pos
  ensure (pos + 1 ≤ bytes.length) .tooShort
  let direction ← decodeDirection (← byteAt bytes pos)
  return {
    tombstone := {
      documentId, collection, deletedBy, lamport
      deletedAt := deletedAtMillis.toNat * 1000000
      reason := if reason = "" then none else some reason }
    direction }

variable {bytes : List UInt8} {pos n : Nat}

theorem decodeText_eq_ok {s} : decodeText bytes pos = .ok (s, n) ↔
    s.utf8ByteSize < 2 ^ 16 ∧ Bytes.At bytes pos (encodeText s) ∧ n = pos + (encodeText s).length := by
  rw [encodeText, at_append, length_append, length_toBE, length_utf8]
  simp only [decodeText, bind_eq_ok, ensure_eq_ok, slice_eq_ok, text_eq_ok]
  constructor
  · rintro ⟨-, -, len, ⟨hlen, hat⟩, -, -, _, ⟨hsize, hat'⟩, str, rfl, hret⟩
    cases hret
    rw [length_utf8] at hsize
    have hlt := ofBE_lt len
    rw [hlen] at hlt
    rw [← toBE_ofBE hlen, ← hsize] at hat
    exact ⟨by omega, ⟨hat, hat'⟩, by omega⟩
  · rintro ⟨hlt, ⟨hat, hat'⟩, rfl⟩
    have hle := hat.le
    have hle' := hat'.le
    have hlen : ofBE (toBE 2 s.utf8ByteSize) = s.utf8ByteSize := ofBE_toBE_of_lt hlt
    rw [length_utf8] at hle'
    refine ⟨(), hle, _, ⟨length_toBE _ _, hat⟩, ?_⟩
    rw [hlen, Nat.add_assoc]
    exact ⟨(), by omega, _, ⟨rfl, hat'⟩, s, rfl, rfl⟩

theorem decodeU64_eq_ok {v} : decodeU64 bytes pos = .ok v ↔ Bytes.At bytes pos (toBE 8 v.toNat) := by
  simp only [decodeU64, bind_eq_ok, ensure_eq_ok, slice_eq_ok]
  constructor
  · rintro ⟨-, -, l, ⟨hlen, hat⟩, hret⟩
    cases hret
    have hlt := ofBE_lt l
    rw [hlen] at hlt
    rw [toNat_ofNat', Nat.mod_eq_of_lt (by omega), toBE_ofBE hlen]
    exact hat
  · intro hat
    have hle := hat.le
    refine ⟨(), hle, _, ⟨length_toBE _ _, hat⟩, ?_⟩
    have hlt := v.toNat_lt
    rw [ofBE_toBE, Nat.mod_eq_of_lt (by omega), UInt64.ofNat_toNat]
    rfl

theorem decodeDirection_eq_ok {b d} : decodeDirection b = .ok d ↔ d.toByte = b := by
  constructor
  · intro h
    unfold decodeDirection at h
    split_ifs at h <;> cases h <;> simp_all [PropagationDirection.toByte]
  · rintro rfl
    cases d <;> rfl

def Fits : Prop :=
  m.tombstone.collection.utf8ByteSize < 2 ^ 16 ∧ m.tombstone.documentId.utf8ByteSize < 2 ^ 16 ∧
    m.tombstone.deletedBy.utf8ByteSize < 2 ^ 16 ∧ (m.tombstone.reason.getD "").utf8ByteSize < 2 ^ 16 ∧
    m.tombstone.deletedAt.toNat / 1000000 < 2 ^ 64

def onWire : TombstoneSyncMessage where
  tombstone := { m.tombstone with
    deletedAt := (m.tombstone.deletedAt.toNat / 1000000 * 1000000 : Nat)
    reason := if m.tombstone.reason.getD "" = "" then none else some (m.tombstone.reason.getD "") }
  direction := m.direction

theorem reason_onWire : m.onWire.tombstone.reason.getD "" = m.tombstone.reason.getD "" := by
  simp only [onWire]
  split <;> simp_all

theorem fits_onWire {m : TombstoneSyncMessage} (h : m.Fits) : m.onWire.Fits := by
  obtain ⟨hcollection, hid, hby, hreason, htime⟩ := h
  refine ⟨hcollection, hid, hby, by rwa [reason_onWire], ?_⟩
  simp only [onWire, Int.toNat_natCast]
  omega

theorem decode_of_fits {m : TombstoneSyncMessage} (hfits : m.Fits) (hat : Bytes.At bytes 0 m.encode) :
    decode bytes = .ok m.onWire := by
  obtain ⟨hcollection, hid, hby, hreason, htime⟩ := hfits
  have hmillis : (ofNat (m.tombstone.deletedAt.toNat / 1000000)).toNat =
      m.tombstone.deletedAt.toNat / 1000000 := by
    rw [toNat_ofNat', Nat.mod_eq_of_lt htime]
  simp only [encode, at_append, length_append, length_toBE, Nat.zero_add, and_assoc] at hat
  obtain ⟨hat₁, hat₂, hat₃, hat₄, hat₅, hat₆, hat₇⟩ := hat
  have hle := hat₇.le
  simp only [decode, bind_eq_ok, Prod.exists, decodeText_eq_ok, decodeU64_eq_ok, ensure_eq_ok,
    byteAt_eq_ok, decodeDirection_eq_ok, Nat.zero_add]
  refine ⟨_, _, ⟨hcollection, hat₁, rfl⟩, _, _, ⟨hid, hat₂, rfl⟩, _, by rw [hmillis]; exact hat₃, _, hat₄,
    _, _, ⟨hby, hat₅, rfl⟩, _, _, ⟨hreason, hat₆, rfl⟩, (), hle, _, hat₇, m.direction, rfl, ?_⟩
  simp [onWire, hmillis, pure, Except.pure]

end TombstoneSyncMessage

def TombstoneBatch.encode (b : TombstoneBatch) : List UInt8 :=
  toBE 4 b.tombstones.length ++
    b.tombstones.flatMap fun m => toBE 4 m.encode.length ++ m.encode

def TombstoneBatch.decodeMessages (bytes : List UInt8) :
    Nat → Nat → Except (Bytes.Failure TombstoneDecodeError) (List TombstoneSyncMessage)
  | 0, _ => return []
  | count + 1, pos => do
    ensure (pos + 4 ≤ bytes.length) .tooShort
    let len := ofBE (← slice bytes pos 4)
    ensure (pos + 4 + len ≤ bytes.length) .tooShort
    let message ← TombstoneSyncMessage.decode (← slice bytes (pos + 4) len)
    return message :: (← decodeMessages bytes count (pos + 4 + len))

/-- What is read once `Vec::with_capacity(count)` has been granted. -/
def TombstoneBatch.decode (bytes : List UInt8) : Except (Bytes.Failure TombstoneDecodeError) TombstoneBatch := do
  ensure (4 ≤ bytes.length) .tooShort
  return ⟨← decodeMessages bytes (ofBE (← slice bytes 0 4)) 4⟩

/-! ## Batches -/

structure SyncBatch where
  batchId : UInt64
  createdAt : UInt64
  ttl : UInt8
  entries : List SyncEntry
  deriving DecidableEq, Repr

def DEFAULT_SYNC_BATCH_TTL : UInt8 := 5

namespace SyncBatch

def new (nowMs : UInt64) : SyncBatch := ⟨0, nowMs, DEFAULT_SYNC_BATCH_TTL, []⟩

variable (b : SyncBatch)

def push (e : SyncEntry) : SyncBatch := { b with entries := b.entries ++ [e] }

def encode : List UInt8 :=
  toBE 8 b.batchId.toNat ++ (toBE 8 b.createdAt.toNat ++ ([b.ttl] ++
    (toBE 4 b.entries.length ++ b.entries.flatMap SyncEntry.encode)))

def decodeEntries (bytes : List UInt8) : Nat → Nat → Except (Bytes.Failure String) (List SyncEntry)
  | 0, _ => return []
  | count + 1, offset => do
    let (entry, consumed) ← SyncEntry.decode (← tail bytes offset)
    return entry :: (← decodeEntries bytes count (offset + consumed))

/-- What `decode` reads once `Vec::with_capacity(entry_count)` has been granted: see `decodeIn`. -/
def decode (bytes : List UInt8) : Except (Bytes.Failure String) SyncBatch := do
  ensure (21 ≤ bytes.length) ("SyncBatch too short: " ++ toString bytes.length ++ " bytes")
  let batchId := UInt64.ofNat (ofBE (← slice bytes 0 8))
  let createdAt := UInt64.ofNat (ofBE (← slice bytes 8 8))
  let ttl ← byteAt bytes 16
  let entryCount := ofBE (← slice bytes 17 4)
  let entries ← decodeEntries bytes entryCount 21
  return ⟨batchId, createdAt, ttl, entries⟩

/-- The entries that a header counts. -/
def countedIn (bytes : List UInt8) : Nat := ofBE ((bytes.drop 17).take 4)

/-- The memory of a `SyncEntry` on a 64-bit machine: a `String`, a `Vec` and the type. -/
def entrySize : Nat := 24 + 24 + 8

/-- `decode` on a machine that grants some amounts of memory: the room for the entries is asked for once the header
is read, and where it is refused the process is aborted (`none`). -/
def decodeIn (memory : Nat) (bytes : List UInt8) : Option (Except (Bytes.Failure String) SyncBatch) :=
  if 21 ≤ bytes.length ∧ memory < entrySize * countedIn bytes then none else some (decode bytes)

/-- The count and each entry fit. -/
def Fits : Prop := b.entries.length < 2 ^ 32 ∧ ∀ e ∈ b.entries, e.Fits
  deriving Decidable

variable {bytes : List UInt8}

theorem decodeEntries_eq_ok {count offset es} (hoffset : offset ≤ bytes.length) :
    decodeEntries bytes count offset = .ok es ↔
      es.length = count ∧ (∀ e ∈ es, e.Fits) ∧ Bytes.At bytes offset (es.flatMap SyncEntry.encode) := by
  induction count generalizing offset es with
  | zero =>
    rw [length_eq_zero_iff]
    constructor
    · rintro ⟨⟩
      exact ⟨rfl, by simp, hoffset, nil_prefix⟩
    · rintro ⟨rfl, -⟩
      rfl
  | succ count ih =>
    -- one entry at `offset`, and the others from where it ends
    simp only [decodeEntries, bind_eq_ok, tail_eq_ok, Prod.exists, SyncEntry.decode_eq_ok]
    constructor
    · rintro ⟨_, ⟨-, rfl⟩, e, n, ⟨hfits, hat, rfl⟩, es, hes, ⟨⟩⟩
      rw [at_drop hoffset] at hat
      obtain ⟨rfl, hall, hrest⟩ := (ih hat.le).mp hes
      exact ⟨rfl, by simpa using ⟨hfits, hall⟩, at_append.mpr ⟨hat, hrest⟩⟩
    · rintro ⟨hlen, hall, hat⟩
      obtain _ | ⟨e, es⟩ := es
      · cases hlen
      · rw [flatMap_cons, at_append] at hat
        refine ⟨_, ⟨hoffset, rfl⟩, e, _, ⟨hall e (by simp), (at_drop hoffset).mpr hat.1, rfl⟩, es, ?_, rfl⟩
        exact (ih hat.1.le).mpr ⟨by simpa using hlen, fun e' he' => hall e' (by simp [he']), hat.2⟩

theorem toBE_ofNat {l} (h : l.length = 8) : toBE 8 (UInt64.ofNat (ofBE l)).toNat = l := by
  have hlt := h ▸ ofBE_lt l
  rw [UInt64.toNat_ofNat', Nat.mod_eq_of_lt (by omega), toBE_ofBE h]

theorem ofNat_toBE (x : UInt64) : UInt64.ofNat (ofBE (toBE 8 x.toNat)) = x := by
  have hlt := x.toNat_lt
  rw [ofBE_toBE, Nat.mod_eq_of_lt (by omega), UInt64.ofNat_toNat]

theorem decode_eq_ok {b} : decode bytes = .ok b ↔ b.Fits ∧ Bytes.At bytes 0 b.encode := by
  simp only [decode, bind_eq_ok, ensure_eq_ok, slice_eq_ok, byteAt_eq_ok]
  constructor
  · rintro ⟨-, h21, batchId, ⟨hid, hat₀⟩, createdAt, ⟨hcreated, hat₁⟩, ttl, hat₂, count, ⟨hcount, hat₃⟩, es, hes,
      ⟨⟩⟩
    obtain ⟨hlen, hall, hat₄⟩ := (decodeEntries_eq_ok h21).mp hes
    have hlt := hcount ▸ ofBE_lt count
    refine ⟨⟨by rw [hlen]; omega, hall⟩, ?_⟩
    simp only [encode, toBE_ofNat hid, toBE_ofNat hcreated, hlen, toBE_ofBE hcount, at_append, hid,
      hcreated, hcount, length_singleton]
    exact ⟨hat₀, hat₁, hat₂, hat₃, hat₄⟩
  · rintro ⟨⟨hlen, hall⟩, hat⟩
    have hle := hat.le
    simp only [encode, at_append, length_toBE, length_singleton, length_append] at hat hle
    obtain ⟨hat₀, hat₁, hat₂, hat₃, hat₄⟩ := hat
    refine ⟨(), by omega, _, ⟨length_toBE _ _, hat₀⟩, _, ⟨length_toBE _ _, hat₁⟩, _, hat₂, _,
      ⟨length_toBE _ _, hat₃⟩, b.entries, ?_, by rw [ofNat_toBE, ofNat_toBE]; rfl⟩
    rw [ofBE_toBE_of_lt hlen]
    exact (decodeEntries_eq_ok (by omega)).mpr ⟨rfl, hall, hat₄⟩

/-- A batch survives the wire exactly when it has fewer than 2³² entries, each with a key shorter than 2¹⁶ bytes, a
payload shorter than 2³² and a type that is decoded. -/
theorem decode_encode_iff (b : SyncBatch) : decode b.encode = .ok b ↔ b.Fits := by
  rw [decode_eq_ok, at_zero]
  exact and_iff_left (prefix_refl _)

/-- The discriminant of `NegentropyInit` is written, and not read back. -/
theorem negentropyEntry_not_decoded :
    decode (encode ⟨1, 1700000000000, DEFAULT_SYNC_BATCH_TTL, [⟨"nodes:a", .negentropyInit, []⟩]⟩) =
      .error (.error "Unknown sync type: 0x08") := by
  decide +kernel

end SyncBatch

end PeatMesh
