/-
What the wire formats keep: which values are read back from their encodings
(`qos/deletion.rs`, `security/certificate.rs`, `security/enrollment.rs`,
`storage/automerge_sync.rs`), and which bytes the decoders accept. The encoders
cut a length to its field, and write an empty reason as none.
-/
import PeatMesh.Enrollment
import PeatMesh.SyncWire

namespace PeatMesh

open Bytes List TombstoneSyncMessage

variable (n : Nat)

def longName : String := String.ofList (List.replicate n 'a')

theorem utf8ByteSize_longName : (longName n).utf8ByteSize = n := by
  unfold longName
  induction n with
  | zero => rfl
  | succ n ih =>
    rw [replicate_succ, String.ofList_cons, String.utf8ByteSize_append, String.utf8ByteSize_singleton, ih,
      Nat.add_comm]
    rfl

/-! ## Tombstones -/

namespace TombstoneSyncMessage

instance (m : TombstoneSyncMessage) : Decidable m.Fits := inferInstanceAs (Decidable (_ ∧ _))

def Canonical (m : TombstoneSyncMessage) : Prop := m.Fits ∧ m.onWire = m

variable {bytes : List UInt8} {m : TombstoneSyncMessage}

theorem canonical_of_decode (h : decode bytes = .ok m) : m.Canonical ∧ Bytes.At bytes 0 m.encode := by
  simp only [decode, bind_eq_ok, Prod.exists, decodeText_eq_ok, decodeU64_eq_ok, ensure_eq_ok,
    byteAt_eq_ok, decodeDirection_eq_ok, Nat.zero_add] at h
  obtain ⟨collection, -, ⟨hcollection, hat₁, rfl⟩, documentId, -, ⟨hid, hat₂, rfl⟩, millis, hat₃, lamport, hat₄,
    deletedBy, -, ⟨hby, hat₅, rfl⟩, reason, -, ⟨hreason, hat₆, rfl⟩, -, -, -, hat₇, direction, rfl, hret⟩ := h
  cases hret
  have hmillis := millis.toNat_lt
  have htime : ((millis.toNat : Int) * 1000000).toNat / 1000000 = millis.toNat := by omega
  have hback : (if reason = "" then none else some reason : Option String).getD "" = reason := by
    split
    case isTrue hempty => rw [hempty]; rfl
    case isFalse => rfl
  refine ⟨⟨⟨hcollection, hid, hby, ?_, ?_⟩, ?_⟩, ?_⟩
  · rwa [hback]
  · rw [htime]
    exact hmillis
  · simp only [onWire, htime, hback, Nat.cast_mul, Nat.cast_ofNat]
  · simp only [encode, htime, hback, at_append, length_append, length_toBE, Nat.zero_add, and_assoc]
    exact ⟨hat₁, hat₂, hat₃, hat₄, hat₅, hat₆, hat₇⟩

theorem decode_eq_ok : decode bytes = .ok m ↔ m.Canonical ∧ Bytes.At bytes 0 m.encode := by
  refine ⟨canonical_of_decode, ?_⟩
  rintro ⟨⟨hfits, hwire⟩, hat⟩
  rw [decode_of_fits hfits hat, hwire]

/-- The time is a whole number of milliseconds. -/
def WholeMillis (m : TombstoneSyncMessage) : Prop := ∃ ms : Nat, m.tombstone.deletedAt = ms * 1000000

theorem onWire_eq_self (h : m.WholeMillis) : m.onWire = m ↔ m.tombstone.reason ≠ some "" := by
  obtain ⟨⟨documentId, collection, deletedAt, deletedBy, lamport, reason⟩, direction⟩ := m
  obtain ⟨ms, rfl : deletedAt = ms * 1000000⟩ := h
  have htime : ((ms : Int) * 1000000).toNat / 1000000 = ms := by omega
  simp only [onWire, htime, Nat.cast_mul, Nat.cast_ofNat]
  cases reason with
  | none => simp
  | some reason =>
    by_cases hempty : reason = ""
    · simp [hempty]
    · simp [hempty]

theorem length_encode (m : TombstoneSyncMessage) : m.encode.length =
    25 + m.tombstone.collection.utf8ByteSize + m.tombstone.documentId.utf8ByteSize +
      m.tombstone.deletedBy.utf8ByteSize + (m.tombstone.reason.getD "").utf8ByteSize := by
  simp only [encode, encodeText, length_append, length_toBE, length_utf8, length_singleton]
  omega

theorem length_encode_lt (h : m.Fits) : m.encode.length < 2 ^ 32 := by
  obtain ⟨hcollection, hid, hby, hreason, -⟩ := h
  rw [length_encode]
  omega

end TombstoneSyncMessage

namespace TombstoneBatch

variable {bytes : List UInt8} {count pos : Nat} {ms : List TombstoneSyncMessage}

theorem canonical_of_decodeMessages (h : decodeMessages bytes count pos = .ok ms) :
    ms.length = count ∧ ∀ m ∈ ms, m.Canonical := by
  induction count generalizing pos ms with
  | zero =>
    cases h
    simp
  | succ count ih =>
    simp only [decodeMessages, bind_eq_ok, ensure_eq_ok] at h
    obtain ⟨-, -, lenBytes, -, -, -, slice, -, m, hm, rest, hrest, hret⟩ := h
    cases hret
    obtain ⟨rfl, hall⟩ := ih hrest
    refine ⟨rfl, ?_⟩
    rw [forall_mem_cons]
    exact ⟨(canonical_of_decode hm).1, hall⟩

theorem decodeMessages_of_at (hall : ∀ m ∈ ms, m.Canonical)
    (hat : Bytes.At bytes pos (ms.flatMap fun m => Bytes.toBE 4 m.encode.length ++ m.encode)) :
    decodeMessages bytes ms.length pos = .ok ms := by
  induction ms generalizing pos with
  | nil => rfl
  | cons m ms ih =>
    rw [forall_mem_cons] at hall
    obtain ⟨hm, hall⟩ := hall
    simp only [flatMap_cons, at_append, length_append, length_toBE] at hat
    obtain ⟨⟨hlen, hmessage⟩, hrest⟩ := hat
    have hle := hlen.le
    have hle' := hmessage.le
    have hread : ofBE (toBE 4 m.encode.length) = m.encode.length :=
      ofBE_toBE_of_lt (length_encode_lt hm.1)
    simp only [length_cons, decodeMessages, bind_eq_ok, ensure_eq_ok, slice_eq_ok]
    refine ⟨(), hle, _, ⟨length_toBE _ _, hlen⟩, ?_⟩
    rw [hread]
    refine ⟨(), hle', m.encode, ⟨rfl, hmessage⟩, m, ?_, ms, ?_, rfl⟩
    · exact decode_eq_ok.mpr ⟨hm, at_zero.mpr (prefix_refl _)⟩
    · rw [Nat.add_assoc]
      exact ih hall hrest

theorem decode_encode_canonical (b : TombstoneBatch) :
    decode b.encode = .ok b ↔ b.tombstones.length < 2 ^ 32 ∧ ∀ m ∈ b.tombstones, m.Canonical := by
  simp only [decode, bind_eq_ok, ensure_eq_ok, slice_eq_ok]
  constructor
  · rintro ⟨-, -, countBytes, ⟨hlen, -⟩, ms, hms, hret⟩
    cases hret
    obtain ⟨hcount, hall⟩ := canonical_of_decodeMessages hms
    have hlt := ofBE_lt countBytes
    rw [hlen] at hlt
    exact ⟨by rw [hcount]; exact hlt, hall⟩
  · rintro ⟨hlt, hall⟩
    have hat : At b.encode 0 b.encode := at_zero.mpr (prefix_refl _)
    nth_rewrite 2 [encode] at hat
    simp only [at_append, length_toBE] at hat
    obtain ⟨hcount, hmessages⟩ := hat
    have hle' := hcount.le
    rw [length_toBE] at hle'
    refine ⟨(), by omega, _, ⟨length_toBE _ _, hcount⟩, b.tombstones, ?_, rfl⟩
    rw [ofBE_toBE_of_lt hlt]
    exact decodeMessages_of_at hall hmessages

/-- Where times are whole milliseconds, a batch of tombstones survives the wire exactly when it has fewer than 2³²
messages, each text is shorter than 2¹⁶ bytes, each time less than 2⁶⁴, and no reason is empty. -/
theorem tombstones_survive_iff (b : TombstoneBatch) (h : ∀ m ∈ b.tombstones, m.WholeMillis) :
    decode b.encode = .ok b ↔
      b.tombstones.length < 2 ^ 32 ∧ ∀ m ∈ b.tombstones, m.Fits ∧ m.tombstone.reason ≠ some "" := by
  rw [decode_encode_canonical]
  refine and_congr_right fun _ => forall₂_congr fun m hm => ?_
  rw [Canonical, onWire_eq_self (h m hm)]

def noteDeleted (id : String) (reason : Option String) : TombstoneSyncMessage :=
  ⟨⟨id, "notes", 1700000000000 * 1000000, "node-a", 7, reason⟩, .bidirectional⟩

theorem noteDeleted_survives :
    decode (encode ⟨[noteDeleted "n1" (some "stale"), noteDeleted "n2" none]⟩) =
      .ok ⟨[noteDeleted "n1" (some "stale"), noteDeleted "n2" none]⟩ := by
  refine (tombstones_survive_iff _ ?_).mpr (by decide +kernel)
  simp only [forall_mem_cons, not_mem_nil, false_imp_iff, implies_true, and_true]
  exact ⟨⟨1700000000000, rfl⟩, ⟨1700000000000, rfl⟩⟩

/-- An id of 2¹⁶ letters is not read back, and an empty reason comes back as
none. -/
theorem longId_and_emptyReason_lost :
    decode (encode ⟨[noteDeleted (longName (2 ^ 16)) none]⟩) ≠ .ok ⟨[noteDeleted (longName (2 ^ 16)) none]⟩ ∧
      decode (encode ⟨[noteDeleted "n1" (some "")]⟩) = .ok ⟨[noteDeleted "n1" none]⟩ ∧
      noteDeleted "n1" (some "") ≠ noteDeleted "n1" none := by
  refine ⟨fun hok => ?_, by decide +kernel, by decide⟩
  obtain ⟨hfits, -⟩ := ((decode_encode_canonical _).mp hok).2 _ mem_cons_self
  have hid : (longName (2 ^ 16)).utf8ByteSize < 2 ^ 16 := hfits.2.1
  rw [utf8ByteSize_longName] at hid
  exact Nat.lt_irrefl _ hid

end TombstoneBatch

/-! ## Reads in bounds -/

theorem MeshCertificate.inBounds_tierAt (b : UInt8) : Bytes.InBounds (tierAt b) := by
  unfold tierAt
  split
  · exact inBounds_ok _
  · exact inBounds_error _

theorem MeshCertificate.inBounds_decode (data : List UInt8) : Bytes.InBounds (decode data) := by
  rw [decode_eq]
  refine inBounds_ensure_bind fun hlong => ?_
  refine inBounds_bind (inBounds_array (by omega)) fun _ _ => ?_
  refine inBounds_bind (inBounds_byteAt (by omega)) fun _ _ => ?_
  refine inBounds_ensure_bind fun hmesh => ?_
  refine inBounds_bind (inBounds_slice (by omega)) fun _ _ => ?_
  refine inBounds_bind inBounds_text fun _ _ => ?_
  refine inBounds_bind (inBounds_byteAt hmesh) fun _ _ => ?_
  refine inBounds_ensure_bind fun hnode => ?_
  refine inBounds_bind (inBounds_slice (by omega)) fun _ _ => ?_
  refine inBounds_bind inBounds_text fun _ _ => ?_
  refine inBounds_bind (inBounds_byteAt (by omega)) fun _ _ => ?_
  refine inBounds_bind (inBounds_tierAt _) fun _ _ => ?_
  refine inBounds_bind (inBounds_byteAt (by omega)) fun _ _ => ?_
  refine inBounds_bind (inBounds_slice (by omega)) fun _ _ => ?_
  refine inBounds_bind (inBounds_slice (by omega)) fun _ _ => ?_
  refine inBounds_bind (inBounds_array (by omega)) fun _ _ => ?_
  refine inBounds_bind (inBounds_array (by omega)) fun _ _ => ?_
  exact inBounds_ok _

theorem EnrollmentRequest.inBounds_decode (data : List UInt8) : Bytes.InBounds (decode data) := by
  refine inBounds_ensure_bind fun hlong => ?_
  refine inBounds_bind (inBounds_array (by omega)) fun _ _ => ?_
  refine inBounds_bind (inBounds_byteAt (by omega)) fun _ _ => ?_
  refine inBounds_ensure_bind fun hmesh => ?_
  refine inBounds_bind (inBounds_slice (by omega)) fun _ _ => ?_
  refine inBounds_bind inBounds_text fun _ _ => ?_
  refine inBounds_bind (inBounds_byteAt (by omega)) fun _ _ => ?_
  refine inBounds_ensure_bind fun hnode => ?_
  refine inBounds_bind (inBounds_slice (by omega)) fun _ _ => ?_
  refine inBounds_bind inBounds_text fun _ _ => ?_
  refine inBounds_bind (inBounds_byteAt (by omega)) fun _ _ => ?_
  refine inBounds_bind (MeshCertificate.inBounds_tierAt _) fun _ _ => ?_
  refine inBounds_bind (inBounds_slice (by omega)) fun _ _ => ?_
  refine inBounds_ensure_bind fun htoken => ?_
  refine inBounds_bind (inBounds_slice (by omega)) fun _ _ => ?_
  refine inBounds_bind (inBounds_slice (by omega)) fun _ _ => ?_
  refine inBounds_bind (inBounds_array (by omega)) fun _ _ => ?_
  exact inBounds_ok _

namespace TombstoneSyncMessage

variable (bytes : List UInt8)

theorem inBounds_decodeText (pos : Nat) : Bytes.InBounds (decodeText bytes pos) := by
  refine inBounds_ensure_bind fun hlen => ?_
  refine inBounds_bind (inBounds_slice hlen) fun _ _ => ?_
  refine inBounds_ensure_bind fun htext => ?_
  refine inBounds_bind (inBounds_slice htext) fun _ _ => ?_
  exact inBounds_bind inBounds_text fun _ _ => inBounds_ok _

theorem inBounds_decodeU64 (pos : Nat) : Bytes.InBounds (decodeU64 bytes pos) := by
  refine inBounds_ensure_bind fun hlen => ?_
  exact inBounds_bind (inBounds_slice hlen) fun _ _ => inBounds_ok _

theorem inBounds_decodeDirection (b : UInt8) : Bytes.InBounds (decodeDirection b) := by
  unfold decodeDirection
  split_ifs
  all_goals first | exact inBounds_ok _ | exact inBounds_error _

theorem inBounds_decode : Bytes.InBounds (decode bytes) := by
  refine inBounds_bind (inBounds_decodeText _ _) fun _ _ => ?_
  refine inBounds_bind (inBounds_decodeText _ _) fun _ _ => ?_
  refine inBounds_bind (inBounds_decodeU64 _ _) fun _ _ => ?_
  refine inBounds_bind (inBounds_decodeU64 _ _) fun _ _ => ?_
  refine inBounds_bind (inBounds_decodeText _ _) fun _ _ => ?_
  refine inBounds_bind (inBounds_decodeText _ _) fun _ _ => ?_
  refine inBounds_ensure_bind fun hlast => ?_
  refine inBounds_bind (inBounds_byteAt hlast) fun _ _ => ?_
  exact inBounds_bind (inBounds_decodeDirection _) fun _ _ => inBounds_ok _

end TombstoneSyncMessage

theorem SyncEntry.inBounds_decode (bytes : List UInt8) : Bytes.InBounds (decode bytes) := by
  refine inBounds_ensure_bind fun hlong => ?_
  refine inBounds_bind (inBounds_slice (by omega)) fun _ _ => ?_
  refine inBounds_ensure_bind fun hkey => ?_
  refine inBounds_bind (inBounds_slice (by omega)) fun _ _ => ?_
  refine inBounds_bind inBounds_text fun _ _ => ?_
  refine inBounds_bind (inBounds_byteAt (by omega)) fun _ _ => ?_
  refine inBounds_bind ?_ fun _ _ => ?_
  · unfold decodeType
    split_ifs
    all_goals first | exact inBounds_ok _ | exact inBounds_error _
  refine inBounds_bind (inBounds_slice (by omega)) fun _ _ => ?_
  refine inBounds_ensure_bind fun hpayload => ?_
  exact inBounds_bind (inBounds_slice hpayload) fun _ _ => inBounds_ok _

namespace SyncBatch

theorem inBounds_decodeEntries {bytes} (count : Nat) {offset} (h : offset ≤ bytes.length) :
    Bytes.InBounds (decodeEntries bytes count offset) := by
  induction count generalizing offset with
  | zero => exact inBounds_ok _
  | succ count ih =>
    refine inBounds_bind (inBounds_tail h) fun rest hrest => ?_
    refine inBounds_bind (SyncEntry.inBounds_decode _) fun entry hentry => ?_
    obtain ⟨-, hat, hsize⟩ := SyncEntry.fits_of_decode hentry
    obtain ⟨-, rfl⟩ := tail_eq_ok.mp hrest
    have hle := hat.le
    rw [length_drop] at hle
    refine inBounds_bind (ih ?_) fun _ _ => inBounds_ok _
    omega

theorem inBounds_decode (bytes : List UInt8) : Bytes.InBounds (decode bytes) := by
  refine inBounds_ensure_bind fun hlong => ?_
  refine inBounds_bind (inBounds_slice (by omega)) fun _ _ => ?_
  refine inBounds_bind (inBounds_slice (by omega)) fun _ _ => ?_
  refine inBounds_bind (inBounds_byteAt (by omega)) fun _ _ => ?_
  refine inBounds_bind (inBounds_slice (by omega)) fun _ _ => ?_
  exact inBounds_bind (inBounds_decodeEntries _ hlong) fun _ _ => inBounds_ok _

end SyncBatch

/-! ## What is accepted -/

theorem MeshCertificate.exact_decode : Bytes.Exact decode encode NamesFit := by
  intro data c
  rw [decode_eq_ok, at_zero]

theorem EnrollmentRequest.exact_decode : Bytes.Exact decode encode Sized := by
  intro data r
  rw [← at_zero]
  refine ⟨sized_of_decode, ?_⟩
  rintro ⟨⟨hmesh, hnode, htoken⟩, hat⟩
  exact decode_of_at hmesh hnode htoken hat

namespace TombstoneSyncMessage

theorem exact_decode : Bytes.Exact decode encode Canonical := by
  intro data m
  rw [decode_eq_ok, at_zero]

/-- The texts fit their length fields. -/
def TextsFit (m : TombstoneSyncMessage) : Prop :=
  m.tombstone.collection.utf8ByteSize < 2 ^ 16 ∧ m.tombstone.documentId.utf8ByteSize < 2 ^ 16 ∧
    m.tombstone.deletedBy.utf8ByteSize < 2 ^ 16 ∧ (m.tombstone.reason.getD "").utf8ByteSize < 2 ^ 16

theorem exists_canonical {m : TombstoneSyncMessage} (h : m.TextsFit) :
    ∃ w : TombstoneSyncMessage, w.Canonical ∧ w.encode = m.encode := by
  obtain ⟨hcollection, hid, hby, hreason⟩ := h
  -- the time is cut to its field, as it is written
  let cut : TombstoneSyncMessage :=
    ⟨{ m.tombstone with deletedAt := (m.tombstone.deletedAt.toNat / 1000000 % 2 ^ 64 * 1000000 : Nat) }, m.direction⟩
  have htime : cut.tombstone.deletedAt.toNat / 1000000 = m.tombstone.deletedAt.toNat / 1000000 % 2 ^ 64 := by
    simp only [cut, Int.toNat_natCast]
    omega
  have hfits : cut.Fits := ⟨hcollection, hid, hby, hreason, by rw [htime]; omega⟩
  have hmillis : toBE 8 (m.tombstone.deletedAt.toNat / 1000000 % 2 ^ 64) =
      toBE 8 (m.tombstone.deletedAt.toNat / 1000000) := toBE_inj.mpr (Nat.mod_mod _ _)
  have hcut : cut.encode = m.encode := by simp only [encode, htime, hmillis, cut]
  have hok := decode_of_fits hfits (at_zero.mpr (prefix_refl cut.encode))
  obtain ⟨hcanonical, hat⟩ := canonical_of_decode hok
  refine ⟨cut.onWire, hcanonical, hcut ▸ (at_zero.mp hat).eq_of_length ?_⟩
  rw [length_encode, length_encode, reason_onWire]
  rfl

theorem refusesCut {m : TombstoneSyncMessage} (h : m.TextsFit) : Bytes.RefusesCut decode m.encode := by
  obtain ⟨w, hw, heq⟩ := exists_canonical h
  rw [← heq]
  exact exact_decode.refusesCut hw

end TombstoneSyncMessage

theorem SyncMessageType.toByte_inj {t t' : SyncMessageType} (h : t.toByte = t'.toByte) : t = t' := by
  cases t <;> cases t' <;> first | rfl | cases h

namespace SyncEntry

/-- The lengths fit their fields. -/
def Sized (e : SyncEntry) : Prop := e.docKey.utf8ByteSize < 2 ^ 16 ∧ e.payload.length < 2 ^ 32
  deriving Decidable

theorem Fits.sized {e : SyncEntry} (h : e.Fits) : e.Sized := ⟨h.1, h.2.2⟩

theorem fits_iff {e : SyncEntry} : e.Fits ↔ e.Sized ∧ e.syncType.inEntries = true := by
  simp only [Fits, Sized]
  tauto

theorem encode_append_inj {e e' : SyncEntry} {rest rest'} (h : e.Sized) (h' : e'.Sized)
    (heq : e.encode ++ rest = e'.encode ++ rest') : e = e' ∧ rest = rest' := by
  obtain ⟨key, type, payload⟩ := e
  obtain ⟨key', type', payload'⟩ := e'
  simp only [encode, append_assoc] at heq
  obtain ⟨hkeyLen, heq⟩ := append_inj heq (by rw [length_toBE, length_toBE])
  obtain ⟨hkey, heq⟩ := append_inj heq ((toBE_inj_of_lt h.1 h'.1).mp hkeyLen)
  obtain ⟨htype, heq⟩ := append_inj heq rfl
  obtain ⟨hlen, heq⟩ := append_inj heq (by rw [length_toBE, length_toBE])
  obtain ⟨hpayload, hrest⟩ := append_inj heq ((toBE_inj_of_lt h.2 h'.2).mp hlen)
  obtain rfl := utf8_inj.mp hkey
  obtain rfl := SyncMessageType.toByte_inj (singleton_inj.mp htype)
  exact ⟨by rw [hpayload], hrest⟩

theorem isPrefix_of_flatMap_encode {es es'} (h : ∀ e ∈ es, e.Sized) (h' : ∀ e ∈ es', e.Sized)
    (hpre : es.flatMap encode <+: es'.flatMap encode) : es <+: es' := by
  induction es generalizing es' with
  | nil => exact nil_prefix
  | cons e es ih =>
    cases es' with
    | nil =>
      have hlen := hpre.length_le
      rw [flatMap_cons, length_append, length_encode, flatMap_nil, length_nil] at hlen
      omega
    | cons e' es' =>
      obtain ⟨rest, hrest⟩ := hpre
      rw [forall_mem_cons] at h h'
      rw [flatMap_cons, append_assoc] at hrest
      obtain ⟨rfl, htail⟩ := encode_append_inj h.1 h'.1 hrest
      rw [prefix_cons_inj]
      exact ih h.2 h'.2 ⟨rest, htail⟩

end SyncEntry

namespace SyncBatch

theorem exact_decode : Bytes.Exact decode encode Fits := by
  intro data b
  rw [decode_eq_ok, at_zero]

def Sized (b : SyncBatch) : Prop := ∀ e ∈ b.entries, e.Sized

def counted (b : SyncBatch) : SyncBatch := { b with entries := b.entries.take (b.entries.length % 2 ^ 32) }

variable {b : SyncBatch}

theorem length_counted (b : SyncBatch) : b.counted.entries.length = b.entries.length % 2 ^ 32 := by
  rw [counted, length_take, Nat.min_eq_left (Nat.mod_le _ _)]

theorem counted_eq_self (h : b.entries.length < 2 ^ 32) : b.counted = b := by
  rw [counted, Nat.mod_eq_of_lt h, take_length]

theorem encode_counted (b : SyncBatch) : b.counted.encode <+: b.encode := by
  have hcount : toBE 4 b.counted.entries.length = toBE 4 b.entries.length := by
    rw [length_counted]
    exact toBE_inj.mpr (Nat.mod_mod _ _)
  have hentries : b.counted.entries.flatMap SyncEntry.encode <+: b.entries.flatMap SyncEntry.encode := by
    obtain ⟨rest, hrest⟩ := take_prefix (b.entries.length % 2 ^ 32) b.entries
    exact ⟨rest.flatMap SyncEntry.encode, by rw [← flatMap_append]; exact congrArg _ hrest⟩
  rw [encode, encode, hcount]
  simpa only [counted, prefix_append_right_inj] using hentries

theorem encode_append_inj {b b' : SyncBatch} {rest rest'} (h : b.encode ++ rest = b'.encode ++ rest') :
    b.batchId = b'.batchId ∧ b.createdAt = b'.createdAt ∧ b.ttl = b'.ttl ∧
      b.entries.length % 2 ^ 32 = b'.entries.length % 2 ^ 32 ∧
      b.entries.flatMap SyncEntry.encode ++ rest = b'.entries.flatMap SyncEntry.encode ++ rest' := by
  simp only [encode, append_assoc] at h
  obtain ⟨hid, h⟩ := append_inj h (by rw [length_toBE, length_toBE])
  obtain ⟨hcreated, h⟩ := append_inj h (by rw [length_toBE, length_toBE])
  obtain ⟨httl, h⟩ := append_inj h rfl
  obtain ⟨hcount, h⟩ := append_inj h (by rw [length_toBE, length_toBE])
  refine ⟨?_, ?_, singleton_inj.mp httl, toBE_inj.mp hcount, h⟩
  · exact UInt64.toNat_inj.mp ((toBE_inj_of_lt b.batchId.toNat_lt b'.batchId.toNat_lt).mp hid)
  · exact UInt64.toNat_inj.mp ((toBE_inj_of_lt b.createdAt.toNat_lt b'.createdAt.toNat_lt).mp hcreated)

theorem encode_counted_ne (hb : b.Sized) (h : 2 ^ 32 ≤ b.entries.length) : b.counted.encode ≠ b.encode := by
  intro heq
  obtain ⟨-, -, -, -, hentries⟩ := encode_append_inj (congrArg (· ++ []) heq)
  -- the entries would be as many as are counted
  have hpre := SyncEntry.isPrefix_of_flatMap_encode hb (fun e he => hb e (mem_of_mem_take he))
    ⟨[], hentries.symm.trans (append_nil _)⟩
  have hle := hpre.length_le
  rw [length_take] at hle
  omega

theorem eq_counted_of_decode {b' p} (hb : b.Sized) (hp : p <+: b.encode)
    (hok : decode p = .ok b') : b' = b.counted := by
  obtain ⟨⟨hlt, hfits⟩, hp'⟩ := (exact_decode p b').mp hok
  obtain ⟨rest, hrest⟩ := hp'.trans hp
  obtain ⟨hid, hcreated, httl, hcount, hentries⟩ := encode_append_inj (hrest.trans (append_nil _).symm)
  rw [Nat.mod_eq_of_lt hlt] at hcount
  rw [append_nil] at hentries
  have hes : b'.entries <+: b.entries :=
    SyncEntry.isPrefix_of_flatMap_encode (fun e he => (hfits e he).sized) hb ⟨rest, hentries⟩
  have htake := prefix_iff_eq_take.mp hes
  rw [hcount] at htake
  rw [counted, ← hid, ← hcreated, ← httl, ← htake]

theorem refusesCut_iff (hb : b.Sized) : Bytes.RefusesCut decode b.encode ↔
    b.entries.length < 2 ^ 32 ∨ ∃ e ∈ b.counted.entries, e.syncType.inEntries = false := by
  constructor
  · intro h
    by_contra hnot
    rw [not_or, not_exists] at hnot
    obtain ⟨hlarge, hknown⟩ := hnot
    have hfits : b.counted.Fits := by
      refine ⟨by rw [length_counted]; omega, fun e he => SyncEntry.fits_iff.mpr ⟨hb e (mem_of_mem_take he), ?_⟩⟩
      exact Bool.of_not_eq_false fun hfalse => hknown e ⟨he, hfalse⟩
    have hok : decode b.counted.encode = .ok b.counted := (exact_decode _ _).mpr ⟨hfits, prefix_refl _⟩
    exact h _ b.encode_counted (encode_counted_ne hb (by omega)) _ hok
  · intro h p hp hne b' hok
    obtain rfl := eq_counted_of_decode hb hp hok
    obtain ⟨hfits, hp'⟩ := (exact_decode p _).mp hok
    rcases h with hlt | ⟨e, he, hunknown⟩
    · rw [counted_eq_self hlt] at hp'
      exact hne (hp.eq_of_length_le hp'.length_le)
    · rw [(SyncEntry.fits_iff.mp (hfits.2 e he)).2] at hunknown
      cases hunknown

theorem take_header (h : b.entries.length % 2 ^ 32 = 0) : b.encode.take 21 = b.counted.encode := by
  have hcounted : b.counted = { b with entries := [] } := by rw [counted, h, take_zero]
  have hlen : b.counted.encode.length = 21 := by rw [hcounted]; rfl
  rw [prefix_iff_eq_take.mp b.encode_counted, hlen]

end SyncBatch

namespace SyncBatch

variable {memory : Nat} {bytes : List UInt8} {b : SyncBatch}

theorem isSome_decodeIn :
    (decodeIn memory bytes).isSome ↔ (21 ≤ bytes.length → entrySize * countedIn bytes ≤ memory) := by
  unfold decodeIn
  split
  next h =>
    have hfits : ¬entrySize * countedIn bytes ≤ memory := Nat.not_le.mpr h.2
    simp [h.1, hfits]
  next h => simpa using h

theorem decode_of_decodeIn {r} (h : decodeIn memory bytes = some r) :
    decode bytes = r := by
  unfold decodeIn at h
  split at h
  · cases h
  · exact Option.some.inj h

/-- What is cut from a batch behind the header counts the entries of the batch. -/
theorem countedIn_of_isPrefix (h : bytes <+: b.encode) (hlen : 21 ≤ bytes.length) :
    countedIn bytes = b.entries.length % 2 ^ 32 := by
  have hsplit : b.encode = (toBE 8 b.batchId.toNat ++ (toBE 8 b.createdAt.toNat ++ [b.ttl])) ++
      (toBE 4 b.entries.length ++ b.entries.flatMap SyncEntry.encode) := by
    simp only [encode, append_assoc]
  have hsame : (bytes.drop 17).take 4 = (b.encode.drop 17).take 4 := by
    obtain ⟨rest, hrest⟩ := h
    rw [← hrest, drop_append_of_le_length (by omega), take_append_of_le_length (by rw [length_drop]; omega)]
  have hfront : (toBE 8 b.batchId.toNat ++ (toBE 8 b.createdAt.toNat ++ [b.ttl])).length = 17 := by
    simp only [length_append, length_toBE, length_singleton]
  rw [countedIn, hsame, hsplit, drop_left' hfront, take_left' (length_toBE _ _), ofBE_toBE]
  rfl

theorem length_encode (b : SyncBatch) : b.encode.length = 21 + (b.entries.flatMap SyncEntry.encode).length := by
  simp only [encode, length_append, length_toBE, length_singleton]
  omega

/-- Every part of a batch is answered with an error exactly if there is the memory for the
entries that its header counts, and no part is taken for a batch. -/
theorem cut_fails_iff :
    (∀ p, p <+: b.encode → p ≠ b.encode → ∃ e, decodeIn memory p = some (.error e)) ↔
      entrySize * (b.entries.length % 2 ^ 32) ≤ memory ∧ Bytes.RefusesCut decode b.encode := by
  constructor
  · intro h
    refine ⟨?_, fun p hp hne v hok => ?_⟩
    · by_contra hmemory
      have hlen : (b.encode.take 21).length = 21 := by
        rw [length_take, length_encode]
        omega
      have hcut : b.encode.take 21 ≠ b.encode := by
        intro heq
        have hnone := congrArg length heq
        rw [hlen, length_encode] at hnone
        cases hentries : b.entries with
        | nil => simp [hentries] at hmemory
        | cons e es =>
          rw [hentries, flatMap_cons, length_append, SyncEntry.length_encode] at hnone
          omega
      obtain ⟨e, he⟩ := h _ (List.take_prefix _ _) hcut
      have hmany := isSome_decodeIn.mp (Option.isSome_of_eq_some he) hlen.ge
      rw [countedIn_of_isPrefix (List.take_prefix _ _) hlen.ge] at hmany
      exact hmemory hmany
    · obtain ⟨e, he⟩ := h p hp hne
      rw [decode_of_decodeIn he] at hok
      cases hok
  · rintro ⟨hmemory, hcut⟩ p hp hne
    have hsome : (decodeIn memory p).isSome := isSome_decodeIn.mpr fun hlen => by
      rwa [countedIn_of_isPrefix hp hlen]
    obtain ⟨r, hr⟩ := Option.isSome_iff_exists.mp hsome
    cases r with
    | error e => exact ⟨e, hr⟩
    | ok v => exact absurd (decode_of_decodeIn hr) (hcut p hp hne v)

end SyncBatch

/-- No decoder leaves its data, what it gives has its encoding at the front of the bytes, and all return but
`SyncBatch::decode` without memory for the entries that the header counts. Where the texts fit their lengths, each
part of an encoding is answered with an error; of a batch only with that memory, and if it has fewer than 2³²
entries. -/
theorem decoders_accept_encodings_iff (memory : Nat) :
    (∀ bytes, SyncBatch.decodeIn memory bytes ≠ some (.error .outOfBounds) ∧
      Bytes.InBounds (TombstoneSyncMessage.decode bytes) ∧
      Bytes.InBounds (MeshCertificate.decode bytes) ∧ Bytes.InBounds (EnrollmentRequest.decode bytes)) ∧
    (∀ bytes, (SyncBatch.decodeIn memory bytes).isSome ↔
      (21 ≤ bytes.length → SyncBatch.entrySize * SyncBatch.countedIn bytes ≤ memory)) ∧
    (∀ bytes, (∀ v, SyncBatch.decodeIn memory bytes = some (.ok v) → v.encode <+: bytes) ∧
      (∀ v, TombstoneSyncMessage.decode bytes = .ok v → v.encode <+: bytes) ∧
      (∀ v, MeshCertificate.decode bytes = .ok v → v.encode <+: bytes) ∧
      (∀ v, EnrollmentRequest.decode bytes = .ok v → v.encode <+: bytes)) ∧
    (∀ m : TombstoneSyncMessage, m.TextsFit → Bytes.RefusesCut TombstoneSyncMessage.decode m.encode) ∧
    (∀ c : MeshCertificate, c.NamesFit → Bytes.RefusesCut MeshCertificate.decode c.encode) ∧
    (∀ r : EnrollmentRequest, r.Sized → Bytes.RefusesCut EnrollmentRequest.decode r.encode) ∧
    ∀ b : SyncBatch, b.Sized →
      ((∀ p, p <+: b.encode → p ≠ b.encode → ∃ e, SyncBatch.decodeIn memory p = some (.error e)) ↔
        SyncBatch.entrySize * (b.entries.length % 2 ^ 32) ≤ memory ∧ (b.entries.length < 2 ^ 32 ∨
          ∃ e ∈ b.entries.take (b.entries.length % 2 ^ 32), e.syncType.inEntries = false)) := by
  refine ⟨fun bytes => ?_, fun bytes => SyncBatch.isSome_decodeIn, fun bytes => ?_, ?_, ?_, ?_, ?_⟩
  · exact ⟨fun h => SyncBatch.inBounds_decode bytes (SyncBatch.decode_of_decodeIn h), inBounds_decode bytes,
      MeshCertificate.inBounds_decode bytes, EnrollmentRequest.inBounds_decode bytes⟩
  · exact ⟨fun v h => ((SyncBatch.exact_decode bytes v).mp (SyncBatch.decode_of_decodeIn h)).2,
      fun v h => ((exact_decode bytes v).mp h).2,
      fun v h => ((MeshCertificate.exact_decode bytes v).mp h).2,
      fun v h => ((EnrollmentRequest.exact_decode bytes v).mp h).2⟩
  · exact fun m h => refusesCut h
  · exact fun c h => MeshCertificate.exact_decode.refusesCut h
  · exact fun r h => EnrollmentRequest.exact_decode.refusesCut h
  · exact fun b h => SyncBatch.cut_fails_iff.trans (and_congr_right fun _ => SyncBatch.refusesCut_iff h)

def emptyEntries : SyncBatch := ⟨1, 0, DEFAULT_SYNC_BATCH_TTL, List.replicate n ⟨"", .deltaSync, []⟩⟩

theorem sized_emptyEntries : (emptyEntries n).Sized := by
  intro e he
  rw [(mem_replicate.mp he).2]
  decide

/-- 168 bytes are enough for every part of a batch of three entries. -/
theorem emptyEntries_refused_cut : ∀ p, p <+: (emptyEntries 3).encode → p ≠ (emptyEntries 3).encode →
    ∃ e, SyncBatch.decodeIn 168 p = some (.error e) :=
  ((decoders_accept_encodings_iff 168).2.2.2.2.2.2 _ (sized_emptyEntries 3)).mpr ⟨by decide, .inl (by decide)⟩

/-- 21 bytes: the header of a batch with a count of 2³² - 1. -/
def countsAll : List UInt8 := List.replicate 17 0 ++ List.replicate 4 255

/-- Without 240,518,168,520 bytes of memory, 21 bytes abort the process; and the first 21 bytes of a batch of 2³²
entries are read as a batch of none. -/
theorem header_aborts : countsAll.length = 21 ∧
    (∀ memory, memory < 240518168520 → SyncBatch.decodeIn memory countsAll = none) ∧
    (emptyEntries (2 ^ 32)).Sized ∧ (emptyEntries (2 ^ 32)).encode.take 21 ≠ (emptyEntries (2 ^ 32)).encode ∧
      SyncBatch.decode ((emptyEntries (2 ^ 32)).encode.take 21) = .ok (emptyEntries 0) := by
  have hlen : (emptyEntries (2 ^ 32)).entries.length = 2 ^ 32 := length_replicate
  have hzero : (emptyEntries (2 ^ 32)).entries.length % 2 ^ 32 = 0 := by rw [hlen, Nat.mod_self]
  have hcounted : (emptyEntries (2 ^ 32)).counted = emptyEntries 0 := by
    rw [SyncBatch.counted, hzero, take_zero]
    rfl
  have hsize : SyncBatch.entrySize * SyncBatch.countedIn countsAll = 240518168520 := by decide +kernel
  rw [SyncBatch.take_header hzero]
  refine ⟨rfl, fun memory hmemory => ?_, sized_emptyEntries _,
    SyncBatch.encode_counted_ne (sized_emptyEntries _) hlen.ge, ?_⟩
  · rw [SyncBatch.decodeIn, hsize, if_pos ⟨by decide, hmemory⟩]
  · rw [hcounted]
    decide +kernel

/-! ## What a certificate's signature covers -/

/-- A signature verifies for one message at most. -/
def Ed25519.Binds (ed : Ed25519) : Prop :=
  ∀ key message message' signature, ed.verify key message signature = .ok () →
    ed.verify key message' signature = .ok () → message = message'

namespace MeshCertificate

/-- Alike in all that is signed. -/
def SameSigned (c c' : MeshCertificate) : Prop :=
  c.subjectPublicKey = c'.subjectPublicKey ∧ c.meshId = c'.meshId ∧ c.nodeId = c'.nodeId ∧ c.tier = c'.tier ∧
    c.permissions = c'.permissions ∧ c.issuedAtMs = c'.issuedAtMs ∧ c.expiresAtMs = c'.expiresAtMs ∧
    c.issuerPublicKey = c'.issuerPublicKey

variable {c c' : MeshCertificate}

theorem namesFit_of_encode_eq (hc : c.NamesFit) (h : c'.encode = c.encode) : c'.NamesFit := by
  have hlen := congrArg length h
  rw [length_encode, length_encode] at hlen
  have hbyte : ∀ c : MeshCertificate, byteAt (ε := Unit) c.encode 32 = .ok (UInt8.ofNat c.meshId.utf8ByteSize) := by
    intro c
    have hat : At c.encode 0 c.encode := at_zero.mpr (prefix_refl _)
    nth_rewrite 2 [encode_eq] at hat
    rw [at_append, at_append, Vector.length_toList] at hat
    exact byteAt_eq_ok.mpr hat.2.1
  have hmesh := Except.ok.inj ((hbyte c').symm.trans ((congrArg (byteAt · 32) h).trans (hbyte c)))
  have hmod := congrArg UInt8.toNat hmesh
  rw [UInt8.toNat_ofNat', UInt8.toNat_ofNat'] at hmod
  obtain ⟨hm, hn⟩ := hc
  refine ⟨?_, ?_⟩
  · omega
  · omega

theorem sameSigned_of_signableBytes_eq (hc : c.NamesFit) (h : c'.signableBytes = c.signableBytes) :
    c'.SameSigned c := by
  -- with the other's signature it is the other
  have henc : encode { c' with signature := c.signature } = c.encode := congrArg (· ++ c.signature.toList) h
  have hfits := namesFit_of_encode_eq hc henc
  have hok := (exact_decode c.encode c).mpr ⟨hc, prefix_refl _⟩
  have hok' := (exact_decode c.encode _).mpr ⟨hfits, henc ▸ prefix_refl _⟩
  have heq := Except.ok.inj (hok'.symm.trans hok)
  rw [← heq]
  exact ⟨rfl, rfl, rfl, rfl, rfl, rfl, rfl, rfl⟩

/-- A certificate is identified by its signed bytes, and read back from its encoding, exactly when its names are
shorter than 256 bytes; its signature then verifies for no other of the issuer's. -/
theorem signed_identifies_iff (c : MeshCertificate) :
    ((∀ c' : MeshCertificate, c'.signableBytes = c.signableBytes → c'.SameSigned c) ∧ decode c.encode = .ok c ∧
      ∀ ed : Ed25519, ed.Binds → c.verifies ed = true → ∀ c' : MeshCertificate,
        c'.issuerPublicKey = c.issuerPublicKey → c'.signature = c.signature → c'.verifies ed = true → c'.SameSigned c) ↔
      c.meshId.utf8ByteSize < 256 ∧ c.nodeId.utf8ByteSize < 256 := by
  constructor
  · rintro ⟨-, hok, -⟩
    exact ((exact_decode _ _).mp hok).1
  · intro hfits
    refine ⟨fun c' => sameSigned_of_signableBytes_eq hfits, (exact_decode _ _).mpr ⟨hfits, prefix_refl _⟩, ?_⟩
    intro ed hbinds hver c' hissuer hsig hver'
    have hok := verify_of_verifies hver
    have hok' := verify_of_verifies hver'
    rw [hissuer, hsig] at hok'
    exact sameSigned_of_signableBytes_eq hfits (hbinds _ _ _ _ hok' hok)

def certificateFor (meshId nodeId : String) : MeshCertificate :=
  ⟨.replicate 32 1, meshId, nodeId, .edge, 0, 0, 0, .replicate 32 2, .replicate 64 3⟩

/-- Without a mesh id and with a node id of 353 letters, whose length byte is
that of 97, or with 256 letters and 97: the code of `a` is 97 too. -/
theorem longNames_signed_alike :
    (certificateFor "" (longName 353)).signableBytes = (certificateFor (longName 256) (longName 97)).signableBytes ∧
      longName 353 ≠ longName 97 ∧
      decode (certificateFor "" (longName 353)).encode = .error (.error (.serializationError "invalid tier byte")) := by
  decide +kernel

end MeshCertificate

end PeatMesh
