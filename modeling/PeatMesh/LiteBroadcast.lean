/-
Documents on their way to lite nodes (`transport/lite.rs`). The bridge
encodes a document by its fields, as one of the counters, a set, or a register
with the whole document as JSON, in one datagram of any length; a peer receives
512 bytes. Where a sum overflows, a peer built with overflow checks panics and one
without them goes on with the wrapped sum (`overflowChecks`).
-/
import Mathlib.Algebra.Order.BigOperators.Group.List
import PeatMesh.LiteCounters

namespace PeatMesh

open Bytes List Option

/-! ## Messages -/

/-- The `MessageType`s of the lite protocol that the transport names. -/
inductive MessageType
  | announce | heartbeat | data | query | ack | leave
  | otaOffer | otaAccept | otaData | otaAck | otaComplete | otaResult | otaAbort
  deriving DecidableEq

inductive CrdtType
  | lwwRegister | gCounter | pnCounter | orSet
  deriving DecidableEq

/-- The constants of the protocol. A code is read as what it was written for. -/
structure LiteProtocol where
  magic : List UInt8
  version : UInt8
  messageCode : MessageType → UInt8
  messageOf : UInt8 → Option MessageType
  crdtCode : CrdtType → UInt8
  crdtOf : UInt8 → Option CrdtType
  length_magic : magic.length = 4
  messageOf_code (t : MessageType) : messageOf (messageCode t) = some t
  crdtOf_code (t : CrdtType) : crdtOf (crdtCode t) = some t

structure LiteMessage where
  msgType : MessageType
  flags : UInt16
  nodeId : UInt32
  seqNum : UInt32
  payload : List UInt8
  deriving DecidableEq

namespace LiteMessage

variable (p : LiteProtocol)

def decode (buf : List UInt8) : Option LiteMessage :=
  if buf.length < 16 then none
  else if buf.take 4 ≠ p.magic then none
  else if buf[4]? ≠ some p.version then none
  else do
    let msgType ← p.messageOf (← buf[5]?)
    return {
      msgType := msgType
      flags := UInt16.ofNat (ofLE ((buf.drop 6).take 2))
      nodeId := UInt32.ofNat (ofLE ((buf.drop 8).take 4))
      seqNum := UInt32.ofNat (ofLE ((buf.drop 12).take 4))
      payload := buf.drop 16 }

variable (m : LiteMessage)

def encode : List UInt8 :=
  p.magic ++ [p.version, p.messageCode m.msgType] ++ toLE 2 m.flags.toNat ++ toLE 4 m.nodeId.toNat ++
    toLE 4 m.seqNum.toNat ++ m.payload

def data (nodeId seqNum : UInt32) (crdtType : CrdtType) (crdtData : List UInt8) : LiteMessage :=
  ⟨.data, 0, nodeId, seqNum, p.crdtCode crdtType :: crdtData⟩

theorem length_encode : (m.encode p).length = 16 + m.payload.length := by
  simp [encode, p.length_magic]
  omega

theorem decode_encode : decode p (m.encode p) = some m := by
  have hshort : ¬ (m.encode p).length < 16 := by rw [length_encode]; omega
  have hflags := ofLE_toLE_of_lt (w := 2) m.flags.toNat_lt
  have hid := ofLE_toLE_of_lt (w := 4) m.nodeId.toNat_lt
  have hseq := ofLE_toLE_of_lt (w := 4) m.seqNum.toNat_lt
  simp only [decode, hshort, if_false]
  simp [encode, drop_append, getElem?_append, p.length_magic, drop_of_length_le, hflags, hid, hseq,
    p.messageOf_code]

end LiteMessage

open LiteMessage

/-! ## The register -/

namespace LiteDocumentBridge

def decodeLwwRegister (data : List UInt8) : Option (UInt64 × UInt32 × List UInt8) :=
  if data.length < 12 then none
  else some (UInt64.ofNat (ofLE (data.take 8)), UInt32.ofNat (ofLE ((data.drop 8).take 4)), data.drop 12)

def encodeLww (timestamp : UInt64) (nodeId : UInt32) (value : List UInt8) : List UInt8 :=
  toLE 8 timestamp.toNat ++ toLE 4 nodeId.toNat ++ value

variable {F : Type}

variable (toVec : Table (Json F) → Option (List UInt8))

def encodeLwwFromDoc (doc : Table (Json F)) (localNodeId : UInt32)
    (timestamp : UInt64) : Option (List UInt8) := (toVec doc).map (encodeLww timestamp localNodeId)

theorem decodeLwwRegister_encodeLww (timestamp : UInt64) (nodeId : UInt32) (value : List UInt8) :
    decodeLwwRegister (encodeLww timestamp nodeId value) = some (timestamp, nodeId, value) := by
  have h8 : (encodeLww timestamp nodeId value).drop 8 = toLE 4 nodeId.toNat ++ value := by
    rw [encodeLww, append_assoc, drop_left' (length_toLE _ _)]
  have h12 : (encodeLww timestamp nodeId value).drop 12 = value := by
    rw [show 12 = 8 + 4 from rfl, ← drop_drop, h8, drop_left' (length_toLE _ _)]
  have htake : (encodeLww timestamp nodeId value).take 8 = toLE 8 timestamp.toNat := by
    rw [encodeLww, append_assoc, take_left' (length_toLE _ _)]
  have hid := ofLE_toLE_of_lt (w := 4) nodeId.toNat_lt
  rw [decodeLwwRegister, if_neg (by simp [encodeLww]; omega), htake, h8, h12, take_left' (length_toLE _ _),
    ofNat_ofLE_toLE, hid, UInt32.ofNat_toNat]

/-! ## Broadcast -/

/-- What the transport's errors are, as far as a broadcast goes. -/
inductive TransportError
  | other (message : String)
  | notStarted
  | socket
  deriving DecidableEq

def crdtTypeOf (fields : Table (Json F)) : CrdtType :=
  if "node_entries" ∈ fields then .pnCounter
  else if "elements" ∈ fields then .orSet
  else if "node_counts" ∈ fields then .gCounter
  else .lwwRegister

def encodedAs (crdtType : CrdtType) (message : String) (payload : Option (List UInt8)) :
    Except TransportError (CrdtType × List UInt8) :=
  payload.elim (.error (.other message)) fun bytes => .ok (crdtType, bytes)

def encodeDocument (fields : Table (Json F)) (localNodeId : UInt32)
    (now : UInt64) : Except TransportError (CrdtType × List UInt8) :=
  match crdtTypeOf fields with
  | .pnCounter => encodedAs .pnCounter "Failed to encode PnCounter" (encodePncounterFromDoc fields)
  | .orSet => encodedAs .orSet "Failed to encode OrSet" (encodeOrsetFromDoc fields)
  | .gCounter => encodedAs .gCounter "Failed to encode GCounter" (encodeGcounterFromDoc fields)
  | .lwwRegister => encodedAs .lwwRegister "Failed to encode LWW" (encodeLwwFromDoc toVec fields localNodeId now)

end LiteDocumentBridge

/-- What a broadcast uses of `LiteMeshTransport`: the node, the last sequence number,
whether there is a socket, and the peers. -/
structure LiteMeshTransport where
  localNodeId : UInt32
  seqNum : UInt32
  started : Bool
  peers : List String

/-- What a broadcast comes to: its result, the transport, and the datagrams sent, to a
peer or to all. -/
structure Broadcast where
  result : Except LiteDocumentBridge.TransportError Unit
  transport : LiteMeshTransport
  sent : List (Option String × List UInt8)

namespace LiteDocumentBridge

variable {F : Type}

variable (p : LiteProtocol) (toVec : Table (Json F) → Option (List UInt8))

def broadcastDocument
    (outboundCollections : List String) (accepts : Option String → List UInt8 → Bool) (t : LiteMeshTransport)
    (collection : String) (fields : Table (Json F)) (now : UInt64) : Broadcast :=
  if collection ∉ outboundCollections then ⟨.ok (), t, []⟩
  else
    match encodeDocument toVec fields t.localNodeId now with
    | .error e => ⟨.error e, t, []⟩
    | .ok (crdtType, payload) =>
      let t := { t with seqNum := t.seqNum + 1 }
      let datagram := (data p t.localNodeId t.seqNum crdtType payload).encode p
      if t.started = false then ⟨.error .notStarted, t, []⟩
      else if accepts none datagram = false then ⟨.error .socket, t, []⟩
      else
        let reached := t.peers.filter fun peer => accepts (some peer) datagram
        ⟨.ok (), t, (none, datagram) :: reached.map (some ·, datagram)⟩

/-! ## Reception -/

inductive LiteEntries
  | gCounter (counts : List (UInt32 × UInt64))
  | pnCounter (entries : List (UInt32 × UInt64 × UInt64))
  | orSet (elements : List OrSetElement)
  | lwwRegister (timestamp : UInt64) (nodeId : UInt32) (value : List UInt8)
  deriving DecidableEq

def decodeEntries (overflowChecks : Bool) (data : List UInt8) : CrdtType → Option LiteEntries
  | .gCounter => do
    let (counts, total) ← decodeGcounter data
    if overflowChecks && total.isNone then none else some (.gCounter counts)
  | .pnCounter => do
    let (entries, netValue) ← decodePncounter data
    if overflowChecks && netValue.isNone then none else some (.pnCounter entries)
  | .orSet => (decodeOrset data).map fun r => .orSet r.2
  | .lwwRegister => (decodeLwwRegister data).map fun r => .lwwRegister r.1 r.2.1 r.2.2

def receive (overflowChecks : Bool) (datagram : List UInt8) : Option LiteEntries := do
  let msg ← decode p (datagram.take 512)
  let code ← msg.payload.head?
  let crdtType ← p.crdtOf code
  decodeEntries overflowChecks (msg.payload.drop 1) crdtType

/-! ## What is encoded arrives -/

namespace LiteEntries

def crdtType : LiteEntries → CrdtType
  | .gCounter _ => .gCounter
  | .pnCounter _ => .pnCounter
  | .orSet _ => .orSet
  | .lwwRegister .. => .lwwRegister

def payload : LiteEntries → List UInt8
  | .gCounter counts => gcounter.encode counts
  | .pnCounter entries => pncounter.encode entries
  | .orSet elements => toLE 4 0 ++ toLE 2 elements.length ++ elements.flatMap encodeElement
  | .lwwRegister timestamp nodeId value => encodeLww timestamp nodeId value

/-- The datagram is within the 512 bytes a peer receives. -/
def Small : LiteEntries → Prop
  | .gCounter counts => counts.length ≤ 40
  | .pnCounter entries => entries.length ≤ 24
  | .orSet elements => (elements.map fun e => 10 + e.value.length).sum ≤ 489
  | .lwwRegister _ _ value => value.length ≤ 483

/-- The sum does not overflow. -/
def Countable : LiteEntries → Prop
  | .gCounter counts => (counts.map (·.2.toNat)).sum < UInt64.size
  | .pnCounter entries => (pncounter.total entries).isSome
  | .orSet _ | .lwwRegister .. => True

instance Small.decidable : ∀ d : LiteEntries, Decidable d.Small
  | .gCounter counts => inferInstanceAs (Decidable (counts.length ≤ 40))
  | .pnCounter entries => inferInstanceAs (Decidable (entries.length ≤ 24))
  | .orSet elements => inferInstanceAs (Decidable ((elements.map fun e => 10 + e.value.length).sum ≤ 489))
  | .lwwRegister _ _ value => inferInstanceAs (Decidable (value.length ≤ 483))

instance Countable.decidable : ∀ d : LiteEntries, Decidable d.Countable
  | .gCounter counts => inferInstanceAs (Decidable ((counts.map (·.2.toNat)).sum < UInt64.size))
  | .pnCounter entries => inferInstanceAs (Decidable ((pncounter.total entries).isSome))
  | .orSet _ | .lwwRegister .. => inferInstanceAs (Decidable True)

variable {d : LiteEntries} {overflowChecks : Bool}

theorem small_iff : 17 + d.payload.length ≤ 512 ↔ d.Small := by
  cases d with
  | gCounter counts =>
    rw [payload, LiteCounter.length_encode, Small, show gcounter.width = 8 from rfl]
    omega
  | pnCounter entries =>
    rw [payload, LiteCounter.length_encode, Small, show pncounter.width = 16 from rfl]
    omega
  | orSet elements =>
    have hlen (e : OrSetElement) : (encodeElement e).length = 10 + e.value.length := by
      simp only [encodeElement, length_append, length_toLE]
    simp only [payload, Small, length_append, length_toLE, length_flatMap, hlen]
    omega
  | lwwRegister timestamp nodeId value =>
    simp only [payload, encodeLww, Small, length_append, length_toLE]
    omega

theorem decodeEntries_payload (hsmall : d.Small) :
    decodeEntries overflowChecks d.payload d.crdtType = some d ↔ (overflowChecks = true → d.Countable) := by
  cases d with
  | gCounter counts =>
    have hlen : counts.length < 65536 := Nat.lt_of_le_of_lt hsmall (by decide)
    have hdecode : decodeGcounter (gcounter.encode counts) = some (counts, gcounter.total counts) :=
      LiteCounter.decode_encode hlen
    rw [Countable, ← isSome_total_gcounter]
    cases htotal : gcounter.total counts <;> simp [payload, crdtType, decodeEntries, hdecode, htotal]
  | pnCounter entries =>
    have hlen : entries.length < 65536 := Nat.lt_of_le_of_lt hsmall (by decide)
    have hdecode : decodePncounter (pncounter.encode entries) = some (entries, pncounter.total entries) :=
      LiteCounter.decode_encode hlen
    rw [Countable]
    cases htotal : pncounter.total entries <;> simp [payload, crdtType, decodeEntries, hdecode, htotal]
  | orSet elements =>
    have hsum : (elements.map fun e => 10 + e.value.length).sum ≤ 489 := hsmall
    have hcount := length_le_sum_of_one_le (elements.map fun e => 10 + e.value.length) fun n hn => by
      obtain ⟨e, -, rfl⟩ := mem_map.mp hn
      omega
    have hsized : ∀ e ∈ elements, Sized e := fun e he => by
      have hle := le_sum_of_mem (mem_map_of_mem (f := fun e => 10 + e.value.length) he)
      rw [Sized]
      omega
    rw [length_map] at hcount
    rw [payload, crdtType, decodeEntries, decodeOrset_encode (by omega) hsized]
    simp [Countable]
  | lwwRegister timestamp nodeId value =>
    simp [payload, crdtType, decodeEntries, decodeLwwRegister_encodeLww, Countable]

end LiteEntries

theorem receive_data_iff (nodeId seqNum : UInt32) (d : LiteEntries) (overflowChecks : Bool) :
    (((data p nodeId seqNum d.crdtType d.payload).encode p).length ≤ 512 ∧
      receive p overflowChecks ((data p nodeId seqNum d.crdtType d.payload).encode p) = some d) ↔
    d.Small ∧ (overflowChecks = true → d.Countable) := by
  have hlen : ((data p nodeId seqNum d.crdtType d.payload).encode p).length = 17 + d.payload.length := by
    rw [length_encode, data, length_cons]
    omega
  rw [hlen, LiteEntries.small_iff]
  refine and_congr_right fun hsmall => ?_
  rw [receive, take_of_length_le (by rw [hlen]; exact LiteEntries.small_iff.mpr hsmall), decode_encode]
  simp [data, p.crdtOf_code, LiteEntries.decodeEntries_payload hsmall]

/-! ## What is encoded is the document -/

variable (fields : Table (Json F))

def docElements : Option (List OrSetElement) := do
  let items ← (← fields["elements"]?).asArray
  items.mapM elementOfJson

def encodedEntries (localNodeId : UInt32) (now : UInt64) : Option LiteEntries :=
  match crdtTypeOf fields with
  | .pnCounter => (pncounter.docEntries fields).map .pnCounter
  | .orSet => (docElements fields).map .orSet
  | .gCounter => (gcounter.docEntries fields).map .gCounter
  | .lwwRegister => (toVec fields).map (.lwwRegister now localNodeId)

variable {α β : Type}

theorem forall₂_of_mapM {f} {l : List α} {l' : List β} (h : l.mapM f = some l') :
    List.Forall₂ (fun a b => f a = some b) l l' := by
  induction l generalizing l' with
  | nil =>
    cases h
    exact .nil
  | cons a l ih =>
    rw [mapM_cons] at h
    obtain ⟨b, hb, h⟩ := bind_eq_some_iff.mp h
    obtain ⟨bs, hbs, h⟩ := bind_eq_some_iff.mp h
    cases h
    exact .cons hb (ih hbs)

theorem forall₂_filterMap_iff {f : α → Option β} {l} :
    List.Forall₂ (fun a b => f a = some b) l (l.filterMap f) ↔ ∀ a ∈ l, (f a).isSome := by
  induction l with
  | nil => simp
  | cons a l ih =>
    rw [forall_mem_cons]
    cases ha : f a with
    | none =>
      refine iff_of_false (fun h => ?_) (by simp)
      have hlen := h.length_eq
      have hle := length_filterMap_le f l
      rw [filterMap_cons_none ha, length_cons] at hlen
      omega
    | some b => simp [filterMap_cons_some ha, ih, ha]

theorem encodeOrsetFromDoc_eq :
    encodeOrsetFromDoc fields = (docElements fields).map fun elements => (LiteEntries.orSet elements).payload := by
  unfold encodeOrsetFromDoc docElements
  cases fields["elements"]? with
  | none => rfl
  | some v =>
    cases hitems : v.asArray with
    | none => simp [hitems]
    | some items =>
      cases helements : items.mapM elementOfJson with
      | none => simp [hitems, helements]
      | some elements =>
        simp [hitems, helements, LiteEntries.payload, (forall₂_of_mapM helements).length_eq]

variable {toVec : Table (Json F) → Option (List UInt8)} {fields : Table (Json F)} {now : UInt64}

theorem encodeDocument_eq_ok {localNodeId crdtType payload}
    (h : encodeDocument toVec fields localNodeId now = .ok (crdtType, payload)) :
    ∃ d, encodedEntries toVec fields localNodeId now = some d ∧ crdtType = d.crdtType ∧ payload = d.payload := by
  have hencoded {α : Type} {t : CrdtType} {message : String} {read : Option α} {encode : α → List UInt8}
      (h : encodedAs t message (read.map encode) = .ok (crdtType, payload)) :
      ∃ a, read = some a ∧ crdtType = t ∧ payload = encode a := by
    cases read <;> cases h
    exact ⟨_, rfl, rfl, rfl⟩
  unfold encodeDocument at h
  unfold encodedEntries
  cases hkind : crdtTypeOf fields with
  | pnCounter =>
    rw [hkind] at h
    obtain ⟨entries, hentries, rfl, rfl⟩ := hencoded h
    exact ⟨_, by rw [hentries]; rfl, rfl, rfl⟩
  | orSet =>
    simp only [hkind, encodeOrsetFromDoc_eq] at h
    obtain ⟨elements, helements, rfl, rfl⟩ := hencoded h
    exact ⟨_, by rw [helements]; rfl, rfl, rfl⟩
  | gCounter =>
    rw [hkind] at h
    obtain ⟨counts, hcounts, rfl, rfl⟩ := hencoded h
    exact ⟨_, by rw [hcounts]; rfl, rfl, rfl⟩
  | lwwRegister =>
    rw [hkind] at h
    obtain ⟨json, hjson, rfl, rfl⟩ := hencoded h
    exact ⟨_, by rw [hjson]; rfl, rfl, rfl⟩

def tagSeqOf (item : Json F) : Option UInt64 := do (← (← item.asObject).lookup "tag_seq").asU64

def CoversCounter {α T : Type} (c : LiteCounter α T) (fields : Table (Json F)) (entries : List (UInt32 × α)) : Prop :=
  ∃ obj, fields[c.field]? = some (.object obj) ∧ List.Forall₂ (fun kv e => c.entryOfJson kv = some e) obj entries

/-- The entries are all there is in the fields. -/
def Covers (fields : Table (Json F)) : LiteEntries → Prop
  | .gCounter counts => CoversCounter gcounter fields counts
  | .pnCounter entries => CoversCounter pncounter fields entries
  | .orSet elements => ∃ items, fields["elements"]? = some (.array items) ∧
      List.Forall₂ (fun item e => elementOfJson item = some e ∧ tagSeqOf item = some e.tagSeq.toUInt64) items elements
  | .lwwRegister .. => True

def ReadableCounter {α T : Type} (c : LiteCounter α T) (fields : Table (Json F)) : Prop :=
  ∀ obj, fields[c.field]? = some (.object obj) → ∀ kv ∈ obj, (c.entryOfJson kv).isSome

/-- Each entry of the document can be read in full. -/
def Readable (fields : Table (Json F)) : Prop :=
  match crdtTypeOf fields with
  | .gCounter => ReadableCounter gcounter fields
  | .pnCounter => ReadableCounter pncounter fields
  | .orSet => ∀ items, fields["elements"]? = some (.array items) → ∀ item ∈ items, ∀ seq ∈ tagSeqOf item,
      seq.toNat < UInt32.size
  | .lwwRegister => True

theorem coversCounter_iff {α T} {c : LiteCounter α T} {entries}
    (h : c.docEntries fields = some entries) : CoversCounter c fields entries ↔ ReadableCounter c fields := by
  obtain ⟨v, hv, h⟩ := bind_eq_some_iff.mp h
  obtain ⟨obj, hobj, h⟩ := bind_eq_some_iff.mp h
  cases h
  have hv : fields[c.field]? = some (.object obj) := by
    cases v <;> cases hobj
    exact hv
  simp only [CoversCounter, ReadableCounter, hv, some.injEq, Json.object.injEq, exists_eq_left', forall_eq']
  exact forall₂_filterMap_iff

theorem tagSeqOf_eq_iff {item : Json F} {e} (h : elementOfJson item = some e) :
    tagSeqOf item = some e.tagSeq.toUInt64 ↔ ∀ seq ∈ tagSeqOf item, seq.toNat < UInt32.size := by
  simp only [elementOfJson, bind_eq_bind, bind_eq_some_iff] at h
  obtain ⟨obj, hobj, _, _, _, _, _, _, v, hv, seq, hseq, _, _, _, _, _, _, h⟩ := h
  cases h
  have hread : tagSeqOf item = some seq := by simp [tagSeqOf, hobj, hv, hseq]
  rw [hread, some.injEq, ← UInt64.toNat_inj]
  simp only [mem_some_iff, forall_eq']
  exact eq_comm.trans (Nat.mod_eq_iff_lt (by decide))

theorem forall₂_and_iff {R S : α → β → Prop} {P : α → Prop} {l l'}
    (h : List.Forall₂ R l l') (hiff : ∀ a b, R a b → (S a b ↔ P a)) :
    List.Forall₂ (fun a b => R a b ∧ S a b) l l' ↔ ∀ a ∈ l, P a := by
  induction h with
  | nil => simp
  | cons hab _ ih => simp [hab, ih, hiff _ _ hab]

theorem coversElements_iff {elements}
    (h : docElements fields = some elements) : Covers fields (.orSet elements) ↔
      ∀ items, fields["elements"]? = some (.array items) → ∀ item ∈ items, ∀ seq ∈ tagSeqOf item,
        seq.toNat < UInt32.size := by
  obtain ⟨v, hv, h⟩ := bind_eq_some_iff.mp h
  obtain ⟨items, hitems, h⟩ := bind_eq_some_iff.mp h
  have hv : fields["elements"]? = some (.array items) := by
    cases v <;> cases hitems
    exact hv
  simp only [Covers, hv, some.injEq, Json.array.injEq, exists_eq_left', forall_eq']
  exact forall₂_and_iff (forall₂_of_mapM h) fun item e => tagSeqOf_eq_iff

theorem covers_iff {localNodeId d} (h : encodedEntries toVec fields localNodeId now = some d) :
    Covers fields d ↔ Readable fields := by
  unfold encodedEntries at h
  unfold Readable
  cases hkind : crdtTypeOf fields with
  | pnCounter =>
    rw [hkind] at h
    obtain ⟨entries, hentries, rfl⟩ := map_eq_some_iff.mp h
    exact coversCounter_iff hentries
  | orSet =>
    rw [hkind] at h
    obtain ⟨elements, helements, rfl⟩ := map_eq_some_iff.mp h
    exact coversElements_iff helements
  | gCounter =>
    rw [hkind] at h
    obtain ⟨counts, hcounts, rfl⟩ := map_eq_some_iff.mp h
    exact coversCounter_iff hcounts
  | lwwRegister =>
    rw [hkind] at h
    obtain ⟨json, -, rfl⟩ := map_eq_some_iff.mp h
    exact Iff.rfl

theorem sent_of_ok {p outboundCollections accepts t collection} (hcollection : collection ∈ outboundCollections)
    (hok : (broadcastDocument p toVec outboundCollections accepts t collection fields now).result = .ok ()) :
    ∃ d datagram, encodedEntries toVec fields t.localNodeId now = some d ∧
      datagram = (data p t.localNodeId (t.seqNum + 1) d.crdtType d.payload).encode p ∧
      (none, datagram) ∈ (broadcastDocument p toVec outboundCollections accepts t collection fields now).sent ∧
      ∀ sent ∈ (broadcastDocument p toVec outboundCollections accepts t collection fields now).sent,
        sent.2 = datagram := by
  revert hok
  fun_cases broadcastDocument p toVec outboundCollections accepts t collection fields now <;> intro hok
  case case1 hnot => exact absurd hcollection hnot
  case case5 crdtType payload hencode t' datagram _ _ reached =>
    obtain ⟨d, hd, rfl, rfl⟩ := encodeDocument_eq_ok hencode
    refine ⟨d, _, hd, rfl, mem_cons_self, fun sent hsent => ?_⟩
    rcases mem_cons.mp hsent with rfl | hsent
    · rfl
    · obtain ⟨peer, -, rfl⟩ := mem_map.mp hsent
      rfl
  all_goals cases hok

/-- A broadcast document arrives as encoded exactly when it is small enough and, with overflow checks, its sum does
not overflow; and all of it was encoded exactly when each entry can be read in full. -/
theorem broadcast_intact_iff (p : LiteProtocol) (toVec : Table (Json F) → Option (List UInt8))
    (outboundCollections : List String) (accepts : Option String → List UInt8 → Bool) (t : LiteMeshTransport)
    (collection : String) (fields : Table (Json F)) (now : UInt64) (hcollection : collection ∈ outboundCollections)
    (hok : (broadcastDocument p toVec outboundCollections accepts t collection fields now).result = .ok ())
    (overflowChecks : Bool) :
    ∃ d datagram, encodedEntries toVec fields t.localNodeId now = some d ∧
      (none, datagram) ∈ (broadcastDocument p toVec outboundCollections accepts t collection fields now).sent ∧
      (∀ sent ∈ (broadcastDocument p toVec outboundCollections accepts t collection fields now).sent,
        sent.2 = datagram) ∧
      ((datagram.length ≤ 512 ∧ receive p overflowChecks datagram = some d) ↔
        d.Small ∧ (overflowChecks = true → d.Countable)) ∧
      (Covers fields d ↔ Readable fields) := by
  obtain ⟨d, datagram, hd, rfl, hmem, hall⟩ := sent_of_ok hcollection hok
  exact ⟨d, _, hd, hmem, hall, receive_data_iff p _ _ d overflowChecks, covers_iff hd⟩

def someProtocol : LiteProtocol where
  magic := [80, 69, 65, 84]
  version := 1
  messageCode t := UInt8.ofNat t.ctorIdx
  messageOf code := [.announce, .heartbeat, .data, .query, .ack, .leave, .otaOffer, .otaAccept, .otaData, .otaAck,
    .otaComplete, .otaResult, .otaAbort][code.toNat]?
  crdtCode t := UInt8.ofNat t.ctorIdx
  crdtOf code := [.lwwRegister, .gCounter, .pnCounter, .orSet][code.toNat]?
  length_magic := rfl
  messageOf_code t := by cases t <;> rfl
  crdtOf_code t := by cases t <;> rfl

def someTransport : LiteMeshTransport := ⟨7, 0, true, []⟩

def broadcastOf (fields : Table (Json Unit)) (json : List UInt8) : Broadcast :=
  broadcastDocument someProtocol (fun _ => some json) ["c"] (fun _ _ => true) someTransport "c" fields 0

def countsOf (n : Nat) : Table (Json Unit) :=
  (∅ : Table (Json Unit)).insert "node_counts"
    (.object ((List.range n).map fun i => (formatTag (UInt32.ofNat i), .number (.posInt 1))))

theorem two_nodes_arrive :
    (broadcastOf (countsOf 2) []).result = .ok () ∧ ∃ datagram, (none, datagram) ∈ (broadcastOf (countsOf 2) []).sent ∧
      datagram.length ≤ 512 ∧ receive someProtocol true datagram = some (.gCounter [(0, 1), (1, 1)]) := by
  have hok : (broadcastOf (countsOf 2) []).result = .ok () := rfl
  obtain ⟨d, datagram, hd, hmem, -, hiff, -⟩ := broadcast_intact_iff someProtocol (fun _ => some []) ["c"]
    (fun _ _ => true) someTransport "c" (countsOf 2) 0 (by decide) hok true
  have hcounts : d = .gCounter [(0, 1), (1, 1)] :=
    some.inj (hd.symm.trans (by decide +kernel))
  subst hcounts
  exact ⟨hok, datagram, hmem, hiff.mpr ⟨by decide, fun _ => by decide⟩⟩

/-- A counter of 41 nodes cannot be decoded, a register arrives cut off, and an entry whose node is no number is
left out. -/
theorem broadcast_cut_off :
    ((broadcastOf (countsOf 41) []).result = .ok () ∧ ∃ datagram,
      (broadcastOf (countsOf 41) []).sent = [(none, datagram)] ∧ datagram.length = 515 ∧
        ∀ overflowChecks, receive someProtocol overflowChecks datagram = none) ∧
    ((broadcastOf ∅ (List.replicate 600 97)).result = .ok () ∧ ∃ datagram,
      (broadcastOf ∅ (List.replicate 600 97)).sent = [(none, datagram)] ∧
        ∀ overflowChecks, receive someProtocol overflowChecks datagram =
          some (.lwwRegister 0 7 (List.replicate 483 97))) ∧
    ((broadcastOf ((∅ : Table (Json Unit)).insert "node_counts" (.object [("zz", .number (.posInt 1))])) []).result =
        .ok () ∧ ∃ datagram,
      (broadcastOf ((∅ : Table (Json Unit)).insert "node_counts" (.object [("zz", .number (.posInt 1))])) []).sent =
        [(none, datagram)] ∧ ∀ overflowChecks, receive someProtocol overflowChecks datagram = some (.gCounter [])) := by
  refine ⟨⟨rfl, _, rfl, ?_⟩, ⟨rfl, _, rfl, ?_⟩, rfl, _, rfl, ?_⟩
  · decide +kernel
  · decide +kernel
  · decide +kernel

end LiteDocumentBridge

/-! ## Queries -/

structure QueryRequest where
  crdtType : CrdtType
  collection : String
  docId : Option String
  deriving DecidableEq

namespace QueryRequest

open LiteDocumentBridge (someProtocol)

variable (p : LiteProtocol) (q : QueryRequest)

def encode : List UInt8 :=
  let collection := utf8 q.collection
  let docId := utf8 (q.docId.getD "")
  p.crdtCode q.crdtType :: UInt8.ofNat collection.length :: (collection ++ UInt8.ofNat docId.length :: docId)

def decode (data : List UInt8) : Option QueryRequest :=
  if data.length < 3 then none
  else do
    let crdtType ← p.crdtOf (← data[0]?)
    let collectionLen := (← data[1]?).toNat
    if data.length < 2 + collectionLen + 1 then none
    let collection ← String.fromUTF8? ⟨((data.drop 2).take collectionLen).toArray⟩
    let docIdOffset := 2 + collectionLen
    let docIdLen := (← data[docIdOffset]?).toNat
    if data.length < docIdOffset + 1 + docIdLen then none
    if 0 < docIdLen then
      let docId ← String.fromUTF8? ⟨((data.drop (docIdOffset + 1)).take docIdLen).toArray⟩
      return ⟨crdtType, collection, some docId⟩
    else return ⟨crdtType, collection, none⟩

/-- The texts fit their length bytes, and a document id is not empty. -/
def Fits : Prop := (utf8 q.collection).length < 256 ∧ ∀ docId ∈ q.docId, docId ≠ "" ∧ (utf8 docId).length < 256

variable {p q}

theorem decode_cons {x k rest} : decode p (x :: k :: rest) = some q ↔
    p.crdtOf x = some q.crdtType ∧ utf8 q.collection = rest.take k.toNat ∧
      ∃ j tail, rest.drop k.toNat = j :: tail ∧ j.toNat ≤ tail.length ∧
        (q.docId = none ∧ j.toNat = 0 ∨
          ∃ docId, q.docId = some docId ∧ 0 < j.toNat ∧ utf8 docId = tail.take j.toNat) := by
  have hget : (x :: k :: rest)[2 + k.toNat]? = (rest.drop k.toNat)[0]? := by
    rw [getElem?_drop, Nat.add_comm 2]
    rfl
  have hdrop : (x :: k :: rest).drop (2 + k.toNat + 1) = (rest.drop k.toNat).drop 1 := by
    rw [drop_drop, show 2 + k.toNat + 1 = k.toNat + 1 + 2 by omega]
    rfl
  have hlen : (rest.drop k.toNat).length = rest.length - k.toNat := length_drop
  unfold decode
  simp only [getElem?_cons_zero, getElem?_cons_succ, bind_eq_bind, bind_some, hget, hdrop]
  obtain ⟨crdtType, collection, docId⟩ := q
  cases hrest : rest.drop k.toNat with
  | nil =>
    simp
  | cons j tail =>
    rw [hrest, length_cons] at hlen
    have h3 : ¬ (x :: k :: rest).length < 3 := by simp only [length_cons]; omega
    have hlong : ¬ (x :: k :: rest).length < 2 + k.toNat + 1 := by simp only [length_cons]; omega
    have hfits : (x :: k :: rest).length < 2 + k.toNat + 1 + j.toNat ↔ ¬ j.toNat ≤ tail.length := by
      simp only [length_cons]
      omega
    simp only [h3, hlong, hfits, if_false, getElem?_cons_zero, bind_some, bind_eq_some_iff,
      drop_succ_cons, drop_zero, fromUTF8?_eq_some]
    by_cases hj : j.toNat ≤ tail.length <;> by_cases hzero : 0 < j.toNat <;>
      cases docId <;> simp [hj, hzero, fromUTF8?_eq_some, bind_eq_some_iff]
    all_goals omega

theorem length_lt_of_take {l m : List UInt8} {n : UInt8} (h : l = m.take n.toNat) : l.length < 256 := by
  have hlen := congrArg length h
  have hn := n.toNat_lt
  rw [length_take] at hlen
  omega

theorem drop_collection {l m : List UInt8} (h : l.length < 256) :
    (l ++ m).drop (UInt8.ofNat l.length).toNat = m := by
  rw [toNat_ofNat_of_lt h, drop_left]

/-- **A query is read back exactly when it fits**, by itself and as the payload of a
message. -/
theorem query_roundTrip_iff (p : LiteProtocol) (q : QueryRequest) (m : LiteMessage) :
    (decode p (q.encode p) = some q ∧
      (LiteMessage.decode p (LiteMessage.encode p { m with payload := q.encode p })).bind (decode p ·.payload) =
        some q) ↔ q.Fits := by
  rw [LiteMessage.decode_encode, bind_some, and_self_iff]
  have hdecode : decode p (q.encode p) = some q ↔ _ := decode_cons
  rw [hdecode, Fits]
  constructor
  · rintro ⟨-, hcollection, j, tail, hrest, -, hdocId⟩
    have hlen := length_lt_of_take hcollection
    rw [drop_collection hlen] at hrest
    cases hrest
    refine ⟨hlen, fun docId hmem => ?_⟩
    rcases hdocId with ⟨hnone, -⟩ | ⟨docId', hsome, hpos, htake⟩
    · rw [hnone] at hmem
      cases hmem
    cases hsome.symm.trans hmem
    refine ⟨?_, length_lt_of_take htake⟩
    rintro rfl
    rw [hsome] at hpos
    exact absurd hpos (by decide)
  · rintro ⟨hlen, hdocId⟩
    refine ⟨p.crdtOf_code _, ?_, _, _, drop_collection hlen, ?_, ?_⟩
    · rw [toNat_ofNat_of_lt hlen, take_left]
    · rw [UInt8.toNat_ofNat']
      exact Nat.mod_le _ _
    · cases hq : q.docId with
      | none => exact .inl ⟨rfl, rfl⟩
      | some docId =>
        obtain ⟨hne, hlt⟩ := hdocId docId hq
        refine .inr ⟨docId, rfl, ?_, ?_⟩
        · rw [getD_some, toNat_ofNat_of_lt hlt, length_utf8]
          exact Nat.pos_of_ne_zero (mt String.utf8ByteSize_eq_zero_iff.mp hne)
        · rw [getD_some, toNat_ofNat_of_lt hlt, take_length]

def longName : String := String.ofList (List.replicate 256 'a')

/-- An empty document id is read back as none, and a name of 256 bytes as an empty one. -/
theorem query_read_otherwise :
    decode someProtocol (encode someProtocol ⟨.gCounter, "c", some ""⟩) = some ⟨.gCounter, "c", none⟩ ∧
      decode someProtocol (encode someProtocol ⟨.gCounter, longName, none⟩) =
        some ⟨.gCounter, "", some (String.ofList (List.replicate 97 'a'))⟩ := by
  refine ⟨decode_cons.mpr ⟨rfl, rfl, _, _, rfl, by decide, .inl ⟨rfl, rfl⟩⟩,
    decode_cons.mpr ⟨rfl, ?_, 97, replicate 255 97 ++ [0], ?_, ?_, .inr ⟨_, rfl, by decide, ?_⟩⟩⟩
  · decide +kernel
  · decide +kernel
  · decide +kernel
  · decide +kernel

end QueryRequest

end PeatMesh
