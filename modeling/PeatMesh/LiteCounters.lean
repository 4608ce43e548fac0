/-
Counters between lite and full nodes (`transport/lite.rs`): bytes with an
id, a count of 16 bits, and for each node its id and what it has counted; a full
node keeps them as the fields of a document. A growing counter and one that also
shrinks are one `LiteCounter`.
-/
import Mathlib.Algebra.BigOperators.Group.List.Basic
import Mathlib.Data.List.Induction
import PeatMesh.LiteOrSet

namespace PeatMesh

open Bytes List Option Std.ExtTreeMap

/-- What a counter keeps of each node: as bytes, in a document and in the sum, which is `none` where it overflows.
-/
structure LiteCounter (α T : Type) where
  /-- The field `type` of a document. -/
  kind : String
  /-- The fields of the sum and of the nodes. -/
  totalField : String
  field : String
  /-- How many bytes there are for a node after its id. -/
  width : Nat
  read : List UInt8 → α
  write : α → List UInt8
  toJson {F : Type} : α → Json F
  ofJson {F : Type} : Json F → Option α
  zero : T
  add : T → α → Option T
  totalToJson {F : Type} : T → Json F
  /-- The sum as a number, and what an entry adds to it. -/
  value : T → Int
  weight : α → Int
  field_ne : field ≠ "updated_at"
  length_write (a : α) : (write a).length = width
  read_write (a : α) : read (write a) = a
  ofJson_toJson {F : Type} (a : α) : ofJson (toJson a : Json F) = some a
  value_injective {t t' : T} : value t = value t' → t = t'
  value_add {t t' : T} {a : α} : add t a = some t' → value t' = value t + weight a

namespace LiteCounter

variable {F α T : Type} (c : LiteCounter α T)

variable (entries : List (UInt32 × α))

def total : Option T := entries.foldlM (fun t e => c.add t e.2) c.zero

def readEntries : Nat → List UInt8 → List (UInt32 × α)
  | 0, _ => []
  | n + 1, data =>
    (UInt32.ofNat (ofLE (data.take 4)), c.read ((data.drop 4).take c.width)) ::
      readEntries n (data.drop (4 + c.width))

def decode (data : List UInt8) : Option (List (UInt32 × α) × Option T) :=
  if data.length < 6 then none
  else
    let numEntries := ofLE ((data.drop 4).take 2)
    if data.length < 6 + numEntries * (4 + c.width) then none
    else
      let entries := c.readEntries numEntries (data.drop 6)
      some (entries, c.total entries)

def nodeEntries : Table (Json F) :=
  entries.foldl (fun t e => t.insert (formatTag e.1) (c.toJson e.2)) ∅

def toFields (nodeId : String) (entries : List (UInt32 × α)) (total : T) (now : UInt64) : Table (Json F) :=
  (∅ : Table (Json F))
    |>.insert "type" (.string c.kind)
    |>.insert "source_node" (.string nodeId)
    |>.insert c.totalField (c.totalToJson total)
    |>.insert c.field (.object (c.nodeEntries entries).toList)
    |>.insert "updated_at" (.number (.posInt now))

def entryOfJson (entry : String × Json F) : Option (UInt32 × α) := do
  let nodeId ← fromStrRadix16 entry.1
  let a ← c.ofJson entry.2
  return (nodeId, a)

def encodeEntry (e : UInt32 × α) : List UInt8 := toLE 4 e.1.toNat ++ c.write e.2

def encode : List UInt8 :=
  toLE 4 0 ++ toLE 2 entries.length ++ entries.flatMap c.encodeEntry

def docEntries (doc : Table (Json F)) : Option (List (UInt32 × α)) := do
  let nodeEntries ← (← doc[c.field]?).asObject
  return nodeEntries.filterMap c.entryOfJson

def encodeFromDoc (doc : Table (Json F)) : Option (List UInt8) := (c.docEntries doc).map c.encode

end LiteCounter

/-! ## The two counters -/

namespace LiteDocumentBridge

def addCount (total count : UInt64) : Option UInt64 :=
  if total.toNat + count.toNat < UInt64.size then some (total + count) else none

def checkedInt64 (n : Int) : Option Int64 :=
  if Int64.minValue.toInt ≤ n ∧ n ≤ Int64.maxValue.toInt then some (Int64.ofInt n) else none

def addNet (netValue : Int64) (entry : UInt64 × UInt64) : Option Int64 := do
  let change ← checkedInt64 (entry.1.toInt64.toInt - entry.2.toInt64.toInt)
  checkedInt64 (netValue.toInt + change.toInt)

def int64ToJson {F : Type} (n : Int64) : Json F :=
  if n < 0 then .number (.negInt n) else .number (.posInt n.toUInt64)

theorem toInt_of_checkedInt64 {n x} (h : checkedInt64 n = some x) : x.toInt = n := by
  unfold checkedInt64 at h
  split at h
  next hn =>
    cases h
    exact Int64.toInt_ofInt_of_le hn.1 (Int.lt_add_one_of_le hn.2)
  next => cases h

def gcounter : LiteCounter UInt64 UInt64 where
  kind := "gcounter"
  totalField := "total"
  field := "node_counts"
  width := 8
  read bytes := UInt64.ofNat (ofLE bytes)
  write count := toLE 8 count.toNat
  toJson count := .number (.posInt count)
  ofJson v := v.asU64
  zero := 0
  add := addCount
  totalToJson total := .number (.posInt total)
  value total := total.toNat
  weight count := count.toNat
  field_ne := by decide
  length_write count := length_toLE _ _
  read_write := ofNat_ofLE_toLE
  ofJson_toJson _ := rfl
  value_injective h := UInt64.toNat_inj.mp (Int.ofNat.inj h)
  value_add {t t' a} h := by
    unfold addCount at h
    split at h
    next hlt =>
      cases h
      rw [UInt64.toNat_add, Nat.mod_eq_of_lt hlt, Nat.cast_add]
    next => cases h

def pncounter : LiteCounter (UInt64 × UInt64) Int64 where
  kind := "pncounter"
  totalField := "net_value"
  field := "node_entries"
  width := 16
  read bytes := (UInt64.ofNat (ofLE (bytes.take 8)), UInt64.ofNat (ofLE ((bytes.drop 8).take 8)))
  write entry := toLE 8 entry.1.toNat ++ toLE 8 entry.2.toNat
  toJson entry := .object [("decrements", .number (.posInt entry.2)), ("increments", .number (.posInt entry.1))]
  ofJson v := do
    let obj ← v.asObject
    let increments ← (← obj.lookup "increments").asU64
    let decrements ← (← obj.lookup "decrements").asU64
    return (increments, decrements)
  zero := 0
  add := addNet
  totalToJson := int64ToJson
  value netValue := netValue.toInt
  weight entry := entry.1.toInt64.toInt - entry.2.toInt64.toInt
  field_ne := by decide
  length_write entry := by simp
  read_write entry := by
    rw [List.take_left' (length_toLE _ _), List.drop_left' (length_toLE _ _), List.take_of_length_le (by simp),
      ofNat_ofLE_toLE, ofNat_ofLE_toLE]
  ofJson_toJson _ := rfl
  value_injective h := Int64.toInt_inj.mp h
  value_add {t t' a} h := by
    obtain ⟨change, hchange, hsum⟩ := Option.bind_eq_some_iff.mp h
    rw [toInt_of_checkedInt64 hsum, toInt_of_checkedInt64 hchange]

def decodeGcounter (data : List UInt8) : Option (List (UInt32 × UInt64) × Option UInt64) := gcounter.decode data

def gcounterToFields {F : Type} (nodeId : String) (counts : List (UInt32 × UInt64)) (total : UInt64) (now : UInt64) :
    Table (Json F) := gcounter.toFields nodeId counts total now

def encodeGcounterFromDoc {F : Type} (doc : Table (Json F)) : Option (List UInt8) := gcounter.encodeFromDoc doc

def decodePncounter (data : List UInt8) : Option (List (UInt32 × UInt64 × UInt64) × Option Int64) :=
  pncounter.decode data

def pncounterToFields {F : Type} (nodeId : String) (entries : List (UInt32 × UInt64 × UInt64)) (netValue : Int64)
    (now : UInt64) : Table (Json F) := pncounter.toFields nodeId entries netValue now

def encodePncounterFromDoc {F : Type} (doc : Table (Json F)) : Option (List UInt8) := pncounter.encodeFromDoc doc

end LiteDocumentBridge

namespace LiteCounter

variable {F α T : Type} {c : LiteCounter α T} {entries : List (UInt32 × α)}

/-! ## Bytes and back -/

variable (e : UInt32 × α)

theorem length_encodeEntry : (c.encodeEntry e).length = 4 + c.width := by
  rw [encodeEntry, length_append, length_toLE, c.length_write]

theorem length_encode : (c.encode entries).length = 6 + entries.length * (4 + c.width) := by
  have hentries : (entries.flatMap c.encodeEntry).length = entries.length * (4 + c.width) := by
    simp [length_flatMap, length_encodeEntry]
  simp only [encode, length_append, length_toLE, hentries]

theorem readEntries_cons (n : Nat) (rest : List UInt8) :
    c.readEntries (n + 1) (c.encodeEntry e ++ rest) = e :: c.readEntries n rest := by
  have hid : UInt32.ofNat (ofLE (toLE 4 e.1.toNat)) = e.1 := by
    rw [ofLE_toLE_of_lt e.1.toNat_lt, UInt32.ofNat_toNat]
  have hdrop : (c.encodeEntry e ++ rest).drop (4 + c.width) = rest := drop_left' (length_encodeEntry e)
  rw [readEntries, hdrop, encodeEntry, append_assoc, take_left' (length_toLE _ _),
    drop_left' (length_toLE _ _), take_left' (c.length_write _), hid, c.read_write]

theorem readEntries_flatMap : c.readEntries entries.length (entries.flatMap c.encodeEntry) = entries := by
  induction entries with
  | nil => rfl
  | cons e entries ih => rw [flatMap_cons, length_cons, readEntries_cons, ih]

theorem decode_encode (h : entries.length < 65536) : c.decode (c.encode entries) = some (entries, c.total entries) := by
  have hcount : ofLE (((c.encode entries).drop 4).take 2) = entries.length := by
    rw [encode, append_assoc, drop_left' (length_toLE _ _), take_left' (length_toLE _ _),
      ofLE_toLE_of_lt h]
  have hdrop : (c.encode entries).drop 6 = entries.flatMap c.encodeEntry := drop_left' (by simp)
  simp only [decode, hcount, hdrop, readEntries_flatMap, length_encode]
  rw [if_neg (by omega), if_neg (by omega)]

theorem length_readEntries (n : Nat) (data : List UInt8) : (c.readEntries n data).length = n := by
  induction n generalizing data with
  | zero => rfl
  | succ n ih => rw [readEntries, length_cons, ih]

theorem of_decode {data total} (h : c.decode data = some (entries, total)) :
    entries.length < 65536 ∧ total = c.total entries := by
  unfold decode at h
  simp only at h
  split at h
  · cases h
  split at h
  · cases h
  · cases h
    rw [length_readEntries]
    exact ⟨LiteDocumentBridge.ofLE_take_two_lt _, rfl⟩

/-! ## Documents and back -/

theorem formatTag_injective {m n} (h : formatTag m = formatTag n) : m = n := by
  have hn := LiteDocumentBridge.fromStrRadix16_formatTag n
  rw [← h, LiteDocumentBridge.fromStrRadix16_formatTag] at hn
  exact some.inj hn

theorem entryOfJson_toJson : c.entryOfJson (formatTag e.1, (c.toJson e.2 : Json F)) = some e := by
  simp [entryOfJson, LiteDocumentBridge.fromStrRadix16_formatTag, c.ofJson_toJson]

theorem mem_of_nodeEntries {k} {v : Json F} (h : (c.nodeEntries entries)[k]? = some v) :
    ∃ e ∈ entries, (k, v) = (formatTag e.1, c.toJson e.2) := by
  induction entries using reverseRecOn with
  | nil => simp [nodeEntries] at h
  | append_singleton entries e ih =>
    rw [nodeEntries, foldl_append, foldl_cons, foldl_nil, Table.getElem?_insert] at h
    split at h
    next hk =>
      cases h
      exact ⟨e, by simp, by rw [hk]⟩
    next =>
      obtain ⟨e', he', hkv⟩ := ih h
      exact ⟨e', mem_append_left _ he', hkv⟩

theorem nodeEntries_of_mem (hnodup : (entries.map (·.1)).Nodup) {e} (h : e ∈ entries) :
    (c.nodeEntries entries : Table (Json F))[formatTag e.1]? = some (c.toJson e.2) := by
  induction entries using reverseRecOn with
  | nil => cases h
  | append_singleton entries e' ih =>
    rw [map_append, nodup_append] at hnodup
    rw [nodeEntries, foldl_append, foldl_cons, foldl_nil, Table.getElem?_insert]
    rcases mem_append.mp h with h | h
    · have hne : formatTag e'.1 ≠ formatTag e.1 := fun heq =>
        hnodup.2.2 e.1 (mem_map_of_mem h) e'.1 (by simp) (formatTag_injective heq).symm
      rw [if_neg hne]
      exact ih hnodup.1 h
    · rw [mem_singleton.mp h, if_pos rfl]

def reread (F : Type) (c : LiteCounter α T) (entries : List (UInt32 × α)) : List (UInt32 × α) :=
  (c.nodeEntries entries : Table (Json F)).toList.filterMap c.entryOfJson

theorem of_entryOfJson {kv : String × Json F} {e} (h : kv ∈ (c.nodeEntries entries).toList)
    (hread : c.entryOfJson kv = some e) : e ∈ entries ∧ kv = (formatTag e.1, c.toJson e.2) := by
  obtain ⟨e', he', heq⟩ := mem_of_nodeEntries (mem_toList_iff_getElem?_eq_some.mp h)
  have hkv : kv = (formatTag e'.1, c.toJson e'.2) := heq
  rw [hkv, entryOfJson_toJson] at hread
  cases hread
  exact ⟨he', hkv⟩

theorem pairwise_reread : (c.reread F entries).Pairwise fun e e' => compare (formatTag e.1) (formatTag e'.1) = .lt := by
  rw [reread, pairwise_filterMap]
  refine ordered_keys_toList.imp_of_mem ?_
  intro kv kv' hkv hkv' hlt e he e' he'
  obtain ⟨-, rfl⟩ := of_entryOfJson hkv he
  obtain ⟨-, rfl⟩ := of_entryOfJson hkv' he'
  exact hlt

theorem nodup_reread : ((c.reread F entries).map (·.1)).Nodup := by
  rw [Nodup, pairwise_map]
  refine pairwise_reread.imp fun hlt heq => ?_
  rw [heq] at hlt
  simp at hlt

theorem reread_perm (hnodup : (entries.map (·.1)).Nodup) : (c.reread F entries).Perm entries := by
  rw [perm_ext_iff_of_nodup (Nodup.of_map _ nodup_reread) (Nodup.of_map _ hnodup)]
  intro e
  rw [reread, mem_filterMap]
  constructor
  · rintro ⟨kv, hkv, hread⟩
    exact (of_entryOfJson hkv hread).1
  · intro he
    exact ⟨_, mem_toList_iff_getElem?_eq_some.mpr (nodeEntries_of_mem hnodup he), entryOfJson_toJson e⟩

theorem encodeFromDoc_toFields (nodeId : String) (total : T) (now : UInt64) :
    c.encodeFromDoc (c.toFields nodeId entries total now : Table (Json F)) = some (c.encode (c.reread F entries)) := by
  have hfield : (c.toFields nodeId entries total now : Table (Json F))[c.field]? =
      some (.object (c.nodeEntries entries).toList) := by
    rw [toFields, Table.getElem?_insert, if_neg c.field_ne.symm, Table.getElem?_insert, if_pos rfl]
  simp [encodeFromDoc, docEntries, hfield, Json.asObject, reread]

/-! ## Sums -/

theorem value_foldlM {t t'} (h : entries.foldlM (fun t e => c.add t e.2) t = some t') :
    c.value t' = c.value t + (entries.map fun e => c.weight e.2).sum := by
  induction entries generalizing t with
  | nil =>
    cases h
    simp
  | cons e entries ih =>
    obtain ⟨t₁, hadd, hrest⟩ := bind_eq_some_iff.mp h
    rw [ih hrest, c.value_add hadd, map_cons, sum_cons]
    omega

theorem total_eq_of_perm {entries' t t'} (hperm : entries'.Perm entries)
    (h : c.total entries = some t) (h' : c.total entries' = some t') : t' = t := by
  refine c.value_injective ?_
  rw [value_foldlM h, value_foldlM h', (hperm.map _).sum_eq]

def inTagOrder (entries : List (UInt32 × α)) : List (UInt32 × α) :=
  entries.mergeSort fun e e' => (compare (formatTag e.1) (formatTag e'.1)).isLE

theorem pairwise_inTagOrder :
    (inTagOrder entries).Pairwise fun e e' => (compare (formatTag e.1) (formatTag e'.1)).isLE = true := by
  refine pairwise_mergeSort (fun _ _ _ => Std.TransCmp.isLE_trans) (fun e e' => ?_) entries
  have hge := @Std.OrientedCmp.isGE_iff_isLE _ compare _ (formatTag e.1) (formatTag e'.1)
  rw [Bool.or_eq_true, ← hge]
  cases compare (formatTag e.1) (formatTag e'.1) <;> simp

theorem reread_eq (hnodup : (entries.map (·.1)).Nodup) : c.reread F entries = inTagOrder entries := by
  have hordered : (c.reread F entries).Pairwise fun e e' => (compare (formatTag e.1) (formatTag e'.1)).isLE = true :=
    pairwise_reread.imp fun hlt => by simp [hlt]
  refine Perm.eq_of_pairwise (fun e e' he he' hle hge => ?_) hordered pairwise_inTagOrder
    ((reread_perm hnodup).trans (mergeSort_perm entries _).symm)
  have hid : e.1 = e'.1 := formatTag_injective
    (Std.LawfulEqCmp.eq_of_compare (Std.OrientedCmp.isLE_antisymm hle hge))
  exact inj_on_of_nodup_map hnodup ((reread_perm hnodup).mem_iff.mp he) (mem_mergeSort.mp he') hid

/-- What is decoded comes back from a document with the same entries and sum. -/
def Preserves (F : Type) (c : LiteCounter α T) (data : List UInt8) : Prop :=
  ∀ entries total, c.decode data = some (entries, total) → ∃ t, total = some t ∧
    ∀ nodeId now, ∃ bytes entries', c.encodeFromDoc (c.toFields nodeId entries t now : Table (Json F)) = some bytes ∧
      c.decode bytes = some (entries', some t) ∧ entries'.Perm entries

theorem length_reread_le : (c.reread F entries).length ≤ entries.length := by
  refine (subperm_of_subset (Nodup.of_map _ nodup_reread) fun e he => ?_).length_le
  obtain ⟨kv, hkv, hread⟩ := mem_filterMap.mp he
  exact (of_entryOfJson hkv hread).1

theorem preserves_iff {data} : c.Preserves F data ↔
    ∀ entries total, c.decode data = some (entries, total) →
      (entries.map (·.1)).Nodup ∧ (c.total entries).isSome ∧ (c.total (inTagOrder entries)).isSome := by
  refine forall_congr' fun entries => forall_congr' fun total => forall_congr' fun hdecode => ?_
  obtain ⟨hlen, rfl⟩ := of_decode hdecode
  have hagain : c.decode (c.encode (c.reread F entries)) = some (c.reread F entries, c.total (c.reread F entries)) :=
    decode_encode (Nat.lt_of_le_of_lt length_reread_le hlen)
  constructor
  · intro h
    obtain ⟨t, ht, hpreserved⟩ := h
    obtain ⟨bytes, entries', hbytes, hread, hperm⟩ := hpreserved "" 0
    rw [encodeFromDoc_toFields] at hbytes
    cases hbytes
    rw [hagain, some.injEq, Prod.mk.injEq] at hread
    obtain ⟨rfl, htotal⟩ := hread
    have hnodup : (entries.map (·.1)).Nodup := (hperm.map _).nodup_iff.mp nodup_reread
    rw [reread_eq hnodup] at htotal
    exact ⟨hnodup, by rw [ht, isSome_some], by rw [htotal, isSome_some]⟩
  · intro h
    obtain ⟨hnodup, htotal, hordered⟩ := h
    obtain ⟨t, ht⟩ := isSome_iff_exists.mp htotal
    obtain ⟨t', ht'⟩ := isSome_iff_exists.mp hordered
    have hperm := reread_perm (F := F) (c := c) hnodup
    rw [← reread_eq hnodup] at ht'
    refine ⟨t, ht, fun nodeId now => ⟨_, _, encodeFromDoc_toFields nodeId t now, hagain.trans ?_, hperm⟩⟩
    rw [ht', total_eq_of_perm hperm ht ht']

end LiteCounter

namespace LiteDocumentBridge

open LiteCounter

theorem isSome_foldlM_addCount (counts : List (UInt32 × UInt64)) (t : UInt64) :
    (counts.foldlM (fun t e => addCount t e.2) t).isSome ↔
      t.toNat + (counts.map (·.2.toNat)).sum < UInt64.size := by
  induction counts generalizing t with
  | nil => simpa using t.toNat_lt
  | cons e counts ih =>
    rw [foldlM_cons, map_cons, sum_cons, addCount]
    split
    next hlt =>
      have hadd : (t + e.2).toNat = t.toNat + e.2.toNat := by rw [UInt64.toNat_add, Nat.mod_eq_of_lt hlt]
      rw [bind_eq_bind, bind_some, ih, hadd, Nat.add_assoc]
    next hlt =>
      refine iff_of_false (by simp) fun hsum => hlt ?_
      omega

theorem isSome_total_gcounter {counts} :
    (gcounter.total counts).isSome ↔ (counts.map (·.2.toNat)).sum < UInt64.size := by
  have h := isSome_foldlM_addCount counts 0
  rwa [UInt64.toNat_zero, Nat.zero_add] at h

/-- A counter comes out as it went in exactly when no node is repeated and the sum does not overflow in either order
of its entries. -/
theorem counters_preserved_iff (F : Type) (data : List UInt8) :
    (gcounter.Preserves F data ↔
      ∀ counts total, decodeGcounter data = some (counts, total) →
        (counts.map (·.1)).Nodup ∧ (counts.map (·.2.toNat)).sum < UInt64.size) ∧
    (pncounter.Preserves F data ↔
      ∀ entries netValue, decodePncounter data = some (entries, netValue) →
        (entries.map (·.1)).Nodup ∧ (pncounter.total entries).isSome ∧
          (pncounter.total (inTagOrder entries)).isSome) := by
  refine ⟨?_, preserves_iff⟩
  rw [preserves_iff]
  refine forall_congr' fun counts => forall_congr' fun total => forall_congr' fun _ => and_congr_right fun _ => ?_
  have hsum : ((inTagOrder counts).map (·.2.toNat)).sum = (counts.map (·.2.toNat)).sum :=
    ((mergeSort_perm counts _).map _).sum_nat
  rw [isSome_total_gcounter, isSome_total_gcounter, hsum, and_self]

def twoHalves : List (UInt32 × UInt64) := [(1, 9223372036854775808), (2, 9223372036854775808)]

def upAndDown : List (UInt32 × UInt64 × UInt64) := [(2, 9223372036854775807, 0), (3, 0, 1), (1, 1, 0)]

/-- A node that stands twice counts once afterwards; and the sums overflow, the last of
them once the document has put the entries in order. -/
theorem repeated_node_and_overflow :
    (decodeGcounter (gcounter.encode [(1, 5), (1, 7)]) = some ([(1, 5), (1, 7)], some 12) ∧
      ∃ bytes, encodeGcounterFromDoc (gcounterToFields "n" [(1, 5), (1, 7)] 12 0 : Table (Json Unit)) = some bytes ∧
        decodeGcounter bytes = some ([(1, 7)], some 7)) ∧
    decodeGcounter (gcounter.encode twoHalves) = some (twoHalves, none) ∧
    decodePncounter (pncounter.encode [(1, 0, 9223372036854775808)]) = some ([(1, 0, 9223372036854775808)], none) ∧
    (decodePncounter (pncounter.encode upAndDown) = some (upAndDown, some 9223372036854775807) ∧
      ∃ bytes, encodePncounterFromDoc (pncounterToFields "n" upAndDown 9223372036854775807 0 : Table (Json Unit)) =
          some bytes ∧
        decodePncounter bytes = some ([(1, 1, 0), (2, 9223372036854775807, 0), (3, 0, 1)], none)) := by
  refine ⟨⟨by decide +kernel, _, rfl, ?_⟩, by decide +kernel, by decide +kernel, by decide +kernel, _, rfl, ?_⟩
  · decide +kernel
  · decide +kernel

end LiteDocumentBridge

end PeatMesh
