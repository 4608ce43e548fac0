/-
Observed-remove sets between lite and full nodes (`transport/lite.rs`):
bytes with the sender's id, a count of 16 bits, and for each element its tag and
a value; a full node keeps them as the fields of a document.
-/
import PeatMesh.Bytes
import PeatMesh.Json
import PeatMesh.Store

namespace PeatMesh

open Bytes List Option

structure OrSetElement where
  tagNodeId : UInt32
  tagSeq : UInt32
  value : List UInt8
  deriving DecidableEq, Repr

def Json.asU64 {F : Type} : Json F → Option UInt64
  | .number (.posInt n) => some n
  | _ => none

def Json.asArray {F : Type} : Json F → Option (List (Json F))
  | .array items => some items
  | _ => none

def Json.asObject {F : Type} : Json F → Option (List (String × Json F))
  | .object entries => some entries
  | _ => none

/-! ## Numbers and bytes as text -/

def upperDigits (b : UInt8) : List Char := (hexDigits b).map Char.toUpper

def formatTag (n : UInt32) : String := String.ofList ((toBE 4 n.toNat).flatMap upperDigits)

def radixDigit (n : Nat) (c : Char) : Option Nat := do
  let d ← hexValue c.toLower
  if n * 16 + d < 2 ^ 32 then some (n * 16 + d) else none

def afterPlus : List Char → List Char
  | '+' :: digits => digits
  | digits => digits

def fromStrRadix16 (s : String) : Option UInt32 :=
  match afterPlus s.toList with
  | [] => none
  | digits => (digits.foldlM radixDigit 0).map UInt32.ofNat

def hexDecode (s : String) : Option (List UInt8) := unhex (s.toList.map Char.toLower)

/-! ## The bridge -/

namespace LiteDocumentBridge

variable {F : Type}

def decodeElements : Nat → List UInt8 → Option (List OrSetElement)
  | 0, _ => some []
  | n + 1, data =>
    if data.length < 10 then none
    else
      let tagNodeId := UInt32.ofNat (ofLE (data.take 4))
      let tagSeq := UInt32.ofNat (ofLE ((data.drop 4).take 4))
      let valueLen := ofLE ((data.drop 8).take 2)
      if data.length < 10 + valueLen then none
      else
        let value := (data.drop 10).take valueLen
        (decodeElements n (data.drop (10 + valueLen))).map (⟨tagNodeId, tagSeq, value⟩ :: ·)

def decodeOrset (data : List UInt8) : Option (UInt32 × List OrSetElement) :=
  if data.length < 6 then none
  else
    let localNodeId := UInt32.ofNat (ofLE (data.take 4))
    let numElements := ofLE ((data.drop 4).take 2)
    (decodeElements numElements (data.drop 6)).map (localNodeId, ·)

variable (e : OrSetElement)

def elementToJson : Json F :=
  .object [("tag_node", .string (formatTag e.tagNodeId)), ("tag_seq", .number (.posInt e.tagSeq.toUInt64)),
    ("value", .string (hex e.value))]

def orsetToFields (nodeId : String) (elements : List OrSetElement) (now : UInt64) : Table (Json F) :=
  (∅ : Table (Json F))
    |>.insert "type" (.string "orset")
    |>.insert "source_node" (.string nodeId)
    |>.insert "count" (.number (.posInt (UInt64.ofNat elements.length)))
    |>.insert "elements" (.array (elements.map elementToJson))
    |>.insert "updated_at" (.number (.posInt now))

def encodeElement : List UInt8 :=
  toLE 4 e.tagNodeId.toNat ++ toLE 4 e.tagSeq.toNat ++ toLE 2 e.value.length ++ e.value

def elementOfJson (elem : Json F) : Option OrSetElement := do
  let obj ← elem.asObject
  let tagNodeStr ← (← obj.lookup "tag_node").asStr
  let tagNodeId ← fromStrRadix16 tagNodeStr
  let tagSeq := (← (← obj.lookup "tag_seq").asU64).toUInt32
  let valueHex ← (← obj.lookup "value").asStr
  let value ← hexDecode valueHex
  return ⟨tagNodeId, tagSeq, value⟩

def encodeOrsetFromDoc (doc : Table (Json F)) : Option (List UInt8) := do
  let elementsArr ← (← doc["elements"]?).asArray
  let elements ← elementsArr.mapM elementOfJson
  return toLE 4 0 ++ toLE 2 elementsArr.length ++ elements.flatMap encodeElement

/-! ## Text and back -/

theorem hexValue_upper : ∀ n < 16, hexValue (Nat.digitChar n).toUpper.toLower = some n := by decide

theorem upper_ne_plus : ∀ n < 16, (Nat.digitChar n).toUpper ≠ '+' := by decide

theorem toLower_digitChar : ∀ n < 16, (Nat.digitChar n).toLower = Nat.digitChar n := by decide

theorem hexDecode_hex (l : List UInt8) : hexDecode (hex l) = some l := by
  have hlower : (hex l).toList.map Char.toLower = (hex l).toList := by
    rw [hex, String.toList_ofList]
    induction l with
    | nil => rfl
    | cons b l ih =>
      have hb := b.toNat_lt
      rw [flatMap_cons, map_append, ih, hexDigits, map_cons, map_cons, map_nil,
        toLower_digitChar _ (by omega), toLower_digitChar _ (by omega)]
  rw [hexDecode, hlower, unhex_toList_hex]

variable {n : Nat}

theorem foldlM_upperDigits {b} (h : n * 256 + b.toNat < 2 ^ 32) :
    (upperDigits b).foldlM radixDigit n = some (n * 256 + b.toNat) := by
  have hb := b.toNat_lt
  have hhi := hexValue_upper (b.toNat / 16) (by omega)
  have hlo := hexValue_upper (b.toNat % 16) (by omega)
  have hfirst : n * 16 + b.toNat / 16 < 2 ^ 32 := by omega
  have hsum : (n * 16 + b.toNat / 16) * 16 + b.toNat % 16 = n * 256 + b.toNat := by omega
  simp only [upperDigits, hexDigits, map_cons, map_nil, foldlM_cons, foldlM_nil, radixDigit,
    bind_eq_bind, hhi, hlo, bind_some, if_pos hfirst, hsum, if_pos h]
  rfl

theorem foldlM_flatMap_upperDigits {l} (h : n * 256 ^ l.length + ofBE l < 2 ^ 32) :
    (l.flatMap upperDigits).foldlM radixDigit n = some (n * 256 ^ l.length + ofBE l) := by
  induction l generalizing n with
  | nil => simp [ofBE]
  | cons b l ih =>
    have hsplit : n * 256 ^ (b :: l).length + ofBE (b :: l) = (n * 256 + b.toNat) * 256 ^ l.length + ofBE l := by
      rw [ofBE_cons, length_cons]
      ring
    rw [hsplit] at h ⊢
    have hpos : 0 < 256 ^ l.length := Nat.pow_pos (by decide)
    have hle : n * 256 + b.toNat ≤ (n * 256 + b.toNat) * 256 ^ l.length := Nat.le_mul_of_pos_right _ hpos
    rw [flatMap_cons, foldlM_append, foldlM_upperDigits (by omega)]
    exact ih h

theorem afterPlus_of_ne {c} (h : c ≠ '+') (l : List Char) : afterPlus (c :: l) = c :: l := by
  unfold afterPlus
  split
  · rename_i heq
    cases heq
    exact absurd rfl h
  · rfl

theorem fromStrRadix16_formatTag (n : UInt32) : fromStrRadix16 (formatTag n) = some n := by
  have hn := n.toNat_lt
  have hlist : (formatTag n).toList = (toBE 4 n.toNat).flatMap upperDigits := String.toList_ofList
  have hvalue := ofBE_toBE_of_lt (w := 4) (by omega)
  have hread := foldlM_flatMap_upperDigits (n := 0) (by rw [hvalue]; omega)
  rw [hvalue, Nat.zero_mul, Nat.zero_add] at hread
  cases hbytes : toBE 4 n.toNat with
  | nil =>
    have hlen := length_toBE 4 n.toNat
    rw [hbytes] at hlen
    cases hlen
  | cons b l =>
    have hb := b.toNat_lt
    have hplus : (Nat.digitChar (b.toNat / 16)).toUpper ≠ '+' := upper_ne_plus _ (by omega)
    rw [hbytes] at hlist hread
    rw [fromStrRadix16, hlist]
    -- the first digit is no sign, and there is one
    show (match afterPlus ((Nat.digitChar (b.toNat / 16)).toUpper :: _) with | [] => _ | digits => _) = _
    rw [afterPlus_of_ne hplus]
    exact (congrArg (Option.map UInt32.ofNat) hread).trans (congrArg some UInt32.ofNat_toNat)

theorem elementOfJson_elementToJson : elementOfJson (elementToJson e : Json F) = some e := by
  have hseq : e.tagSeq.toUInt64.toUInt32 = e.tagSeq := UInt32.toUInt32_toUInt64 e.tagSeq
  have hnode := fromStrRadix16_formatTag e.tagNodeId
  have hvalue := hexDecode_hex e.value
  simp only [elementOfJson, elementToJson, Json.asObject, Json.asStr, Json.asU64, lookup_cons, hseq, hnode, hvalue,
    bind_eq_bind, bind_some, Option.pure_def, String.reduceBEq, beq_self_eq_true]

theorem mapM_elementOfJson (elements : List OrSetElement) :
    (elements.map (elementToJson (F := F))).mapM elementOfJson = some elements := by
  induction elements with
  | nil => rfl
  | cons e elements ih =>
    rw [map_cons, mapM_cons, elementOfJson_elementToJson, ih]
    rfl

/-! ## Bytes and back -/

/-- The value fits its length field. -/
def Sized : Prop := e.value.length < 65536

theorem decodeElements_cons {e} (h : Sized e) (n : Nat) (rest : List UInt8) :
    decodeElements (n + 1) (encodeElement e ++ rest) = (decodeElements n rest).map (e :: ·) := by
  have hnode := ofLE_toLE_of_lt (w := 4) e.tagNodeId.toNat_lt
  have hseq := ofLE_toLE_of_lt (w := 4) e.tagSeq.toNat_lt
  have hlen := ofLE_toLE_of_lt (w := 2) h
  have htotal : (encodeElement e ++ rest).length = 10 + e.value.length + rest.length := by
    simp only [encodeElement, length_append, length_toLE]
  have hdrop : (encodeElement e ++ rest).drop (10 + e.value.length) = rest :=
    drop_left' (by simp only [encodeElement, length_append, length_toLE])
  have hvalue : ofLE (((encodeElement e ++ rest).drop 8).take 2) = e.value.length := by
    simp [encodeElement, drop_append, hlen, drop_of_length_le]
  simp only [decodeElements, hvalue, hdrop]
  rw [if_neg (by omega), if_neg (by omega)]
  simp [encodeElement, drop_append, hnode, hseq, drop_of_length_le]

variable {elements : List OrSetElement}

theorem decodeElements_flatMap (h : ∀ e ∈ elements, Sized e) :
    decodeElements elements.length (elements.flatMap encodeElement) = some elements := by
  induction elements with
  | nil => rfl
  | cons e elements ih =>
    rw [flatMap_cons, length_cons, decodeElements_cons (h e mem_cons_self),
      ih fun e' he' => h e' (mem_cons_of_mem _ he'), map_some]

theorem ofLE_take_two_lt (l : List UInt8) : ofLE (l.take 2) < 65536 := by
  have hlt := ofBE_lt (l.take 2).reverse
  have hlen : (l.take 2).reverse.length ≤ 2 := by
    rw [length_reverse, length_take]
    exact Nat.min_le_left _ _
  exact Nat.lt_of_lt_of_le hlt (Nat.pow_le_pow_right (by decide) hlen)

theorem sized_of_decodeElements {data}
    (h : decodeElements n data = some elements) : elements.length = n ∧ ∀ e ∈ elements, Sized e := by
  induction n generalizing data elements with
  | zero =>
    cases h
    exact ⟨rfl, fun e he => absurd he not_mem_nil⟩
  | succ n ih =>
    rw [decodeElements] at h
    simp only at h
    split at h
    · cases h
    split at h
    · cases h
    obtain ⟨tail, htail, rfl⟩ := map_eq_some_iff.mp h
    obtain ⟨hlen, hsized⟩ := ih htail
    refine ⟨by rw [length_cons, hlen], fun e he => ?_⟩
    rcases mem_cons.mp he with rfl | he
    · have hlt := ofLE_take_two_lt (data.drop 8)
      rw [Sized, length_take]
      omega
    · exact hsized e he

theorem decodeOrset_encode (hcount : elements.length < 65536) (h : ∀ e ∈ elements, Sized e) :
    decodeOrset (toLE 4 0 ++ toLE 2 elements.length ++ elements.flatMap encodeElement) = some (0, elements) := by
  have hlen := ofLE_toLE_of_lt (w := 2) hcount
  simp only [decodeOrset, drop_append, length_append, length_toLE]
  rw [if_neg (by omega)]
  simp [hlen, drop_of_length_le, decodeElements_flatMap h]
  rfl

theorem encodeOrsetFromDoc_orsetToFields (nodeId : String) (elements : List OrSetElement) (now : UInt64) :
    encodeOrsetFromDoc (orsetToFields nodeId elements now : Table (Json F)) =
      some (toLE 4 0 ++ toLE 2 elements.length ++ elements.flatMap encodeElement) := by
  have hfield : (orsetToFields nodeId elements now : Table (Json F))["elements"]? =
      some (.array (elements.map elementToJson)) := by
    rw [orsetToFields, Table.getElem?_insert, if_neg (by decide), Table.getElem?_insert, if_pos rfl]
  have hread := mapM_elementOfJson (F := F) elements
  simp only [encodeOrsetFromDoc, hfield, Json.asArray, bind_eq_bind, bind_some, hread, length_map]
  rfl

/-- **What a lite node's bytes are read as comes out of the document as it went
in.** -/
theorem orset_bridge {data : List UInt8} {localNodeId : UInt32} {elements : List OrSetElement}
    (h : decodeOrset data = some (localNodeId, elements)) (nodeId : String) (now : UInt64) :
    ∃ bytes, encodeOrsetFromDoc (orsetToFields nodeId elements now : Table (Json F)) = some bytes ∧
      decodeOrset bytes = some (0, elements) := by
  refine ⟨_, encodeOrsetFromDoc_orsetToFields nodeId elements now, ?_⟩
  rw [decodeOrset] at h
  simp only at h
  split at h
  · cases h
  obtain ⟨read, hread, heq⟩ := map_eq_some_iff.mp h
  cases heq
  obtain ⟨hlen, hsized⟩ := sized_of_decodeElements hread
  have hlt := ofLE_take_two_lt (data.drop 4)
  exact decodeOrset_encode (by omega) hsized

def twoElements : List UInt8 :=
  [7, 0, 0, 0, 2, 0] ++ [0xAB, 0, 0, 0, 1, 0, 0, 0, 2, 0, 0xFF, 0x10] ++ [0xCD, 0, 0, 0, 2, 0, 0, 0, 0, 0] ++ [9]

theorem orset_bridge_two :
    decodeOrset twoElements = some (7, [⟨0xAB, 1, [0xFF, 0x10]⟩, ⟨0xCD, 2, []⟩]) ∧
      ∃ bytes, encodeOrsetFromDoc (orsetToFields "n" [⟨0xAB, 1, [0xFF, 0x10]⟩, ⟨0xCD, 2, []⟩] 0 : Table (Json Unit)) =
          some bytes ∧
        decodeOrset bytes = some (0, [⟨0xAB, 1, [0xFF, 0x10]⟩, ⟨0xCD, 2, []⟩]) := by
  have hread : decodeOrset twoElements = some (7, [⟨0xAB, 1, [0xFF, 0x10]⟩, ⟨0xCD, 2, []⟩]) := by decide +kernel
  exact ⟨hread, orset_bridge hread "n" 0⟩

end LiteDocumentBridge

end PeatMesh
