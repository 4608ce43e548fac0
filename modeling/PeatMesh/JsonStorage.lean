/-
JSON through storage: what `json_to_automerge` writes into a document,
whatever the document held, and `automerge_to_json` reads back. Integers above
`i64::MAX` are written as doubles.
-/
import PeatMesh.FieldMerge
import PeatMesh.Query

namespace PeatMesh

open OpSet Entries UInt64

variable {F : Type}

/-! ## The numbers of a value -/

mutual

def Json.allNumbers (p : Number F → Bool) : Json F → Bool
  | .number n => p n
  | .array items => Json.allNumbersItems p items
  | .object entries => Json.allNumbersEntries p entries
  | _ => true

def Json.allNumbersItems (p : Number F → Bool) : List (Json F) → Bool
  | [] => true
  | v :: vs => v.allNumbers p && Json.allNumbersItems p vs

def Json.allNumbersEntries (p : Number F → Bool) : List (String × Json F) → Bool
  | [] => true
  | (_, v) :: es => v.allNumbers p && Json.allNumbersEntries p es

end

def Number.isKept : Number F → Bool
  | .negInt n => n < 0
  | _ => true

def Number.fits : Number F → Bool
  | .posInt n => n ≤ 9223372036854775807
  | _ => true

theorem Number.ofI64_toInt64 {n} (h : n ≤ 9223372036854775807) :
    (Number.ofI64 n.toInt64 : Number F) = .posInt n := by
  have hle : n.toNat ≤ 9223372036854775807 := le_iff_toNat_le.mp h
  have hvalue : n.toInt64.toInt = n.toNat := by
    rw [← Int64.toInt_toBitVec, BitVec.toInt_eq_toNat_of_lt]
    · rfl
    · show 2 * n.toNat < _
      omega
  have hneg : ¬ n.toInt64 < 0 := by
    rw [Int64.lt_iff_toInt_lt, hvalue]
    simp
  rw [Number.ofI64, if_neg hneg, toUInt64_toInt64]

section Stored

variable [Doubles F]

theorem Number.asStored_eq_self {n : Number F} (h : n.isKept) : n.asStored = n ↔ n.fits := by
  cases n with
  | posInt n =>
    simp only [Number.asStored, Number.asI64, Number.fits, decide_eq_true_eq]
    by_cases hle : n ≤ 9223372036854775807
    · simp [hle, Number.ofI64_toInt64]
    · simp [hle]
  | negInt n =>
    simp only [Number.isKept, decide_eq_true_eq] at h
    simp [Number.asStored, Number.asI64, Number.ofI64, h, Number.fits]
  | float f => simp [Number.asStored, Number.asI64, Number.asF64, Number.fits]

mutual

theorem Json.asStored_eq_self : ∀ {v : Json F}, v.allNumbers Number.isKept → (v.asStored = v ↔ v.allNumbers Number.fits)
  | .null, _ => by simp [Json.asStored, Json.allNumbers]
  | .bool _, _ => by simp [Json.asStored, Json.allNumbers]
  | .number n, h => by
    rw [Json.allNumbers] at h
    rw [Json.asStored, Json.number.injEq, Json.allNumbers, Number.asStored_eq_self h]
  | .string _, _ => by simp [Json.asStored, Json.allNumbers]
  | .array items, h => by
    rw [Json.allNumbers] at h
    rw [Json.asStored, Json.array.injEq, Json.allNumbers, Json.asStoredItems_eq_self h]
  | .object entries, h => by
    rw [Json.allNumbers] at h
    rw [Json.asStored, Json.object.injEq, Json.allNumbers, Json.asStoredEntries_eq_self h]

theorem Json.asStoredItems_eq_self :
    ∀ {vs : List (Json F)}, allNumbersItems Number.isKept vs → (asStoredItems vs = vs ↔ allNumbersItems Number.fits vs)
  | [], _ => by simp [Json.asStoredItems, Json.allNumbersItems]
  | v :: vs, h => by
    rw [Json.allNumbersItems, Bool.and_eq_true] at h
    rw [Json.asStoredItems, List.cons.injEq, Json.allNumbersItems, Bool.and_eq_true, Json.asStored_eq_self h.1,
      Json.asStoredItems_eq_self h.2]

theorem Json.asStoredEntries_eq_self :
    ∀ {es : List (String × Json F)}, allNumbersEntries Number.isKept es →
      (asStoredEntries es = es ↔ allNumbersEntries Number.fits es)
  | [], _ => by simp [Json.asStoredEntries, Json.allNumbersEntries]
  | (k, v) :: es, h => by
    rw [Json.allNumbersEntries, Bool.and_eq_true] at h
    rw [Json.asStoredEntries, List.cons.injEq, Prod.mk.injEq, Json.allNumbersEntries, Bool.and_eq_true,
      Json.asStored_eq_self h.1, Json.asStoredEntries_eq_self h.2]
    simp

end

end Stored

/-! ## What is read back -/

section Storage

variable {α : Type} [Doubles F] [Ord α] [DecidableEq α] {w : Winner String (ScalarValue F) α} {x : α}
  {d d' : Automerge F α} {base : List (String × Json F)} {new : List (Entry String (ScalarValue F) α)}

theorem Upserted.keyReads (h : Upserted w x d d' base new) (k : String) :
    KeyReads w d'.ops .root k ((base.lookup k).map Json.asStored) := by
  cases hv : base.lookup k with
  | none => exact keyReads_none (get_eq_none.2 (h.conflicts_eq_nil hv))
  | some v =>
    have hleaves := h.leaves k
    rw [hv] at hleaves
    rcases hleaves with ⟨⟨hc, e, hget, hact⟩, hn⟩ | ⟨-, e, hn, he⟩
    · -- the scalar was there already
      have hget' : OpSet.get w d'.ops .root k = some e := by rw [OpSet.get, h.conflicts_eq hn, ← hget, OpSet.get]
      refine depth_succ (fun m _ => ?_) ⟨0, fun _ _ => trivial⟩
      rw [ReadsAt, hget']
      exact ⟨_, amValueToJson_scalar hc hact d'.ops m, rfl⟩
    · have hget := h.get_eq hn (hv ▸ he) hv
      obtain ⟨n, hshown⟩ := he.shown v rfl w d'.ops fun _ _ _ => rfl
      refine ⟨n, fun m hm => ?_⟩
      rw [ReadsAt, hget]
      exact ⟨_, hshown m hm, rfl⟩

theorem Upserted.reads (h : Upserted w x d d' base new) (hs : Sorted base) : Reads w d' (Json.object base).asStored :=
  mapReads_iff.2 ⟨sorted_asStoredEntries hs, fun k => by
    rw [lookup_asStoredEntries]
    exact h.keyReads k⟩

omit [Doubles F] in
theorem Reads.unique {j j'} (h : Reads w d j) (h' : Reads w d j') : j = j' := by
  obtain ⟨n, hn⟩ := h
  obtain ⟨n', hn'⟩ := h'
  exact Option.some.inj ((hn (n + n') (Nat.le_add_right ..)).symm.trans (hn' (n + n') (Nat.le_add_left ..)))

variable [DecidableEq F] [Std.LawfulEqOrd α]

/-- **JSON survives storage**, over any document and over none, exactly when it
holds no integer above `i64::MAX`. -/
theorem json_survives_iff (w : Winner String (ScalarValue F) α) (x : α) (entries : List (String × Json F))
    (ho : (Json.object entries).Ordered) (hk : (Json.object entries).allNumbers Number.isKept)
    (existing : Option (Automerge F α)) :
    (∃ d', jsonToAutomerge w x (.object entries) existing = .ok d' ∧ Reads w d' (.object entries)) ↔
      (Json.object entries).allNumbers Number.fits := by
  obtain ⟨d', new, hok, hu⟩ := jsonToAutomerge_upserted w x ho existing
  have hs : Sorted entries := by cases ho with | object hs _ => exact hs
  have hreads := hu.reads hs
  rw [← Json.asStored_eq_self hk]
  refine ⟨fun ⟨d, hd, hread⟩ => ?_, fun heq => ⟨d', hok, heq ▸ hreads⟩⟩
  obtain rfl : d' = d := Except.ok.inj (hok.symm.trans hd)
  exact hreads.unique hread

end Storage

theorem position_survives : ∃ d : Automerge Int Nat,
    jsonToAutomerge .latest 0 (.object (position "hq" 1 2)) none = .ok d ∧
      Reads .latest d (.object (position "hq" 1 2)) :=
  (json_survives_iff .latest 0 (position "hq" 1 2) (position_ordered "hq" 1 2) (by decide) none).mpr (by decide)

def tooLarge : List (String × Json Binary64.Double) := [("n", .number (.posInt 9223372036854775808))]

/-- It comes back as a double. -/
theorem tooLarge_becomes_double : ∃ d : Automerge Binary64.Double Nat,
    jsonToAutomerge .latest 0 (.object tooLarge) none = .ok d ∧
      Reads .latest d (.object [("n", .number (.float (Doubles.ofU64 9223372036854775808)))]) ∧
      ¬ Reads .latest d (.object tooLarge) := by
  have ho : (Json.object tooLarge).Ordered :=
    .object (by simp [Sorted, tooLarge]) (by simp [tooLarge, Json.Ordered.number])
  obtain ⟨d, new, hok, hu⟩ := jsonToAutomerge_upserted (α := Nat) .latest 0 ho none
  have hreads := hu.reads (by simp [Sorted, tooLarge])
  refine ⟨d, hok, hreads, fun h => ?_⟩
  have heq := hreads.unique h
  simp [tooLarge, Json.asStored, Json.asStoredEntries, Number.asStored, Number.asI64] at heq

end PeatMesh
