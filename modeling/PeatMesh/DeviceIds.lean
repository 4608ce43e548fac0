/-
Device ids as text (`security/device_id.rs`): sixteen bytes, read two bytes
of the text at a time. A cut may fall inside a character, which panics, and
`u8::from_str_radix` takes a sign for a digit.
-/
import Mathlib.Data.String.Basic
import PeatMesh.Encryption

namespace PeatMesh.DeviceId

open Bytes List

/-! ## Writing and reading -/

def toHex (d : DeviceId) : String := hex d.toList

def fromStrRadix (hi lo : Char) : Option UInt8 := do
  let h ← if hi = '+' then some 0 else hexValue hi.toLower
  let l ← hexValue lo.toLower
  return UInt8.ofNat (h * 16 + l)

def invalidAt (i : Nat) : Failure String :=
  .error ("invalid hex at position " ++ toString i ++ ": invalid digit found in string")

def decodeFrom (i : Nat) : List Char → Except (Failure String) (List UInt8)
  | [] => .ok []
  | [c] => .error (if c.utf8Size = 2 then invalidAt i else .outOfBounds)
  | hi :: lo :: rest =>
    if hi.utf8Size = 2 then .error (invalidAt i)
    else if hi.utf8Size + lo.utf8Size ≠ 2 then .error .outOfBounds
    else
      match fromStrRadix hi lo with
      | none => .error (invalidAt i)
      | some b => (decodeFrom (i + 2) rest).map (b :: ·)

def hexDecode (s : String) : Except (Failure String) (List UInt8) :=
  if s.utf8ByteSize % 2 ≠ 0 then .error (.error "odd length hex string") else decodeFrom 0 s.toList

def fromHex (s : String) : Except (Failure String) DeviceId :=
  match hexDecode s with
  | .error .outOfBounds => .error .outOfBounds
  | .error (.error e) => .error (.error ("invalid hex: " ++ e))
  | .ok bytes =>
    if h : bytes.length = 16 then .ok ⟨bytes.toArray, h⟩
    else .error (.error ("expected 16 bytes (32 hex chars), got " ++ toString bytes.length ++ " bytes"))

/-! ## What is read -/

def HexDigit (c : Char) : Prop := (hexValue c.toLower).isSome
  deriving Decidable

def Pair (hi lo : Char) : Prop := (hi = '+' ∨ HexDigit hi) ∧ HexDigit lo

/-- The text is made of pairs that are read as bytes. -/
def Pairs : List Char → Prop
  | [] => True
  | [_] => False
  | hi :: lo :: rest => Pair hi lo ∧ Pairs rest

/-- Read two bytes at a time, the text is cut inside a character behind readable pairs. -/
def Cuts : List Char → Prop
  | [] => False
  | [c] => c.utf8Size ≠ 2
  | hi :: lo :: rest => hi.utf8Size ≠ 2 ∧ (hi.utf8Size + lo.utf8Size = 2 → Pair hi lo ∧ Cuts rest)

/-- Parsing does not panic, takes just the texts of 32 digits, and gives the
id that is written so in lower case. -/
structure ParsesExactly (s : String) : Prop where
  returns : fromHex s ≠ .error .outOfBounds
  accepts : (∃ d, fromHex s = .ok d) ↔ s.toList.length = 32 ∧ ∀ c ∈ s.toList, HexDigit c
  renders : ∀ d, fromHex s = .ok d → (toHex d).toList = s.toList.map Char.toLower

variable {hi lo c : Char} {l : List Char} {b : UInt8} {bytes : List UInt8} {i : Nat} {s : String} {d : DeviceId}

theorem digitChar_of_hexValue {n} (h : hexValue c = some n) : n < 16 ∧ Nat.digitChar n = c := by
  have hnine : ∀ k < 58, 48 ≤ k → k - 48 < 16 ∧ Nat.digitChar (k - 48) = Char.ofNat k := by decide
  have hsix : ∀ k < 103, 97 ≤ k → k - 97 + 10 < 16 ∧ Nat.digitChar (k - 97 + 10) = Char.ofNat k := by decide
  unfold hexValue at h
  rw [← Char.ofNat_toNat c]
  split at h
  next hc =>
    cases h
    exact hnine c.toNat (Nat.lt_succ_of_le hc.2) hc.1
  next =>
    split at h
    next hc =>
      cases h
      exact hsix c.toNat (Nat.lt_succ_of_le hc.2) hc.1
    next => cases h

theorem HexDigit.utf8Size (h : HexDigit c) : c.utf8Size = 1 := by
  by_cases hupper : c.val ≥ 'A'.val ∧ c.val ≤ 'Z'.val
  · exact Char.utf8Size_eq_one_iff.mpr (UInt32.le_trans hupper.2 (by decide))
  obtain ⟨n, hn⟩ := Option.isSome_iff_exists.mp h
  have hsame : c.toLower = c := dif_neg hupper
  rw [hsame] at hn
  obtain ⟨hlt, rfl⟩ := digitChar_of_hexValue hn
  have hsizes : ∀ n < 16, (Nat.digitChar n).utf8Size = 1 := by decide
  exact hsizes n hlt

theorem Pair.utf8Size (h : Pair hi lo) : hi.utf8Size = 1 ∧ lo.utf8Size = 1 := by
  refine ⟨?_, h.2.utf8Size⟩
  rcases h.1 with rfl | hdigit
  · rfl
  · exact hdigit.utf8Size

theorem fromStrRadix_eq_none : fromStrRadix hi lo = none ↔ ¬ Pair hi lo := by
  unfold fromStrRadix Pair HexDigit
  by_cases hplus : hi = '+'
  · cases hexValue lo.toLower <;> simp [hplus]
  · cases hexValue hi.toLower <;> cases hexValue lo.toLower <;> simp [hplus]

theorem hexDigits_of_fromStrRadix (hplus : hi ≠ '+') (h : fromStrRadix hi lo = some b) :
    hexDigits b = [hi.toLower, lo.toLower] := by
  simp only [fromStrRadix, hplus, if_false, Option.bind_eq_bind, Option.bind_eq_some_iff] at h
  obtain ⟨x, hx, y, hy, hb⟩ := h
  cases hb
  obtain ⟨hxlt, hxc⟩ := digitChar_of_hexValue hx
  obtain ⟨hylt, hyc⟩ := digitChar_of_hexValue hy
  have hbyte : (UInt8.ofNat (x * 16 + y)).toNat = x * 16 + y := toNat_ofNat_of_lt (by omega)
  rw [hexDigits, hbyte, show (x * 16 + y) / 16 = x by omega, show (x * 16 + y) % 16 = y by omega, hxc, hyc]

/-! ## The loop -/

theorem decodeFrom_pair (h : Pair hi lo) (i : Nat) (rest : List Char) :
    ∃ b, fromStrRadix hi lo = some b ∧ decodeFrom i (hi :: lo :: rest) = (decodeFrom (i + 2) rest).map (b :: ·) := by
  obtain ⟨b, hb⟩ := Option.ne_none_iff_exists'.mp (mt fromStrRadix_eq_none.mp (not_not.mpr h))
  refine ⟨b, hb, ?_⟩
  simp [decodeFrom, h.utf8Size, hb]

theorem decodeFrom_not_pair (h : ¬ Pair hi lo) (i : Nat) (rest : List Char) : decodeFrom i (hi :: lo :: rest) =
    .error (if hi.utf8Size ≠ 2 ∧ hi.utf8Size + lo.utf8Size ≠ 2 then .outOfBounds else invalidAt i) := by
  have hnone := fromStrRadix_eq_none.mpr h
  by_cases hsize : hi.utf8Size = 2 <;> by_cases hsizes : hi.utf8Size + lo.utf8Size = 2 <;>
    simp [decodeFrom, hnone, hsize, hsizes]

theorem decodeFrom_eq_outOfBounds : decodeFrom i l = .error .outOfBounds ↔ Cuts l := by
  fun_induction Cuts l generalizing i with
  | case1 => simp [decodeFrom]
  | case2 c => by_cases hsize : c.utf8Size = 2 <;> simp [decodeFrom, hsize, invalidAt]
  | case3 hi lo rest ih =>
    by_cases hpair : Pair hi lo
    · obtain ⟨b, -, hloop⟩ := decodeFrom_pair hpair i rest
      rw [hloop]
      have hrest := ih (i := i + 2)
      cases hd : decodeFrom (i + 2) rest <;> simp [hpair, hpair.utf8Size, ← hrest, hd, Except.map]
    · rw [decodeFrom_not_pair hpair]
      by_cases hsize : hi.utf8Size = 2 <;> by_cases hsizes : hi.utf8Size + lo.utf8Size = 2 <;>
        simp [hpair, hsize, hsizes, invalidAt]

theorem decodeFrom_eq_ok (h : decodeFrom i l = .ok bytes) :
    Pairs l ∧ l.length = 2 * bytes.length ∧ ('+' ∉ l → bytes.flatMap hexDigits = l.map Char.toLower) := by
  fun_induction Pairs l generalizing i bytes with
  | case1 =>
    cases h
    simp
  | case2 => cases h
  | case3 hi lo rest ih =>
    by_cases hpair : Pair hi lo
    · obtain ⟨b, hb, hloop⟩ := decodeFrom_pair hpair i rest
      rw [hloop] at h
      cases hrest : decodeFrom (i + 2) rest with
      | error e =>
        rw [hrest] at h
        cases h
      | ok tail =>
        rw [hrest] at h
        cases h
        obtain ⟨hpairs, hlen, hdigits⟩ := ih hrest
        refine ⟨⟨hpair, hpairs⟩, by simp only [length_cons]; omega, fun hplus => ?_⟩
        simp only [mem_cons, not_or] at hplus
        rw [flatMap_cons, hexDigits_of_fromStrRadix (Ne.symm hplus.1) hb, hdigits hplus.2.2]
        rfl
    · rw [decodeFrom_not_pair hpair] at h
      cases h

theorem exists_decodeFrom (h : Pairs l) (i : Nat) : ∃ bytes, decodeFrom i l = .ok bytes := by
  fun_induction Pairs l generalizing i with
  | case1 => exact ⟨[], rfl⟩
  | case2 => exact h.elim
  | case3 hi lo rest ih =>
    obtain ⟨b, -, hloop⟩ := decodeFrom_pair h.1 i rest
    obtain ⟨tail, htail⟩ := ih h.2 (i + 2)
    exact ⟨b :: tail, by rw [hloop, htail]; rfl⟩

theorem even_of_pairs (h : Pairs l) : String.utf8Len l % 2 = 0 := by
  fun_induction Pairs l with
  | case1 => rfl
  | case2 => exact h.elim
  | case3 hi lo rest ih =>
    have hsize := h.1.utf8Size
    have hrest := ih h.2
    rw [String.utf8Len_cons, String.utf8Len_cons]
    omega

theorem pairs_of_digits (heven : l.length % 2 = 0) (h : ∀ c ∈ l, HexDigit c) : Pairs l := by
  fun_induction Pairs l with
  | case1 => trivial
  | case2 => cases heven
  | case3 hi lo rest ih =>
    simp only [forall_mem_cons] at h
    simp only [length_cons] at heven
    exact ⟨⟨.inr h.1, h.2.1⟩, ih (by omega) h.2.2⟩

theorem digit_of_pairs (h : Pairs l) (hplus : '+' ∉ l) : ∀ c ∈ l, HexDigit c := by
  fun_induction Pairs l with
  | case1 => simp
  | case2 => exact h.elim
  | case3 hi lo rest ih =>
    simp only [mem_cons, not_or] at hplus
    simp only [forall_mem_cons]
    exact ⟨h.1.1.resolve_left (Ne.symm hplus.1), h.1.2, ih h.2 hplus.2.2⟩

/-! ## The text -/

theorem hexDecode_of_pairs (h : Pairs s.toList) : hexDecode s = decodeFrom 0 s.toList := by
  have heven := even_of_pairs h
  rw [← String.utf8ByteSize_ofList, String.ofList_toList] at heven
  simp [hexDecode, heven]

theorem fromHex_eq_ok : fromHex s = .ok d ↔ hexDecode s = .ok d.toList := by
  unfold fromHex
  split
  next h => simp [h]
  next h => simp [h]
  next bytes h =>
    have hd : d.toList.length = 16 := Vector.length_toList
    by_cases hlen : bytes.length = 16
    · simp only [hlen, dif_pos, h, Except.ok.injEq, ← Vector.toList_inj]
      rfl
    · have hne : bytes ≠ d.toList := fun heq => hlen (heq ▸ hd)
      simp [hlen, h, hne]

theorem fromHex_eq_outOfBounds :
    fromHex s = .error .outOfBounds ↔ s.utf8ByteSize % 2 = 0 ∧ Cuts s.toList := by
  rw [← decodeFrom_eq_outOfBounds]
  unfold fromHex hexDecode
  by_cases heven : s.utf8ByteSize % 2 = 0
  · simp only [heven, ne_eq, not_true_eq_false, if_false, true_and]
    cases decodeFrom 0 s.toList with
    | error e => cases e <;> simp
    | ok bytes => by_cases hlen : bytes.length = 16 <;> simp [hlen]
  · simp [heven]

/-- A text is parsed as meant exactly if no cut falls inside a character behind readable pairs, and no sign stands
in 32 characters that are read. -/
theorem parses_exactly_iff (s : String) : ParsesExactly s ↔
    (s.utf8ByteSize % 2 = 0 → ¬ Cuts s.toList) ∧ (s.toList.length = 32 → Pairs s.toList → '+' ∉ s.toList) := by
  have hok : ∀ d, fromHex s = .ok d → s.toList.length = 32 ∧ Pairs s.toList ∧
      ('+' ∉ s.toList → (toHex d).toList = s.toList.map Char.toLower) := by
    intro d hd
    have hdecode := fromHex_eq_ok.mp hd
    unfold hexDecode at hdecode
    split at hdecode
    · cases hdecode
    obtain ⟨hpairs, hlen, hdigits⟩ := decodeFrom_eq_ok hdecode
    rw [Vector.length_toList] at hlen
    refine ⟨hlen, hpairs, fun hplus => ?_⟩
    rw [toHex, hex, String.toList_ofList, hdigits hplus]
  have hread : s.toList.length = 32 → Pairs s.toList → ∃ d, fromHex s = .ok d := by
    intro hlen hpairs
    obtain ⟨bytes, hbytes⟩ := exists_decodeFrom hpairs 0
    have hsixteen := (decodeFrom_eq_ok hbytes).2.1
    refine ⟨⟨bytes.toArray, by rw [size_toArray]; omega⟩, fromHex_eq_ok.mpr ?_⟩
    rw [hexDecode_of_pairs hpairs, hbytes]
    rfl
  constructor
  · rintro ⟨hreturns, haccepts, -⟩
    refine ⟨fun heven hcuts => hreturns (fromHex_eq_outOfBounds.mpr ⟨heven, hcuts⟩), fun hlen hpairs hplus => ?_⟩
    have hdigit := (haccepts.mp (hread hlen hpairs)).2 '+' hplus
    exact absurd hdigit (by decide)
  · rintro ⟨hcuts, hplus⟩
    refine ⟨fun hpanic => ?_, ⟨?_, ?_⟩, fun d hd => ?_⟩
    · obtain ⟨heven, hcut⟩ := fromHex_eq_outOfBounds.mp hpanic
      exact hcuts heven hcut
    · rintro ⟨d, hd⟩
      obtain ⟨hlen, hpairs, -⟩ := hok d hd
      exact ⟨hlen, digit_of_pairs hpairs (hplus hlen hpairs)⟩
    · rintro ⟨hlen, hdigits⟩
      exact hread hlen (pairs_of_digits (by rw [hlen]) hdigits)
    · obtain ⟨hlen, hpairs, hrender⟩ := hok d hd
      exact hrender (hplus hlen hpairs)

/-- A sign is read as a digit, and a cut inside a character panics. -/
theorem sign_read_and_cut_panics :
    (∃ d, fromHex (String.ofList ('+' :: List.replicate 31 'f')) = .ok d ∧
      toHex d = String.ofList ('0' :: List.replicate 31 'f')) ∧
    fromHex "aéb" = .error .outOfBounds := by
  refine ⟨⟨_, rfl, ?_⟩, rfl⟩
  decide +kernel

end PeatMesh.DeviceId
