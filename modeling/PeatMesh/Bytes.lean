/-
Numbers as bytes of a fixed width, most significant first (`toBE`) or last
(`toLE`), cut to it as the casts of the wire code cut a length. Where the source
would panic, a read at a position answers `outOfBounds`.
-/
import Mathlib.Data.List.Basic
import Mathlib.Tactic.Ring

namespace Bytes

open Option Except

/-! ## Numbers -/

def toBE : Nat → Nat → List UInt8
  | 0, _ => []
  | w + 1, n => UInt8.ofNat (n / 256 ^ w) :: toBE w n

variable (b : UInt8) (l : List UInt8)

def ofBE : Nat := l.foldl (fun n b => n * 256 + b.toNat) 0

variable (w n : Nat)

def toLE : List UInt8 := (toBE w n).reverse

def ofLE : Nat := ofBE l.reverse

@[simp]
theorem length_toBE : (toBE w n).length = w := by
  induction w with
  | zero => rfl
  | succ w ih => simp [toBE, ih]

theorem ofBE_cons : ofBE (b :: l) = b.toNat * 256 ^ l.length + ofBE l := by
  -- what a fold starts from is worth its place value
  have hacc : ∀ (l : List UInt8) (n : Nat),
      l.foldl (fun n b => n * 256 + b.toNat) n = n * 256 ^ l.length + ofBE l := by
    intro l
    induction l with
    | nil => simp [ofBE]
    | cons b l ih =>
      intro n
      have hb : ofBE (b :: l) = (0 * 256 + b.toNat) * 256 ^ l.length + ofBE l := ih _
      rw [List.foldl_cons, ih, hb, List.length_cons]
      ring
  have h : ofBE (b :: l) = (0 * 256 + b.toNat) * 256 ^ l.length + ofBE l := hacc l _
  simpa using h

theorem ofBE_lt : ofBE l < 256 ^ l.length := by
  induction l with
  | nil => simp [ofBE]
  | cons b l ih =>
    have hb : b.toNat + 1 ≤ 256 := b.toNat_lt
    calc ofBE (b :: l) < b.toNat * 256 ^ l.length + 256 ^ l.length := by rw [ofBE_cons]; omega
      _ = (b.toNat + 1) * 256 ^ l.length := by ring
      _ ≤ 256 * 256 ^ l.length := Nat.mul_le_mul_right _ hb
      _ = 256 ^ (b :: l).length := by simp [pow_succ, mul_comm]

theorem ofBE_toBE : ofBE (toBE w n) = n % 256 ^ w := by
  induction w with
  | zero => simp [toBE, ofBE, Nat.mod_one]
  | succ w ih =>
    rw [toBE, ofBE_cons, ih, length_toBE, Nat.mod_pow_succ, UInt8.toNat_ofNat']
    ring

theorem ofBE_toBE_of_lt {w n} (h : n < 256 ^ w) : ofBE (toBE w n) = n := by
  rw [ofBE_toBE, Nat.mod_eq_of_lt h]

theorem ofBE_cons_div : ofBE (b :: l) / 256 ^ l.length = b.toNat := by
  rw [ofBE_cons, Nat.mul_comm, Nat.mul_add_div (Nat.pow_pos (by decide)), Nat.div_eq_of_lt (ofBE_lt l),
    Nat.add_zero]

theorem ofBE_cons_mod : ofBE (b :: l) % 256 ^ l.length = ofBE l := by
  rw [ofBE_cons, Nat.mul_comm, Nat.mul_add_mod, Nat.mod_eq_of_lt (ofBE_lt l)]

theorem ofBE_injective {l l'} (hlen : l.length = l'.length) (h : ofBE l = ofBE l') : l = l' := by
  induction l generalizing l' with
  | nil => simpa using hlen.symm
  | cons b l ih =>
    obtain _ | ⟨b', l'⟩ := l'
    · simp at hlen
    · simp only [List.length_cons, Nat.add_right_cancel_iff] at hlen
      have hb : b.toNat = b'.toNat := by
        rw [← ofBE_cons_div b l, ← ofBE_cons_div b' l', hlen, h]
      have hl : ofBE l = ofBE l' := by
        rw [← ofBE_cons_mod b l, ← ofBE_cons_mod b' l', hlen, h]
      rw [UInt8.toNat_inj.mp hb, ih hlen hl]

variable {l : List UInt8}

theorem toBE_ofBE {w} (h : l.length = w) : toBE w (ofBE l) = l := by
  subst h
  exact ofBE_injective (length_toBE _ _) (by rw [ofBE_toBE, Nat.mod_eq_of_lt (ofBE_lt l)])

theorem toBE_inj {w n n'} : toBE w n = toBE w n' ↔ n % 256 ^ w = n' % 256 ^ w := by
  constructor
  · intro h
    rw [← ofBE_toBE, ← ofBE_toBE, h]
  · intro h
    refine ofBE_injective ?_ ?_
    · rw [length_toBE, length_toBE]
    · rw [ofBE_toBE, ofBE_toBE, h]

theorem toBE_inj_of_lt {w n n'} (hn : n < 256 ^ w) (hn' : n' < 256 ^ w) : toBE w n = toBE w n' ↔ n = n' := by
  rw [toBE_inj, Nat.mod_eq_of_lt hn, Nat.mod_eq_of_lt hn']

@[simp]
theorem length_toLE : (toLE w n).length = w := by
  rw [toLE, List.length_reverse, length_toBE]

theorem ofLE_toLE : ofLE (toLE w n) = n % 256 ^ w := by
  rw [ofLE, toLE, List.reverse_reverse, ofBE_toBE]

theorem ofLE_toLE_of_lt {w n} (h : n < 256 ^ w) : ofLE (toLE w n) = n := by
  rw [ofLE_toLE, Nat.mod_eq_of_lt h]

theorem ofNat_ofLE_toLE (t : UInt64) : UInt64.ofNat (ofLE (toLE 8 t.toNat)) = t := by
  rw [ofLE_toLE_of_lt t.toNat_lt, UInt64.ofNat_toNat]

theorem toLE_ofLE {w} (h : l.length = w) : toLE w (ofLE l) = l := by
  rw [toLE, ofLE, toBE_ofBE (by rwa [List.length_reverse]), List.reverse_reverse]

theorem toLE_ofNat_ofLE (h : l.length = 8) : toLE 8 (UInt64.ofNat (ofLE l)).toNat = l := by
  have hlt : ofLE l < 256 ^ l.reverse.length := ofBE_lt l.reverse
  rw [List.length_reverse, h] at hlt
  rw [UInt64.toNat_ofNat', Nat.mod_eq_of_lt (show ofLE l < 2 ^ 64 from hlt), toLE_ofLE h]

variable {n : Nat}

theorem toNat_ofNat_of_lt (h : n < 256) : (UInt8.ofNat n).toNat = n := by
  rw [UInt8.toNat_ofNat', Nat.mod_eq_of_lt h]

/-! ## Text -/

def utf8 (s : String) : List UInt8 := s.toUTF8.data.toList

@[simp]
theorem length_utf8 (s : String) : (utf8 s).length = s.utf8ByteSize := rfl

theorem utf8_inj {s s'} : utf8 s = utf8 s' ↔ s = s' := by
  refine ⟨fun h => ?_, congrArg utf8⟩
  rw [← String.toByteArray_inj]
  exact ByteArray.ext (Array.ext' h)

/-! ## Hexadecimal -/

def hexDigits : List Char := [Nat.digitChar (b.toNat / 16), Nat.digitChar (b.toNat % 16)]

def hex (l : List UInt8) : String := String.ofList (l.flatMap hexDigits)

def hexValue (c : Char) : Option Nat :=
  if '0' ≤ c ∧ c ≤ '9' then some (c.toNat - '0'.toNat)
  else if 'a' ≤ c ∧ c ≤ 'f' then some (c.toNat - 'a'.toNat + 10)
  else none

def unhex : List Char → Option (List UInt8)
  | [] => some []
  | hi :: lo :: rest => do
    let h ← hexValue hi
    let l ← hexValue lo
    return UInt8.ofNat (h * 16 + l) :: (← unhex rest)
  | [_] => none

theorem hexValue_digitChar : ∀ n < 16, hexValue (Nat.digitChar n) = some n := by decide

theorem unhex_hexDigits (l : List Char) : unhex (hexDigits b ++ l) = (unhex l).map (b :: ·) := by
  have hb := b.toNat_lt
  have hhi : hexValue (Nat.digitChar (b.toNat / 16)) = some (b.toNat / 16) := hexValue_digitChar _ (by omega)
  have hlo : hexValue (Nat.digitChar (b.toNat % 16)) = some (b.toNat % 16) := hexValue_digitChar _ (by omega)
  have hbyte : UInt8.ofNat (b.toNat / 16 * 16 + b.toNat % 16) = b := by
    rw [Nat.div_add_mod', UInt8.ofNat_toNat]
  simp only [hexDigits, List.cons_append, List.nil_append, unhex, hhi, hlo, bind_eq_bind, bind_some,
    hbyte]
  cases unhex l <;> rfl

theorem unhex_toList_hex (l : List UInt8) : unhex (hex l).toList = some l := by
  rw [hex, String.toList_ofList]
  induction l with
  | nil => rfl
  | cons b l ih => rw [List.flatMap_cons, unhex_hexDigits, ih, map_some]

theorem isAlphanum_of_hexValue {c} (h : hexValue c = some n) : c.isAlphanum = true := by
  unfold hexValue at h
  split at h
  case isTrue hdigit =>
    have hd : c.isDigit = true :=
      Bool.and_eq_true_iff.mpr ⟨decide_eq_true hdigit.1, decide_eq_true hdigit.2⟩
    exact Bool.or_eq_true_iff.mpr (.inr hd)
  case isFalse =>
    split at h
    case isTrue hlower =>
      have hl : c.isLower = true :=
        Bool.and_eq_true_iff.mpr ⟨decide_eq_true hlower.1, decide_eq_true (Char.le_trans hlower.2 (by decide))⟩
      have ha : c.isAlpha = true := Bool.or_eq_true_iff.mpr (.inr hl)
      exact Bool.or_eq_true_iff.mpr (.inl ha)
    case isFalse => cases h

theorem isAlphanum_of_unhex {l bytes} (h : unhex l = some bytes) :
    ∀ c ∈ l, c.isAlphanum = true := by
  induction l using unhex.induct generalizing bytes with
  | case1 => simp
  | case2 hi lo rest ih =>
    simp only [unhex, bind_eq_bind, bind_eq_some_iff] at h
    obtain ⟨x, hx, y, hy, tail, htail, -⟩ := h
    simp only [List.forall_mem_cons]
    exact ⟨isAlphanum_of_hexValue hx, isAlphanum_of_hexValue hy, ih htail⟩
  | case3 c => cases h

/-! ## Checked reads -/

inductive Failure (ε : Type)
  | outOfBounds
  | error (e : ε)
  deriving DecidableEq, Repr

variable {ε : Type}

variable (data : List UInt8)

def byteAt (pos : Nat) : Except (Failure ε) UInt8 :=
  match data[pos]? with
  | some b => .ok b
  | none => .error .outOfBounds

def slice (pos len : Nat) : Except (Failure ε) (List UInt8) :=
  if pos + len ≤ data.length then .ok ((data.drop pos).take len) else .error .outOfBounds

def array (pos n : Nat) : Except (Failure ε) (Vector UInt8 n) :=
  if h : pos + n ≤ data.length then .ok ⟨((data.drop pos).take n).toArray, by simp; omega⟩ else .error .outOfBounds

open List

def tail (pos : Nat) : Except (Failure ε) (List UInt8) :=
  if pos ≤ data.length then .ok (data.drop pos) else .error .outOfBounds

def text (l : List UInt8) (e : ε) : Except (Failure ε) String :=
  match String.fromUTF8? ⟨l.toArray⟩ with
  | some s => .ok s
  | none => .error (.error e)

def ensure (c : Prop) [Decidable c] (e : ε) : Except (Failure ε) Unit :=
  if c then .ok () else .error (.error e)

def At (pos : Nat) (s : List UInt8) : Prop := pos ≤ data.length ∧ s <+: data.drop pos

variable {data s t : List UInt8} {pos len : Nat}

theorem At.le (h : At data pos s) : pos + s.length ≤ data.length := by
  have hle := h.2.length_le
  have hpos := h.1
  rw [length_drop] at hle
  omega

theorem at_append : At data pos (s ++ t) ↔ At data pos s ∧ At data (pos + s.length) t := by
  constructor
  · rintro ⟨hpos, post, hpost⟩
    have hs : At data pos s := ⟨hpos, t ++ post, by simpa using hpost⟩
    refine ⟨hs, hs.le, post, ?_⟩
    rw [← drop_drop, ← hpost]
    simp
  · rintro ⟨⟨hpos, post, hpost⟩, -, post', hpost'⟩
    refine ⟨hpos, post', ?_⟩
    rw [← drop_drop, ← hpost, drop_left] at hpost'
    rw [append_assoc, hpost', hpost]

theorem at_zero : At data 0 s ↔ s <+: data := by simp [At]

theorem at_drop (h : pos ≤ data.length) : At (data.drop pos) 0 s ↔ At data pos s := by
  rw [at_zero, At, and_iff_right h]

theorem slice_eq_ok : slice (ε := ε) data pos len = .ok s ↔ s.length = len ∧ At data pos s := by
  unfold slice
  split
  · rw [ok.injEq, At, prefix_iff_eq_take]
    constructor
    · rintro rfl
      have hlen : ((data.drop pos).take len).length = len := by
        rw [length_take, length_drop]
        omega
      exact ⟨hlen, by omega, by rw [hlen]⟩
    · rintro ⟨rfl, -, hs⟩
      exact hs.symm
  · rename_i h
    simp only [reduceCtorEq, false_iff]
    rintro ⟨rfl, hat⟩
    exact h hat.le

theorem byteAt_eq_ok {b} : byteAt (ε := ε) data pos = .ok b ↔ At data pos [b] := by
  have hat : At data pos [b] ↔ data[pos]? = some b := by
    simp only [At, List.cons_prefix_iff, List.nil_prefix, and_true, ← List.head?_eq_some_iff, List.head?_drop]
    exact and_iff_right_of_imp fun h => (List.getElem?_eq_some_iff.mp h).1.le
  unfold byteAt
  split <;> simp_all

theorem tail_eq_ok : tail (ε := ε) data pos = .ok s ↔ pos ≤ data.length ∧ data.drop pos = s := by
  unfold tail
  split <;> simp_all

theorem array_eq_ok {v} : array (ε := ε) data pos n = .ok v ↔ At data pos v.toList := by
  have hlen : v.toList.length = n := v.length_toList
  unfold array
  split
  · rw [ok.injEq, At, prefix_iff_eq_take, hlen, and_iff_right (by omega : pos ≤ data.length),
      ← Vector.toList_inj]
    exact eq_comm
  · simp only [reduceCtorEq, false_iff]
    intro hat
    have hle := hat.le
    omega

theorem fromUTF8?_eq_some {str} : String.fromUTF8? ⟨s.toArray⟩ = some str ↔ utf8 str = s := by
  unfold String.fromUTF8? utf8
  split
  · rw [some.injEq]
    refine ⟨fun hs => by rw [← hs]; rfl, ?_⟩
    rintro rfl
    rfl
  · rename_i h
    simp only [reduceCtorEq, false_iff]
    rintro rfl
    exact h str.isValidUTF8

variable {e : ε}

theorem text_eq_ok {str : String} : text s e = .ok str ↔ utf8 str = s := by
  rw [← fromUTF8?_eq_some]
  unfold text
  split <;> simp_all

theorem ensure_eq_ok {c} [Decidable c] {u} : ensure c e = .ok u ↔ c := by
  unfold ensure
  split <;> simp_all

theorem ok_bind {α β} (a : α) (f : α → Except (Failure ε) β) : (Except.ok a >>= f) = f a := rfl

theorem bind_eq_ok {α β : Type} {x : Except (Failure ε) α} {f : α → Except (Failure ε) β} {b : β} :
    (x >>= f) = .ok b ↔ ∃ a, x = .ok a ∧ f a = .ok b := by
  cases x <;> simp [bind, Except.bind]

/-! ## Reads in bounds -/

variable {α β : Type}

/-- No index out of bounds, which would panic. -/
def InBounds (x : Except (Failure ε) α) : Prop := x ≠ .error .outOfBounds

theorem inBounds_ok (a : α) : InBounds (ε := ε) (.ok a) := nofun

theorem inBounds_error (e : ε) : InBounds (α := α) (.error (.error e)) := nofun

theorem inBounds_bind {x : Except (Failure ε) α} {f : α → Except (Failure ε) β} (hx : InBounds x)
    (hf : ∀ a, x = .ok a → InBounds (f a)) : InBounds (x >>= f) := by
  cases x with
  | ok a => exact hf a rfl
  | error e =>
    intro h
    exact hx (by cases h; rfl)

theorem inBounds_ensure_bind {c : Prop} [Decidable c] {f : Unit → Except (Failure ε) α}
    (hf : c → InBounds (f ())) : InBounds (ensure c e >>= f) := by
  unfold ensure
  split
  case isTrue hc => exact hf hc
  case isFalse => exact inBounds_error e

theorem inBounds_text : InBounds (text l e) := by
  unfold text
  split
  · exact inBounds_ok _
  · exact inBounds_error e

theorem inBounds_slice (h : pos + len ≤ data.length) : InBounds (slice (ε := ε) data pos len) := by
  rw [slice, if_pos h]
  exact inBounds_ok _

theorem inBounds_byteAt (h : pos < data.length) : InBounds (byteAt (ε := ε) data pos) := by
  rw [byteAt, getElem?_eq_getElem h]
  exact inBounds_ok _

theorem inBounds_array (h : pos + n ≤ data.length) : InBounds (array (ε := ε) data pos n) := by
  rw [array, dif_pos h]
  exact inBounds_ok _

theorem inBounds_tail (h : pos ≤ data.length) : InBounds (tail (ε := ε) data pos) := by
  rw [tail, if_pos h]
  exact inBounds_ok _

/-! ## Exact decoders -/

variable (decode : List UInt8 → Except (Failure ε) α)

/-- `decode` gives `v` of just the bytes that begin with `encode v`, for `v` that fit. -/
def Exact (encode : α → List UInt8) (Fits : α → Prop) : Prop :=
  ∀ data v, decode data = .ok v ↔ Fits v ∧ encode v <+: data

/-- No proper part of the bytes is decoded. -/
def RefusesCut (bytes : List UInt8) : Prop :=
  ∀ p, p <+: bytes → p ≠ bytes → ∀ v, decode p ≠ .ok v

theorem Exact.refusesCut {decode : List UInt8 → Except (Failure ε) α} {encode : α → List UInt8} {Fits : α → Prop}
    (h : Exact decode encode Fits) {v : α} (hv : Fits v) : RefusesCut decode (encode v) := by
  intro p hp hne v' hok
  obtain ⟨hv', hp'⟩ := (h p v').mp hok
  -- the whole encoding is read as both values
  have hwhole : decode (encode v) = .ok v := (h _ _).mpr ⟨hv, prefix_refl _⟩
  have hwhole' : decode (encode v) = .ok v' := (h _ _).mpr ⟨hv', hp'.trans hp⟩
  obtain rfl := ok.inj (hwhole.symm.trans hwhole')
  exact hne (hp.eq_of_length_le hp'.length_le)

end Bytes
