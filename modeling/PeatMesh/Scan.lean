/-
Scans of a range of keys by their beginning. In lexicographic order the
keys that begin with a given one stand together, right where that one would
stand. UTF-8 keeps this order: two strings compare as their bytes do.
-/
import Mathlib.Data.String.Basic
import PeatMesh.Bytes

namespace Scan

open Bytes List

section Lex

variable {α : Type u} [LT α] [Std.Irrefl (α := α) (· < ·)] {start k k' : List α}

theorem not_lt_of_begins (h : start <+: k) : ¬ k < start := by
  induction start generalizing k with
  | nil => exact not_lt_nil k
  | cons a start ih =>
    obtain ⟨rest, rfl⟩ := h
    rw [cons_append, cons_lt_cons_iff]
    rintro (hlt | ⟨-, hlt⟩)
    · exact Std.Irrefl.irrefl a hlt
    · exact ih (prefix_append start rest) hlt

theorem begins_of_lt (hle : ¬ k < start) (hlt : k < k') (h : start <+: k') : start <+: k := by
  induction start generalizing k k' with
  | nil => exact nil_prefix
  | cons a start ih =>
    obtain ⟨rest, rfl⟩ := h
    cases k with
    | nil => exact absurd (nil_lt_cons a start) hle
    | cons b k =>
      simp only [cons_append, cons_lt_cons_iff, not_or, not_and] at hle hlt
      obtain rfl : b = a := by
        rcases hlt with hlt | ⟨heq, -⟩
        · exact absurd hlt hle.1
        · exact heq
      rcases hlt with hlt | ⟨-, hlt⟩
      · exact absurd hlt (Std.Irrefl.irrefl b)
      · exact (prefix_cons_inj b).mpr (ih (hle.2 rfl) hlt (prefix_append start rest))

variable [DecidableEq α] [DecidableLT α] {β : Type v}

def scan (key : β → List α) (start : List α) (l : List β) : List β :=
  (l.dropWhile (key · < start)).takeWhile (start.isPrefixOf <| key ·)

theorem scan_eq_filter [Trans (α := α) (· < ·) (· < ·) (· < ·)] {key} {l : List β}
    (hsorted : l.Pairwise fun a b => key a < key b) : scan key start l = l.filter (start.isPrefixOf <| key ·) := by
  unfold scan
  induction l with
  | nil => rfl
  | cons b l ih =>
    obtain ⟨hhead, htail⟩ := pairwise_cons.mp hsorted
    by_cases hlt : key b < start
    · have hno : start.isPrefixOf (key b) = false := by
        rw [← Bool.not_eq_true, isPrefixOf_iff_prefix]
        exact fun h => not_lt_of_begins h hlt
      rw [dropWhile_cons_of_pos (by simpa using hlt), filter_cons_of_neg (by simp [hno])]
      exact ih htail
    · rw [dropWhile_cons_of_neg (by simpa using hlt)]
      by_cases hbegins : start.isPrefixOf (key b) = true
      · have hdrop : l.dropWhile (key · < start) = l := by
          cases l with
          | nil => rfl
          | cons c l =>
            refine List.dropWhile_cons_of_neg fun hlt' => hlt ?_
            exact List.lt_trans (hhead c List.mem_cons_self) (by simpa using hlt')
        rw [hdrop] at ih
        simp [hbegins, ih htail]
      · have hnone : l.filter (start.isPrefixOf <| key ·) = [] := List.filter_eq_nil_iff.mpr fun c hc hc' =>
          hbegins (List.isPrefixOf_iff_prefix.mpr
            (begins_of_lt hlt (hhead c hc) (List.isPrefixOf_iff_prefix.mp hc')))
        simp [hbegins, hnone]

end Lex

/-! ## Text in byte order -/

theorem utf8_ofList (l : List Char) : utf8 (String.ofList l) = l.flatMap String.utf8EncodeChar := by
  show (utf8Encode l).data.toList = _
  simp [utf8Encode]

theorem utf8EncodeChar_lt {c d} (h : c < d) (l l' : List UInt8) :
    String.utf8EncodeChar c ++ l < String.utf8EncodeChar d ++ l' := by
  have hlt : c.val.toNat < d.val.toNat := h
  have hvalid := d.valid
  simp only [UInt32.isValidChar, Nat.isValidChar] at hvalid
  unfold String.utf8EncodeChar
  generalize c.val.toNat = v at hlt ⊢
  generalize d.val.toNat = w at hlt hvalid ⊢
  have hdigit : ∀ n, (n % 64 + 128) % 256 = n % 64 + 128 := by omega
  dsimp only
  split_ifs <;> simp only [cons_append, nil_append, cons_lt_cons_iff, UInt8.lt_iff_toNat_lt,
    ← UInt8.toNat_inj, UInt8.toNat_ofNat', hdigit]
  -- four bytes each: the digits of the two numbers, and no quotients
  on_goal -1 =>
    have hdigits : ∀ n, ∃ a b c d, n / 262144 = a ∧ n / 4096 % 64 = b ∧ n / 64 % 64 = c ∧ n % 64 = d ∧
        b < 64 ∧ c < 64 ∧ d < 64 ∧ n = 262144 * a + 4096 * b + 64 * c + d :=
      fun n => ⟨_, _, _, _, rfl, rfl, rfl, rfl, by omega⟩
    obtain ⟨a, b, c, d, ha, hb, hc, hd, hv⟩ := hdigits v
    obtain ⟨a', b', c', d', ha', hb', hc', hd', hw⟩ := hdigits w
    rw [ha, hb, ha', hb', hc', hd']
    clear ha hb hc hd ha' hb' hc' hd'
  all_goals omega

theorem utf8_eq (s : String) : utf8 s = s.toList.flatMap String.utf8EncodeChar := by
  rw [← utf8_ofList, String.ofList_toList]

theorem flatMap_utf8EncodeChar_lt {l l' : List Char} (h : l < l') :
    l.flatMap String.utf8EncodeChar < l'.flatMap String.utf8EncodeChar := by
  induction l generalizing l' with
  | nil =>
    cases l' with
    | nil => exact absurd h (not_lt_nil _)
    | cons d l' =>
      rw [flatMap_cons]
      cases henc : String.utf8EncodeChar d with
      | nil => exact absurd henc String.utf8EncodeChar_ne_nil
      | cons b bs => exact nil_lt_cons b _
  | cons c l ih =>
    cases l' with
    | nil => exact absurd h (not_lt_nil _)
    | cons d l' =>
      rcases cons_lt_cons_iff.mp h with hlt | ⟨rfl, hlt⟩
      · exact utf8EncodeChar_lt hlt _ _
      · exact append_left_lt (ih hlt)

theorem utf8_lt_iff {s t} : utf8 s < utf8 t ↔ s < t := by
  have hmono : ∀ {s t : String}, s < t → utf8 s < utf8 t := fun {s t} h => by
    rw [utf8_eq, utf8_eq]
    exact flatMap_utf8EncodeChar_lt h
  refine ⟨fun h => ?_, hmono⟩
  rcases lt_trichotomy s t with hlt | rfl | hlt
  · exact hlt
  · exact absurd h (List.lt_irrefl _)
  · exact absurd h (List.lt_asymm (hmono hlt))

theorem begins_utf8_iff {s t} : utf8 s <+: utf8 t ↔ s.toList <+: t.toList := by
  constructor
  · rintro ⟨rest, hrest⟩
    refine isPrefix_of_utf8Encode_append_eq_utf8Encode ⟨rest.toArray⟩ ?_
    exact ByteArray.ext (Array.ext' (by simpa [utf8] using hrest))
  · rintro ⟨rest, hrest⟩
    rw [utf8_eq, utf8_eq, ← hrest, flatMap_append]
    exact prefix_append _ _

theorem scan_utf8 {β} (key : β → String) (start : String) (l : List β) :
    scan (utf8 <| key ·) (utf8 start) l = scan (key · |>.toList) start.toList l := by
  unfold scan
  have hbegins : ∀ b, (utf8 start).isPrefixOf (utf8 (key b)) = start.toList.isPrefixOf (key b).toList := fun b => by
    rw [Bool.eq_iff_iff, isPrefixOf_iff_prefix, isPrefixOf_iff_prefix, begins_utf8_iff]
  simp only [hbegins, utf8_lt_iff]
  rfl

end Scan
