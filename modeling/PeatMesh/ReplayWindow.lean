/-
The replay window of the bypass channel (`transport/bypass.rs`).

Packets carry the low eight bits of their number. A window knows the highest
sequence it has seen, and has a bit for each of the 64 up to it. It does not
begin with the first packet it sees but at 0, so a first packet with a sequence
from 128 on is behind 0, which the window takes for a number ahead of everything
delivered. From two ahead, a packet can be so far behind that it seems to be
ahead, and the window forgets what it has let pass.
-/
import Mathlib.Data.List.Nodup

namespace PeatMesh

open List Function

structure ReplayWindow where
  highestSeq : UInt8
  seen : BitVec 64

def wire (n : Nat) : UInt8 := UInt8.ofNat n

namespace ReplayWindow

def new : ReplayWindow := ⟨0, 0⟩

def checkAndUpdate (w : ReplayWindow) (seq : UInt8) (windowSize : Nat) : Bool × ReplayWindow :=
  let windowSize := UInt8.ofNat (min windowSize 64)
  let diff := w.highestSeq - seq
  if diff = 0 ∧ w.seen = 0 then (true, ⟨seq, 1⟩)
  else if seq = w.highestSeq then (false, w)
  else
    let ahead := seq - w.highestSeq
    if 0 < ahead ∧ ahead < 128 then
      let shift := ahead.toNat
      (true, ⟨seq, if shift < 64 then w.seen <<< shift ||| 1 else 1⟩)
    else if diff < windowSize ∧ diff < 64 then
      let bit := 1#64 <<< diff.toNat
      if w.seen &&& bit ≠ 0 then (false, w) else (true, { w with seen := w.seen ||| bit })
    else (false, w)

def accepted (windowSize : Nat) : ReplayWindow → List Nat → List Nat
  | _, [] => []
  | w, n :: ns =>
    (if (w.checkAndUpdate (wire n) windowSize).1 then [n] else []) ++
      accepted windowSize (w.checkAndUpdate (wire n) windowSize).2 ns

end ReplayWindow

open ReplayWindow

structure ReplayTracker (Source : Type) where
  windows : Source → Option ReplayWindow
  windowSize : Nat

structure ReplayDetected where
  sequence : UInt8

variable {Source : Type} [DecidableEq Source]

namespace ReplayTracker

def new (windowSize : Nat) : ReplayTracker Source := ⟨fun _ => none, min windowSize 64⟩

def check (t : ReplayTracker Source) (source : Source) (sequence : UInt8) :
    Except ReplayDetected Unit × ReplayTracker Source :=
  let window := (t.windows source).getD .new
  let r := window.checkAndUpdate sequence t.windowSize
  (if r.1 then .ok () else .error ⟨sequence⟩, { t with windows := Function.update t.windows source (some r.2) })

def accepted (source : Source) : ReplayTracker Source → List (Source × Nat) → List Nat
  | _, [] => []
  | t, (sender, n) :: rest =>
    (if sender = source ∧ (t.check sender (wire n)).1.isOk then [n] else []) ++
      accepted source (t.check sender (wire n)).2 rest

end ReplayTracker

def numbers (source : Source) (packets : List (Source × Nat)) : List Nat :=
  (packets.filter (·.1 = source)).map (·.2)

def WithinReach : Nat → List Nat → Prop
  | _, [] => True
  | highest, n :: ns => n ≤ highest + 127 ∧ highest ≤ n + 127 ∧ WithinReach (max highest n) ns

/-- Each packet is within reach of those before it. -/
def Reordered : List Nat → Prop
  | [] => True
  | n :: ns => WithinReach n ns

/-! ## Eight bits -/

theorem toNat_wire_sub {a b} (h : b ≤ a) (hlt : a - b < 256) : (wire a - wire b).toNat = a - b := by
  rw [UInt8.toNat_sub, wire, wire, UInt8.toNat_ofNat', UInt8.toNat_ofNat']
  omega

theorem wire_add (n : Nat) : wire (n + 256) = wire n := by
  apply UInt8.toNat_inj.mp
  rw [wire, wire, UInt8.toNat_ofNat', UInt8.toNat_ofNat']
  omega

theorem toNat_wire_sub_of_lt {a b} (h : a < b) (hle : b ≤ a + 256) : (wire a - wire b).toNat = a + 256 - b := by
  rw [← wire_add a]
  exact toNat_wire_sub (by omega) (by omega)

theorem wire_sub_ne_zero {a b} (hne : a ≠ b) (hle : a < b + 256) (hle' : b < a + 256) : wire a - wire b ≠ 0 := by
  rw [ne_eq, ← UInt8.toNat_inj]
  rcases Nat.lt_or_gt_of_ne hne with hlt | hlt
  · rw [toNat_wire_sub_of_lt hlt (by omega)]
    show ¬a + 256 - b = 0
    omega
  · rw [toNat_wire_sub (by omega) (by omega)]
    show ¬a - b = 0
    omega

namespace ReplayWindow

variable {w : ReplayWindow} {top n windowSize : Nat}

theorem checkAndUpdate_same (h : w.highestSeq = wire top) :
    w.checkAndUpdate (wire top) windowSize = if w.seen = 0 then (true, ⟨wire top, 1⟩) else (false, w) := by
  simp only [checkAndUpdate, h, UInt8.sub_self, true_and, if_true]

theorem checkAndUpdate_ahead (h : w.highestSeq = wire top) (hlt : top < n) (hle : n ≤ top + 127) :
    w.checkAndUpdate (wire n) windowSize =
      (true, ⟨wire n, if n - top < 64 then w.seen <<< (n - top) ||| 1 else 1⟩) := by
  have hahead : (wire n - wire top).toNat = n - top := toNat_wire_sub (by omega) (by omega)
  have hfirst : ¬wire top - wire n = 0 := wire_sub_ne_zero (by omega) (by omega) (by omega)
  have hne : ¬wire n = wire top := fun heq => hfirst (by rw [heq, UInt8.sub_self])
  have hin : 0 < wire n - wire top ∧ wire n - wire top < 128 := by
    rw [UInt8.lt_iff_toNat_lt, UInt8.lt_iff_toNat_lt, hahead]
    show 0 < n - top ∧ n - top < 128
    omega
  simp only [checkAndUpdate, h, hfirst, false_and, if_false, hne, hin, true_and, if_true, hahead]

theorem checkAndUpdate_behind (h : w.highestSeq = wire top) (hlt : n < top) (hle : top ≤ n + 128) :
    w.checkAndUpdate (wire n) windowSize =
      if top - n < min windowSize 64 ∧ w.seen.getLsbD (top - n) = false then
        (true, { w with seen := w.seen ||| BitVec.twoPow 64 (top - n) })
      else (false, w) := by
  have hdiff : (wire top - wire n).toNat = top - n := toNat_wire_sub (by omega) (by omega)
  have hahead : (wire n - wire top).toNat = n + 256 - top := toNat_wire_sub_of_lt hlt (by omega)
  have hfirst : ¬wire top - wire n = 0 := wire_sub_ne_zero (by omega) (by omega) (by omega)
  have hne : ¬wire n = wire top := fun heq => hfirst (by rw [heq, UInt8.sub_self])
  have hout : ¬(0 < wire n - wire top ∧ wire n - wire top < 128) := by
    rw [UInt8.lt_iff_toNat_lt, UInt8.lt_iff_toNat_lt, hahead]
    show ¬(0 < n + 256 - top ∧ n + 256 - top < 128)
    omega
  have hwindow : (wire top - wire n < UInt8.ofNat (min windowSize 64) ∧ wire top - wire n < 64) ↔
      top - n < min windowSize 64 := by
    rw [UInt8.lt_iff_toNat_lt, UInt8.lt_iff_toNat_lt, hdiff]
    show top - n < min windowSize 64 % 256 ∧ top - n < 64 ↔ _
    omega
  simp only [checkAndUpdate, h, hfirst, false_and, if_false, hne, hout, hwindow, hdiff]
  by_cases hin : top - n < min windowSize 64
  · have hbit : w.seen &&& 1#64 <<< (top - n) ≠ 0 ↔ ¬w.seen.getLsbD (top - n) = false := by
      rw [← BitVec.twoPow_eq, BitVec.and_twoPow]
      cases w.seen.getLsbD (top - n) with
      | false => simp
      | true =>
        refine iff_of_true (fun hzero => ?_) (by simp)
        have hget := congrArg (fun bits => bits.getLsbD (top - n)) hzero
        simp at hget
        omega
    rw [if_pos hin]
    by_cases hseen : w.seen.getLsbD (top - n) = false
    · rw [if_neg (fun hset => hbit.mp hset hseen), if_pos ⟨hin, hseen⟩, BitVec.twoPow_eq]
    · rw [if_pos (hbit.mpr hseen), if_neg fun hboth => hseen hboth.2]
  · rw [if_neg hin, if_neg fun hboth => hin hboth.1]

theorem highestSeq_behind (windowSize : Nat) (h : w.highestSeq = wire top) (hlt : n < top) (hle : top ≤ n + 128) :
    (w.checkAndUpdate (wire n) windowSize).2.highestSeq = wire top := by
  rw [checkAndUpdate_behind h hlt hle]
  split <;> exact h

/-- The window takes `top` for the highest number there is: what has passed is
not above it, and has its bit if it is among the last 64. -/
structure Tracks (w : ReplayWindow) (passed : List Nat) (top : Nat) : Prop where
  highest : w.highestSeq = wire top
  seen : ∀ a ∈ passed, a ≤ top ∧ (top - a < 64 → w.seen.getLsbD (top - a) = true)

def passing (w : ReplayWindow) (windowSize : Nat) (passed : List Nat) (n : Nat) : List Nat :=
  if (w.checkAndUpdate (wire n) windowSize).1 then n :: passed else passed

variable {passed : List Nat}

theorem tracks_new (hzero : top % 256 = 0) : new.Tracks [] top := by
  refine ⟨UInt8.toNat_inj.mp ?_, by simp⟩
  exact hzero.symm

theorem Tracks.round (h : w.Tracks passed top) : w.Tracks passed (top + 256) := by
  refine ⟨by rw [wire_add, h.highest], fun a ha => ?_⟩
  have := (h.seen a ha).1
  exact ⟨by omega, fun hlt => by omega⟩

def Advances (w : ReplayWindow) (windowSize : Nat) (passed : List Nat) (n top : Nat) : Prop :=
  ((w.checkAndUpdate (wire n) windowSize).1 = true → n ∉ passed) ∧
    (w.checkAndUpdate (wire n) windowSize).2.Tracks (w.passing windowSize passed n) top

theorem Tracks.refuse (h : w.Tracks passed top) (hcheck : w.checkAndUpdate (wire n) windowSize = (false, w)) :
    w.Advances windowSize passed n top := by
  unfold Advances passing
  rw [hcheck]
  exact ⟨fun hfalse => (by cases hfalse), h⟩

theorem Tracks.behind (h : w.Tracks passed top) (hlt : n < top) (hle : top ≤ n + 128) :
    w.Advances windowSize passed n top := by
  have hcheck : w.checkAndUpdate (wire n) windowSize = _ := checkAndUpdate_behind h.highest hlt hle
  by_cases hpass : top - n < min windowSize 64 ∧ w.seen.getLsbD (top - n) = false
  · rw [if_pos hpass] at hcheck
    unfold Advances passing
    rw [hcheck]
    refine ⟨fun _ hmem => ?_, h.highest, fun a ha => ?_⟩
    · have hset := (h.seen n hmem).2 (by omega)
      rw [hpass.2] at hset
      cases hset
    · rcases mem_cons.mp ha with rfl | ha
      · refine ⟨Nat.le_of_lt hlt, fun hin => ?_⟩
        simp [hin]
      · refine ⟨(h.seen a ha).1, fun hin => ?_⟩
        simp [(h.seen a ha).2 hin]
  · exact h.refuse (hcheck.trans (if_neg hpass))

theorem Tracks.same (h : w.Tracks passed top) : w.Advances windowSize passed top top := by
  have hcheck : w.checkAndUpdate (wire top) windowSize = _ := checkAndUpdate_same h.highest
  by_cases hnone : w.seen = 0
  · -- a window without a bit has let nothing pass that is near
    have hfar : ∀ a ∈ passed, 64 ≤ top - a := by
      intro a ha
      by_contra hin
      have hset := (h.seen a ha).2 (by omega)
      rw [hnone] at hset
      simp at hset
    rw [if_pos hnone] at hcheck
    unfold Advances passing
    rw [hcheck]
    refine ⟨fun _ hmem => ?_, rfl, fun a ha => ?_⟩
    · have := hfar top hmem
      omega
    · rcases mem_cons.mp ha with rfl | ha
      · exact ⟨Nat.le_refl _, fun _ => by simp⟩
      · have := hfar a ha
        exact ⟨(h.seen a ha).1, fun hin => by omega⟩
  · exact h.refuse (hcheck.trans (if_neg hnone))

theorem Tracks.ahead (h : w.Tracks passed top) (hlt : top < n) (hle : n ≤ top + 127) :
    w.Advances windowSize passed n n := by
  unfold Advances passing
  rw [checkAndUpdate_ahead h.highest hlt hle]
  refine ⟨fun _ hmem => Nat.not_le_of_lt hlt (h.seen n hmem).1, rfl, fun a ha => ?_⟩
  rcases mem_cons.mp ha with rfl | ha
  · refine ⟨Nat.le_refl _, fun _ => ?_⟩
    split <;> simp
  -- the bits are shifted by what the packet is ahead
  obtain ⟨hle', hset⟩ := h.seen a ha
  refine ⟨by omega, fun hin => ?_⟩
  rw [if_pos (by omega), BitVec.getLsbD_or, BitVec.getLsbD_shiftLeft]
  have hback : n - a - (n - top) = top - a := by omega
  rw [hback, hset (by omega)]
  simp
  omega

theorem Tracks.step (h : w.Tracks passed top) (hbehind : top ≤ n + 128) (hahead : n ≤ top + 127) :
    w.Advances windowSize passed n (max top n) := by
  rcases Nat.lt_trichotomy n top with hlt | rfl | hlt
  · rw [Nat.max_eq_left (Nat.le_of_lt hlt)]
    exact h.behind hlt hbehind
  · rw [Nat.max_self]
    exact h.same
  · rw [Nat.max_eq_right (Nat.le_of_lt hlt)]
    exact h.ahead hlt hahead

theorem checkAndUpdate_narrow (h : w.highestSeq = wire top) (hnarrow : windowSize ≤ 2) (hle : top + 128 ≤ n)
    (hlt : n < top + 255) : w.checkAndUpdate (wire n) windowSize = (false, w) := by
  have hround : w.highestSeq = wire (top + 256) := by rw [wire_add, h]
  rw [checkAndUpdate_behind hround (by omega) (by omega), if_neg]
  rintro ⟨hin, -⟩
  omega

def Follows (windowSize : Nat) (w : ReplayWindow) (passed : List Nat) (highest : Nat) : Prop :=
  ∃ top, w.Tracks passed top ∧
    (highest ≤ top ∧ top ≤ highest + 1 ∨ windowSize ≤ 2 ∧ top ≤ highest ∧ highest < top + 255)

variable {highest : Nat} {ns : List Nat}

theorem Follows.step (h : Follows windowSize w passed highest) (hahead : n ≤ highest + 127)
    (hbehind : highest ≤ n + 127) :
    ((w.checkAndUpdate (wire n) windowSize).1 = true → n ∉ passed) ∧
      Follows windowSize (w.checkAndUpdate (wire n) windowSize).2 (w.passing windowSize passed n) (max highest n) := by
  obtain ⟨top, htracks, ⟨hle, hnear⟩ | ⟨hnarrow, hle, hlt⟩⟩ := h
  · obtain ⟨hnew, htracks'⟩ := htracks.step (n := n) (by omega) (by omega)
    exact ⟨hnew, max top n, htracks', .inl (by omega)⟩
  · by_cases hnear : n ≤ top + 127
    · obtain ⟨hnew, htracks'⟩ := htracks.step (by omega) hnear
      exact ⟨hnew, max top n, htracks', .inr (by omega)⟩
    by_cases hround : n < top + 255
    · have hstay : w.checkAndUpdate (wire n) windowSize = (false, w) :=
        checkAndUpdate_narrow htracks.highest hnarrow (by omega) hround
      obtain ⟨hnew, htracks'⟩ := htracks.refuse hstay
      exact ⟨hnew, top, htracks', .inr (by omega)⟩
    · -- the packet has come round to the highest from behind
      obtain ⟨hnew, htracks'⟩ := htracks.round.step (n := n) (by omega) (by omega)
      exact ⟨hnew, max (top + 256) n, htracks', .inl (by omega)⟩

theorem nodup_cons (hnew : (w.checkAndUpdate (wire n) windowSize).1 = true → n ∉ passed)
    (hrest : ((w.checkAndUpdate (wire n) windowSize).2.accepted windowSize ns).Nodup ∧
      ∀ m ∈ (w.checkAndUpdate (wire n) windowSize).2.accepted windowSize ns, m ∉ w.passing windowSize passed n) :
    (w.accepted windowSize (n :: ns)).Nodup ∧ ∀ m ∈ w.accepted windowSize (n :: ns), m ∉ passed := by
  obtain ⟨hnodup, hfresh⟩ := hrest
  unfold accepted
  unfold passing at hfresh
  split at hfresh
  · rename_i hpass
    rw [if_pos hpass]
    refine ⟨List.nodup_cons.mpr ⟨fun hmem => hfresh n hmem List.mem_cons_self, hnodup⟩, fun m hm => ?_⟩
    rcases List.mem_cons.mp hm with rfl | hm
    · exact hnew hpass
    · exact fun hmem => hfresh m hm (List.mem_cons_of_mem _ hmem)
  · rename_i hpass
    rw [if_neg hpass]
    exact ⟨hnodup, hfresh⟩

theorem Follows.nodup (h : Follows windowSize w passed highest) (hwithin : WithinReach highest ns) :
    (w.accepted windowSize ns).Nodup ∧ ∀ n ∈ w.accepted windowSize ns, n ∉ passed := by
  induction ns generalizing w passed highest with
  | nil => exact ⟨nodup_nil, by simp [accepted]⟩
  | cons n ns ih =>
    obtain ⟨hahead, hbehind, hrest⟩ := hwithin
    obtain ⟨hnew, hnext⟩ := h.step hahead hbehind
    exact nodup_cons hnew (ih hnext hrest)

theorem follows_first (windowSize : Nat) (hfirst : windowSize < 3 ∨ n % 256 < 128 ∨ n % 256 = 255) :
    Follows windowSize (new.checkAndUpdate (wire n) windowSize).2 (new.passing windowSize [] n) n := by
  by_cases hlow : n % 256 < 128
  · have htracks : new.Tracks [] (n - n % 256) := tracks_new (by omega)
    exact ⟨_, (htracks.step (by omega) (by omega)).2, .inl (by omega)⟩
  by_cases hlast : n % 256 = 255
  · have htracks : new.Tracks [] (n + 1) := tracks_new (by omega)
    exact ⟨_, (htracks.step (by omega) (by omega)).2, .inl (by omega)⟩
  have hnarrow : windowSize ≤ 2 := by omega
  have htracks : new.Tracks [] (n - n % 256) := tracks_new (by omega)
  have hstay : new.checkAndUpdate (wire n) windowSize = (false, new) :=
    checkAndUpdate_narrow htracks.highest hnarrow (by omega) (by omega)
  exact ⟨_, (htracks.refuse hstay).2, .inr (by omega)⟩

def roundTrip (n : Nat) : List Nat :=
  [n, n - n % 256 + 254, n - n % 256 + 127, n - n % 256 + 254]

theorem reordered_roundTrip (hhigh : 128 ≤ n % 256) (hlt : n % 256 < 255) : Reordered (roundTrip n) := by
  refine ⟨by omega, by omega, by omega, by omega, by omega, by omega, trivial⟩

theorem roundTrip_passes (hwide : 3 ≤ windowSize) (hhigh : 128 ≤ n % 256) (hlt : n % 256 < 255) :
    n = n - n % 256 + 254 ∧ (new.checkAndUpdate (wire n) windowSize).1 = true ∨
      ((new.checkAndUpdate (wire n) windowSize).2.checkAndUpdate (wire (n - n % 256 + 254)) windowSize).1 = true := by
  have htop : new.highestSeq = wire (n - n % 256 + 256) := (tracks_new (by omega)).highest
  rw [checkAndUpdate_behind htop (by omega) (by omega)]
  by_cases hsame : n = n - n % 256 + 254
  · refine .inl ⟨hsame, ?_⟩
    rw [if_pos ⟨by omega, BitVec.getLsbD_zero⟩]
  refine .inr ?_
  -- the first packet has set another bit, if any
  have hclear : ∀ w : ReplayWindow, w.highestSeq = wire (n - n % 256 + 256) → w.seen.getLsbD 2 = false →
      (w.checkAndUpdate (wire (n - n % 256 + 254)) windowSize).1 = true := by
    intro w hw hbit
    rw [checkAndUpdate_behind hw (by omega) (by omega)]
    rw [if_pos]
    have htwo : n - n % 256 + 256 - (n - n % 256 + 254) = 2 := by omega
    rw [htwo]
    exact ⟨by omega, hbit⟩
  split
  · refine hclear _ htop ?_
    have hne : ¬2 = n - n % 256 + 256 - n := by omega
    simp [new, hne]
  · exact hclear _ htop BitVec.getLsbD_zero

theorem accepted_roundTrip (hwide : 3 ≤ windowSize) (hhigh : 128 ≤ n % 256) (hlt : n % 256 < 255) :
    ¬(new.accepted windowSize (roundTrip n)).Nodup := by
  have hpasses := roundTrip_passes hwide hhigh hlt
  have htop : new.highestSeq = wire (n - n % 256 + 256) := (tracks_new (by omega)).highest
  -- two packets behind the window, and it stays where it is
  have htop₁ := highestSeq_behind (n := n) windowSize htop (by omega) (by omega)
  have htop₂ := highestSeq_behind (n := n - n % 256 + 254) windowSize htop₁ (by omega) (by omega)
  -- two more that are ahead of it
  rw [wire_add] at htop₂
  have hthird := (checkAndUpdate_ahead htop₂ (by omega) (by omega) :
    checkAndUpdate _ (wire (n - n % 256 + 127)) windowSize = _)
  have hfourth (bits : BitVec 64) : (mk (wire (n - n % 256 + 127)) bits).checkAndUpdate
      (wire (n - n % 256 + 254)) windowSize = _ :=
    checkAndUpdate_ahead rfl (by omega : n - n % 256 + 127 < n - n % 256 + 254) (by omega)
  simp only [roundTrip, accepted, hthird, hfourth, if_true, append_nil, singleton_append]
  intro hnodup
  rw [← append_assoc] at hnodup
  refine (nodup_append.mp hnodup).2.2 (n - n % 256 + 254) (mem_append.mpr ?_) _
    (mem_cons_of_mem _ mem_cons_self) rfl
  rcases hpasses with ⟨hsame, hpass⟩ | hpass
  · exact .inl (by rw [if_pos hpass, ← hsame]; exact mem_singleton_self n)
  · exact .inr (by rw [if_pos hpass]; exact mem_singleton_self _)

end ReplayWindow

namespace ReplayTracker

theorem isOk_check (t : ReplayTracker Source) (source : Source) (n : Nat) :
    (t.check source (wire n)).1.isOk =
      (((t.windows source).getD .new).checkAndUpdate (wire n) t.windowSize).1 := by
  simp only [check]
  cases (((t.windows source).getD .new).checkAndUpdate (wire n) t.windowSize).1 <;> rfl

theorem accepted_eq (source : Source) (t : ReplayTracker Source) (packets : List (Source × Nat)) :
    t.accepted source packets =
      ((t.windows source).getD .new).accepted t.windowSize (numbers source packets) := by
  induction packets generalizing t with
  | nil => rfl
  | cons packet rest ih =>
    obtain ⟨sender, n⟩ := packet
    rw [accepted, ih]
    by_cases hsource : sender = source
    · subst hsource
      rw [isOk_check]
      simp [numbers, ReplayWindow.accepted, check]
    · simp [hsource, numbers, check, update_of_ne (Ne.symm hsource)]

/-- No packet passes twice exactly if the window is narrower than 3 or the first packet's sequence is below 128 or
is 255. -/
theorem no_replay_iff (windowSize : Nat) (source : Source) (first : Nat) :
    (∀ packets, (numbers source packets).head? = some first → Reordered (numbers source packets) →
      ((new windowSize).accepted source packets).Nodup) ↔
      windowSize < 3 ∨ first % 256 < 128 ∨ first % 256 = 255 := by
  constructor
  · intro hnodup
    by_contra hnot
    have hone (ns : List Nat) : numbers source (ns.map (source, ·)) = ns := by
      simp [numbers, filter_map, comp_def]
    have h := hnodup ((roundTrip first).map (source, ·)) (by rw [hone]; rfl)
      (by rw [hone]; exact reordered_roundTrip (by omega) (by omega))
    rw [accepted_eq, hone] at h
    exact accepted_roundTrip (by simp only [new]; omega) (by omega) (by omega) h
  · intro hfirst packets hhead hreordered
    rw [accepted_eq]
    cases hnumbers : numbers source packets with
    | nil => exact nodup_nil
    | cons n ns =>
      rw [hnumbers] at hhead hreordered
      cases hhead
      have hfollows := follows_first (n := first) (min windowSize 64) (by omega)
      exact (nodup_cons (fun _ => not_mem_nil) (hfollows.nodup hreordered)).1

/-- A receiver comes in at packet 254; then packet 127 comes late, and packet
254 a second time. -/
theorem late_start_replays : Reordered [254, 127, 254] ∧
    (new 64).accepted "a" ([254, 127, 254].map fun n => ("a", n)) = [254, 127, 254] :=
  ⟨⟨by decide, by decide, by decide, by decide, trivial⟩, by decide⟩

end ReplayTracker

/-! ## Fresh packets -/

def IsHighest (ns : List Nat) (m : Nat) : Prop := m ∈ ns ∧ ∀ n ∈ ns, n ≤ m

theorem isHighest_singleton (n : Nat) : IsHighest [n] n :=
  ⟨mem_singleton_self _, fun _ ha => Nat.le_of_eq (mem_singleton.mp ha)⟩

namespace ReplayWindow

variable {w : ReplayWindow} {delivered : List Nat} {top n windowSize : Nat}

def after (windowSize : Nat) : ReplayWindow → List Nat → ReplayWindow
  | w, [] => w
  | w, n :: ns => after windowSize (w.checkAndUpdate (wire n) windowSize).2 ns

/-- The window is at the highest number, and its bits are for packets that have
come. -/
structure Marks (w : ReplayWindow) (delivered : List Nat) (top : Nat) : Prop where
  highest : w.highestSeq = wire top
  nonempty : w.seen ≠ 0
  seen : ∀ d, w.seen.getLsbD d = true → d ≤ top ∧ top - d ∈ delivered

theorem Marks.behind (windowSize : Nat) (h : w.Marks delivered top) (hlt : n < top) (hle : top ≤ n + 128) :
    (w.checkAndUpdate (wire n) windowSize).2.Marks (n :: delivered) top := by
  rw [checkAndUpdate_behind h.highest hlt hle]
  split
  · refine ⟨h.highest, fun hzero => ?_, fun d hd => ?_⟩
    · exact h.nonempty (BitVec.or_eq_zero_iff.mp hzero).1
    · simp only [BitVec.getLsbD_or, Bool.or_eq_true, BitVec.getLsbD_twoPow, Bool.and_eq_true, decide_eq_true_eq] at hd
      rcases hd with hd | ⟨-, hd⟩
      · exact ⟨(h.seen d hd).1, mem_cons_of_mem _ (h.seen d hd).2⟩
      · have heq : top - d = n := by omega
        exact ⟨by omega, heq ▸ mem_cons_self⟩
  · exact ⟨h.highest, h.nonempty, fun d hd => ⟨(h.seen d hd).1, mem_cons_of_mem _ (h.seen d hd).2⟩⟩

theorem Marks.same (h : w.Marks delivered top) :
    (w.checkAndUpdate (wire top) windowSize).2.Marks (top :: delivered) top := by
  rw [checkAndUpdate_same h.highest, if_neg h.nonempty]
  exact ⟨h.highest, h.nonempty, fun d hd => ⟨(h.seen d hd).1, mem_cons_of_mem _ (h.seen d hd).2⟩⟩

theorem marks_ahead (hhighest : w.highestSeq = wire top)
    (hseen : ∀ d, w.seen.getLsbD d = true → d ≤ top ∧ top - d ∈ delivered) (hlt : top < n) (hle : n ≤ top + 127) :
    (w.checkAndUpdate (wire n) windowSize).2.Marks (n :: delivered) n := by
  rw [checkAndUpdate_ahead hhighest hlt hle]
  have hzero : (if n - top < 64 then w.seen <<< (n - top) ||| 1 else 1).getLsbD 0 = true := by
    split <;> simp
  refine ⟨rfl, fun hnone => ?_, fun d hd => ?_⟩
  · simp only at hnone
    rw [hnone] at hzero
    simp at hzero
  · by_cases hd0 : d = 0
    · subst hd0
      exact ⟨Nat.zero_le _, mem_cons_self⟩
    -- a bit of an old packet, shifted
    split at hd
    · simp only [BitVec.getLsbD_or, BitVec.getLsbD_shiftLeft, Bool.or_eq_true, Bool.and_eq_true,
        Bool.not_eq_true', decide_eq_true_eq, decide_eq_false_iff_not] at hd
      rcases hd with ⟨⟨-, hnot⟩, hold⟩ | hone
      · obtain ⟨hle', hmem⟩ := hseen _ hold
        have heq : n - d = top - (d - (n - top)) := by omega
        exact ⟨by omega, heq ▸ mem_cons_of_mem _ hmem⟩
      · simp [hd0] at hone
    · simp [hd0] at hd

theorem Marks.step (h : w.Marks delivered top) (hahead : n ≤ top + 127) (hbehind : top ≤ n + 127) :
    (w.checkAndUpdate (wire n) windowSize).2.Marks (n :: delivered) (max top n) := by
  rcases Nat.lt_trichotomy n top with hlt | rfl | hlt
  · rw [Nat.max_eq_left (Nat.le_of_lt hlt)]
    exact h.behind windowSize hlt (by omega)
  · rw [Nat.max_self]
    exact h.same
  · rw [Nat.max_eq_right (Nat.le_of_lt hlt)]
    exact marks_ahead h.highest h.seen hlt hahead

theorem Marks.after {ns} (windowSize : Nat) (h : w.Marks delivered top) (hhighest : IsHighest delivered top)
    (hreach : WithinReach top ns) :
    ∃ top', (w.after windowSize ns).Marks (ns.reverse ++ delivered) top' ∧
      IsHighest (ns.reverse ++ delivered) top' := by
  induction ns generalizing w delivered top with
  | nil => exact ⟨top, h, hhighest⟩
  | cons n ns ih =>
    obtain ⟨hahead, hbehind, hrest⟩ := hreach
    have hmax : IsHighest (n :: delivered) (max top n) := by
      refine ⟨?_, fun a ha => ?_⟩
      · rcases Nat.le_total n top with hle | hle
        · rw [Nat.max_eq_left hle]
          exact mem_cons_of_mem _ hhighest.1
        · rw [Nat.max_eq_right hle]
          exact mem_cons_self
      · rcases mem_cons.mp ha with rfl | ha
        · exact Nat.le_max_right _ _
        · exact Nat.le_trans (hhighest.2 a ha) (Nat.le_max_left _ _)
    obtain ⟨top', hmarks, htop'⟩ := ih (h.step hahead hbehind) hmax hrest
    rw [reverse_cons, append_assoc]
    exact ⟨top', hmarks, htop'⟩

theorem Marks.accepts (h : w.Marks delivered top) (hfresh : n ∉ delivered)
    (hnear : top < n ∧ n ≤ top + 127 ∨ n < top ∧ top < n + min windowSize 64) :
    (w.checkAndUpdate (wire n) windowSize).1 = true := by
  rcases hnear with ⟨hlt, hle⟩ | ⟨hlt, hle⟩
  · rw [checkAndUpdate_ahead h.highest hlt hle]
  rw [checkAndUpdate_behind h.highest hlt (by omega), if_pos]
  refine ⟨by omega, Bool.eq_false_iff.mpr fun hset => hfresh ?_⟩
  have heq : top - (top - n) = n := by omega
  exact heq ▸ (h.seen _ hset).2

theorem checkAndUpdate_new (windowSize : Nat) {first} (hlow : first % 256 < 128) :
    (new.checkAndUpdate (wire first) windowSize).1 = true ∧
      (new.checkAndUpdate (wire first) windowSize).2.Marks [first] first := by
  have hbase : new.highestSeq = wire (first - first % 256) := (tracks_new (by omega)).highest
  by_cases hzero : first % 256 = 0
  · rw [hzero, Nat.sub_zero] at hbase
    rw [checkAndUpdate_same hbase, if_pos (show new.seen = 0 from rfl)]
    refine ⟨rfl, rfl, show (1 : BitVec 64) ≠ 0 by decide, fun d hd => ?_⟩
    have hd0 : d = 0 := by simpa using hd
    subst hd0
    exact ⟨Nat.zero_le _, mem_singleton_self _⟩
  · refine ⟨?_, marks_ahead hbase (fun d hd => ?_) (by omega) (by omega)⟩
    · rw [checkAndUpdate_ahead hbase (by omega) (by omega)]
    · simp [new] at hd

theorem checkAndUpdate_new_high {first} (hhigh : 128 ≤ first % 256) :
    new.checkAndUpdate (wire first) windowSize =
      if 256 - first % 256 < min windowSize 64 then (true, ⟨0, BitVec.twoPow 64 (256 - first % 256)⟩)
      else (false, new) := by
  have htop : new.highestSeq = wire (first - first % 256 + 256) := (tracks_new (by omega)).highest
  have hdiff : first - first % 256 + 256 - first = 256 - first % 256 := by omega
  rw [checkAndUpdate_behind htop (by omega) (by omega), hdiff]
  simp [new]

end ReplayWindow

namespace ReplayTracker

def after : ReplayTracker Source → List (Source × Nat) → ReplayTracker Source
  | t, [] => t
  | t, (sender, n) :: rest => after (t.check sender (wire n)).2 rest

variable (windowSize : Nat) (source : Source) (packets : List (Source × Nat))

/-- A new packet that is within 127 ahead or in the window passes. -/
def AcceptsFresh : Prop :=
  ∀ top n, IsHighest (numbers source packets) top → n ∉ numbers source packets →
    top < n ∧ n ≤ top + 127 ∨ n < top ∧ top < n + min windowSize 64 →
    (((new windowSize).after packets).check source (wire n)).1.isOk = true

/-- The first packet of a source passes. -/
def AcceptsFirst (first : Nat) : Prop :=
  ∀ packets, numbers source packets = [] →
    (((new windowSize).after packets).check source (wire first)).1.isOk = true

theorem after_windows (t : ReplayTracker Source) (packets : List (Source × Nat)) :
    ((t.after packets).windows source).getD .new =
        ((t.windows source).getD .new).after t.windowSize (numbers source packets) ∧
      (t.after packets).windowSize = t.windowSize := by
  induction packets generalizing t with
  | nil => exact ⟨rfl, rfl⟩
  | cons packet rest ih =>
    obtain ⟨sender, n⟩ := packet
    obtain ⟨hwindows, hsize⟩ := ih (t.check sender (wire n)).2
    refine ⟨?_, hsize⟩
    rw [after, hwindows]
    by_cases hsource : sender = source
    · subst hsource
      simp [numbers, ReplayWindow.after, check]
    · simp [hsource, numbers, check, update_of_ne (Ne.symm hsource)]

theorem isOk_check_after (n : Nat) :
    (((new windowSize).after packets).check source (wire n)).1.isOk =
      ((ReplayWindow.new.after (min windowSize 64) (numbers source packets)).checkAndUpdate (wire n)
        (min windowSize 64)).1 := by
  obtain ⟨hwindows, hsize⟩ := after_windows source (new windowSize) packets
  rw [isOk_check, hwindows, hsize]
  rfl

theorem acceptsFirst_iff (first : Nat) :
    AcceptsFirst windowSize source first ↔ first % 256 < 128 ∨ 256 - first % 256 < min windowSize 64 := by
  have hnew (packets : List (Source × Nat)) (hnone : numbers source packets = []) :
      (((new windowSize).after packets).check source (wire first)).1.isOk =
        (ReplayWindow.new.checkAndUpdate (wire first) (min windowSize 64)).1 := by
    rw [isOk_check_after, hnone, ReplayWindow.after]
  by_cases hlow : first % 256 < 128
  · refine iff_of_true (fun packets hnone => ?_) (.inl hlow)
    rw [hnew packets hnone]
    exact (checkAndUpdate_new _ hlow).1
  · constructor
    · intro hfirst
      have hok := hfirst [] rfl
      rw [hnew [] rfl, ReplayWindow.checkAndUpdate_new_high (by omega)] at hok
      by_contra hnot
      rw [if_neg (by omega)] at hok
      cases hok
    · intro hnear packets hnone
      rw [hnew packets hnone, ReplayWindow.checkAndUpdate_new_high (by omega), if_pos (by omega)]

theorem acceptsFresh_of_low {windowSize first source} (hlow : first % 256 < 128)
    {packets : List (Source × Nat)} (hhead : (numbers source packets).head? = some first)
    (hreordered : Reordered (numbers source packets)) : AcceptsFresh windowSize source packets := by
  intro top n htop hfresh hnear
  rw [isOk_check_after]
  cases hnumbers : numbers source packets with
  | nil => rw [hnumbers] at hhead; cases hhead
  | cons m ns =>
    rw [hnumbers] at hhead hreordered htop hfresh
    cases hhead
    obtain ⟨top', hmarks, htop'⟩ := (checkAndUpdate_new (min windowSize 64) hlow).2.after
      (min windowSize 64) (isHighest_singleton first) hreordered
    have hmem (a : Nat) : a ∈ ns.reverse ++ [first] ↔ a ∈ first :: ns := by
      rw [← reverse_cons, mem_reverse]
    have heq : top' = top :=
      Nat.le_antisymm (htop.2 _ ((hmem _).mp htop'.1)) (htop'.2 _ ((hmem _).mpr htop.1))
    exact hmarks.accepts (fun h => hfresh ((hmem n).mp h)) (by omega)

theorem not_acceptsFresh_of_high {windowSize first} {source : Source} (hhigh : 128 ≤ first % 256)
    (hnear : 256 - first % 256 < min windowSize 64) : ¬AcceptsFresh windowSize source [(source, first)] := by
  intro hfresh
  have hone : numbers source [(source, first)] = [first] := by simp [numbers]
  have hok := hfresh first (first + (256 - first % 256)) (by rw [hone]; exact isHighest_singleton first)
    (by rw [hone, mem_singleton]; omega) (.inl (by omega))
  rw [isOk_check_after, hone, ReplayWindow.after, ReplayWindow.after,
    ReplayWindow.checkAndUpdate_new_high hhigh, if_pos (by omega)] at hok
  have hwire : (0 : UInt8) = wire (first + (256 - first % 256)) := (ReplayWindow.tracks_new (by omega)).highest
  have hbit : (BitVec.twoPow 64 (256 - first % 256)).getLsbD (256 - first % 256) = true := by
    rw [BitVec.getLsbD_twoPow]
    simp only [decide_true, Bool.and_true, decide_eq_true_eq]
    omega
  rw [checkAndUpdate_same hwire, if_neg] at hok
  · cases hok
  · intro hzero
    simp only at hzero
    rw [hzero] at hbit
    simp at hbit

theorem not_acceptsFresh_of_jump {first} (hlow : first % 256 < 128) :
    ¬AcceptsFresh windowSize source [(source, first), (source, first + 200)] := by
  intro hfresh
  have hboth : numbers source [(source, first), (source, first + 200)] = [first, first + 200] := by simp [numbers]
  have hok := hfresh (first + 200) (first + 256) (by rw [hboth]; exact ⟨by simp, by simp⟩)
    (by rw [hboth]; simp) (.inl (by omega))
  rw [isOk_check_after, hboth] at hok
  have hfirst := (ReplayWindow.checkAndUpdate_new (min windowSize 64) hlow).2
  have hround : (ReplayWindow.new.checkAndUpdate (wire first) (min windowSize 64)).2.Marks [first + 256]
      (first + 256) := by
    refine ⟨hfirst.highest.trans (wire_add first).symm, hfirst.nonempty, fun d hd => ?_⟩
    obtain ⟨hle, hmem⟩ := hfirst.seen d hd
    have hzero : first - d = first := mem_singleton.mp hmem
    exact ⟨by omega, mem_singleton.mpr (by omega)⟩
  have hstay := hround.behind (n := first + 200) (min windowSize 64) (by omega) (by omega)
  rw [ReplayWindow.after, ReplayWindow.after, ReplayWindow.after,
    ReplayWindow.checkAndUpdate_same hstay.highest, if_neg hstay.nonempty] at hok
  cases hok

/-- The first packet passes exactly if its sequence is below 128 or in the window of 0. All fresh packets within 127
of the highest pass exactly if it is below 128; if more may be lost at once, no source is safe. -/
theorem accepts_fresh_iff (windowSize : Nat) (source : Source) (first : Nat) :
    (AcceptsFirst windowSize source first ↔ first % 256 < 128 ∨ 256 - first % 256 < min windowSize 64) ∧
      ((AcceptsFirst windowSize source first ∧
          ∀ packets, (numbers source packets).head? = some first → Reordered (numbers source packets) →
            AcceptsFresh windowSize source packets) ↔
        first % 256 < 128) ∧
      ¬(AcceptsFirst windowSize source first ∧
        ∀ packets, (numbers source packets).head? = some first → AcceptsFresh windowSize source packets) := by
  have hlater (hhigh : ¬first % 256 < 128) (hfirst : AcceptsFirst windowSize source first) :
      ¬AcceptsFresh windowSize source [(source, first)] :=
    not_acceptsFresh_of_high (by omega)
      (((acceptsFirst_iff windowSize source first).mp hfirst).resolve_left hhigh)
  have hone : numbers source [(source, first)] = [first] := by simp [numbers]
  refine ⟨acceptsFirst_iff windowSize source first, ⟨fun h => ?_, fun hlow => ?_⟩, fun h => ?_⟩
  · by_contra hhigh
    exact hlater hhigh h.1 (h.2 _ (by rw [hone]; rfl) (by rw [hone]; trivial))
  · exact ⟨(acceptsFirst_iff windowSize source first).mpr (.inl hlow),
      fun _ hhead hreordered => acceptsFresh_of_low hlow hhead hreordered⟩
  · by_cases hlow : first % 256 < 128
    · exact not_acceptsFresh_of_jump windowSize source hlow (h.2 _ (by simp [numbers]))
    · exact hlater hlow h.1 (h.2 _ (by rw [hone]; rfl))

/-- The first packet has sequence 150 and is refused; one with sequence 254
passes, but packet 256, two after it, is refused. -/
theorem fresh_refused :
    ((new 64).check "a" (wire 150)).1.isOk = false ∧
      ((new 64).check "a" (wire 254)).1.isOk = true ∧
      (((new 64).after [("a", 254)]).check "a" (wire 256)).1.isOk = false := by
  decide

end ReplayTracker

end PeatMesh
