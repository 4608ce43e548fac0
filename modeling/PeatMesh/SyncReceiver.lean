/-
The receiver of a sync channel (`SyncChannel::receive_loop`,
`storage/sync_channel.rs`) on the frames that `send` writes. A frame begins with
a document key the receiver does not expect: it skips byte by byte to the marker
of a batch. `receiveLoop` reads from what arrives, in pieces of any size, with
timeouts and cancellation in between; `receiveBytes` is what it does of the bytes
alone.
-/
import PeatMesh.SyncChannel

namespace PeatMesh

open List Bytes SyncBatch SyncMessageType

/-! ## Reading from a stream -/

/-- What happens next at the receiving end. -/
inductive Arrival
  | chunk (bytes : List UInt8)
  /-- `RECV_TIMEOUT` runs out for the read under way. -/
  | timeout
  /-- The cancellation token is cancelled. -/
  | cancel
  deriving DecidableEq, Repr

def arrived (s : List Arrival) : List UInt8 :=
  s.flatMap fun
    | .chunk bytes => bytes
    | _ => []

inductive ReadOutcome
  | done (out : List UInt8) (rest : List Arrival)
  | ended
  | timedOut

def ReadOutcome.prepend (c : List UInt8) : ReadOutcome → ReadOutcome
  | .done out rest => .done (c ++ out) rest
  | .ended => .ended
  | .timedOut => .timedOut

def readArrivals : Nat → List Arrival → Bool × ReadOutcome
  | 0, s => (false, .done [] s)
  | _ + 1, [] => (false, .ended)
  | _ + 1, .timeout :: _ => (false, .timedOut)
  | n + 1, .cancel :: s => (true, (readArrivals (n + 1) s).2)
  | n + 1, .chunk c :: s =>
    if n + 1 < c.length then (false, .done (c.take (n + 1)) (.chunk (c.drop (n + 1)) :: s))
    else
      let (cancelled, outcome) := readArrivals (n + 1 - c.length) s
      (cancelled, outcome.prepend c)

theorem ReadOutcome.prepend_eq_done {c out rest} {outcome : ReadOutcome} :
    outcome.prepend c = .done out rest ↔ ∃ out', outcome = .done out' rest ∧ c ++ out' = out := by
  cases outcome <;> simp [prepend, and_comm]

theorem readArrivals_done {n s rest out}
    (h : (readArrivals n s).2 = .done out rest) : out.length = n ∧ out ++ arrived rest = arrived s := by
  induction s generalizing n out with
  | nil =>
    cases n with
    | zero => cases h; exact ⟨rfl, rfl⟩
    | succ n => cases h
  | cons a s ih =>
    cases n with
    | zero => cases h; exact ⟨rfl, rfl⟩
    | succ n =>
      cases a with
      | timeout => cases h
      | cancel => exact ih h
      | chunk c =>
        rw [readArrivals] at h
        split at h
        · cases h
          refine ⟨by rw [length_take]; omega, ?_⟩
          simp [arrived, ← append_assoc]
        · obtain ⟨out', hdone, rfl⟩ := ReadOutcome.prepend_eq_done.mp h
          obtain ⟨hlen, happend⟩ := ih hdone
          refine ⟨by rw [length_append, hlen]; omega, ?_⟩
          rw [append_assoc, happend]
          rfl

/-! ## The loop -/

/-- How an iteration of the loop ends: it returns, or goes on with the rest,
after a call of `receive_batch_message` or none. -/
inductive ReceiveTurn
  | stop (result : Except String Unit)
  | next (call : Option (SyncBatch × Nat)) (cancelled : Bool) (rest : List Arrival)

def receiveTurn (ends : String) (s : List Arrival) : ReceiveTurn :=
  match readArrivals 1 s with
  | (true, _) => .stop (.ok ())
  | (false, .ended) => .stop (.error ("Stream read error: " ++ ends))
  | (false, .timedOut) => .stop (.error "Receive timeout waiting for message marker")
  | (false, .done marker rest) =>
    if marker ≠ [syncBatch.toByte] then .next none false rest
    else
      match readArrivals 4 rest with
      | (_, .ended) => .stop (.error "Failed to read batch length")
      | (_, .timedOut) => .stop (.error "Receive timeout reading batch length")
      | (cancelled, .done lenBytes rest) =>
        match readArrivals (ofBE lenBytes) rest with
        | (_, .ended) => .stop (.error "Failed to read batch data")
        | (_, .timedOut) => .stop (.error "Receive timeout reading batch data")
        | (cancelled', .done data rest) =>
          match decode data with
          | .ok batch => .next (some (batch, 1 + 4 + ofBE lenBytes)) (cancelled || cancelled') rest
          | .error _ => .next none (cancelled || cancelled') rest

theorem arrived_of_readArrivals {n s rest cancelled out}
    (h : readArrivals n s = (cancelled, .done out rest)) : (arrived s).length = n + (arrived rest).length := by
  obtain ⟨hlen, happend⟩ := readArrivals_done (congrArg Prod.snd h)
  rw [← happend, length_append, hlen]

theorem arrived_of_receiveTurn {ends s rest call cancelled} (h : receiveTurn ends s = .next call cancelled rest) :
    (arrived rest).length < (arrived s).length := by
  revert h
  fun_cases receiveTurn ends s <;> rintro ⟨⟩ <;> grind [→ arrived_of_readArrivals]

/-- What a receiver did: the batches it passed to `receive_batch_message` with
their sizes, and what it returned. -/
structure Received where
  calls : List (SyncBatch × Nat)
  result : Except String Unit

def receiveLoop (ends : String) (cancelled : Bool) (s : List Arrival) : Received :=
  if cancelled then ⟨[], .ok ()⟩
  else
    match h : receiveTurn ends s with
    | .stop result => ⟨[], result⟩
    | .next call cancelled rest =>
      have := arrived_of_receiveTurn h
      let received := receiveLoop ends cancelled rest
      { received with calls := call.toList ++ received.calls }
termination_by (arrived s).length

section

variable {ends : String} {cancelled : Bool} {s rest : List Arrival} {call : Option (SyncBatch × Nat)}

theorem receiveLoop_of_stop {result} (h : receiveTurn ends s = .stop result) :
    receiveLoop ends false s = ⟨[], result⟩ := by
  rw [receiveLoop, if_neg Bool.false_ne_true]
  split <;> simp_all

theorem receiveLoop_of_next (h : receiveTurn ends s = .next call cancelled rest) :
    (receiveLoop ends false s).calls = call.toList ++ (receiveLoop ends cancelled rest).calls := by
  rw [receiveLoop, if_neg Bool.false_ne_true]
  split <;> simp_all

/-! ## The bytes alone -/

def takeFrame : List UInt8 → Option (Option (SyncBatch × Nat) × List UInt8)
  | [] => none
  | marker :: data =>
    if marker ≠ syncBatch.toByte then some (none, data)
    else if data.length < 4 then none
    else if (data.drop 4).length < ofBE (data.take 4) then none
    else
      some ((decode ((data.drop 4).take (ofBE (data.take 4)))).toOption.map
          (·, 1 + 4 + ofBE (data.take 4)),
        (data.drop 4).drop (ofBE (data.take 4)))

theorem length_of_takeFrame {data rest call}
    (h : takeFrame data = some (call, rest)) : rest.length < data.length := by
  revert h
  fun_cases takeFrame data <;> rintro ⟨⟩ <;> simp only [length_drop, length_cons] <;> omega

def receiveBytes (data : List UInt8) : List (SyncBatch × Nat) :=
  match h : takeFrame data with
  | none => []
  | some (call, rest) =>
    have := length_of_takeFrame h
    call.toList ++ receiveBytes rest
termination_by data.length

theorem receiveBytes_of_none {data} (h : takeFrame data = none) : receiveBytes data = [] := by
  rw [receiveBytes]
  split <;> simp_all

theorem receiveBytes_of_some {data rest call}
    (h : takeFrame data = some (call, rest)) : receiveBytes data = call.toList ++ receiveBytes rest := by
  rw [receiveBytes]
  split <;> simp_all

theorem takeFrame_of_receiveTurn (h : receiveTurn ends s = .next call cancelled rest) :
    takeFrame (arrived s) = some (call, arrived rest) := by
  unfold receiveTurn at h
  split at h <;> try cases h
  rename_i marker rest₁ hmarker
  obtain ⟨hone, happend⟩ := readArrivals_done (congrArg Prod.snd hmarker)
  obtain ⟨m, rfl⟩ := length_eq_one_iff.mp hone
  rw [← happend, singleton_append, takeFrame]
  by_cases hm : m = syncBatch.toByte
  · rw [if_neg (by simp [hm])] at h
    split at h <;> try cases h
    rename_i lenBytes rest₂ hlenBytes
    obtain ⟨hfour, happend₂⟩ := readArrivals_done (congrArg Prod.snd hlenBytes)
    split at h <;> try cases h
    rename_i data rest₃ hdata
    obtain ⟨hlen, happend₃⟩ := readArrivals_done (congrArg Prod.snd hdata)
    have htake : (arrived rest₁).take 4 = lenBytes := by rw [← happend₂, take_left' hfour]
    have hdrop : (arrived rest₁).drop 4 = arrived rest₂ := by rw [← happend₂, drop_left' hfour]
    have hfew : ¬(arrived rest₁).length < 4 := by rw [← happend₂, length_append]; omega
    have hcut : ¬(arrived rest₂).length < ofBE lenBytes := by rw [← happend₃, length_append]; omega
    rw [if_neg (by simp [hm]), if_neg hfew, htake, hdrop, if_neg hcut, ← happend₃, take_left' hlen,
      drop_left' hlen]
    split at h
    all_goals
      rename_i hdecode
      cases h
      rw [hdecode]
      rfl
  · rw [if_pos (by simpa using hm)] at h
    cases h
    rw [if_pos hm]

/-! ## Without interruption -/

/-- No timeout, error or cancellation between the bytes. -/
def Uninterrupted (s : List Arrival) : Prop := ∀ a ∈ s, ∃ bytes, a = .chunk bytes

theorem readArrivals_of_uninterrupted (n : Nat) (h : Uninterrupted s) :
    readArrivals n s = (false, .ended) ∧ (arrived s).length < n ∨
      ∃ out rest, readArrivals n s = (false, .done out rest) ∧ Uninterrupted rest := by
  induction s generalizing n with
  | nil =>
    cases n with
    | zero => exact .inr ⟨[], [], rfl, h⟩
    | succ n => exact .inl ⟨rfl, Nat.succ_pos n⟩
  | cons a s ih =>
    obtain ⟨⟨c, rfl⟩, hs⟩ := forall_mem_cons.mp h
    cases n with
    | zero => exact .inr ⟨[], _, rfl, h⟩
    | succ n =>
      rw [readArrivals]
      split
      · exact .inr ⟨_, _, rfl, forall_mem_cons.mpr ⟨⟨_, rfl⟩, hs⟩⟩
      obtain ⟨hended, hfew⟩ | ⟨out, rest, hdone, hrest⟩ := ih (n + 1 - c.length) hs
      · refine .inl ⟨by rw [hended]; rfl, ?_⟩
        show (c ++ arrived s).length < n + 1
        rw [length_append]
        omega
      · exact .inr ⟨c ++ out, rest, by rw [hdone]; rfl, hrest⟩

theorem receiveTurn_of_uninterrupted (ends : String) (h : Uninterrupted s) :
    takeFrame (arrived s) = none ∧ (∃ e, receiveTurn ends s = .stop (.error e)) ∨
      ∃ call rest, receiveTurn ends s = .next call false rest ∧ Uninterrupted rest := by
  unfold receiveTurn
  obtain ⟨hended, hfew⟩ | ⟨marker, rest₁, hdone, hrest₁⟩ := readArrivals_of_uninterrupted 1 h
  · rw [hended, length_eq_zero_iff.mp (Nat.lt_one_iff.mp hfew)]
    exact .inl ⟨rfl, _, rfl⟩
  · obtain ⟨hone, happend⟩ := readArrivals_done (congrArg Prod.snd hdone)
    obtain ⟨m, rfl⟩ := length_eq_one_iff.mp hone
    rw [hdone, ← happend, singleton_append, takeFrame]
    by_cases hm : m = syncBatch.toByte
    · simp only [hm, ne_eq, not_true_eq_false, if_false]
      obtain ⟨hended, hfew⟩ | ⟨lenBytes, rest₂, hdone₂, hrest₂⟩ := readArrivals_of_uninterrupted 4 hrest₁
      · rw [hended, if_pos hfew]
        exact .inl ⟨rfl, _, rfl⟩
      · obtain ⟨hfour, happend₂⟩ := readArrivals_done (congrArg Prod.snd hdone₂)
        simp only [hdone₂, ← happend₂, take_left' hfour, drop_left' hfour]
        obtain ⟨hended, hfew⟩ | ⟨data, rest₃, hdone₃, hrest₃⟩ :=
          readArrivals_of_uninterrupted (ofBE lenBytes) hrest₂
        · rw [hended, if_neg (by simp [hfour]), if_pos hfew]
          exact .inl ⟨rfl, _, rfl⟩
        · simp only [hdone₃]
          refine .inr ?_
          cases decode data with
          | ok batch => exact ⟨_, rest₃, rfl, hrest₃⟩
          | error e => exact ⟨none, rest₃, rfl, hrest₃⟩
    · simp only [cons.injEq, hm, and_true, ne_eq, not_false_eq_true, if_true]
      exact .inr ⟨none, rest₁, rfl, hrest₁⟩

theorem receiveLoop_of_uninterrupted (ends : String) (h : Uninterrupted s) :
    (receiveLoop ends false s).calls = receiveBytes (arrived s) := by
  induction hlen : (arrived s).length using Nat.strong_induction_on generalizing s with
  | _ len ih =>
    subst hlen
    obtain ⟨hnone, e, hstop⟩ | ⟨call, rest, hnext, hrest⟩ := receiveTurn_of_uninterrupted ends h
    · rw [receiveLoop_of_stop hstop, receiveBytes_of_none hnone]
    · rw [receiveLoop_of_next hnext, receiveBytes_of_some (takeFrame_of_receiveTurn hnext),
        ih _ (arrived_of_receiveTurn hnext) hrest rfl]

end

/-! ## Frames -/

theorem receiveBytes_skip {skipped data} (h : syncBatch.toByte ∉ skipped) :
    receiveBytes (skipped ++ data) = receiveBytes data := by
  induction skipped with
  | nil => rfl
  | cons b skipped ih =>
    simp only [mem_cons, not_or] at h
    have hframe : takeFrame (b :: skipped ++ data) = some (none, skipped ++ data) := by
      rw [cons_append, takeFrame, if_pos (Ne.symm h.1)]
    rw [receiveBytes_of_some hframe]
    exact ih h.2

theorem fits_of_takeFrame {data rest call}
    (h : takeFrame data = some (some call, rest)) : call.1.Fits ∧ call.1.encode.length < 2 ^ 32 := by
  revert h
  fun_cases takeFrame data with
  | case5 marker data hmarker hfew hcut =>
    intro h
    simp only [Option.some.injEq, Prod.mk.injEq, Option.map_eq_some_iff] at h
    obtain ⟨⟨b, hdecode, rfl⟩, -⟩ := h
    have hok : decode ((data.drop 4).take (ofBE (data.take 4))) = .ok b := by
      revert hdecode
      cases decode ((data.drop 4).take (ofBE (data.take 4))) <;> simp [Except.toOption]
    obtain ⟨hfits, hat⟩ := decode_eq_ok.mp hok
    refine ⟨hfits, ?_⟩
    have hle := (at_zero.mp hat).length_le
    have hlen := ofBE_lt (data.take 4)
    have hpow : 256 ^ (data.take 4).length ≤ 256 ^ 4 := Nat.pow_le_pow_right (by decide) (by simp)
    rw [length_take] at hle
    show b.encode.length < 2 ^ 32
    omega
  | _ => rintro ⟨⟩

theorem fits_of_receiveBytes {data call} (h : call ∈ receiveBytes data) :
    call.1.Fits ∧ call.1.encode.length < 2 ^ 32 := by
  induction hlen : data.length using Nat.strong_induction_on generalizing data with
  | _ len ih =>
    subst hlen
    cases hframe : takeFrame data with
    | none => simp [receiveBytes_of_none hframe] at h
    | some r =>
      obtain ⟨call', rest⟩ := r
      rw [receiveBytes_of_some hframe, mem_append] at h
      obtain h | h := h
      · rw [Option.mem_toList] at h
        subst h
        exact fits_of_takeFrame hframe
      · exact ih _ (length_of_takeFrame hframe) h rfl

theorem receiveBytes_framed {bytes} (hlen : bytes.length < 2 ^ 32) (data : List UInt8) :
    receiveBytes ((toBE 2 "batch".utf8ByteSize ++ utf8 "batch") ++
        (syncBatch.toByte :: (toBE 4 bytes.length ++ (bytes ++ data)))) =
      ((decode bytes).toOption.map (·, 1 + 4 + bytes.length)).toList ++ receiveBytes data := by
  have hsize : ofBE (toBE 4 bytes.length) = bytes.length := ofBE_toBE_of_lt (by omega)
  have htake : takeFrame (syncBatch.toByte :: (toBE 4 bytes.length ++ (bytes ++ data))) =
      some ((decode bytes).toOption.map (·, 1 + 4 + bytes.length), data) := by
    simp [takeFrame, length_toBE, hsize]
  -- no byte of the key is the marker
  rw [receiveBytes_skip (by decide), receiveBytes_of_some htake]

theorem receiveBytes_frame {b} (hfits : b.Fits) (hlen : b.encode.length < 2 ^ 32) (data : List UInt8) :
    receiveBytes (frame b ++ data) = (b, 1 + 4 + b.encode.length) :: receiveBytes data := by
  have hframe : frame b ++ data = (toBE 2 "batch".utf8ByteSize ++ utf8 "batch") ++
      (syncBatch.toByte :: (toBE 4 b.encode.length ++ (b.encode ++ data))) := by
    simp [frame, framePieces]
  have hdecode := (decode_encode_iff b).mpr hfits
  rw [hframe, receiveBytes_framed hlen, hdecode]
  rfl

theorem receiveBytes_frames_iff (bs : List SyncBatch) :
    (receiveBytes (bs.flatMap frame)).map Prod.fst = bs ↔ ∀ b ∈ bs, b.Fits ∧ b.encode.length < 2 ^ 32 := by
  refine ⟨fun h b hb => ?_, fun h => ?_⟩
  · rw [← h, mem_map] at hb
    obtain ⟨call, hcall, rfl⟩ := hb
    exact fits_of_receiveBytes hcall
  · induction bs with
    | nil => exact congrArg _ (receiveBytes_of_none rfl)
    | cons b bs ih =>
      obtain ⟨⟨hfits, hlen⟩, hrest⟩ := forall_mem_cons.mp h
      rw [flatMap_cons, receiveBytes_frame hfits hlen, map_cons, ih hrest]

/-- The receiver passes on the batches a channel sends, in order and once each, however the stream is cut, exactly
when each can be decoded and is shorter than its length field can say. -/
theorem channel_passes_iff (bs : List SyncBatch) (ends : String) (s : List Arrival) (hs : Uninterrupted s)
    (hbytes : arrived s = bs.flatMap frame) :
    (receiveLoop ends false s).calls.map Prod.fst = bs ↔
      ∀ b ∈ bs, decode b.encode = .ok b ∧ b.encode.length < 2 ^ 32 := by
  rw [receiveLoop_of_uninterrupted ends hs, hbytes, receiveBytes_frames_iff]
  simp only [decode_encode_iff]

def twoFramesCut : List Arrival :=
  [.chunk (frame helloDelta), .chunk ((frame helloSnapshot).take 10), .chunk [], .chunk ((frame helloSnapshot).drop 10)]

theorem twoFramesCut_passed :
    (receiveLoop "closed" false twoFramesCut).calls.map Prod.fst = [helloDelta, helloSnapshot] :=
  (channel_passes_iff [helloDelta, helloSnapshot] "closed" twoFramesCut (by simp [twoFramesCut, Uninterrupted])
    (by simp [twoFramesCut, arrived])).mpr (by decide +kernel)

def twoSnapshots (n : Nat) : SyncBatch := ⟨1, 0, 5, List.replicate 2 ⟨"", .stateSnapshot, List.replicate n 0⟩⟩

theorem length_twoSnapshots (n : Nat) : (twoSnapshots n).encode.length = 2 * n + 35 := by
  have hentry : (SyncEntry.encode ⟨"", .stateSnapshot, replicate n 0⟩).length = 7 + n := by
    rw [SyncEntry.length_encode, length_replicate]
    rfl
  simp only [twoSnapshots, encode, replicate_succ, replicate_zero, flatMap_cons,
    flatMap_nil, length_append, length_toBE, length_cons, length_nil, hentry]
  omega

theorem fits_twoSnapshots {n} (h : n < 2 ^ 32) : (twoSnapshots n).Fits := by
  refine ⟨by simp [twoSnapshots], fun e he => ?_⟩
  rw [eq_of_mem_replicate he]
  exact ⟨by simp, rfl, by simpa using h⟩

/-- Two snapshots of two gibibytes can be encoded and decoded, but their frame
says that it has thirty-five bytes. -/
theorem twoSnapshots_lost :
    decode (twoSnapshots (2 ^ 31)).encode = .ok (twoSnapshots (2 ^ 31)) ∧
      (receiveLoop "closed" false [.chunk (frame (twoSnapshots (2 ^ 31)))]).calls.map Prod.fst ≠
        [twoSnapshots (2 ^ 31)] := by
  refine ⟨(decode_encode_iff _).mpr (fits_twoSnapshots (by decide)), fun h => ?_⟩
  have hone : Uninterrupted [.chunk (frame (twoSnapshots (2 ^ 31)))] := by simp [Uninterrupted]
  rw [receiveLoop_of_uninterrupted "closed" hone] at h
  have hmem := (receiveBytes_frames_iff [twoSnapshots (2 ^ 31)]).mp (by simpa [arrived] using h) _ mem_cons_self
  rw [length_twoSnapshots] at hmem
  omega

end PeatMesh
