/-
A firmware transfer (`transport/lite_ota.rs`): the sender, its concurrent
calls, a network that may lose, repeat and reorder what is sent, and receivers
that keep what they get, acknowledge only what they have, and resume only from
where they have everything. A chunk count is cut to 16 bits, a session id comes
again after 65,535 others, and a call that has decided what to send looks the
session up again.
-/
import PeatMesh.LiteOta
import PeatMesh.Runs

namespace PeatMesh

open Runs OtaSender List

/-! ## The world around the sender -/

inductive OtaReply
  | accept (peerId : String) (sessionId resumeChunk : UInt16)
  | ack (peerId : String) (sessionId chunkNum : UInt16)
  | result (peerId : String) (payload : List UInt8)
  | abort (peerId : String) (payload : List UInt8)
  deriving DecidableEq

def OtaReply.action : OtaReply → OtaAction
  | .accept peerId sessionId chunk =>
    .handleAccept peerId (Bytes.toLE 2 sessionId.toNat ++ Bytes.toLE 2 chunk.toNat)
  | .ack peerId sessionId chunk => .handleAck peerId (Bytes.toLE 2 sessionId.toNat ++ Bytes.toLE 2 chunk.toNat)
  | .result peerId payload => .handleResult peerId payload
  | .abort peerId payload => .handleAbort peerId payload

structure OtaOffer where
  peerId : String
  sessionId : UInt16
  firmware : FirmwareImage

/-- The sender with the tasks that are in it, everything ever sent to and
fro, the chunks each receiver has stored in each session, and the offers so
far. -/
structure OtaWorld where
  sender : OtaSender
  now : Nat
  tasks : List (List OtaAction)
  sent : List (String × OtaMessage)
  replies : List OtaReply
  stored : String → UInt16 → Nat → Option (List UInt8)
  offers : List OtaOffer

/-- A task is started, to offer an image, to handle a reply or to tick; a task goes on; time passes; a receiver gets
a chunk; or a receiver says something. -/
inductive OtaLabel
  | offer (peerId : String) (firmware : FirmwareImage)
  | handle (reply : OtaReply)
  | tick (peers : List String)
  | run (i : Nat) (accepted : Bool)
  | wait (time : Nat)
  | store (peerId : String) (sessionId chunkNum : UInt16) (data : List UInt8)
  | reply (reply : OtaReply)

def OtaLabel.image : OtaLabel → Option FirmwareImage
  | .offer _ firmware => some firmware
  | _ => none

def OtaMessage.IsOffer (sessionId : UInt16) : OtaMessage → Prop
  | .offer _ _ _ _ _ id _ _ => id = sessionId
  | _ => False

instance {sessionId : UInt16} : DecidablePred (OtaMessage.IsOffer sessionId)
  | .offer _ _ _ _ _ id _ _ => inferInstanceAs (Decidable (id = sessionId))
  | .data .. | .complete _ | .abort .. => inferInstanceAs (Decidable False)

namespace OtaWorld

variable (s : OtaWorld) (peerId : String)

def Has (sessionId : UInt16) (n : Nat) : Prop :=
  ∀ m < n, (s.stored peerId sessionId m).isSome = true

instance (sessionId : UInt16) (n : Nat) : Decidable (s.Has peerId sessionId n) :=
  inferInstanceAs (Decidable (∀ m < n, (s.stored peerId sessionId m).isSome = true))

def Honest : OtaReply → Prop
  | .accept peerId sessionId resumeChunk =>
    (∃ m ∈ s.sent, m.1 = peerId ∧ m.2.IsOffer sessionId) ∧ s.Has peerId sessionId resumeChunk.toNat
  | .ack peerId sessionId chunkNum => (s.stored peerId sessionId chunkNum.toNat).isSome = true
  | .result _ _ | .abort _ _ => True

instance : DecidablePred s.Honest
  | .accept peerId sessionId resumeChunk => inferInstanceAs (Decidable
      ((∃ m ∈ s.sent, m.1 = peerId ∧ m.2.IsOffer sessionId) ∧ s.Has peerId sessionId resumeChunk.toNat))
  | .ack peerId sessionId chunkNum =>
    inferInstanceAs (Decidable ((s.stored peerId sessionId chunkNum.toNat).isSome = true))
  | .result _ _ | .abort _ _ => inferInstanceAs (Decidable True)

def start (signingKeypair : Option (List UInt8 → List UInt8)) (constants : OtaConstants) : OtaWorld :=
  ⟨.new signingKeypair constants, 0, [], [], [], fun _ _ _ => none, []⟩

def offered : OtaAction → List OtaOffer
  | .offer peerId firmware => [⟨peerId, s.sender.nextSessionId, s.sender.signed firmware⟩]
  | _ => []

def runAction (i : Nat) (accepted : Bool) (a : OtaAction) (rest : List OtaAction) : OtaWorld :=
  match s.sender.perform s.now accepted a with
  | some (sender, msgs, next) => { s with
      sender := sender
      tasks := s.tasks.set i (next ++ rest)
      sent := s.sent ++ msgs
      offers := s.offers ++ s.offered a }
  | none => { s with tasks := s.tasks.set i [] }

def storeChunk (sessionId chunkNum : UInt16) (data : List UInt8) : OtaWorld :=
  { s with stored := fun p id n =>
      if p = peerId ∧ id = sessionId ∧ n = chunkNum.toNat then some data else s.stored p id n }

def step : OtaLabel → Option OtaWorld
  | .offer peerId firmware => some { s with tasks := s.tasks ++ [[.offer peerId firmware]] }
  | .handle reply => if reply ∈ s.replies then some { s with tasks := s.tasks ++ [[reply.action]] } else none
  | .tick peers =>
    if peers.Perm s.sender.sessions.keys then some { s with tasks := s.tasks ++ [peers.map .check] } else none
  | .run i accepted =>
    match s.tasks[i]? with
    | some (a :: rest) => some (s.runAction i accepted a rest)
    | _ => none
  | .wait time => some { s with now := s.now + time }
  | .store peerId sessionId chunkNum data =>
    if (peerId, .data sessionId chunkNum data) ∈ s.sent then some (s.storeChunk peerId sessionId chunkNum data)
    else none
  | .reply reply => if s.Honest reply then some { s with replies := s.replies ++ [reply] } else none

def upNext : OtaLabel → Option OtaAction
  | .run i _ => s.tasks[i]?.bind List.head?
  | _ => none

def Whole (session : OtaSession) : Prop :=
  s.Has peerId session.sessionId session.firmware.chunks ∧
    ((List.range session.firmware.chunks).flatMap fun n => (s.stored peerId session.sessionId n).getD []) =
      session.firmware.data

/-- `OtaComplete` is only sent to a receiver that has the image. -/
def CompletesWhole (l : OtaLabel) : Prop :=
  ∀ peerId, s.upNext l = some (.sendComplete peerId) → ∀ session ∈ s.sender.sessions[peerId]?, s.Whole peerId session

/-! ## What every run keeps -/

section Sound

variable {s s' : OtaWorld} {l : OtaLabel} {peerId : String} {sessionId : UInt16} {a : OtaAction}

theorem Has.mono {m n} (h : s.Has peerId sessionId n) (hle : m ≤ n) : s.Has peerId sessionId m :=
  fun k hk => h k (Nat.lt_of_lt_of_le hk hle)

theorem Has.succ {n} (h : s.Has peerId sessionId n) (hn : (s.stored peerId sessionId n).isSome = true) :
    s.Has peerId sessionId (n + 1) := by
  intro k hk
  rcases Nat.lt_succ_iff_lt_or_eq.mp hk with hk | rfl
  · exact h k hk
  · exact hn

def IsChunk (s : OtaWorld) (peerId : String) (sessionId chunkNum : UInt16) (data : List UInt8) : Prop :=
  ∃ firmware, ⟨peerId, sessionId, firmware⟩ ∈ s.offers ∧ firmware.chunk chunkNum = some data

def Stage (s : OtaWorld) (peerId : String) (session : OtaSession) : Prop :=
  match session.state with
  | .transferring currentChunk _ _ => s.Has peerId session.sessionId currentChunk.toNat
  | .waitingResult _ _ => s.Has peerId session.sessionId session.firmware.chunks
  | .offered _ _ | .complete | .failed _ => True

def Ready (s : OtaWorld) : OtaAction → Prop
  | .offer _ firmware => firmware.chunks < UInt16.size
  | .insert peerId firmware sessionId => ⟨peerId, sessionId, firmware⟩ ∈ s.offers
  | .handleAccept peerId payload => ∀ r ∈ OtaSender.readPair payload, s.Has peerId r.1 r.2.toNat
  | .handleAck peerId payload => ∀ r ∈ OtaSender.readPair payload, s.Has peerId r.1 (r.2.toNat + 1)
  | .sendChunk peerId chunkNum => ∀ session ∈ s.sender.sessions[peerId]?, s.Has peerId session.sessionId chunkNum.toNat
  | .sendComplete peerId =>
    ∀ session ∈ s.sender.sessions[peerId]?, s.Has peerId session.sessionId session.firmware.chunks
  | .handleResult _ _ | .handleAbort _ _ | .check _ | .resendOffer .. | .offeredAgain _ _ | .sendAbort _ _ => True

/-- The chunks of every image can be counted in 16 bits, and a session id stands for one image; sessions, replies
and tasks are truthful; and a chunk goes out only after those before it. -/
structure Sound (s : OtaWorld) : Prop where
  small : ∀ o ∈ s.offers, o.firmware.chunks < UInt16.size
  unique : ∀ o ∈ s.offers, ∀ o' ∈ s.offers, o.peerId = o'.peerId → o.sessionId = o'.sessionId →
    o.firmware = o'.firmware
  session : ∀ p session, s.sender.sessions[p]? = some session →
    ⟨p, session.sessionId, session.firmware⟩ ∈ s.offers ∧ s.Stage p session
  sent : ∀ p id n data, (p, .data id n data) ∈ s.sent → s.Has p id n.toNat ∧ s.IsChunk p id n data
  stored : ∀ p id n data, s.stored p id n = some data →
    s.Has p id n ∧ ∃ chunkNum : UInt16, chunkNum.toNat = n ∧ s.IsChunk p id chunkNum data
  replies : ∀ r ∈ s.replies, s.Ready r.action
  tasks : ∀ t ∈ s.tasks, ∀ a ∈ t, s.Ready a

variable {session : OtaSession}

theorem Sound.whole (h : Sound s) (hsession : s.sender.sessions[peerId]? = some session)
    (hhas : s.Has peerId session.sessionId session.firmware.chunks) : s.Whole peerId session := by
  refine ⟨hhas, ?_⟩
  obtain ⟨hoffer, -⟩ := h.session _ _ hsession
  conv_rhs => rw [← session.firmware.flatMap_chunks]
  refine flatMap_congr fun n hn => ?_
  obtain ⟨data, hdata⟩ := Option.isSome_iff_exists.mp (hhas n (mem_range.mp hn))
  obtain ⟨-, chunkNum, rfl, firmware, hother, hchunk⟩ := h.stored _ _ _ _ hdata
  -- the session's image is the only one offered under its id
  have himage := h.unique _ hoffer _ hother rfl rfl
  simp only at himage
  rw [← himage, FirmwareImage.chunk_eq, if_pos (mem_range.mp hn)] at hchunk
  rw [hdata, Option.getD_some, Option.some.inj hchunk]

/-! ### Steps that change no session's id or image -/

/-- Sessions keep their id and image, receivers what they have, and offers
stay. -/
structure Keeps (s s' : OtaWorld) : Prop where
  has : ∀ p id n, s.Has p id n → s'.Has p id n
  offers : ∀ o ∈ s.offers, o ∈ s'.offers
  same : ∀ (p : String) (session' : OtaSession), s'.sender.sessions[p]? = some session' →
    ∃ session : OtaSession, s.sender.sessions[p]? = some session ∧
      session'.sessionId = session.sessionId ∧ session'.firmware = session.firmware

theorem Ready.of_keeps (hkeeps : Keeps s s') (h : s.Ready a) : s'.Ready a := by
  cases a with
  | offer | handleResult | handleAbort | check | resendOffer | offeredAgain | sendAbort => exact h
  | insert => exact hkeeps.offers _ h
  | handleAccept | handleAck => exact fun r hr => hkeeps.has _ _ _ (h r hr)
  | sendChunk peerId n =>
    intro session' hsession'
    obtain ⟨session, hsession, hid, -⟩ := hkeeps.same _ _ hsession'
    exact hid ▸ hkeeps.has _ _ _ (h session hsession)
  | sendComplete peerId =>
    intro session' hsession'
    obtain ⟨session, hsession, hid, himage⟩ := hkeeps.same _ _ hsession'
    rw [hid, himage]
    exact hkeeps.has _ _ _ (h session hsession)

theorem Keeps.refl (s : OtaWorld) : Keeps s s :=
  ⟨fun _ _ _ h => h, fun _ h => h, fun _ session h => ⟨session, h, rfl, rfl⟩⟩

/-! ### Actions -/

/-- The sender has gone on with its sessions, truthfully. -/
structure Moves (s : OtaWorld) (sender : OtaSender) : Prop where
  same : ∀ (p : String) (session' : OtaSession), sender.sessions[p]? = some session' →
    ∃ session : OtaSession, s.sender.sessions[p]? = some session ∧
      session'.sessionId = session.sessionId ∧ session'.firmware = session.firmware
  stage : ∀ (p : String) (session : OtaSession), sender.sessions[p]? = some session → s.Stage p session

theorem Sound.stay (h : Sound s) : Moves s s.sender :=
  ⟨(Keeps.refl s).same, fun p session hsession => (h.session p session hsession).2⟩

theorem Sound.move (h : Sound s) {session session'} (hsession : s.sender.sessions[peerId]? = some session)
    (hid : session'.sessionId = session.sessionId) (hfirmware : session'.firmware = session.firmware)
    (hstage : s.Stage peerId session') : Moves s (s.sender.setSession peerId session') := by
  refine ⟨fun p other hother => ?_, fun p other hother => ?_⟩ <;>
    rw [sessions_setSession] at hother <;> split at hother
  · subst_vars
    cases hother
    exact ⟨session, hsession, hid, hfirmware⟩
  · exact h.stay.same p other hother
  · subst_vars
    cases hother
    exact hstage
  · exact h.stay.stage p other hother

/-- What an action comes to: how the sender has moved on, what data it sends,
and what is left to do. -/
structure Outcome (s : OtaWorld) (sender : OtaSender) (msgs : List (String × OtaMessage)) (next : List OtaAction) :
    Prop where
  moves : Moves s sender
  sent : ∀ p id n data, (p, .data id n data) ∈ msgs → s.Has p id n.toNat ∧ s.IsChunk p id n data
  ready : ∀ a ∈ next, { s with sender := sender }.Ready a

theorem ready_sendChunk {n} (hhas : s.Has peerId session.sessionId n.toNat) :
    { s with sender := s.sender.setSession peerId session }.Ready (.sendChunk peerId n) := by
  intro session' hsession'
  simp only [sessions_setSession, if_true, Option.mem_some_iff] at hsession'
  exact hsession' ▸ hhas

theorem ready_sendComplete (hhas : s.Has peerId session.sessionId session.firmware.chunks) :
    { s with sender := s.sender.setSession peerId session }.Ready (.sendComplete peerId) := by
  intro session' hsession'
  simp only [sessions_setSession, if_true, Option.mem_some_iff] at hsession'
  exact hsession' ▸ hhas

variable {payload : List UInt8}

theorem Sound.outcome_stay (h : Sound s) : Outcome s s.sender [] [] := ⟨h.stay, by simp, by simp⟩

theorem Sound.outcome_handleAccept (h : Sound s) (hready : s.Ready (.handleAccept peerId payload)) :
    Outcome s (s.sender.handleAccept s.now peerId payload).1 [] (s.sender.handleAccept s.now peerId payload).2 := by
  fun_cases handleAccept s.sender s.now peerId payload with
  | case2 id resumeChunk hread session hsession hid =>
    have hhas : s.Has peerId session.sessionId resumeChunk.toNat := by
      rw [not_ne_iff.mp hid]
      exact hready _ hread
    exact ⟨h.move hsession rfl rfl hhas, by simp, forall_mem_singleton.mpr (ready_sendChunk hhas)⟩
  | _ => exact h.outcome_stay

variable {sender : OtaSender}

/-- No receiver has a chunk 65,535. -/
theorem Sound.stored_lt (h : Sound s) {n} (hn : (s.stored peerId sessionId n).isSome = true) :
    n + 1 < UInt16.size := by
  obtain ⟨data, hdata⟩ := Option.isSome_iff_exists.mp hn
  obtain ⟨-, chunkNum, rfl, firmware, hoffer, hchunk⟩ := h.stored _ _ _ _ hdata
  have hsmall := h.small _ hoffer
  rw [FirmwareImage.chunk_eq] at hchunk
  have hlt : chunkNum.toNat < firmware.chunks := by grind
  simp only at hsmall
  omega

theorem Sound.outcome_handleAck (h : Sound s) {next} (hready : s.Ready (.handleAck peerId payload))
    (hack : s.sender.handleAck s.now peerId payload = some (sender, next)) : Outcome s sender [] next := by
  have hhas {id ackedChunk : UInt16} (hread : readPair payload = some (id, ackedChunk)) :
      s.Has peerId id (ackedChunk + 1).toNat := by
    have hacked : s.Has peerId id (ackedChunk.toNat + 1) := hready _ hread
    have hnext : (ackedChunk + 1).toNat = ackedChunk.toNat + 1 :=
      Nat.mod_eq_of_lt (h.stored_lt (hacked _ (Nat.lt_succ_self _)))
    rwa [hnext]
  revert hack
  fun_cases handleAck s.sender s.now peerId payload with
  | case3 id ackedChunk hread session hsession hid hover next session' hdone =>
    rintro ⟨⟩
    have hall : s.Has peerId session.sessionId session.firmware.chunks := by
      rw [not_ne_iff.mp hid]
      refine (hhas hread).mono ?_
      rw [← FirmwareImage.toNat_totalChunks (h.small _ (h.session _ _ hsession).1)]
      exact hdone
    exact ⟨h.move hsession rfl rfl hall, by simp, forall_mem_singleton.mpr (ready_sendComplete hall)⟩
  | case4 id ackedChunk hread session hsession hid hover next session' hmore =>
    rintro ⟨⟩
    have hhas := hhas hread
    rw [← not_ne_iff.mp hid] at hhas
    exact ⟨h.move hsession rfl rfl hhas, by simp, forall_mem_singleton.mpr (ready_sendChunk hhas)⟩
  | _ => rintro ⟨⟩ <;> exact h.outcome_stay

theorem Sound.moves_handleResult (h : Sound s) : Moves s (s.sender.handleResult peerId payload) := by
  fun_cases handleResult s.sender peerId payload with
  | case2 _ _ _ session hsession | case3 _ _ _ _ session hsession => exact h.move hsession rfl rfl trivial
  | _ => exact h.stay

theorem Sound.moves_handleAbort (h : Sound s) : Moves s (s.sender.handleAbort peerId payload) := by
  fun_cases handleAbort s.sender peerId payload with
  | case1 _ _ _ _ session hsession => exact h.move hsession rfl rfl trivial
  | _ => exact h.stay

theorem Sound.moves_offeredAgain (h : Sound s) {retries} :
    Moves s (s.sender.offeredAgain s.now peerId retries) := by
  fun_cases offeredAgain s.sender s.now peerId retries with
  | case1 session hsession => exact h.move hsession rfl rfl trivial
  | case2 => exact h.stay

theorem Sound.outcome_check (h : Sound s) :
    Outcome s (s.sender.check s.now peerId).1 [] (s.sender.check s.now peerId).2 := by
  unfold check
  split
  next session hsession =>
    split
    · exact ⟨h.move hsession rfl rfl trivial, by simp, by simp [Ready]⟩
    have hstage := (h.session _ _ hsession).2
    -- what is sent again is what the state says
    obtain ⟨next, hr, hnext⟩ | ⟨reason, hr⟩ | ⟨chunk, time, retries, hstate, hr⟩ | ⟨time, retries, hstate, hr⟩ :=
      tickState_cases s.now peerId session <;> rw [hr]
    · refine ⟨h.stay, by simp, fun a ha => ?_⟩
      obtain ⟨retries, rfl⟩ := hnext a ha
      trivial
    · exact ⟨h.move hsession rfl rfl trivial, by simp, by simp [Ready]⟩
    · rw [Stage, hstate] at hstage
      exact ⟨h.move hsession rfl rfl hstage, by simp, forall_mem_singleton.mpr (ready_sendChunk hstage)⟩
    · rw [Stage, hstate] at hstage
      exact ⟨h.move hsession rfl rfl hstage, by simp, forall_mem_singleton.mpr (ready_sendComplete hstage)⟩
  next => exact ⟨h.stay, by simp, by simp⟩

variable {chunkNum : UInt16}

theorem Sound.outcome_sendChunk (h : Sound s) (hready : s.Ready (.sendChunk peerId chunkNum)) :
    Outcome s s.sender ((s.sender.sendChunk peerId chunkNum).toList.map (peerId, ·)) [] := by
  refine ⟨h.stay, fun p id n data hmem => ?_, by simp⟩
  simp only [mem_map, Option.mem_toList, sendChunk, Option.bind_eq_some_iff, Option.map_eq_some_iff,
    Prod.mk.injEq] at hmem
  obtain ⟨_, ⟨session, hsession, bytes, hbytes, rfl⟩, rfl, heq⟩ := hmem
  cases heq
  exact ⟨hready session hsession, session.firmware, (h.session _ _ hsession).1, hbytes⟩

variable {accepted : Bool} {msgs : List (String × OtaMessage)}

theorem Sound.outcome (h : Sound s)
    {next} (hready : s.Ready a) (hoffer : ∀ p firmware, a ≠ .offer p firmware)
    (hinsert : ∀ p firmware id, a ≠ .insert p firmware id)
    (hperform : s.sender.perform s.now accepted a = some (sender, msgs, next)) : Outcome s sender msgs next := by
  cases a with
  | offer p firmware => exact absurd rfl (hoffer p firmware)
  | insert p firmware id => exact absurd rfl (hinsert p firmware id)
  | handleAccept =>
    cases hperform
    exact h.outcome_handleAccept hready
  | handleAck =>
    obtain ⟨⟨sender, next⟩, hack, heq⟩ := Option.map_eq_some_iff.mp hperform
    cases heq
    exact h.outcome_handleAck hready hack
  | handleResult =>
    cases hperform
    exact ⟨h.moves_handleResult, by simp, by simp⟩
  | handleAbort =>
    cases hperform
    exact ⟨h.moves_handleAbort, by simp, by simp⟩
  | check =>
    cases hperform
    exact h.outcome_check
  | resendOffer =>
    cases hperform
    exact ⟨h.stay, by simp [resendOffer, otaOffer], by simp [Ready]⟩
  | offeredAgain =>
    cases hperform
    exact ⟨h.moves_offeredAgain, by simp, by simp⟩
  | sendAbort =>
    cases hperform
    exact ⟨h.stay, by simp, by simp⟩
  | sendChunk =>
    cases hperform
    exact h.outcome_sendChunk hready
  | sendComplete =>
    cases hperform
    exact ⟨h.stay, by simp [sendComplete], by simp⟩

/-! ### Steps -/

variable {i : Nat}

theorem ready_set {todo} (htasks : ∀ t ∈ s.tasks, ∀ a ∈ t, s'.Ready a)
    (htodo : ∀ a ∈ todo, s'.Ready a) : ∀ t ∈ s.tasks.set i todo, ∀ a ∈ t, s'.Ready a := by
  intro t ht
  rcases mem_or_eq_of_mem_set ht with ht | rfl
  · exact htasks t ht
  · exact htodo

theorem Sound.of_outcome (h : Sound s) {next rest} (hout : Outcome s sender msgs next)
    (hrest : ∀ a ∈ rest, s.Ready a) :
    Sound { s with sender := sender, tasks := s.tasks.set i (next ++ rest), sent := s.sent ++ msgs } := by
  have hkeeps : Keeps s { s with sender := sender, tasks := s.tasks.set i (next ++ rest), sent := s.sent ++ msgs } :=
    ⟨fun _ _ _ hhas => hhas, fun _ ho => ho, hout.moves.same⟩
  refine ⟨h.small, h.unique, fun p session hsession => ?_, fun p id n data hmem => ?_, h.stored,
    fun r hr => (h.replies r hr).of_keeps hkeeps, ?_⟩
  · obtain ⟨old, hold, hid, hfirmware⟩ := hout.moves.same p session hsession
    exact ⟨hid ▸ hfirmware ▸ (h.session p old hold).1, hout.moves.stage p session hsession⟩
  · rcases mem_append.mp hmem with hmem | hmem
    · exact h.sent p id n data hmem
    · exact hout.sent p id n data hmem
  · refine ready_set (fun t ht a ha => (h.tasks t ht a ha).of_keeps hkeeps) fun a ha => ?_
    rcases mem_append.mp ha with ha | ha
    · exact hout.ready a ha
    · exact (hrest a ha).of_keeps hkeeps

theorem IsChunk.mono {data} (h : s.IsChunk peerId sessionId chunkNum data)
    (hoffers : ∀ o ∈ s.offers, o ∈ s'.offers) : s'.IsChunk peerId sessionId chunkNum data := by
  obtain ⟨firmware, hoffer, hchunk⟩ := h
  exact ⟨firmware, hoffers _ hoffer, hchunk⟩

theorem Stage.mono (h : s.Stage peerId session)
    (hhas : ∀ p id n, s.Has p id n → s'.Has p id n) : s'.Stage peerId session := by
  unfold Stage at h ⊢
  split at h
  · exact hhas _ _ _ h
  · exact hhas _ _ _ h
  all_goals trivial

variable {firmware : FirmwareImage} {rest : List OtaAction}

theorem Sound.offer (h : Sound s) (hsmall : firmware.chunks < UInt16.size) (hrest : ∀ a ∈ rest, s.Ready a)
    (hfresh : ∀ o ∈ s.offers, ¬ (o.peerId = peerId ∧ o.sessionId = s.sender.nextSessionId)) :
    Sound (s.runAction i accepted (.offer peerId firmware) rest) := by
  have hkeeps : Keeps s (s.runAction i accepted (.offer peerId firmware) rest) :=
    ⟨fun _ _ _ hhas => hhas, fun _ ho => mem_append_left _ ho, (Keeps.refl s).same⟩
  refine ⟨?_, ?_, fun p session hsession => ?_, fun p id n data hmem => ?_, fun p id n data hdata => ?_,
    fun r hr => (h.replies r hr).of_keeps hkeeps, ?_⟩
  · intro o ho
    rcases mem_append.mp ho with ho | ho
    · exact h.small o ho
    · rw [mem_singleton.mp ho]
      exact lt_of_eq_of_lt chunks_signed hsmall
  · intro o ho o' ho' hpeer hid
    rcases mem_append.mp ho with ho | ho <;> rcases mem_append.mp ho' with ho' | ho'
    · exact h.unique o ho o' ho' hpeer hid
    · rw [mem_singleton.mp ho'] at hpeer hid
      exact absurd ⟨hpeer, hid⟩ (hfresh o ho)
    · rw [mem_singleton.mp ho] at hpeer hid
      exact absurd ⟨hpeer.symm, hid.symm⟩ (hfresh o' ho')
    · rw [mem_singleton.mp ho, mem_singleton.mp ho']
  · obtain ⟨hoffer, hstage⟩ := h.session p session hsession
    exact ⟨hkeeps.offers _ hoffer, hstage⟩
  · have hold : (p, OtaMessage.data id n data) ∈ s.sent :=
      (mem_append.mp hmem).resolve_right (by simp [offerToPeer, otaOffer])
    exact ⟨(h.sent p id n data hold).1, (h.sent p id n data hold).2.mono hkeeps.offers⟩
  · obtain ⟨hhas, chunkNum, hnum, hchunk⟩ := h.stored p id n data hdata
    exact ⟨hhas, chunkNum, hnum, hchunk.mono hkeeps.offers⟩
  · refine ready_set (fun t ht a ha => (h.tasks t ht a ha).of_keeps hkeeps) fun a ha => ?_
    rcases mem_append.mp ha with ha | ha
    · split at ha
      · rw [mem_singleton.mp ha]
        exact mem_append_right _ (mem_singleton_self _)
      · cases ha
    · exact (hrest a ha).of_keeps hkeeps

theorem Ready.insert {tasks} (h : s.Ready a) (hnot : ¬ a.SendsTo peerId) :
    { s with sender := s.sender.setSession peerId session, tasks := tasks }.Ready a := by
  cases a with
  | sendChunk p n | sendComplete p =>
    intro other hother
    rw [sessions_setSession, if_neg (Ne.symm hnot)] at hother
    exact h other hother
  | _ => exact h

theorem Sound.insert (h : Sound s)
    (hoffer : ⟨peerId, sessionId, firmware⟩ ∈ s.offers) (hrest : ∀ a ∈ rest, s.Ready a ∧ ¬ a.SendsTo peerId)
    (hnone : ∀ t ∈ s.tasks, ∀ a ∈ t, ¬ a.SendsTo peerId) :
    Sound (s.runAction i accepted (.insert peerId firmware sessionId) rest) := by
  have hrun : s.runAction i accepted (.insert peerId firmware sessionId) rest = { s with
      sender := s.sender.setSession peerId (newSession s.now peerId firmware sessionId)
      tasks := s.tasks.set i rest } := by
    simp [runAction, perform, offered]
  rw [hrun]
  refine ⟨h.small, h.unique, fun p session hsession => ?_, h.sent, h.stored, fun r hr => ?_, ?_⟩
  · rw [sessions_setSession] at hsession
    split at hsession
    · subst_vars
      cases hsession
      exact ⟨hoffer, trivial⟩
    · exact h.session p session hsession
  · exact (h.replies r hr).insert (by cases r <;> exact id)
  · refine ready_set (fun t ht a ha => ?_) fun a ha => ?_
    · exact (h.tasks t ht a ha).insert (hnone t ht a ha)
    · exact (hrest a ha).1.insert (hrest a ha).2

theorem Sound.store (h : Sound s) {data} (hsent : (peerId, .data sessionId chunkNum data) ∈ s.sent) :
    Sound (s.storeChunk peerId sessionId chunkNum data) := by
  have hhas (p : String) (id : UInt16) (n : Nat) (hhas : s.Has p id n) :
      (s.storeChunk peerId sessionId chunkNum data).Has p id n := by
    intro m hm
    simp only [storeChunk]
    split
    · rfl
    · exact hhas m hm
  have hkeeps : Keeps s (s.storeChunk peerId sessionId chunkNum data) := ⟨hhas, fun _ ho => ho, (Keeps.refl s).same⟩
  refine ⟨h.small, h.unique, fun p session hsession => ?_, fun p id n data hmem => ?_, fun p id n other hother => ?_,
    fun r hr => (h.replies r hr).of_keeps hkeeps, fun t ht a ha => (h.tasks t ht a ha).of_keeps hkeeps⟩
  · obtain ⟨hoffer, hstage⟩ := h.session p session hsession
    exact ⟨hoffer, hstage.mono hhas⟩
  · exact ⟨hhas _ _ _ (h.sent p id n data hmem).1, (h.sent p id n data hmem).2⟩
  · simp only [storeChunk] at hother
    split at hother
    next heq =>
      obtain ⟨rfl, rfl, rfl⟩ := heq
      cases hother
      obtain ⟨hbefore, hchunk⟩ := h.sent _ _ _ _ hsent
      exact ⟨hhas _ _ _ hbefore, chunkNum, rfl, hchunk⟩
    next =>
      obtain ⟨hbefore, hchunk⟩ := h.stored p id n other hother
      exact ⟨hhas _ _ _ hbefore, hchunk⟩

theorem Sound.ready_of_honest (h : Sound s) {reply} (hhonest : s.Honest reply) : s.Ready reply.action := by
  cases reply with
  | accept peerId sessionId resumeChunk =>
    intro r hr
    rw [readPair_toLE, Option.mem_some_iff] at hr
    rw [← hr]
    exact hhonest.2
  | ack peerId sessionId chunkNum =>
    intro r hr
    rw [readPair_toLE, Option.mem_some_iff] at hr
    rw [← hr]
    obtain ⟨data, hdata⟩ := Option.isSome_iff_exists.mp hhonest
    exact (h.stored _ _ _ _ hdata).1.succ hhonest
  | result | abort => trivial

def CarefulAction (s : OtaWorld) : OtaAction → Prop
  | .offer peerId _ => ∀ o ∈ s.offers, ¬ (o.peerId = peerId ∧ o.sessionId = s.sender.nextSessionId)
  | .insert peerId _ _ => ∀ t ∈ s.tasks, ∀ a ∈ t, ¬ a.SendsTo peerId
  | _ => True

/-- Images are small enough, session ids are not used again, and none is replaced too early. -/
def Careful (s : OtaWorld) (l : OtaLabel) : Prop :=
  (∀ firmware ∈ l.image, firmware.chunks < UInt16.size) ∧ ∀ a ∈ s.upNext l, s.CarefulAction a

instance (s : OtaWorld) : DecidablePred s.CarefulAction
  | .offer peerId _ => inferInstanceAs (Decidable
      (∀ o ∈ s.offers, ¬ (o.peerId = peerId ∧ o.sessionId = s.sender.nextSessionId)))
  | .insert peerId _ _ => inferInstanceAs (Decidable (∀ t ∈ s.tasks, ∀ a ∈ t, ¬ a.SendsTo peerId))
  | .handleAccept .. | .handleAck .. | .handleResult .. | .handleAbort .. | .check _ | .resendOffer ..
  | .offeredAgain .. | .sendAbort .. | .sendChunk .. | .sendComplete _ => inferInstanceAs (Decidable True)

instance (s : OtaWorld) (l : OtaLabel) : Decidable (s.Careful l) :=
  inferInstanceAs (Decidable ((∀ firmware ∈ l.image, firmware.chunks < UInt16.size) ∧
    ∀ a ∈ s.upNext l, s.CarefulAction a))

theorem Sound.run (h : Sound s) (htask : s.tasks[i]? = some (a :: rest)) (hcareful : s.CarefulAction a) :
    Sound (s.runAction i accepted a rest) := by
  have hmem := mem_of_getElem? htask
  have hready : s.Ready a := h.tasks _ hmem a mem_cons_self
  have hrest : ∀ a ∈ rest, s.Ready a := fun b hb => h.tasks _ hmem b (mem_cons_of_mem _ hb)
  by_cases hoffer : ∃ p firmware, a = .offer p firmware
  · obtain ⟨p, firmware, rfl⟩ := hoffer
    exact h.offer hready hrest hcareful
  by_cases hinsert : ∃ p firmware id, a = .insert p firmware id
  · obtain ⟨p, firmware, id, rfl⟩ := hinsert
    exact h.insert hready (fun b hb => ⟨hrest b hb, hcareful _ hmem b (mem_cons_of_mem _ hb)⟩) hcareful
  simp only [not_exists] at hoffer hinsert
  have hoffered : s.offered a = [] := by
    cases a with
    | offer p firmware => exact absurd rfl (hoffer p firmware)
    | _ => rfl
  unfold runAction
  split
  next sender msgs next hperform =>
    rw [hoffered, append_nil]
    exact h.of_outcome (h.outcome hready hoffer hinsert hperform) hrest
  next =>
    exact ⟨h.small, h.unique, h.session, h.sent, h.stored, h.replies, ready_set h.tasks (by simp)⟩

theorem Sound.spawn (h : Sound s) {task} (htask : ∀ a ∈ task, s.Ready a) :
    Sound { s with tasks := s.tasks ++ [task] } := by
  refine ⟨h.small, h.unique, h.session, h.sent, h.stored, h.replies, fun t ht => ?_⟩
  rcases mem_append.mp ht with ht | ht
  · exact h.tasks t ht
  · rw [mem_singleton.mp ht]
    exact htask

theorem Sound.step (h : Sound s) (hcareful : s.Careful l) (hstep : s.step l = some s') : Sound s' := by
  revert hstep
  fun_cases OtaWorld.step s l <;> rintro ⟨⟩
  case case1 p firmware => exact h.spawn (forall_mem_singleton.mpr (hcareful.1 firmware rfl))
  case case2 reply hmem => exact h.spawn (forall_mem_singleton.mpr (h.replies reply hmem))
  case case4 peers hperm => exact h.spawn (by simp [Ready])
  case case6 i accepted a rest htask => exact h.run htask (hcareful.2 _ (by rw [upNext, htask]; rfl))
  case case8 time => exact ⟨h.small, h.unique, h.session, h.sent, h.stored, h.replies, h.tasks⟩
  case case9 p id n data hmem => exact h.store hmem
  case case11 reply hhonest =>
    refine ⟨h.small, h.unique, h.session, h.sent, h.stored, fun r hr => ?_, h.tasks⟩
    rcases mem_append.mp hr with hr | hr
    · exact h.replies r hr
    · rw [mem_singleton.mp hr]
      exact h.ready_of_honest hhonest

theorem sound_start (signingKeypair : Option (List UInt8 → List UInt8)) (constants : OtaConstants) :
    Sound (start signingKeypair constants) := by
  constructor <;> simp [start, new]

/-- When `OtaComplete` is sent the receiver has the image, if images have at most 65,535 chunks, no session id is
used again, and no session is replaced while what it decided on is unsent. -/
theorem completes_whole (signingKeypair : Option (List UInt8 → List UInt8)) (constants : OtaConstants)
    (ls : List OtaLabel) (h : Along step Careful (start signingKeypair constants) ls) :
    Along step CompletesWhole (start signingKeypair constants) ls := by
  refine h.mono_of_invariant (fun s l s' hs hcareful hstep => Sound.step hs hcareful hstep) (fun s l hs _ => ?_)
    (sound_start signingKeypair constants)
  intro peerId hnext session hsession
  cases l with
  | run i accepted =>
    obtain ⟨task, htask, hhead⟩ := Option.bind_eq_some_iff.mp hnext
    have hready := hs.tasks task (mem_of_getElem? htask) _ (mem_of_mem_head? hhead)
    exact hs.whole hsession (hready session hsession)
  | _ => cases hnext

end Sound

/-! ## Two transfers that end early, and one that does not -/

def offering (firmware : FirmwareImage) : List OtaLabel := [.offer "p" firmware, .run 0 true, .run 0 true]

def accepting : List OtaLabel :=
  [.reply (.accept "p" 1 0), .handle (.accept "p" 1 0), .run 1 true, .run 1 true]

def acknowledging (data : List UInt8) : List OtaLabel :=
  [.store "p" 1 0 data, .reply (.ack "p" 1 0), .handle (.ack "p" 1 0), .run 2 true]

def short : FirmwareImage := .new (fun _ => []) [1, 2, 3] "1.0"

theorem short_completes_whole :
    (exec step (start none ⟨1, 0, 1, true⟩)
        (offering short ++ accepting ++ acknowledging [1, 2, 3] ++ [OtaLabel.run 2 true])).isSome ∧
      Along step CompletesWhole (start none ⟨1, 0, 1, true⟩)
        (offering short ++ accepting ++ acknowledging [1, 2, 3] ++ [OtaLabel.run 2 true]) :=
  ⟨by decide +kernel, completes_whole none ⟨1, 0, 1, true⟩ _ (by decide +kernel)⟩

def long : FirmwareImage := .new (fun _ => []) (List.replicate (65536 * otaChunkDataSize + 1) 0) "1.0"

section Long

variable {firmware : FirmwareImage} {constants : OtaConstants} {data : List UInt8}

def offeredTo (firmware : FirmwareImage) (constants : OtaConstants) : OtaWorld where
  sender := ⟨(∅ : Table OtaSession).insert "p" ⟨1, "p", firmware, .offered 0 0, 0, 0⟩, 2, none, constants⟩
  now := 0
  tasks := [[]]
  sent := [("p", (OtaSender.new none constants).otaOffer firmware 1 false)]
  replies := []
  stored := fun _ _ _ => none
  offers := [⟨"p", 1, firmware⟩]

def transferringTo (firmware : FirmwareImage) (constants : OtaConstants) (data : List UInt8) : OtaWorld :=
  { offeredTo firmware constants with
    sender := (offeredTo firmware constants).sender.setSession "p" ⟨1, "p", firmware, .transferring 0 0 0, 0, 0⟩
    tasks := [[], []]
    sent := [("p", (OtaSender.new none constants).otaOffer firmware 1 false), ("p", .data 1 0 data)]
    replies := [.accept "p" 1 0] }

theorem exec_offering : exec step (start none constants) (offering firmware) = some (offeredTo firmware constants) :=
  rfl

theorem exec_accepting (hchunk : firmware.chunk 0 = some data) :
    exec step (offeredTo firmware constants) accepting = some (transferringTo firmware constants data) := by
  have hpair : readPair (Bytes.toLE 2 1 ++ Bytes.toLE 2 0) = some (1, 0) := readPair_toLE 1 0
  simp [accepting, exec, step, offeredTo, transferringTo, Honest, Has, OtaMessage.IsOffer, otaOffer,
    runAction, perform, OtaReply.action, handleAccept, hpair, setSession, offered,
    sendChunk, hchunk]

theorem exec_acknowledging (htotal : firmware.totalChunks = 1) :
    ∃ s session, exec step (transferringTo firmware constants data) (acknowledging data) = some s ∧
      s.upNext (.run 2 true) = some (.sendComplete "p") ∧ s.sender.sessions["p"]? = some session ∧
      session.sessionId = 1 ∧ session.firmware = firmware ∧ s.stored "p" 1 1 = none := by
  have hpair : readPair (Bytes.toLE 2 1 ++ Bytes.toLE 2 0) = some (1, 0) := readPair_toLE 1 0
  simp [acknowledging, exec, step, transferringTo, offeredTo, storeChunk, Honest, runAction, perform,
    OtaReply.action, handleAck, hpair, setSession, offered, htotal, upNext, UInt16.size]

end Long

/-- `OtaComplete` is sent after the first of 65,537 chunks; and for the second image offered instead of the first.
-/
theorem complete_without_image :
    (long.chunks = 65537 ∧ ∃ s session,
      exec step (start none ⟨1, 0, 1, true⟩)
        (offering long ++ accepting ++ acknowledging (List.replicate 448 0)) = some s ∧
      s.upNext (.run 2 true) = some (.sendComplete "p") ∧ s.sender.sessions["p"]? = some session ∧
      session.firmware = long ∧ s.stored "p" session.sessionId 1 = none) ∧
    (∃ s, exec step (start none ⟨1, 0, 1, true⟩) (offering short ++ accepting ++ acknowledging [1, 2, 3] ++
        [OtaLabel.offer "p" short, .run 3 true, .run 3 true]) = some s ∧
      s.upNext (.run 2 true) = some (.sendComplete "p") ∧ s.sender.sendComplete "p" = some (.complete 2) ∧
      s.stored "p" 2 0 = none) := by
  have hlength : long.data.length = 65536 * otaChunkDataSize + 1 := length_replicate
  have hchunks : long.chunks = 65537 := by rw [FirmwareImage.chunks, hlength]; rfl
  have htotal : long.totalChunks = 1 := by rw [long.totalChunks_eq, hlength]; rfl
  have hchunk : long.chunk 0 = some (replicate 448 0) := by
    have hdata : long.data = replicate (65536 * otaChunkDataSize + 1) 0 := rfl
    rw [FirmwareImage.chunk_eq, hchunks, if_pos (by decide), hdata, UInt16.toNat_zero, Nat.zero_mul, drop_zero,
      take_replicate]
    rfl
  refine ⟨⟨hchunks, ?_⟩, ⟨_, exec_eq_getD (by decide +kernel), by decide +kernel, by decide +kernel, by decide +kernel⟩⟩
  obtain ⟨s, session, hexec, hnext, hsession, hid, hfirmware, hnone⟩ := exec_acknowledging htotal
  exact ⟨s, session, exec_append.mpr ⟨_, exec_append.mpr ⟨_, exec_offering, exec_accepting hchunk⟩, hexec⟩, hnext,
    hsession, hfirmware, hid ▸ hnone⟩

end OtaWorld

end PeatMesh
