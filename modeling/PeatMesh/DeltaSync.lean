/-
Delta sync with a peer (`storage/automerge_sync.rs`). A generated message is
in flight in the sync state, and nothing more comes of the state until the peer
answers, so it may be stored only once its message is sent.
`receive_sync_message` stores it first.
-/
import Mathlib.Data.Finset.SDiff
import PeatMesh.Runs
import PeatMesh.Store

namespace PeatMesh.DeltaSync

open Runs Option AutomergeStore

/-! ## Automerge's sync -/

/-- What the coordinator calls of automerge: documents, sync states and
`SyncDoc`. A `receive_sync_message` that fails answers `none`. -/
structure SyncDoc (Doc State Heads Message : Type) where
  new : Doc
  newState : State
  sharedHeads : State → Heads
  withSharedHeads : State → Heads → State
  generateSyncMessage : Doc → State → Option (Message × State)
  receiveSyncMessage : Doc → State → Message → Option (Doc × State)

/-- The changes of a document, those a message brings to its receiver and those it says its sender has, and those a
state counts as the peer's, or as sent to it. -/
structure SyncMeaning {Doc State Heads Message : Type} (api : SyncDoc Doc State Heads Message) (Change : Type) where
  changes : Doc → Set Change
  carries : Message → Set Change
  tells : Message → Set Change
  counts : State → Set Change
  /-- A generated message is in flight: a further call yields nothing. -/
  in_flight : ∀ {doc state message state'}, api.generateSyncMessage doc state = some (message, state') →
    ∀ doc', api.generateSyncMessage doc' state' = none
  /-- A message brings all the state does not count as the peer's, -/
  carries_rest : ∀ {doc state message state'}, api.generateSyncMessage doc state = some (message, state') →
    changes doc ⊆ carries message ∪ counts state
  /-- and no more than that is counted after. -/
  counts_generate : ∀ {doc state message state'}, api.generateSyncMessage doc state = some (message, state') →
    counts state' ⊆ counts state ∪ carries message
  counts_receive : ∀ {doc state message doc' state'},
    api.receiveSyncMessage doc state message = some (doc', state') → counts state' ⊆ counts state ∪ tells message
  counts_new : counts api.newState = ∅
  /-- A new state with the heads of another knows what that one does at most, -/
  counts_shared : ∀ state, counts (api.withSharedHeads api.newState (api.sharedHeads state)) ⊆ counts state
  /-- and has nothing in flight. -/
  yields_shared : ∀ doc heads, (api.generateSyncMessage doc (api.withSharedHeads api.newState heads)).isSome
  new_shared : api.withSharedHeads api.newState (api.sharedHeads api.newState) = api.newState

section

variable {Doc State Heads Message Peer Change : Type} [DecidableEq Peer]
variable (api : SyncDoc Doc State Heads Message)

def SyncDoc.Storable (state : State) : Prop :=
  (∃ heads, state = api.withSharedHeads api.newState heads) ∨
    ∃ doc state' message, api.generateSyncMessage doc state' = some (message, state)

variable {api}

theorem SyncMeaning.yields_of_storable (M : SyncMeaning api Change) {state doc}
    (h : api.Storable state) (hsome : (api.generateSyncMessage doc state).isSome) (doc' : Doc) :
    (api.generateSyncMessage doc' state).isSome := by
  obtain ⟨heads, rfl⟩ | ⟨doc₀, state₀, message, hgen⟩ := h
  · exact M.yields_shared doc' heads
  · simp [M.in_flight hgen doc] at hsome

/-! ## The coordinator -/

def setAt {α : Type} (table : String → Peer → α) (key : String) (peer : Peer) (a : α) : String → Peer → α :=
  fun k p => if k = key ∧ p = peer then a else table k p

variable {α : Type} {key : String} {peer : Peer}

@[simp] theorem setAt_self {table} {a : α} :
    setAt table key peer a key peer = a := by simp [setAt]

theorem setAt_of_ne {table key k} {peer p : Peer} {a : α}
    (h : ¬(k = key ∧ p = peer)) : setAt table key peer a k p = table k p := if_neg h

@[simp] theorem setAt_setAt {table} {a b : α} :
    setAt (setAt table key peer a) key peer b = setAt table key peer b := by
  funext k p
  simp only [setAt]
  split <;> rfl

/-- The coordinator's store and its `peer_states`. -/
structure Coordinator (Doc State Peer : Type) where
  store : AutomergeStore Doc
  peerStates : String → Peer → Option State

inductive Outcome (Message : Type)
  /-- There was none to send. -/
  | nothing
  | sent (message : Message)
  | failed (message : Message)

/-- What the calls that a call makes answer: `has_tombstone`, the store's
`get`, the bandwidth permit, the store's `put`, and the send. -/
structure Answers where
  looksUp : Bool := true
  reads : Bool := true
  permits : Bool := true
  puts : Bool := true
  sends : Bool := true

namespace Coordinator

variable (c : Coordinator Doc State Peer)

variable (api) in
def syncState (key : String) (peer : Peer) : State :=
  (c.peerStates key peer).getD api.newState

def updateSyncState (key : String) (peer : Peer) (state : State) : Coordinator Doc State Peer :=
  { c with peerStates := setAt c.peerStates key peer (some state) }

variable (api) in
def getOrCreateSyncState (key : String) (peer : Peer) : State × Coordinator Doc State Peer :=
  (c.syncState api key peer, c.updateSyncState key peer (c.syncState api key peer))

variable (api) in
def initiateDeltaSync (key : String) (peer : Peer) (doc : Doc) (sends : Bool) :
    Coordinator Doc State Peer × Outcome Message :=
  let (state, c) := c.getOrCreateSyncState api key peer
  match api.generateSyncMessage doc state with
  | none => (c, .nothing)
  | some (message, state) =>
    if sends then (c.updateSyncState key peer state, .sent message) else (c, .failed message)

variable (api) in
def initiateSyncInner (key : String) (peer : Peer) (answers : Answers) : Coordinator Doc State Peer × Outcome Message :=
  if answers.reads then
    let (found, store) := c.store.get key
    match found with
    | none => ({ c with store }, .nothing)
    | some doc =>
      if answers.permits then initiateDeltaSync api { c with store } key peer doc answers.sends
      else ({ c with store }, .nothing)
  else (c, .nothing)

def tombstoned (key : String) (looksUp : Bool) : Bool :=
  match splitKey key with
  | some (collection, docId) => looksUp && c.store.hasTombstone collection docId
  | none => false

variable (api) in
def receiveSyncMessage (key : String) (peer : Peer) (message : Message)
    (answers : Answers) : Coordinator Doc State Peer × Outcome Message :=
  if c.tombstoned key answers.looksUp then (c, .nothing)
  else if answers.reads then
    let (found, store) := c.store.get key
    let (state, c) := { c with store }.getOrCreateSyncState api key peer
    match api.receiveSyncMessage (found.getD api.new) state message with
    | none => (c, .nothing)
    | some (doc, state) =>
      if answers.puts then
        let c := { c with store := c.store.put key doc }
        match api.generateSyncMessage doc state with
        -- stored before it is sent
        | some (response, state) =>
          (c.updateSyncState key peer state, if answers.sends then .sent response else .failed response)
        | none =>
          (c.updateSyncState key peer (api.withSharedHeads api.newState (api.sharedHeads state)), .nothing)
      else (c, .nothing)
  else (c, .nothing)

end Coordinator

open Coordinator

/-! ## What a call can do -/

/-- What `initiate_delta_sync` can do with the state of its pair: the state it
leaves stored, if it touches it, and what came of its message. -/
inductive Initiates (api : SyncDoc Doc State Heads Message) (state : State) : Option State → Outcome Message → Prop
  | untouched : Initiates api state none .nothing
  | created : Initiates api state (some state) .nothing
  | sent {doc : Doc} {message : Message} {state' : State} :
    api.generateSyncMessage doc state = some (message, state') → Initiates api state (some state') (.sent message)
  | failed {doc : Doc} {message : Message} {state' : State} :
    api.generateSyncMessage doc state = some (message, state') → Initiates api state (some state) (.failed message)

/-- What `receive_sync_message` can. -/
inductive Receives (api : SyncDoc Doc State Heads Message) (state : State) (message : Message) :
    Option State → Outcome Message → Prop
  | untouched : Receives api state message none .nothing
  | created : Receives api state message (some state) .nothing
  | replied {doc doc' : Doc} {received state' : State} {reply : Message} {outcome : Outcome Message} :
    api.receiveSyncMessage doc state message = some (doc', received) →
    api.generateSyncMessage doc' received = some (reply, state') →
    outcome = .sent reply ∨ outcome = .failed reply → Receives api state message (some state') outcome
  | converged {doc doc' : Doc} {received : State} :
    api.receiveSyncMessage doc state message = some (doc', received) →
    Receives api state message (some (api.withSharedHeads api.newState (api.sharedHeads received))) .nothing

namespace Coordinator

def storing (c : Coordinator Doc State Peer) (key : String) (peer : Peer) : Option State → String → Peer → Option State
  | none => c.peerStates
  | some state => setAt c.peerStates key peer (some state)

variable {c : Coordinator Doc State Peer}

theorem storing_of_ne {key k peer p stored}
    (h : ¬(k = key ∧ p = peer)) : c.storing key peer stored k p = c.peerStates k p := by
  cases stored with
  | none => rfl
  | some state => exact setAt_of_ne h

variable (api) in
theorem initiateSyncInner_spec (c : Coordinator Doc State Peer) (key : String) (peer : Peer) (answers : Answers) :
    ∃ stored, Initiates api (c.syncState api key peer) stored (c.initiateSyncInner api key peer answers).2 ∧
      (c.initiateSyncInner api key peer answers).1.peerStates = c.storing key peer stored := by
  unfold initiateSyncInner
  dsimp only
  split
  · split
    next => exact ⟨none, .untouched, rfl⟩
    next doc hfound =>
      split
      · unfold initiateDeltaSync
        dsimp only [getOrCreateSyncState]
        split
        next hgen => exact ⟨_, .created, rfl⟩
        next message state' hgen =>
          split
          · exact ⟨_, .sent hgen, setAt_setAt⟩
          · exact ⟨_, .failed hgen, rfl⟩
      · exact ⟨none, .untouched, rfl⟩
  · exact ⟨none, .untouched, rfl⟩

variable (api) in
theorem receiveSyncMessage_spec (c : Coordinator Doc State Peer) (key : String) (peer : Peer) (message : Message)
    (answers : Answers) :
    ∃ stored,
      Receives api (c.syncState api key peer) message stored (c.receiveSyncMessage api key peer message answers).2 ∧
        (c.receiveSyncMessage api key peer message answers).1.peerStates = c.storing key peer stored := by
  unfold receiveSyncMessage
  split
  · exact ⟨none, .untouched, rfl⟩
  split
  · dsimp only [getOrCreateSyncState]
    split
    next => exact ⟨_, .created, rfl⟩
    next doc received hreceived =>
      split
      · split
        next reply state' hgen =>
          exact ⟨_, .replied hreceived hgen (by split <;> simp), setAt_setAt⟩
        next => exact ⟨_, .converged hreceived, setAt_setAt⟩
      · exact ⟨_, .created, rfl⟩
  · exact ⟨none, .untouched, rfl⟩

theorem receiveSyncMessage_failed {message reply answers}
    (h : (c.receiveSyncMessage api key peer message answers).2 = .failed reply) :
    ∃ doc received state',
      api.generateSyncMessage doc received = some (reply, state') ∧
      (c.receiveSyncMessage api key peer message answers).1.store.document key = some doc ∧
      (c.receiveSyncMessage api key peer message answers).1.peerStates key peer = some state' := by
  revert h
  fun_cases receiveSyncMessage api c key peer message answers with
  | case3 _ _ _ _ _ _ _ _ doc received _ _ c' response state' hgen =>
    intro h
    have hreply : response = reply := by cases hsends : answers.sends <;> simp_all
    subst hreply
    exact ⟨doc, received, state', hgen, document_put_self, by simp [updateSyncState]⟩
  | _ => rintro ⟨⟩

end Coordinator

/-! ## Runs of calls -/

/-- A call and how the calls it makes are answered. -/
inductive DeltaCall (Message Peer : Type)
  | initiate (key : String) (peer : Peer) (answers : Answers)
  | receive (key : String) (peer : Peer) (message : Message) (answers : Answers)

/-- A coordinator and its peers: the changes of a document each peer has, and
whether the latest send to it for that document failed. -/
structure Exchange (Doc State Peer Change : Type) extends Coordinator Doc State Peer where
  held : String → Peer → Set Change
  failed : String → Peer → Bool

def Outcome.delivers (M : SyncMeaning api Change) : Outcome Message → Set Change
  | .sent message => M.carries message
  | .nothing | .failed _ => ∅

def Outcome.latestFailed (before : Bool) : Outcome Message → Bool
  | .nothing => before
  | .sent _ => false
  | .failed _ => true

namespace Exchange

variable (M : SyncMeaning api Change)

variable (w : Exchange Doc State Peer Change)

def record (key : String) (peer : Peer) (told : Set Change)
    (result : Coordinator Doc State Peer × Outcome Message) : Exchange Doc State Peer Change where
  toCoordinator := result.1
  held := setAt w.held key peer (w.held key peer ∪ told ∪ result.2.delivers M)
  failed := setAt w.failed key peer (result.2.latestFailed (w.failed key peer))

def step : DeltaCall Message Peer → Option (Exchange Doc State Peer Change)
  | .initiate key peer answers => some (w.record M key peer ∅ (w.initiateSyncInner api key peer answers))
  | .receive key peer message answers =>
    some (w.record M key peer (M.tells message) (w.receiveSyncMessage api key peer message answers))

/-- The stored state still gives a message with the changes the peer lacks. -/
def Retryable (key : String) (peer : Peer) : Prop :=
  ∃ state, w.peerStates key peer = some state ∧ ∀ doc, w.store.document key = some doc →
    ∃ message state', api.generateSyncMessage doc state = some (message, state') ∧
      M.changes doc \ w.held key peer ⊆ M.carries message

/-- Another `initiate_delta_sync` brings the peer all the document's changes. -/
def RetryDelivers (key : String) (peer : Peer) : Prop :=
  ∀ doc, w.store.document key = some doc →
    ∃ w', w.step M (.initiate key peer {}) = some w' ∧ M.changes doc ⊆ w'.held key peer

variable (api) in
/-- The send of a reply fails. -/
def LosesReply : DeltaCall Message Peer → Prop
  | .initiate .. => False
  | .receive key peer message answers => ∃ reply, (w.receiveSyncMessage api key peer message answers).2 = .failed reply

/-- The stored states are of the kind a coordinator stores, and count as a
peer's only what the peer has. -/
structure Sound (w : Exchange Doc State Peer Change) : Prop where
  storable : ∀ key peer state, w.peerStates key peer = some state → api.Storable state
  counted : ∀ key peer state, w.peerStates key peer = some state → M.counts state ⊆ w.held key peer

structure Kept (w : Exchange Doc State Peer Change) : Prop extends w.Sound M where
  yields : ∀ key peer, w.failed key peer = true →
    ∃ state, w.peerStates key peer = some state ∧ ∀ doc, (api.generateSyncMessage doc state).isSome

variable {M} {w w' : Exchange Doc State Peer Change} {key : String} {peer : Peer} {told : Set Change}
  {result : Coordinator Doc State Peer × Outcome Message} {stored : Option State}

omit [DecidableEq Peer] in
theorem Sound.storable_syncState (h : w.Sound M) (key : String) (peer : Peer) :
    api.Storable (w.syncState api key peer) := by
  unfold syncState
  cases hstored : w.peerStates key peer with
  | none => exact .inl ⟨_, M.new_shared.symm⟩
  | some state => exact h.storable key peer state hstored

omit [DecidableEq Peer] in
theorem Sound.counts_syncState (h : w.Sound M) (key : String) (peer : Peer) :
    M.counts (w.syncState api key peer) ⊆ w.held key peer := by
  unfold syncState
  cases hstored : w.peerStates key peer with
  | none => simp [M.counts_new]
  | some state => exact h.counted key peer state hstored

omit [DecidableEq Peer] in
theorem Kept.retryable (h : w.Kept M) (hfailed : w.failed key peer = true) : w.Retryable M key peer := by
  obtain ⟨state, hstored, hyields⟩ := h.yields key peer hfailed
  refine ⟨state, hstored, fun doc _ => ?_⟩
  obtain ⟨⟨message, state'⟩, hgen⟩ := isSome_iff_exists.mp (hyields doc)
  refine ⟨message, state', hgen, ?_⟩
  rw [Set.sdiff_subset_iff, Set.union_comm]
  exact (M.carries_rest hgen).trans (Set.union_subset_union_right _ (h.counted key peer state hstored))

theorem Retryable.delivers (h : w.Retryable M key peer) : w.RetryDelivers M key peer := by
  intro doc hdoc
  obtain ⟨state, hstored, hall⟩ := h
  obtain ⟨message, state', hgen, hcarries⟩ := hall doc hdoc
  refine ⟨_, rfl, ?_⟩
  have hget : (w.store.get key).1 = some doc := by rw [get_fst, hdoc]
  have hsent : (w.initiateSyncInner api key peer {}).2 = .sent message := by
    simp [initiateSyncInner, hget, initiateDeltaSync, getOrCreateSyncState,
      syncState, hstored, hgen]
  simp only [record, setAt_self, hsent, Outcome.delivers, Set.union_empty]
  exact Set.sdiff_subset_iff.mp hcarries

/-- What a call has to do at its own pair to keep the invariant: `stored` is
the state it leaves there, if it touches it. -/
structure KeepsPair (M : SyncMeaning api Change) (w : Exchange Doc State Peer Change) (key : String) (peer : Peer)
    (told : Set Change) (stored : Option State) (outcome : Outcome Message) : Prop where
  sound : ∀ state, stored = some state →
    api.Storable state ∧ M.counts state ⊆ w.held key peer ∪ told ∪ outcome.delivers M
  yields : outcome.latestFailed (w.failed key peer) = true →
    ∃ state, w.storing key peer stored key peer = some state ∧ ∀ doc, (api.generateSyncMessage doc state).isSome

theorem Kept.untouched (h : w.Kept M) : w.KeepsPair M key peer told none .nothing :=
  ⟨nofun, h.yields key peer⟩

theorem Kept.created (h : w.Kept M) : w.KeepsPair M key peer told (some (w.syncState api key peer)) .nothing := by
  refine ⟨fun state heq => ?_, fun hfailed => ?_⟩
  · cases heq
    refine ⟨h.storable_syncState key peer, (h.counts_syncState key peer).trans ?_⟩
    exact Set.subset_union_left.trans Set.subset_union_left
  · -- the state of a pair whose latest send failed is the stored one
    obtain ⟨state, hstored, hyields⟩ := h.yields key peer hfailed
    exact ⟨_, setAt_self, by simpa [syncState, hstored] using hyields⟩

theorem KeepsPair.sound_storing (hpair : w.KeepsPair M key peer told stored result.2) (h : w.Sound M)
    {k p state} (hstored : w.storing key peer stored k p = some state) :
    api.Storable state ∧ M.counts state ⊆ (w.record M key peer told result).held k p := by
  by_cases heq : k = key ∧ p = peer
  · obtain ⟨rfl, rfl⟩ := heq
    cases stored with
    | none =>
      simp only [Exchange.record, setAt_self, Set.union_assoc]
      exact ⟨h.storable k p state hstored, (h.counted k p state hstored).trans Set.subset_union_left⟩
    | some state₀ =>
      obtain rfl : state₀ = state := by simpa [storing] using hstored
      simpa [Exchange.record] using hpair.sound _ rfl
  · rw [storing_of_ne heq] at hstored
    simp only [Exchange.record, setAt_of_ne heq]
    exact ⟨h.storable k p state hstored, h.counted k p state hstored⟩

theorem Kept.record (h : w.Kept M) (hstates : result.1.peerStates = w.storing key peer stored)
    (hpair : w.KeepsPair M key peer told stored result.2) : (w.record M key peer told result).Kept M := by
  refine ⟨⟨fun k p state hs => ?_, fun k p state hs => ?_⟩, fun k p hf => ?_⟩
  · exact (hpair.sound_storing h.toSound (hstates ▸ hs)).1
  · exact (hpair.sound_storing h.toSound (hstates ▸ hs)).2
  · show ∃ state, result.1.peerStates k p = some state ∧ _
    rw [hstates]
    by_cases heq : k = key ∧ p = peer
    · obtain ⟨rfl, rfl⟩ := heq
      exact hpair.yields (by simpa [Exchange.record] using hf)
    · rw [storing_of_ne heq]
      exact h.yields k p (by simpa [Exchange.record, setAt_of_ne heq] using hf)

theorem Kept.initiate (h : w.Kept M) (answers : Answers) :
    (w.record M key peer ∅ (w.initiateSyncInner api key peer answers)).Kept M := by
  obtain ⟨stored, hcase, hstates⟩ := w.initiateSyncInner_spec api key peer answers
  refine h.record hstates ?_
  generalize (w.initiateSyncInner api key peer answers).2 = outcome at hcase ⊢
  cases hcase with
  | untouched => exact h.untouched
  | created => exact h.created
  | sent hgen =>
    refine ⟨fun state heq => ?_, nofun⟩
    cases heq
    refine ⟨.inr ⟨_, _, _, hgen⟩, (M.counts_generate hgen).trans (Set.union_subset_union_left _ ?_)⟩
    exact (h.counts_syncState key peer).trans Set.subset_union_left
  | failed hgen =>
    refine ⟨h.created.sound, fun _ => ⟨_, setAt_self, ?_⟩⟩
    exact M.yields_of_storable (h.storable_syncState key peer) (isSome_of_eq_some hgen)

theorem Kept.receive (h : w.Kept M) {message answers}
    (hreply : ¬ w.LosesReply api (.receive key peer message answers)) :
    (w.record M key peer (M.tells message) (w.receiveSyncMessage api key peer message answers)).Kept M := by
  obtain ⟨stored, hcase, hstates⟩ := w.receiveSyncMessage_spec api key peer message answers
  refine h.record hstates ?_
  have hreceived : ∀ {doc doc' received}, api.receiveSyncMessage doc (w.syncState api key peer) message =
      some (doc', received) → M.counts received ⊆ w.held key peer ∪ M.tells message := fun hrec =>
    (M.counts_receive hrec).trans (Set.union_subset_union_left _ (h.counts_syncState key peer))
  have hreply : ∀ reply, (w.receiveSyncMessage api key peer message answers).2 ≠ .failed reply :=
    fun reply hfailed => hreply ⟨reply, hfailed⟩
  generalize (w.receiveSyncMessage api key peer message answers).2 = outcome at hcase hreply ⊢
  cases hcase with
  | untouched => exact h.untouched
  | created => exact h.created
  | replied hrec hgen hout =>
    obtain rfl | rfl := hout
    · refine ⟨fun state heq => ?_, nofun⟩
      cases heq
      exact ⟨.inr ⟨_, _, _, hgen⟩, (M.counts_generate hgen).trans (Set.union_subset_union_left _ (hreceived hrec))⟩
    · exact absurd rfl (hreply _)
  | converged hrec =>
    refine ⟨fun state heq => ?_, fun _ => ⟨_, setAt_self, fun doc => M.yields_shared doc _⟩⟩
    cases heq
    exact ⟨.inl ⟨_, rfl⟩, (M.counts_shared _).trans ((hreceived hrec).trans Set.subset_union_left)⟩

variable {call : DeltaCall Message Peer}

theorem Kept.step (h : w.Kept M) (hreply : ¬ w.LosesReply api call) (hstep : w.step M call = some w') : w'.Kept M := by
  cases call with
  | initiate key peer answers =>
    cases hstep
    exact h.initiate answers
  | receive key peer message answers =>
    cases hstep
    exact h.receive hreply

theorem not_retryable_of_losesReply (h : w.LosesReply api call) :
    ∃ w', w.step M call = some w' ∧ ∃ key peer, w'.failed key peer = true ∧ ¬ w'.Retryable M key peer := by
  cases call with
  | initiate => exact h.elim
  | receive key peer message answers =>
    obtain ⟨reply, hreply⟩ := h
    obtain ⟨doc, received, state', hgen, hdoc, hstate⟩ := receiveSyncMessage_failed hreply
    refine ⟨_, rfl, key, peer, by simp [record, hreply, Outcome.latestFailed], ?_⟩
    intro hretry
    obtain ⟨state, hstored, hall⟩ := hretry
    obtain ⟨again, state'', hagain, -⟩ := hall doc hdoc
    have heq : state' = state := some.inj (hstate.symm.trans hstored)
    rw [← heq, M.in_flight hgen doc] at hagain
    cases hagain

/-- A failed send can be made again at every point of a run exactly if no send of a reply fails. -/
theorem retry_delivers_iff (M : SyncMeaning api Change) (w : Exchange Doc State Peer Change) (hsound : w.Sound M)
    (hfailed : ∀ key peer, w.failed key peer = false) (calls : List (DeltaCall Message Peer)) :
    (∀ before, before <+: calls → ∀ w', exec (step M) w before = some w' →
      ∀ key peer, w'.failed key peer = true → w'.Retryable M key peer ∧ w'.RetryDelivers M key peer) ↔
    Along (step M) (fun w call => ¬ w.LosesReply api call) w calls := by
  refine forall_reached_iff_along (I := Kept M) ?_ ?_ ?_ ?_
  · intro w call w' h hreply hstep
    exact h.step hreply hstep
  · intro w h key peer hf
    exact ⟨h.retryable hf, (h.retryable hf).delivers⟩
  · intro w call _ hlost
    obtain ⟨w', hstep, key, peer, hf, hno⟩ := not_retryable_of_losesReply (M := M) (not_not.mp hlost)
    exact ⟨w', hstep, fun hall => hno (hall key peer hf).1⟩
  · exact ⟨hsound, fun key peer hf => by simp [hfailed] at hf⟩

end Exchange

end

/-! ## A sync of sets -/

/-- The sync state of `setSync`: what the peer has or was sent, whether it
was heard of since the state was new, and whether a message is in flight. -/
structure SetState where
  counted : Finset Nat
  heard : Bool
  inFlight : Bool
  deriving DecidableEq

def setSync : SyncDoc (Finset Nat) SetState (Finset Nat) (Finset Nat) where
  new := ∅
  newState := ⟨∅, false, false⟩
  sharedHeads state := state.counted
  withSharedHeads state heads := { state with counted := heads }
  generateSyncMessage doc state :=
    if state.inFlight = true ∨ (state.heard = true ∧ doc ⊆ state.counted) then none
    else some (doc \ state.counted, ⟨state.counted ∪ doc, state.heard, true⟩)
  receiveSyncMessage doc state message := some (doc ∪ message, ⟨state.counted ∪ message, true, false⟩)

theorem setSync_generate {doc message state state'}
    (h : setSync.generateSyncMessage doc state = some (message, state')) :
    message = doc \ state.counted ∧ state' = ⟨state.counted ∪ doc, state.heard, true⟩ := by
  simp only [setSync] at h
  split at h
  · cases h
  · simp only [some.injEq, Prod.mk.injEq] at h
    exact ⟨h.1.symm, h.2.symm⟩

def setMeaning : SyncMeaning setSync Nat where
  changes doc := doc
  carries message := message
  tells message := message
  counts state := state.counted
  in_flight h doc' := by
    obtain ⟨-, rfl⟩ := setSync_generate h
    simp [setSync]
  carries_rest h := by
    obtain ⟨rfl, -⟩ := setSync_generate h
    simp
  counts_generate h := by
    obtain ⟨rfl, rfl⟩ := setSync_generate h
    simp
  counts_receive h := by
    simp only [setSync, Option.some.injEq, Prod.mk.injEq] at h
    simp [← h.2]
  counts_new := by simp [setSync]
  counts_shared state := by simp [setSync]
  yields_shared doc heads := by simp [setSync]
  new_shared := rfl

def oneChange : Exchange (Finset Nat) SetState Nat Nat where
  store := AutomergeStore.inMemory.put "nodes:a" {1}
  peerStates _ _ := none
  held _ _ := ∅
  failed _ _ := false

theorem sound_oneChange : oneChange.Sound setMeaning where
  storable _ _ _ h := by cases h
  counted _ _ _ h := by cases h

def failedThenMet : List (DeltaCall (Finset Nat) Nat) :=
  [.initiate "nodes:a" 7 { sends := false }, .receive "nodes:a" 7 {2} {}]

theorem failedThenMet_loses_nothing :
    Along (Exchange.step setMeaning) (fun w call => ¬ w.LosesReply setSync call) oneChange failedThenMet := by
  refine ⟨id, fun w hw => ⟨?_, fun _ _ => trivial⟩⟩
  cases hw
  intro hlost
  obtain ⟨reply, hreply⟩ := hlost
  cases hreply

theorem failedThenMet_retried :
    Along (Exchange.step setMeaning) (fun w call => ¬ w.LosesReply setSync call) oneChange failedThenMet ∧
    ∀ before, before <+: failedThenMet → ∀ w', exec (Exchange.step setMeaning) oneChange before = some w' →
      ∀ key peer, w'.failed key peer = true →
        w'.Retryable setMeaning key peer ∧ w'.RetryDelivers setMeaning key peer :=
  ⟨failedThenMet_loses_nothing,
    (Exchange.retry_delivers_iff setMeaning oneChange sound_oneChange (fun _ _ => rfl) failedThenMet).mpr
      failedThenMet_loses_nothing⟩

def replyLost : List (DeltaCall (Finset Nat) Nat) := [.receive "nodes:a" 7 {2} { sends := false }]

/-- The peer lacks change 1, the latest send to it failed, and the state that
is stored yields no message. -/
theorem replyLost_not_retried : ∃ w', exec (Exchange.step setMeaning) oneChange replyLost = some w' ∧
    w'.failed "nodes:a" 7 = true ∧ w'.store.document "nodes:a" = some {1, 2} ∧ 1 ∉ w'.held "nodes:a" 7 ∧
    (∀ state, w'.peerStates "nodes:a" 7 = some state → setSync.generateSyncMessage {1, 2} state = none) ∧
    ¬ w'.Retryable setMeaning "nodes:a" 7 := by
  have hnone : ∀ state, some (⟨∅ ∪ {2} ∪ ({1} ∪ {2}), true, true⟩ : SetState) = some state →
      setSync.generateSyncMessage {1, 2} state = none := by
    intro state h
    cases h
    simp [setSync]
  refine ⟨_, rfl, rfl, rfl, ?_, hnone, ?_⟩
  · show ¬(1 ∈ (∅ ∪ ({2} : Finset Nat) ∪ ∅ : Set Nat))
    simp
  · intro hretry
    obtain ⟨state, hstored, hall⟩ := hretry
    obtain ⟨message, state', hgen, -⟩ := hall {1, 2} rfl
    rw [hnone state hstored] at hgen
    cases hgen

end PeatMesh.DeltaSync
