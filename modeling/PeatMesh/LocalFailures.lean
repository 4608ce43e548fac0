/-
What counts against a peer (`storage/automerge_sync.rs`): `initiate_sync`
tells the peer's circuit breaker of every error of `initiate_sync_inner`, though
most are not the peer's doing: the document is not there, the bandwidth is used
up, or there is nothing new to send. Which calls fail so is told from the
documents and the sync states (`Found`).
-/
import PeatMesh.CircuitHistory
import PeatMesh.DeltaSync

namespace PeatMesh

open Runs DeltaSync List SyncErrorHandler

inductive SyncMode
  | fullHistory
  | latestOnly
  | windowedHistory (windowSeconds : UInt64)
  deriving DecidableEq, Repr

/-- How a call on the coordinator ends, as the peer's health sees it. -/
inductive SyncOutcome
  /-- It was turned away before it began: by the breaker or by flow control. -/
  | refused (text : String)
  /-- It ended with nobody told: the batch could not be made, or is empty. -/
  | untold
  | synced
  | failed (error : SyncError) (failedAt now : SystemTime)
  deriving DecidableEq

/-- What the error handler is told. -/
def SyncOutcome.told {Peer : Type} (peer : Peer) : SyncOutcome → Option (HealthCall Peer)
  | .synced => some (.recordSuccess peer)
  | .failed error failedAt now => some (.handleError peer error failedAt now)
  | .refused _ | .untold => none

/-- A call for a peer, with what it meets: the answer of flow control, the error of reading a document, the class
whose bandwidth is used up, how the send goes, and the clock. -/
inductive PeerCall
  | initiateSync (key : String) (flow : Except String Unit) (unreadable exhausted : Option String)
      (sends : Except String Unit) (failedAt now : SystemTime)
  | syncDocumentsBatch (keys : List String) (unreadable : String → Option String) (sends : Except String Unit)
      (failedAt now : SystemTime)

/-- What is sent arrives. -/
def PeerCall.Delivers : PeerCall → Prop
  | .initiateSync _ _ _ _ sends _ _ | .syncDocumentsBatch _ _ sends _ _ => sends = .ok ()

/-- The reading of the clock with which a failure of the call is recorded. -/
def PeerCall.failedAt : PeerCall → SystemTime
  | .initiateSync _ _ _ _ _ failedAt _ | .syncDocumentsBatch _ _ _ failedAt _ => failedAt

/-- The coordinator of one peer: its documents and sync states, what it knows
of the peer's health, and the modes of the documents. -/
structure PeerSync (Doc State Peer : Type) where
  coordinator : Coordinator Doc State Peer
  handler : SyncErrorHandler Peer
  mode : String → SyncMode

section

variable {Doc State Heads Message Peer : Type} [DecidableEq Peer]
variable (api : SyncDoc Doc State Heads Message)

variable (c : Coordinator Doc State Peer)

def initiateSyncInner (mode : String → SyncMode) (key : String) (peer : Peer)
    (unreadable exhausted : Option String) (sends : Except String Unit) :
    Coordinator Doc State Peer × Except String Unit :=
  match unreadable with
  | some text => (c, .error text)
  | none =>
    let (found, store) := c.store.get key
    let c := { c with store }
    match found with
    | none => (c, .error "Document not found for sync")
    | some doc =>
      match exhausted with
      | some className => (c, .error ("Bandwidth exhausted for " ++ className))
      | none =>
        match mode key with
        | .latestOnly | .windowedHistory _ => (c, sends)
        | .fullHistory =>
          match c.initiateDeltaSync api key peer doc sends.toBool with
          | (c, .nothing) => (c, .error "No initial sync message to send")
          | (c, .sent _) | (c, .failed _) => (c, sends)

def createBatchForDocuments (mode : String → SyncMode) (unreadable : String → Option String) :
    AutomergeStore Doc → List String → AutomergeStore Doc × Except String Nat
  | store, [] => (store, .ok 0)
  | store, key :: keys =>
    match unreadable key with
    | some text => (store, .error text)
    | none =>
      let (found, store) := store.get key
      let (store, rest) := createBatchForDocuments mode unreadable store keys
      let entries :=
        match found, mode key with
        | none, _ => 0
        | some doc, .fullHistory => if (api.generateSyncMessage doc api.newState).isSome then 1 else 0
        | some _, .latestOnly | some _, .windowedHistory _ => 1
      (store, rest.map (entries + ·))

def clearSyncStates (keys : List String) : Coordinator Doc State Peer :=
  { c with peerStates := fun key peer => if key ∈ keys then none else c.peerStates key peer }

namespace PeerSync

variable (n : PeerSync Doc State Peer) (peer : Peer)

def ending (c : Coordinator Doc State Peer) (outcome : SyncOutcome) : PeerSync Doc State Peer :=
  { n with coordinator := c, handler := (outcome.told peer).elim n.handler n.handler.call }

def initiateSync (key : String) (flow : Except String Unit)
    (unreadable exhausted : Option String) (sends : Except String Unit) (failedAt now : SystemTime) :
    PeerSync Doc State Peer :=
  if n.handler.isCircuitOpen peer then n.ending peer n.coordinator (.refused "Circuit breaker open for peer")
  else
    match flow with
    | .error text => n.ending peer n.coordinator (.refused text)
    | .ok _ =>
      let r := initiateSyncInner api n.coordinator n.mode key peer unreadable exhausted sends
      n.ending peer r.1 <|
        match r.2 with
        | .ok _ => .synced
        | .error text => .failed (SyncCall.initiateSync.classify text) failedAt now

def syncDocumentsBatch (keys : List String)
    (unreadable : String → Option String) (sends : Except String Unit) (failedAt now : SystemTime) :
    PeerSync Doc State Peer :=
  if n.handler.isCircuitOpen peer then n.ending peer n.coordinator (.refused "Circuit breaker open")
  else
    let c := clearSyncStates n.coordinator keys
    let (store, batch) := createBatchForDocuments api n.mode unreadable c.store keys
    n.ending peer { c with store } <|
      match batch with
      | .error _ | .ok 0 => .untold
      | .ok (_ + 1) =>
        match sends with
        | .ok _ => .synced
        | .error text => .failed (SyncCall.syncDocumentsBatch.classify text) failedAt now

def step (n : PeerSync Doc State Peer) : PeerCall → PeerSync Doc State Peer
  | .initiateSync key flow unreadable exhausted sends failedAt now =>
    n.initiateSync api peer key flow unreadable exhausted sends failedAt now
  | .syncDocumentsBatch keys unreadable sends failedAt now =>
    n.syncDocumentsBatch api peer keys unreadable sends failedAt now

def new (retryPolicy : RetryPolicy) (cfg : CircuitBreakerConfig) (c : Coordinator Doc State Peer)
    (mode : String → SyncMode) : PeerSync Doc State Peer :=
  ⟨c, .withPolicies retryPolicy cfg, mode⟩

def after (n : PeerSync Doc State Peer) (calls : List PeerCall) : PeerSync Doc State Peer :=
  calls.foldl (step api peer) n

end PeerSync

/-! ## What the calls find

A call does not change the documents, so what becomes of it can be told from
the documents there are and from what the peer has been sent of them. -/

/-- The documents, and the sync state with the peer of each. -/
structure Found (Doc State : Type) where
  document : String → Option Doc
  state : String → State

namespace Found

variable (mode : String → SyncMode) (f : Found Doc State)

def ofCoordinator (c : Coordinator Doc State Peer) (peer : Peer) : Found Doc State :=
  ⟨c.store.document, fun key => c.syncState api key peer⟩

/-- There is something to send of a document, from a sync state of it: a snapshot
always, of its history what `generate_sync_message` gives. -/
def offers (key : String) (state : State) : Bool :=
  match f.document key, mode key with
  | none, _ => false
  | some doc, .fullHistory => (api.generateSyncMessage doc state).isSome
  | some _, .latestOnly | some _, .windowedHistory _ => true

/-- The call sends something. -/
def sends : PeerCall → Bool
  | .initiateSync key flow unreadable exhausted _ _ _ =>
    flow.toBool && unreadable.isNone && exhausted.isNone && f.offers api mode key (f.state key)
  | .syncDocumentsBatch keys unreadable _ _ _ =>
    keys.all (fun key => (unreadable key).isNone) && keys.any fun key => f.offers api mode key api.newState

/-- A call of `initiate_sync` that flow control lets through and that fails without a send. -/
def failsLocally : PeerCall → Bool
  | .initiateSync key flow unreadable exhausted _ _ _ =>
    flow.toBool && (unreadable.isSome || exhausted.isSome || !f.offers api mode key (f.state key))
  | .syncDocumentsBatch .. => false

/-- The sync states after a call whose sends succeed. -/
def next (call : PeerCall) : Found Doc State :=
  { f with
    state := fun key =>
      match call with
      | .initiateSync key' .. =>
        if key = key' ∧ mode key = .fullHistory ∧ f.sends api mode call then
          ((f.document key).bind (api.generateSyncMessage · (f.state key))).elim (f.state key) (·.2)
        else f.state key
      | .syncDocumentsBatch keys .. => if key ∈ keys then api.newState else f.state key }

def after (calls : List PeerCall) : Found Doc State := calls.foldl (next api mode) f

/-- What the error handler is told of the peer: nothing, a success, or the time of a failure. -/
def entry (call : PeerCall) : Option (Option SystemTime) :=
  if f.sends api mode call then some none
  else if f.failsLocally api mode call then some (some call.failedAt)
  else none

/-- The local failures since something was last sent, counted on from `row`. -/
def row : Found Doc State → Nat → List PeerCall → Nat
  | _, row, [] => row
  | f, n, call :: calls =>
    row (f.next api mode call) (if f.sends api mode call then 0 else if f.failsLocally api mode call then n + 1 else n)
      calls

variable {api} {mode} {f : Found Doc State} {calls : List PeerCall} {call : PeerCall} {n : Nat}

theorem after_concat : f.after api mode (calls ++ [call]) = (f.after api mode calls).next api mode call := by
  simp [after]

theorem row_concat : f.row api mode n (calls ++ [call]) =
    if (f.after api mode calls).sends api mode call then 0
    else if (f.after api mode calls).failsLocally api mode call then f.row api mode n calls + 1
    else f.row api mode n calls := by
  induction calls generalizing f n with
  | nil => rfl
  | cons call' calls ih => exact ih

theorem not_failsLocally (h : f.sends api mode call = true) : f.failsLocally api mode call = false := by
  cases call with
  | initiateSync => grind [sends, failsLocally]
  | syncDocumentsBatch => rfl

theorem isSome_join_entry : (f.entry api mode call).join.isSome = f.failsLocally api mode call := by
  unfold entry
  split
  next hsends => exact (not_failsLocally hsends).symm
  next =>
    split
    next hfails => exact hfails.symm
    next hfails => exact (Bool.not_eq_true _ ▸ hfails).symm

end Found

namespace PeerSync

variable {api} {mode : String → SyncMode} {n : PeerSync Doc State Peer} {peer : Peer} {call : PeerCall}

open Found

/-! ## One call -/

theorem document_createBatchForDocuments {unreadable} (store : AutomergeStore Doc)
    (keys : List String) :
    (createBatchForDocuments api mode unreadable store keys).1.document = store.document := by
  induction keys generalizing store with
  | nil => rfl
  | cons key keys ih =>
    unfold createBatchForDocuments
    split
    · rfl
    · exact (ih _).trans (funext fun key' => AutomergeStore.document_get)

/-- A batch has entries exactly if all its documents can be read and one of them has
something to send, from a state without history. -/
theorem createBatchForDocuments_eq_ok {unreadable store keys} {f : Found Doc State} (hf : f.document = store.document) :
    (∃ k, (createBatchForDocuments api mode unreadable store keys).2 = .ok k ∧ (k = 0 ↔
        keys.any (fun key => f.offers api mode key api.newState) = false)) ∧
      keys.all (fun key => (unreadable key).isNone) = true ∨
    (∃ text, (createBatchForDocuments api mode unreadable store keys).2 = .error text) ∧
      keys.all (fun key => (unreadable key).isNone) = false := by
  induction keys generalizing store with
  | nil => exact .inl ⟨⟨0, rfl, by simp⟩, rfl⟩
  | cons key keys ih =>
    unfold createBatchForDocuments
    cases hread : unreadable key with
    | some text => exact .inr ⟨⟨text, rfl⟩, by simp [hread]⟩
    | none =>
      have hdoc : (store.get key).1 = f.document key := by rw [AutomergeStore.get_fst, hf]
      have hrest := @ih (store.get key).2 (by rw [hf]; exact funext fun key' => AutomergeStore.document_get.symm)
      simp only [hdoc, all_cons, any_cons, hread, Option.isNone_none, Bool.true_and]
      rcases hrest with ⟨⟨k, hk, hzero⟩, hall⟩ | ⟨⟨text, htext⟩, hall⟩
      · refine .inl ⟨⟨_, by rw [hk]; rfl, ?_⟩, hall⟩
        rw [Nat.add_eq_zero_iff, hzero, Bool.or_eq_false_iff]
        refine and_congr_left fun _ => ?_
        unfold offers
        grind
      · exact .inr ⟨⟨text, by rw [htext]; rfl⟩, hall⟩

section Inner

variable {c : Coordinator Doc State Peer} {key : String} {doc : Doc} {store : AutomergeStore Doc}

/-- A sync of a document's history with something to send moves the document's state on. -/
theorem initiateDeltaSync_cases {c' outcome} {f : Found Doc State} (hf : ofCoordinator api c peer = f)
    (h : c.initiateDeltaSync api key peer doc true = (c', outcome)) :
    (api.generateSyncMessage doc (f.state key) = none ∧ outcome = .nothing ∧ ofCoordinator api c' peer = f) ∨
    ∃ message state, api.generateSyncMessage doc (f.state key) = some (message, state) ∧ outcome = .sent message ∧
      ofCoordinator api c' peer = { f with state := fun key' => if key' = key then state else f.state key' } := by
  subst hf
  simp only [Coordinator.initiateDeltaSync, Coordinator.getOrCreateSyncState, if_true] at h
  split at h <;> cases h
  next hnone =>
    refine .inl ⟨hnone, rfl, congrArg (Found.mk _) (funext fun key' => ?_)⟩
    by_cases hkey : key' = key <;> simp [Coordinator.syncState, Coordinator.updateSyncState, DeltaSync.setAt, hkey]
  next hsome =>
    refine .inr ⟨_, _, hsome, rfl, congrArg (Found.mk _) (funext fun key' => ?_)⟩
    by_cases hkey : key' = key <;>
      simp [ofCoordinator, Coordinator.syncState, Coordinator.updateSyncState, DeltaSync.setAt, hkey]

omit [DecidableEq Peer] in
theorem ofCoordinator_get :
    ofCoordinator api { c with store := (c.store.get key).2 } peer = ofCoordinator api c peer := by
  unfold ofCoordinator
  exact congrArg (Found.mk · _) (funext fun key' => AutomergeStore.document_get)

theorem next_initiateSync_of_not {f : Found Doc State} {flow sends unreadable exhausted failedAt now}
    (h : ¬(mode key = .fullHistory ∧
      f.sends api mode (.initiateSync key flow unreadable exhausted sends failedAt now) = true)) :
    f.next api mode (.initiateSync key flow unreadable exhausted sends failedAt now) = f := by
  refine congrArg (Found.mk f.document) (funext fun key' => if_neg ?_)
  rintro ⟨rfl, hmode⟩
  exact h hmode

theorem initiateSyncInner_cases {unreadable exhausted failedAt now} :
    let f := ofCoordinator api c peer
    let call := PeerCall.initiateSync key (.ok ()) unreadable exhausted (.ok ()) failedAt now
    let r := initiateSyncInner api c mode key peer unreadable exhausted (.ok ())
    ofCoordinator api r.1 peer = f.next api mode call ∧
      (r.2 = .ok () ∧ f.sends api mode call = true ∨
        ∃ text, r.2 = .error text ∧ f.sends api mode call = false ∧ f.failsLocally api mode call = true) := by
  intro f call r
  have hgot {found store} (hget : c.store.get key = (found, store)) :
      ofCoordinator api { c with store } peer = f ∧ f.document key = found := by
    obtain rfl : (c.store.get key).2 = store := congrArg Prod.snd hget
    exact ⟨ofCoordinator_get, AutomergeStore.get_fst.symm.trans (congrArg Prod.fst hget)⟩
  -- Where it fails, nothing but the cache has changed.
  have hfails (hsends : f.sends api mode call = false) : f.next api mode call = f :=
    next_initiateSync_of_not fun h => by simp [call, h.2] at hsends
  unfold r
  fun_cases initiateSyncInner api c mode key peer unreadable exhausted (.ok ())
  case case1 text =>
    have hsends : f.sends api mode call = false := by simp [sends, call]
    exact ⟨(hfails hsends).symm, .inr ⟨text, rfl, hsends, by simp [failsLocally, call, Except.toBool]⟩⟩
  all_goals obtain ⟨hsame, hfound⟩ := hgot ‹_›
  case case2 | case3 =>
    have hsends : f.sends api mode call = false := by simp [sends, offers, call, hfound]
    exact ⟨hsame.trans (hfails hsends).symm,
      .inr ⟨_, rfl, hsends, by simp [failsLocally, offers, call, hfound, Except.toBool]⟩⟩
  case case4 | case5 =>
    have hsends : f.sends api mode call = true := by simp [sends, offers, call, *, Except.toBool]
    exact ⟨hsame.trans (next_initiateSync_of_not (by simp [*])).symm, .inl ⟨rfl, hsends⟩⟩
  all_goals obtain ⟨hmessage, ⟨⟩, hc⟩ | ⟨message, state, hmessage, ⟨⟩, hc⟩ := initiateDeltaSync_cases hsame ‹_›
  · have hsends : f.sends api mode call = false := by simp [sends, offers, call, *]
    exact ⟨hc.trans (hfails hsends).symm,
      .inr ⟨_, rfl, hsends, by simp [failsLocally, offers, call, *, Except.toBool]⟩⟩
  · have hsends : f.sends api mode call = true := by simp [sends, offers, call, *, Except.toBool]
    refine ⟨hc.trans (congrArg (Found.mk _) (funext fun key' => ?_)), .inl ⟨rfl, hsends⟩⟩
    show _ = if key' = key ∧ mode key' = .fullHistory ∧ f.sends api mode call then _ else _
    by_cases hkey : key' = key <;> simp [*]

end Inner

/-- While the circuit is closed, what a call whose sends succeed does is told by what it finds. -/
theorem step_of_closed (hclosed : (n.handler.health peer).circuitState = .closed) (hsends : call.Delivers) :
    ∃ c outcome, step api peer n call = n.ending peer c outcome ∧
      ofCoordinator api c peer = (ofCoordinator api n.coordinator peer).next api n.mode call ∧
      (outcome.told peer).bind (·.entry peer) = (ofCoordinator api n.coordinator peer).entry api n.mode call := by
  have hshut : n.handler.isCircuitOpen peer = false := by
    simp [isCircuitOpen_eq, hclosed]
  cases call with
  | initiateSync key flow unreadable exhausted sends failedAt now =>
    obtain rfl : sends = .ok () := hsends
    simp only [step, initiateSync, hshut, Bool.false_eq_true, if_false]
    cases flow with
    | error text =>
      exact ⟨_, _, rfl, (next_initiateSync_of_not (by simp [Found.sends, Except.toBool])).symm, rfl⟩
    | ok _ =>
      obtain ⟨hnext, ⟨hok, hsends⟩ | ⟨text, herror, hsends, hlocal⟩⟩ := @initiateSyncInner_cases _ _ _ _ _ _ api n.mode
        peer n.coordinator key unreadable exhausted failedAt now
      · refine ⟨_, _, rfl, hnext, ?_⟩
        rw [hok, Found.entry, if_pos hsends]
        simp [SyncOutcome.told, HealthCall.entry]
      · refine ⟨_, _, rfl, hnext, ?_⟩
        rw [herror, Found.entry, if_neg (by simp [hsends]), if_pos hlocal]
        simp [SyncOutcome.told, HealthCall.entry, PeerCall.failedAt]
  | syncDocumentsBatch keys unreadable sends failedAt now =>
    obtain rfl : sends = .ok () := hsends
    simp only [step, syncDocumentsBatch, hshut, Bool.false_eq_true, if_false]
    refine ⟨_, _, rfl, ?_, ?_⟩
    · refine (congrArg₂ Found.mk (document_createBatchForDocuments _ _) (funext fun key => ?_))
      simp only [ofCoordinator, Coordinator.syncState, clearSyncStates]
      split <;> rfl
    · obtain ⟨⟨k, hk, hzero⟩, hall⟩ | ⟨⟨text, htext⟩, hall⟩ := @createBatchForDocuments_eq_ok _ _ _ _ api n.mode
        unreadable n.coordinator.store keys (ofCoordinator api n.coordinator peer) rfl
      · have hbatch : (createBatchForDocuments api n.mode unreadable
            (clearSyncStates n.coordinator keys).store keys).2 = .ok k := hk
        cases k with
        | zero => simp [hbatch, SyncOutcome.told, Found.entry, Found.sends, failsLocally, hzero.mp rfl]
        | succ k =>
          have hany := mt hzero.mpr (Nat.succ_ne_zero k)
          rw [Bool.not_eq_false] at hany
          simp only [hbatch, SyncOutcome.told, Found.entry, Found.sends, hall, hany]
          simp [HealthCall.entry]
      · have hbatch : (createBatchForDocuments api n.mode unreadable
            (clearSyncStates n.coordinator keys).store keys).2 = .error text := htext
        simp only [hbatch, SyncOutcome.told, Found.entry, Found.sends, failsLocally, hall]
        rfl

/-! ## Whole runs -/

variable {retryPolicy : RetryPolicy} {cfg : CircuitBreakerConfig} {c : Coordinator Doc State Peer}
  {calls : List PeerCall}

theorem after_concat : after api peer n (calls ++ [call]) = step api peer (after api peer n calls) call := by
  simp [after]

section Told

variable {o : Option (HealthCall Peer)} {told : List (HealthCall Peer)}

theorem after_toList : SyncErrorHandler.after retryPolicy cfg (told ++ o.toList) =
    o.elim (.after retryPolicy cfg told) (SyncErrorHandler.after retryPolicy cfg told).call := by
  cases o with
  | none => simp
  | some call => exact SyncErrorHandler.after_concat

theorem streak_toList : streak peer (told ++ o.toList) =
    (o.bind (·.entry peer)).elim (streak peer told) (HealthCall.extend (streak peer told)) := by
  cases o with
  | none => simp
  | some call => exact streak_concat

theorem closedAfter_toList_iff (h : ClosedAfter retryPolicy cfg peer told) :
    ClosedAfter retryPolicy cfg peer (told ++ o.toList) ↔ (streak peer (told ++ o.toList)).length < opensAt cfg := by
  cases o with
  | none =>
    rw [Option.toList_none, append_nil]
    exact iff_of_true h h.count.2
  | some call => exact h.concat_iff

theorem totalFailures_call {s : SyncErrorHandler Peer} {call} :
    ((s.call call).health peer).totalFailures =
      if (call.entry peer).join.isSome then (s.health peer).totalFailures + 1 else (s.health peer).totalFailures := by
  cases call with
  | handleError p error failedAt now =>
    by_cases hp : p = peer
    · subst hp
      simp only [SyncErrorHandler.call, handleError]
      split <;> split <;> simp [HealthCall.entry, PeerHealthTracker.recordFailure, PeerHealthTracker.opened]
    · rw [health_call_of_entry_none (by simp [HealthCall.entry, hp])]
      simp [HealthCall.entry, hp]
  | recordSuccess p =>
    by_cases hp : p = peer
    · subst hp
      simp only [SyncErrorHandler.call, recordSuccess]
      split <;> simp [HealthCall.entry, PeerHealthTracker.recordSuccess]
    · rw [health_call_of_entry_none (by simp [HealthCall.entry, hp])]
      simp [HealthCall.entry, hp]

theorem totalFailures_elim_iff {s : SyncErrorHandler Peer} :
    ((o.elim s s.call).health peer).totalFailures = (s.health peer).totalFailures ↔
      (o.bind (·.entry peer)).join.isSome = false := by
  cases o with
  | none => simp
  | some call =>
    rw [Option.elim_some, totalFailures_call, Option.bind_some]
    split
    next hfails => simp [hfails]
    next hfails => simp [hfails]

end Told

/-- What has become of a coordinator is what was to be told from what the calls find. -/
structure Follows (api : SyncDoc Doc State Heads Message) (retryPolicy : RetryPolicy) (cfg : CircuitBreakerConfig)
    (mode : String → SyncMode) (peer : Peer) (f : Found Doc State) (calls : List PeerCall)
    (n : PeerSync Doc State Peer) : Prop where
  modes : n.mode = mode
  found : ofCoordinator api n.coordinator peer = f.after api mode calls
  told : ∃ told, n.handler = .after retryPolicy cfg told ∧ (streak peer told).length = f.row api mode 0 calls

section Follows

variable {f : Found Doc State}

theorem Follows.concat (h : Follows api retryPolicy cfg mode peer f calls n)
    (hclosed : (n.handler.health peer).circuitState = .closed) (hsends : call.Delivers) :
    Follows api retryPolicy cfg mode peer f (calls ++ [call]) (step api peer n call) ∧
      (((step api peer n call).handler.health peer).circuitState = .closed ↔
        f.row api mode 0 (calls ++ [call]) < opensAt cfg) ∧
      (((step api peer n call).handler.health peer).totalFailures = (n.handler.health peer).totalFailures ↔
        (f.after api mode calls).failsLocally api mode call = false) := by
  obtain ⟨told, hhandler, hrow⟩ := h.told
  obtain ⟨c', outcome, hstep, hnext, hentry⟩ := @step_of_closed _ _ _ _ _ _ api n peer call hclosed hsends
  rw [h.modes, h.found] at hnext hentry
  have hafter : (step api peer n call).handler = .after retryPolicy cfg (told ++ (outcome.told peer).toList) := by
    rw [hstep, after_toList, ← hhandler]
    rfl
  have hlength : (streak peer (told ++ (outcome.told peer).toList)).length = f.row api mode 0 (calls ++ [call]) := by
    rw [streak_toList, hentry, row_concat, Found.entry]
    split
    · rfl
    · split
      · simp [HealthCall.extend, hrow]
      · exact hrow
  refine ⟨⟨by rw [hstep]; exact h.modes, by rw [hstep, Found.after_concat]; exact hnext, _, hafter, hlength⟩, ?_, ?_⟩
  · rw [hhandler] at hclosed
    rw [hafter, ← hlength]
    exact closedAfter_toList_iff hclosed
  · rw [hstep]
    refine totalFailures_elim_iff.trans ?_
    rw [hentry, isSome_join_entry]

end Follows

theorem opensAt_pos : 0 < opensAt cfg := Nat.lt_of_lt_of_le Nat.zero_lt_one (Nat.le_max_left _ _)

section Runs

variable (api retryPolicy cfg c mode peer)

/-- The calls have gone through, to a circuit that is closed still. -/
structure Unbroken (calls : List PeerCall) : Prop where
  delivers : ∀ call ∈ calls, call.Delivers
  follows : Follows api retryPolicy cfg mode peer (ofCoordinator api c peer) calls
    (after api peer (new retryPolicy cfg c mode) calls)
  closed : ((after api peer (new retryPolicy cfg c mode) calls).handler.health peer).circuitState = .closed

variable {api retryPolicy cfg c mode peer}

theorem unbroken_nil : Unbroken api mode peer retryPolicy cfg c [] :=
  ⟨by simp, ⟨rfl, rfl, [], rfl, rfl⟩, rfl⟩

theorem Unbroken.concat_iff (h : Unbroken api mode peer retryPolicy cfg c calls) :
    Unbroken api mode peer retryPolicy cfg c (calls ++ [call]) ↔ (∀ call' ∈ calls ++ [call], call'.Delivers) ∧
      ((after api peer (new retryPolicy cfg c mode) (calls ++ [call])).handler.health peer).circuitState = .closed := by
  refine ⟨fun h' => ⟨h'.delivers, h'.closed⟩, fun h' => ⟨h'.1, ?_, h'.2⟩⟩
  rw [after_concat]
  exact (h.follows.concat h.closed (h'.1 call (by simp))).1

theorem Unbroken.concat_row_iff (h : Unbroken api mode peer retryPolicy cfg c calls) :
    Unbroken api mode peer retryPolicy cfg c (calls ++ [call]) ↔ (∀ call' ∈ calls ++ [call], call'.Delivers) ∧
      (ofCoordinator api c peer).row api mode 0 (calls ++ [call]) < opensAt cfg := by
  rw [h.concat_iff, after_concat]
  exact and_congr_right fun hdelivers => (h.follows.concat h.closed (hdelivers call (by simp))).2.1

variable (api mode peer retryPolicy cfg c) in
/-- Nothing has failed locally either. -/
def Quiet (calls : List PeerCall) : Prop :=
  Unbroken api mode peer retryPolicy cfg c calls ∧ (ofCoordinator api c peer).row api mode 0 calls = 0

theorem Quiet.concat_iff (h : Quiet api mode peer retryPolicy cfg c calls) :
    Quiet api mode peer retryPolicy cfg c (calls ++ [call]) ↔
      call.Delivers ∧ ((ofCoordinator api c peer).after api mode calls).failsLocally api mode call = false := by
  obtain ⟨hunbroken, hrow⟩ := h
  rw [Quiet, hunbroken.concat_row_iff, row_concat, hrow]
  have hpos := @opensAt_pos cfg
  have hdelivers : (∀ call' ∈ calls ++ [call], call'.Delivers) ↔ call.Delivers :=
    ⟨fun h => h call (by simp), fun h call' hmem => (mem_append.mp hmem).elim (hunbroken.delivers call')
      fun heq => (mem_singleton.mp heq).symm ▸ h⟩
  rw [hdelivers, and_assoc]
  refine and_congr_right fun _ => ?_
  split
  next hsends => simp [not_failsLocally hsends, hpos]
  next =>
    split
    next hfails => simp [hfails]
    next hfails => simp [hfails, hpos]

theorem Quiet.concat_total_iff (h : Quiet api mode peer retryPolicy cfg c calls) :
    Quiet api mode peer retryPolicy cfg c (calls ++ [call]) ↔ call.Delivers ∧
      ((after api peer (new retryPolicy cfg c mode) (calls ++ [call])).handler.health peer).totalFailures =
        ((after api peer (new retryPolicy cfg c mode) calls).handler.health peer).totalFailures := by
  rw [h.concat_iff, after_concat]
  exact and_congr_right fun hdelivers => (h.1.follows.concat h.1.closed hdelivers).2.2.symm

end Runs

/-- With all sends succeeding, a peer's circuit stays closed exactly when there are never as many local failures in
a row as open it, and no call counts as a failure of the peer exactly when none fails locally. -/
theorem local_failures_count_iff (api : SyncDoc Doc State Heads Message) (retryPolicy : RetryPolicy)
    (cfg : CircuitBreakerConfig) (c : Coordinator Doc State Peer) (mode : String → SyncMode) (peer : Peer)
    (calls : List PeerCall) (hsends : ∀ call ∈ calls, call.Delivers) :
    let health (before : List PeerCall) := (after api peer (new retryPolicy cfg c mode) before).handler.health peer
    let found := ofCoordinator api c peer
    ((∀ before, before <+: calls → (health before).circuitState = .closed) ↔
      ∀ before, before <+: calls → found.row api mode 0 before < opensAt cfg) ∧
    ((∀ before call, before ++ [call] <+: calls →
        (health (before ++ [call])).totalFailures = (health before).totalFailures) ↔
      ∀ before call, before ++ [call] <+: calls →
        (found.after api mode before).failsLocally api mode call = false) := by
  intro health found
  have hdelivers (before : List PeerCall) (hpre : before <+: calls) : ∀ call ∈ before, call.Delivers :=
    fun call hcall => hsends call (hpre.subset hcall)
  refine ⟨?_, ?_⟩
  · have hclosed := forall_prefix_congr (P := Unbroken api mode peer retryPolicy cfg c)
      (Q := fun before => (∀ call ∈ before, call.Delivers) ∧ (health before).circuitState = .closed)
      unbroken_nil ⟨by simp, rfl⟩ (fun before call h => h.concat_iff) calls
    have hrow := forall_prefix_congr (P := Unbroken api mode peer retryPolicy cfg c)
      (Q := fun before => (∀ call ∈ before, call.Delivers) ∧ found.row api mode 0 before < opensAt cfg)
      unbroken_nil ⟨by simp, opensAt_pos⟩ (fun before call h => h.concat_row_iff) calls
    have hiff := hclosed.symm.trans hrow
    rwa [forall₂_congr fun before hpre => and_iff_right (hdelivers before hpre),
      forall₂_congr fun before hpre => and_iff_right (hdelivers before hpre)] at hiff
  · have hlast (before : List PeerCall) (call : PeerCall) (hpre : before ++ [call] <+: calls) : call.Delivers :=
      hsends call (hpre.subset (by simp))
    have hquiet : Quiet api mode peer retryPolicy cfg c [] := ⟨unbroken_nil, rfl⟩
    have htotal := forall_prefix_iff (P := Quiet api mode peer retryPolicy cfg c) hquiet
      (fun before call h => (h before (prefix_refl _)).concat_total_iff) calls
    have hfails := forall_prefix_iff (P := Quiet api mode peer retryPolicy cfg c) hquiet
      (fun before call h => (h before (prefix_refl _)).concat_iff) calls
    have hiff := htotal.symm.trans hfails
    rwa [forall₃_congr fun before call hpre => and_iff_right (hlast before call hpre),
      forall₃_congr fun before call hpre => and_iff_right (hlast before call hpre)] at hiff

end PeerSync

end

namespace PeerSync

open Found

def oneDocument : PeerSync (Finset Nat) SetState Nat :=
  new .default SyncNode.defaultConfig oneChange.toCoordinator fun _ => .fullHistory

def again (n : Nat) : List PeerCall := List.replicate n (.initiateSync "nodes:a" (.ok ()) none none (.ok ()) 0 0)

theorem delivers_again (n : Nat) : ∀ call ∈ again n, call.Delivers := by
  intro call hcall
  rw [eq_of_mem_replicate hcall]
  rfl

/-- A snapshot of the document is sent twice, and one of nothing is asked for in a batch. -/
theorem local_failures_count_twice :
    let calls := again 2 ++ [.syncDocumentsBatch ["nodes:b"] (fun _ => none) (.ok ()) 0 0]
    let health (before : List PeerCall) := (after setSync 7 (new .default SyncNode.defaultConfig
      oneChange.toCoordinator fun _ => .latestOnly) before).handler.health 7
    (∀ call ∈ calls, call.Delivers) ∧ (∀ before, before <+: calls → (health before).circuitState = .closed) ∧
      ∀ before call, before ++ [call] <+: calls →
        (health (before ++ [call])).totalFailures = (health before).totalFailures := by
  intro calls health
  have hdelivers : ∀ call ∈ calls, call.Delivers := by
    simp [calls, again, PeerCall.Delivers]
  obtain ⟨hclosed, hcounted⟩ := local_failures_count_iff setSync .default SyncNode.defaultConfig
    oneChange.toCoordinator (fun _ => .latestOnly) 7 calls hdelivers
  have hrow : ∀ before ∈ calls.inits, (ofCoordinator setSync oneChange.toCoordinator 7).row setSync
      (fun _ => .latestOnly) 0 before < opensAt SyncNode.defaultConfig := by decide +kernel
  have hfails : ∀ before ∈ calls.inits, ∀ call ∈ calls, ((ofCoordinator setSync oneChange.toCoordinator 7).after setSync
      (fun _ => .latestOnly) before).failsLocally setSync (fun _ => .latestOnly) call = false := by decide +kernel
  refine ⟨hdelivers, hclosed.mpr fun before hpre => hrow before ((mem_inits _ _).mpr hpre),
    hcounted.mpr fun before call hpre => hfails before ?_ call (hpre.subset (by simp))⟩
  exact (mem_inits _ _).mpr ((prefix_append before [call]).trans hpre)

/-- Five calls with nothing new to send open the circuit; and a document that is not there counts the first time. -/
theorem nothing_new_opens :
    (∀ call ∈ again 6, call.Delivers) ∧
      ((after setSync 7 oneDocument (again 1)).handler.health 7).totalFailures = 0 ∧
      ((after setSync 7 oneDocument (again 6)).handler.health 7).totalFailures = 5 ∧
      ((after setSync 7 oneDocument (again 6)).handler.health 7).lastError =
        some (.protocol "No initial sync message to send") ∧
      ((after setSync 7 oneDocument (again 6)).handler.health 7).circuitState = .isOpen ∧
      ((after setSync 7 oneDocument [.initiateSync "nodes:b" (.ok ()) none none (.ok ()) 0 0]).handler.health
        7).totalFailures = 1 := by
  exact ⟨delivers_again 6, by decide +kernel, by decide +kernel, by decide +kernel, by decide +kernel,
    by decide +kernel⟩

end PeerSync

end PeatMesh
