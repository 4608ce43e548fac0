/-
Set reconciliation of documents (`storage/negentropy_sync.rs`). A session
turns the ids the negentropy package reports into keys by a map of its own
documents, which has no key for the ids the initiator needs. That the package's
reports are right (`NegentropyCrate`) is a hypothesis.
-/
import PeatMesh.PeerConnector

namespace PeatMesh

abbrev DocId := Vector UInt8 32

open List Except

structure SyncItem where
  docKey : String
  timestamp : UInt64
  id : DocId
  deriving DecidableEq, Repr

def SyncItem.fromDocKey (sha256 : List UInt8 → DocId) (docKey : String) (timestamp : UInt64) : SyncItem :=
  ⟨docKey, timestamp, sha256 (Bytes.utf8 docKey)⟩

structure ReconcileResult where
  haveKeys : List String
  needKeys : List String
  isComplete : Bool
  nextMessage : Option (List UInt8)
  deriving DecidableEq, Repr

/-- An error as the texts of its chain, outermost context first. -/
abbrev ErrorChain := List String

/-- The negentropy package: storage sealed, an instance on it, its first message, and a message reconciled by the
initiator (the answer, if any, and the ids only it and only the other has) or by the responder. -/
structure NegentropyCrate (ν : Type) where
  sealed : List (UInt64 × DocId) → Except ErrorChain Unit
  owned : List (UInt64 × DocId) → Except ErrorChain ν
  initiate : ν → Except ErrorChain (ν × List UInt8)
  reconcileWithIds : ν → List UInt8 → ν × Except ErrorChain (Option (List UInt8) × List DocId × List DocId)
  reconcile : ν → List UInt8 → ν × Except ErrorChain (List UInt8)

structure SyncSession (ν : Type) where
  peerId : EndpointId
  storage : Option (List (UInt64 × DocId))
  negentropy : Option ν
  idToKey : Std.ExtTreeMap DocId String
  isInitiator : Bool

structure NegentropyStats where
  sessionsInitiated : Nat
  sessionsCompleted : Nat
  docsHave : Nat
  docsNeed : Nat
  bytesExchanged : Nat
  roundTrips : Nat
  deriving DecidableEq, Repr

structure NegentropySync (ν : Type) where
  sessions : Std.ExtTreeMap EndpointId (SyncSession ν)
  stats : NegentropyStats

/-! ## Sessions -/

def idToKeyOf (items : List SyncItem) : Std.ExtTreeMap DocId String :=
  items.foldl (fun m item => m.insert item.id item.docKey) ∅

def context {α : Type} (text : String) : Except ErrorChain α → Except ErrorChain α :=
  Except.mapError (text :: ·)

namespace SyncSession

variable {ν : Type} (crate : NegentropyCrate ν)

def new (isInitiator : Bool) (peerId : EndpointId) (items : List SyncItem) :
    Except ErrorChain (SyncSession ν) := do
  let storage := items.map fun item => (item.timestamp, item.id)
  crate.sealed storage
  return ⟨peerId, some storage, none, idToKeyOf items, isInitiator⟩

def newInitiator (peerId : EndpointId) (items : List SyncItem) : Except ErrorChain (SyncSession ν) :=
  new crate true peerId items

def newResponder (peerId : EndpointId) (items : List SyncItem) : Except ErrorChain (SyncSession ν) :=
  new crate false peerId items

def initiate (s : SyncSession ν) : Except ErrorChain (SyncSession ν × List UInt8) := do
  let some storage := s.storage | throw ["Storage already consumed"]
  let neg ← context "Failed to create Negentropy instance" (crate.owned storage)
  let (neg, message) ← context "Failed to initiate Negentropy sync" (crate.initiate neg)
  return ({ s with storage := none, negentropy := some neg }, message)

variable (s : SyncSession ν)

def keysOf (ids : List DocId) : List String := ids.filterMap fun id => s.idToKey[id]?

variable (message : List UInt8)

def reconcileInitiator : SyncSession ν × Except ErrorChain ReconcileResult :=
  match s.negentropy with
  | none => (s, .error ["Session not initiated"])
  | some neg =>
    match crate.reconcileWithIds neg message with
    | (neg, .error e) => ({ s with negentropy := some neg }, .error ("Failed to reconcile" :: e))
    | (neg, .ok (response, haveIds, needIds)) =>
      ({ s with negentropy := some neg },
        .ok ⟨s.keysOf haveIds, s.keysOf needIds, response.isNone, response⟩)

def responderInstance : Except ErrorChain ν :=
  match s.negentropy, s.storage with
  | some neg, _ => .ok neg
  | none, some storage => context "Failed to create Negentropy instance" (crate.owned storage)
  | none, none => .error ["Storage already consumed"]

def reconcileResponder : SyncSession ν × Except ErrorChain ReconcileResult :=
  let storage := if s.negentropy.isNone then none else s.storage
  match s.responderInstance crate with
  | .error e => ({ s with storage := storage }, .error e)
  | .ok neg =>
    match crate.reconcile neg message with
    | (neg, .error e) =>
      ({ s with storage := storage, negentropy := some neg }, .error ("Failed to reconcile" :: e))
    | (neg, .ok response) =>
      ({ s with storage := storage, negentropy := some neg }, .ok ⟨[], [], false, some response⟩)

def reconcile : SyncSession ν × Except ErrorChain ReconcileResult :=
  if s.isInitiator then s.reconcileInitiator crate message else s.reconcileResponder crate message

end SyncSession

open SyncSession

def NegentropyStats.counted (stats : NegentropyStats) (message : List UInt8) (result : ReconcileResult) :
    NegentropyStats where
  sessionsInitiated := stats.sessionsInitiated
  sessionsCompleted := stats.sessionsCompleted + if result.isComplete then 1 else 0
  docsHave := stats.docsHave + result.haveKeys.length
  docsNeed := stats.docsNeed + result.needKeys.length
  bytesExchanged := stats.bytesExchanged + message.length + (result.nextMessage.map (·.length)).getD 0
  roundTrips := stats.roundTrips + 1

namespace NegentropySync

variable {ν : Type} (crate : NegentropyCrate ν)

variable (n : NegentropySync ν) (peerId : EndpointId) (localItems : List SyncItem)

def initiateSync :
    Except ErrorChain (NegentropySync ν × List UInt8) := do
  let session ← newInitiator crate peerId localItems
  let (session, message) ← session.initiate crate
  return (⟨n.sessions.insert peerId session,
    { n.stats with
      sessionsInitiated := n.stats.sessionsInitiated + 1
      bytesExchanged := n.stats.bytesExchanged + message.length }⟩, message)

def sessionFor : Except ErrorChain (SyncSession ν) :=
  match n.sessions[peerId]? with
  | some session => .ok session
  | none => newResponder crate peerId localItems

def handleMessage (message : List UInt8) (localItems : List SyncItem) :
    NegentropySync ν × Except ErrorChain ReconcileResult :=
  match n.sessionFor crate peerId localItems with
  | .error e => (n, .error e)
  | .ok session =>
    match session.reconcile crate message with
    | (session, .error e) => ({ n with sessions := n.sessions.insert peerId session }, .error e)
    | (session, .ok result) =>
      let sessions := if result.isComplete then n.sessions.erase peerId else n.sessions.insert peerId session
      (⟨sessions, n.stats.counted message result⟩, .ok result)

def reconcileLoop (peerId : EndpointId) (n : NegentropySync ν) (haveKeys needKeys : List String) :
    List (List UInt8 × List SyncItem) → NegentropySync ν × Except ErrorChain (List String × List String)
  | [] => (n, .error ["stream finished early"])
  | (payload, items) :: rest =>
    match n.handleMessage crate peerId payload items with
    | (n, .error e) => (n, .error e)
    | (n, .ok result) =>
      if result.isComplete then (n, .ok (haveKeys ++ result.haveKeys, needKeys ++ result.needKeys))
      else reconcileLoop peerId n (haveKeys ++ result.haveKeys) (needKeys ++ result.needKeys) rest

def syncWithPeerNegentropy (received : List (List UInt8 × List SyncItem)) :
    NegentropySync ν × Except ErrorChain (List String × List String) :=
  match n.initiateSync crate peerId localItems with
  | .error e => (n, .error e)
  | .ok (n, _) => n.reconcileLoop crate peerId [] [] received

end NegentropySync

/-! ## What a session can name -/

section Keys

variable {items : List SyncItem} {id : DocId} {key : String}

theorem mem_of_idToKeyOf (h : (idToKeyOf items)[id]? = some key) :
    ∃ item ∈ items, item.id = id ∧ item.docKey = key := by
  have hacc : ∀ (items : List SyncItem) (m : Std.ExtTreeMap DocId String),
      (items.foldl (fun m item => m.insert item.id item.docKey) m)[id]? = some key →
        m[id]? = some key ∨ ∃ item ∈ items, item.id = id ∧ item.docKey = key := by
    intro items
    induction items with
    | nil => intro m hm; exact .inl hm
    | cons item items ih =>
      intro m hm
      obtain hm | ⟨item', hmem, heq⟩ := ih _ hm
      · rw [Std.ExtTreeMap.getElem?_insert] at hm
        split at hm
        · rename_i hid
          cases hm
          exact .inr ⟨item, by simp, by simpa using hid, rfl⟩
        · exact .inl hm
      · exact .inr ⟨item', by simp [hmem], heq⟩
  obtain h | h := hacc items ∅ h
  · simp at h
  · exact h

theorem isSome_idToKeyOf : (idToKeyOf items)[id]?.isSome ↔ ∃ item ∈ items, item.id = id := by
  have hacc : ∀ (items : List SyncItem) (m : Std.ExtTreeMap DocId String),
      (items.foldl (fun m item => m.insert item.id item.docKey) m)[id]?.isSome ↔
        m[id]?.isSome ∨ ∃ item ∈ items, item.id = id := by
    intro items
    induction items with
    | nil => simp
    | cons item items ih =>
      intro m
      rw [foldl_cons, ih]
      by_cases hid : item.id = id
      · simp [hid]
      · simp [hid]
  rw [idToKeyOf, hacc]
  simp

end Keys

/-! ## The session and the package's own run -/

section Session

variable {ν : Type} {crate : NegentropyCrate ν} {s : SyncSession ν} {n n' : NegentropySync ν}
  {peerId : EndpointId} {items : List SyncItem}

def NegentropyCrate.reports (crate : NegentropyCrate ν) (neg : ν) : List (List UInt8) → Option (List DocId × List DocId)
  | [] => none
  | message :: rest =>
    match crate.reconcileWithIds neg message with
    | (_, .error _) => none
    | (_, .ok (none, haveIds, needIds)) => some (haveIds, needIds)
    | (neg, .ok (some _, haveIds, needIds)) =>
      (crate.reports neg rest).map fun (haveIds', needIds') => (haveIds ++ haveIds', needIds ++ needIds')

def NegentropyCrate.session (crate : NegentropyCrate ν) (storage : List (UInt64 × DocId))
    (messages : List (List UInt8)) : Option (List DocId × List DocId) :=
  match crate.owned storage with
  | .error _ => none
  | .ok neg =>
    match crate.initiate neg with
    | .error _ => none
    | .ok (neg, _) => crate.reports neg messages

theorem SyncSession.keysOf_append (ids ids' : List DocId) : s.keysOf (ids ++ ids') = s.keysOf ids ++ s.keysOf ids' :=
  filterMap_append

theorem NegentropySync.handleMessage_initiated {neg message result}
    (hs : n.sessions[peerId]? = some s) (hinit : s.isInitiator = true) (hneg : s.negentropy = some neg)
    (h : n.handleMessage crate peerId message items = (n', .ok result)) :
    ∃ neg' response haveIds needIds,
      crate.reconcileWithIds neg message = (neg', .ok (response, haveIds, needIds)) ∧
      result = ⟨s.keysOf haveIds, s.keysOf needIds, response.isNone, response⟩ ∧
      (response.isNone = false → n'.sessions[peerId]? = some { s with negentropy := some neg' }) := by
  simp only [handleMessage, sessionFor, hs, reconcile, hinit, if_true, reconcileInitiator,
    hneg] at h
  rcases hr : crate.reconcileWithIds neg message with ⟨neg', e | ⟨response, haveIds, needIds⟩⟩
  · simp [hr] at h
  simp only [hr, Prod.mk.injEq, ok.injEq] at h
  obtain ⟨hn, hresult⟩ := h
  refine ⟨neg', response, haveIds, needIds, rfl, hresult.symm, ?_⟩
  intro hmore
  rw [← hn]
  simp [hmore, hinit]

theorem NegentropySync.reconcileLoop_eq_ok {received neg haveKeys needKeys haveKeys' needKeys'}
    (hs : n.sessions[peerId]? = some s) (hinit : s.isInitiator = true) (hneg : s.negentropy = some neg)
    (h : n.reconcileLoop crate peerId haveKeys needKeys received = (n', .ok (haveKeys', needKeys'))) :
    ∃ haveIds needIds, crate.reports neg (received.map Prod.fst) = some (haveIds, needIds) ∧
      haveKeys' = haveKeys ++ s.keysOf haveIds ∧ needKeys' = needKeys ++ s.keysOf needIds := by
  induction received generalizing n s neg haveKeys needKeys with
  | nil => simp [reconcileLoop] at h
  | cons head rest ih =>
    obtain ⟨payload, now⟩ := head
    rw [reconcileLoop] at h
    split at h
    · simp at h
    rename_i n₁ result hmsg
    obtain ⟨neg', response, haveIds, needIds, hrec, rfl, hstay⟩ := handleMessage_initiated hs hinit hneg hmsg
    cases response with
    | none =>
      simp only [Option.isNone_none, if_true, Prod.mk.injEq, ok.injEq] at h
      obtain ⟨-, hh, hk⟩ := h
      refine ⟨haveIds, needIds, ?_, hh.symm, hk.symm⟩
      simp [NegentropyCrate.reports, hrec]
    | some next =>
      obtain ⟨restHave, restNeed, hrest, hh, hk⟩ := ih (hstay rfl) hinit rfl h
      refine ⟨haveIds ++ restHave, needIds ++ restNeed, ?_, ?_, ?_⟩
      · simp [NegentropyCrate.reports, hrec, hrest]
      · rw [hh, keysOf_append, append_assoc]
        rfl
      · rw [hk, keysOf_append, append_assoc]
        rfl

theorem NegentropySync.initiateSync_eq_ok {message}
    (h : n.initiateSync crate peerId items = .ok (n', message)) :
    ∃ neg neg', crate.owned (items.map fun item => (item.timestamp, item.id)) = .ok neg ∧
      crate.initiate neg = .ok (neg', message) ∧
      n'.sessions[peerId]? = some ⟨peerId, none, some neg', idToKeyOf items, true⟩ := by
  simp only [initiateSync, newInitiator, new, initiate, context] at h
  cases hseal : crate.sealed (items.map fun item => (item.timestamp, item.id)) with
  | error e => simp [hseal, bind, Except.bind] at h
  | ok _ =>
    cases howned : crate.owned (items.map fun item => (item.timestamp, item.id)) with
    | error e => simp [hseal, howned, bind, Except.bind, pure, Except.pure, Except.mapError] at h
    | ok neg =>
      cases hfirst : crate.initiate neg with
      | error e => simp [hseal, howned, hfirst, bind, Except.bind, pure, Except.pure, Except.mapError] at h
      | ok p =>
        obtain ⟨neg', first⟩ := p
        simp only [hseal, howned, hfirst, bind, Except.bind, pure, Except.pure, Except.mapError,
          Except.ok.injEq, Prod.mk.injEq] at h
        obtain ⟨hn, rfl⟩ := h
        refine ⟨neg, neg', rfl, hfirst, ?_⟩
        rw [← hn]
        simp

theorem NegentropySync.syncWithPeerNegentropy_eq_ok {received haveKeys needKeys}
    (h : n.syncWithPeerNegentropy crate peerId items received = (n', .ok (haveKeys, needKeys))) :
    ∃ haveIds needIds,
      crate.session (items.map fun item => (item.timestamp, item.id)) (received.map Prod.fst) =
        some (haveIds, needIds) ∧
      haveKeys = haveIds.filterMap (fun id => (idToKeyOf items)[id]?) ∧
      needKeys = needIds.filterMap (fun id => (idToKeyOf items)[id]?) := by
  rw [syncWithPeerNegentropy] at h
  split at h
  · simp at h
  rename_i n₁ first hinit
  obtain ⟨neg, neg', howned, hfirst, hs⟩ := initiateSync_eq_ok hinit
  obtain ⟨haveIds, needIds, hreports, hh, hk⟩ := reconcileLoop_eq_ok hs rfl rfl h
  refine ⟨haveIds, needIds, ?_, hh, hk⟩
  simp [NegentropyCrate.session, howned, hfirst, hreports]

end Session

/-! ## What a completed session finds -/

section Found

variable {ν : Type} (sha256 : List UInt8 → DocId)

def docId (key : String) : DocId := sha256 (Bytes.utf8 key)

def getLocalSyncItems (docs : List (String × UInt64)) : List SyncItem :=
  docs.map fun (key, timestamp) => SyncItem.fromDocKey sha256 key timestamp

/-- The ids reported are those only the one and only the other has. -/
def NegentropyCrate.Exact (crate : NegentropyCrate ν) (storage : List (UInt64 × DocId)) (remote : List DocId)
    (messages : List (List UInt8)) : Prop :=
  ∀ haveIds needIds, crate.session storage messages = some (haveIds, needIds) →
    (∀ id, id ∈ haveIds ↔ id ∈ storage.map Prod.snd ∧ id ∉ remote) ∧
    (∀ id, id ∈ needIds ↔ id ∈ remote ∧ id ∉ storage.map Prod.snd)

/-- Every document only the responder has is to be asked for, every one only the initiator has is to be sent, and
both nodes then have the same keys. -/
structure FindsMissing (localKeys remoteKeys haveKeys needKeys : List String) : Prop where
  asked : ∀ key ∈ remoteKeys, docId sha256 key ∉ localKeys.map (docId sha256) → key ∈ needKeys
  sent : ∀ key ∈ localKeys, docId sha256 key ∉ remoteKeys.map (docId sha256) → key ∈ haveKeys
  equal : ∀ key, key ∈ localKeys ∨ key ∈ needKeys ↔ key ∈ remoteKeys ∨ key ∈ haveKeys

variable {sha256} {docs : List (String × UInt64)} {key : String} {id : DocId}

theorem docKey_mem_of_idToKeyOf (h : (idToKeyOf (getLocalSyncItems sha256 docs))[id]? = some key) :
    key ∈ docs.map Prod.fst ∧ docId sha256 key = id := by
  obtain ⟨item, hitem, hid, hkey⟩ := mem_of_idToKeyOf h
  obtain ⟨⟨k, t⟩, hdoc, rfl⟩ := mem_map.mp hitem
  rw [← hid, ← hkey]
  exact ⟨mem_map.mpr ⟨(k, t), hdoc, rfl⟩, rfl⟩

theorem exists_idToKeyOf (sha256 : List UInt8 → DocId) (hkey : key ∈ docs.map Prod.fst) :
    ∃ key', (idToKeyOf (getLocalSyncItems sha256 docs))[docId sha256 key]? = some key' := by
  obtain ⟨⟨k, t⟩, hdoc, rfl⟩ := mem_map.mp hkey
  rw [← Option.isSome_iff_exists, isSome_idToKeyOf]
  exact ⟨SyncItem.fromDocKey sha256 k t, mem_map.mpr ⟨(k, t), hdoc, rfl⟩, rfl⟩

theorem storage_ids (docs : List (String × UInt64)) :
    ((getLocalSyncItems sha256 docs).map fun item => (item.timestamp, item.id)).map Prod.snd =
      (docs.map Prod.fst).map (docId sha256) := by
  simp only [getLocalSyncItems, map_map]
  rfl

theorem needKeys_eq_nil {needIds : List DocId} (hneed : ∀ id ∈ needIds, id ∉ (docs.map Prod.fst).map (docId sha256)) :
    needIds.filterMap (fun id => (idToKeyOf (getLocalSyncItems sha256 docs))[id]?) = [] := by
  rw [filterMap_eq_nil_iff]
  intro id hid
  cases hkey : (idToKeyOf (getLocalSyncItems sha256 docs))[id]? with
  | none => rfl
  | some key =>
    obtain ⟨hmem, rfl⟩ := docKey_mem_of_idToKeyOf hkey
    exact absurd (mem_map.mpr ⟨key, hmem, rfl⟩) (hneed _ hid)

theorem mem_haveKeys {haveIds : List DocId} {remoteKeys : List String} (hhave : ∀ id, id ∈ haveIds ↔
      id ∈ (docs.map Prod.fst).map (docId sha256) ∧ id ∉ remoteKeys.map (docId sha256)) :
    key ∈ haveIds.filterMap (fun id => (idToKeyOf (getLocalSyncItems sha256 docs))[id]?) ↔
      (idToKeyOf (getLocalSyncItems sha256 docs))[docId sha256 key]? = some key ∧
        docId sha256 key ∉ remoteKeys.map (docId sha256) := by
  rw [mem_filterMap]
  constructor
  · rintro ⟨id, hid, hkey⟩
    obtain ⟨-, rfl⟩ := docKey_mem_of_idToKeyOf hkey
    exact ⟨hkey, ((hhave _).mp hid).2⟩
  · rintro ⟨hkey, hremote⟩
    have hlocal := (docKey_mem_of_idToKeyOf hkey).1
    exact ⟨docId sha256 key, (hhave _).mpr ⟨mem_map.mpr ⟨key, hlocal, rfl⟩, hremote⟩, hkey⟩

theorem findsMissing_iff {remoteKeys haveKeys} (hhave : ∀ key, key ∈ haveKeys ↔
      (idToKeyOf (getLocalSyncItems sha256 docs))[docId sha256 key]? = some key ∧
        docId sha256 key ∉ remoteKeys.map (docId sha256)) :
    FindsMissing sha256 (docs.map Prod.fst) remoteKeys haveKeys [] ↔
      (∀ key ∈ remoteKeys, key ∈ docs.map Prod.fst) ∧
      ∀ key ∈ docs.map Prod.fst, key ∉ remoteKeys →
        ∀ key' ∈ docs.map Prod.fst, docId sha256 key' = docId sha256 key → key' = key := by
  constructor
  · intro h
    have hsub : ∀ key ∈ remoteKeys, key ∈ docs.map Prod.fst := by
      intro key hkey
      simpa using (h.equal key).mpr (.inl hkey)
    refine ⟨hsub, ?_⟩
    intro key hkey hremote key' hkey' hid
    -- a key only the initiator has is sent, so the map has it and the responder no key of its id
    have hsent : ∀ k ∈ docs.map Prod.fst, k ∉ remoteKeys → k ∈ haveKeys := by
      intro k hk hkr
      exact ((h.equal k).mp (.inl hk)).resolve_left hkr
    obtain ⟨hmap, hids⟩ := (hhave key).mp (hsent key hkey hremote)
    have hremote' : key' ∉ remoteKeys := by
      intro hmem
      exact hids (hid ▸ mem_map.mpr ⟨key', hmem, rfl⟩)
    have hmap' := ((hhave key').mp (hsent key' hkey' hremote')).1
    rw [hid, hmap] at hmap'
    exact (Option.some.inj hmap').symm
  · rintro ⟨hsub, huniq⟩
    have hsent : ∀ key ∈ docs.map Prod.fst, key ∉ remoteKeys → key ∈ haveKeys := by
      intro key hkey hremote
      obtain ⟨key', hmap⟩ := exists_idToKeyOf sha256 hkey
      obtain ⟨hkey', hid⟩ := docKey_mem_of_idToKeyOf hmap
      obtain rfl := huniq key hkey hremote key' hkey' hid
      refine (hhave key').mpr ⟨hmap, ?_⟩
      intro hmem
      obtain ⟨r, hr, hrid⟩ := mem_map.mp hmem
      exact hremote (huniq key' hkey hremote r (hsub r hr) hrid ▸ hr)
    refine ⟨?_, ?_, ?_⟩
    · intro key hkey hnot
      exact absurd (mem_map.mpr ⟨key, hsub key hkey, rfl⟩) hnot
    · intro key hkey hnot
      exact hsent key hkey fun hmem => hnot (mem_map.mpr ⟨key, hmem, rfl⟩)
    · intro key
      constructor
      · rintro (hkey | hkey)
        · by_cases hremote : key ∈ remoteKeys
          · exact .inl hremote
          · exact .inr (hsent key hkey hremote)
        · simp at hkey
      · rintro (hkey | hkey)
        · exact .inl (hsub key hkey)
        · exact .inl (docKey_mem_of_idToKeyOf ((hhave key).mp hkey).1).1

/-- A completed session finds what is missing only where nothing is to be fetched, and no key only the initiator has
shares its SHA-256 with another. -/
theorem completedSession_findsMissing_iff (crate : NegentropyCrate ν) (sha256 : List UInt8 → DocId)
    (n n' : NegentropySync ν) (peerId : EndpointId) (docs : List (String × UInt64)) (remoteKeys : List String)
    (received : List (List UInt8 × List SyncItem)) (haveKeys needKeys : List String)
    (hexact : crate.Exact ((getLocalSyncItems sha256 docs).map fun item => (item.timestamp, item.id))
      (remoteKeys.map (docId sha256)) (received.map Prod.fst))
    (hdone : n.syncWithPeerNegentropy crate peerId (getLocalSyncItems sha256 docs) received =
      (n', .ok (haveKeys, needKeys))) :
    FindsMissing sha256 (docs.map Prod.fst) remoteKeys haveKeys needKeys ↔
      (∀ key ∈ remoteKeys, key ∈ docs.map Prod.fst) ∧
      ∀ key ∈ docs.map Prod.fst, key ∉ remoteKeys →
        ∀ key' ∈ docs.map Prod.fst, docId sha256 key' = docId sha256 key → key' = key := by
  obtain ⟨haveIds, needIds, hsession, rfl, rfl⟩ := NegentropySync.syncWithPeerNegentropy_eq_ok hdone
  obtain ⟨hhave, hneed⟩ := hexact _ _ hsession
  rw [storage_ids] at hhave hneed
  rw [needKeys_eq_nil fun id hid => ((hneed id).mp hid).2]
  exact findsMissing_iff fun key => mem_haveKeys hhave

def listingCrate : NegentropyCrate (List DocId) where
  sealed _ := .ok ()
  owned storage := .ok (storage.map Prod.snd)
  initiate ids := .ok (ids, ids.map fun id => id.get 0)
  reconcileWithIds ids message :=
    let remote := message.map (Vector.replicate 32)
    (ids, .ok (none, ids.filter (· ∉ remote), remote.filter (· ∉ ids)))
  reconcile ids _ := (ids, .ok (ids.map fun id => id.get 0))

def firstByteId (bytes : List UInt8) : DocId := Vector.replicate 32 (bytes.headD 0)

theorem listingCrate_exact (storage : List (UInt64 × DocId)) (message : List UInt8) :
    listingCrate.Exact storage (message.map (Vector.replicate 32)) [message] := by
  intro haveIds needIds h
  obtain ⟨rfl, rfl⟩ := h
  simp

/-- The responder has `a`, the initiator `a` and `b`, and sends `b`. -/
theorem initiator_ahead_findsMissing :
    ((⟨∅, ⟨0, 0, 0, 0, 0, 0⟩⟩ : NegentropySync (List DocId)).syncWithPeerNegentropy listingCrate default
      (getLocalSyncItems firstByteId [("a", 7), ("b", 7)]) [([97], [])]).2 = .ok (["b"], []) ∧
    FindsMissing firstByteId ["a", "b"] ["a"] ["b"] [] := by
  have hdone : ((⟨∅, ⟨0, 0, 0, 0, 0, 0⟩⟩ : NegentropySync (List DocId)).syncWithPeerNegentropy listingCrate default
      (getLocalSyncItems firstByteId [("a", 7), ("b", 7)]) [([97], [])]).2 = .ok (["b"], []) := by
    decide +kernel
  refine ⟨hdone, ?_⟩
  refine (completedSession_findsMissing_iff listingCrate firstByteId _ _ default [("a", 7), ("b", 7)] ["a"]
    [([97], [])] ["b"] [] ?_ (Prod.ext rfl hdone)).mpr ⟨by decide, by decide +kernel⟩
  exact listingCrate_exact _ [97]

/-- The initiator has `a`, the responder `b`: the session completes with no
key to ask for. -/
theorem responderKey_not_needed :
    ((⟨∅, ⟨0, 0, 0, 0, 0, 0⟩⟩ : NegentropySync (List DocId)).syncWithPeerNegentropy listingCrate default
      (getLocalSyncItems firstByteId [("a", 7)]) [([98], [])]).2 = .ok (["a"], []) ∧
    listingCrate.session [(7, docId firstByteId "a")] [[98]] =
      some ([docId firstByteId "a"], [docId firstByteId "b"]) ∧
    ¬FindsMissing firstByteId ["a"] ["b"] ["a"] [] := by
  refine ⟨by decide +kernel, by decide +kernel, ?_⟩
  intro h
  exact absurd (h.asked "b" (by simp) (by decide +kernel)) (by simp)

end Found

end PeatMesh
