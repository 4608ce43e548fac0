/-
The connections of a node's sync transport
(`storage/mesh_sync_transport.rs`), in a map keyed by the peer. So is the
removal: the task of a connection that has ended takes out whatever connection
the peer has by then, and so does `get_or_connect` after it found a closed one.
-/
import PeatMesh.Runs

namespace PeatMesh

open Runs Function

structure QuicConnection (ι : Type) where
  id : Nat
  peer : ι
  deriving DecidableEq, Repr

/-- `MeshSyncTransport`, with the connections' ends and, for the record, the
one last inserted for each peer. -/
structure MeshSyncTransport (ι : Type) where
  connections : ι → Option (QuicConnection ι)
  /-- `close_reason` is there. -/
  closed : QuicConnection ι → Bool
  latest : ι → Option (QuicConnection ι)

namespace MeshSyncTransport

variable {ι : Type}

def new : MeshSyncTransport ι := ⟨fun _ => none, fun _ => false, fun _ => none⟩

def getConnection (t : MeshSyncTransport ι) (peer : ι) : Option (QuicConnection ι) := t.connections peer

def connectedPeers (t : MeshSyncTransport ι) : MeshSyncTransport ι :=
  { t with connections := fun peer => (t.connections peer).filter fun c => !t.closed c }

variable [DecidableEq ι]

def insertConnection (t : MeshSyncTransport ι) (c : QuicConnection ι) : MeshSyncTransport ι :=
  { t with
    connections := Function.update t.connections c.peer (some c)
    latest := Function.update t.latest c.peer (some c) }

def removeConnection (t : MeshSyncTransport ι) (peer : ι) : MeshSyncTransport ι :=
  { t with connections := Function.update t.connections peer none }

def close (t : MeshSyncTransport ι) (c : QuicConnection ι) : MeshSyncTransport ι :=
  { t with closed := Function.update t.closed c true }

end MeshSyncTransport

open MeshSyncTransport

/-! ## Calls and tasks -/

/-- Where a call, or the task it leaves behind, is. `sync` says whether an
outgoing connection is started for sync once it is there. -/
inductive TransportPc (ι : Type)
  | idle
  /-- In `connect_and_authenticate`. -/
  | connecting (peer : ι) (sync : Bool)
  | authenticating (c : QuicConnection ι) (sync : Bool)
  | inserting (c : QuicConnection ι) (sync : Bool)
  /-- In `get_or_connect`, with the connection it found. -/
  | checking (c : QuicConnection ι) (peer : ι)
  | removing (peer : ι)
  /-- In `accept` of the protocol handler. -/
  | admitting (c : QuicConnection ι)
  /-- In `start_sync_connection`. -/
  | starting (c : QuicConnection ι)
  /-- The connection's task, in its loop and past it. -/
  | accepting (c : QuicConnection ι)
  | ended (c : QuicConnection ι)
  | returned
  deriving DecidableEq, Repr

inductive TransportEvent (ι : Type)
  | getOrConnect (peer : ι)
  /-- The node's poll finds the peer without a connection, or with one. -/
  | bootstrap (peer : ι)
  | accept (c : QuicConnection ι)
  | connectedPeers
  | connects (id : Nat)
  | fails
  | go
  deriving DecidableEq, Repr

variable {ι : Type} [DecidableEq ι]

def transportStep (t : MeshSyncTransport ι) :
    TransportPc ι → TransportEvent ι → Option (MeshSyncTransport ι × TransportPc ι)
  | .idle, .getOrConnect peer =>
    match t.getConnection peer with
    | some c => some (t, .checking c peer)
    | none => some (t, .connecting peer false)
  | .idle, .bootstrap peer =>
    if (t.getConnection peer).isSome then some (t, .returned) else some (t, .connecting peer true)
  | .idle, .accept c => some (t, .admitting c)
  | .idle, .connectedPeers => some (t.connectedPeers, .returned)
  | .checking c peer, .go => if t.closed c then some (t, .removing peer) else some (t, .returned)
  | .removing peer, .go => some (t.removeConnection peer, .connecting peer false)
  | .connecting peer sync, .connects id => some (t, .authenticating ⟨id, peer⟩ sync)
  | .connecting _ _, .fails => some (t, .returned)
  | .authenticating c sync, .go => some (t, .inserting c sync)
  | .authenticating _ _, .fails => some (t, .returned)
  | .inserting c sync, .go => some (t.insertConnection c, if sync then .starting c else .returned)
  | .admitting c, .go => some (t, .starting c)
  -- without a certificate or the formation key
  | .admitting c, .fails => some (t.close c, .returned)
  | .starting c, .go => some (t.insertConnection c, .accepting c)
  -- `accept_bi` fails once the connection is closed
  | .accepting c, .go => some (t, if t.closed c then .ended c else .accepting c)
  | .ended c, .go => some (t.removeConnection c.peer, .returned)
  | _, _ => none

abbrev TransportCalls (ι : Type) := Pool (MeshSyncTransport ι) (TransportPc ι)

/-- What happens next: a call's step, or a connection terminates. -/
inductive TransportLabel (ι : Type)
  | call (i : Nat) (ev : TransportEvent ι)
  | terminates (c : QuicConnection ι)
  deriving DecidableEq, Repr

/-! ## The newest connection -/

namespace MeshSyncTransport

/-- A peer's newest connection is the one in the map, while it lives. -/
def NewestKept (t : MeshSyncTransport ι) : Prop :=
  ∀ peer c, t.latest peer = some c → t.closed c = false → t.getConnection peer = some c

variable {t : MeshSyncTransport ι}

omit [DecidableEq ι] in
theorem newestKept_new : NewestKept (new : MeshSyncTransport ι) := by
  intro peer c hlatest
  cases hlatest

omit [DecidableEq ι] in
theorem NewestKept.connectedPeers (h : t.NewestKept) : t.connectedPeers.NewestKept := by
  intro peer c hlatest hopen
  have hget := h peer c hlatest hopen
  simp only [getConnection] at hget
  simp [getConnection, MeshSyncTransport.connectedPeers, hget, show t.closed c = false from hopen]

theorem NewestKept.insertConnection (h : t.NewestKept) (c : QuicConnection ι) : (t.insertConnection c).NewestKept := by
  intro peer d hlatest hopen
  simp only [getConnection, MeshSyncTransport.insertConnection] at hlatest ⊢
  by_cases hpeer : peer = c.peer
  · subst hpeer
    simpa using hlatest
  · rw [update_of_ne hpeer] at hlatest ⊢
    exact h peer d hlatest hopen

theorem NewestKept.close (h : t.NewestKept) (c : QuicConnection ι) : (t.close c).NewestKept := by
  intro peer d hlatest hopen
  refine h peer d hlatest ?_
  simp only [MeshSyncTransport.close] at hopen
  by_cases hd : d = c
  · simp [hd] at hopen
  · rwa [update_of_ne hd] at hopen

theorem newestKept_removeConnection_iff (h : t.NewestKept) (peer : ι) :
    (t.removeConnection peer).NewestKept ↔ ∀ c, t.latest peer = some c → t.closed c = true := by
  refine ⟨fun h' c hlatest => ?_, fun hended peer' c hlatest hopen => ?_⟩
  · by_contra hopen
    have hget := h' peer c hlatest (Bool.not_eq_true _ ▸ hopen)
    simp [getConnection, removeConnection] at hget
  · by_cases hpeer : peer' = peer
    · subst hpeer
      exact absurd hopen (by simp [removeConnection, hended c hlatest])
    · simp only [getConnection, removeConnection, update_of_ne hpeer]
      exact h peer' c hlatest hopen

end MeshSyncTransport

def TransportPc.removes : TransportPc ι → Option ι
  | .removing peer => some peer
  | .ended c => some c.peer
  | _ => none

theorem transportStep_of_removes (t : MeshSyncTransport ι) {pc peer}
    (h : pc.removes = some peer) : ∃ pc', transportStep t pc .go = some (t.removeConnection peer, pc') := by
  cases pc with
  | removing peer' =>
    cases h
    exact ⟨_, rfl⟩
  | ended c =>
    cases h
    exact ⟨_, rfl⟩
  | _ => cases h

theorem MeshSyncTransport.NewestKept.transportStep {t t' pc pc'}
    {ev : TransportEvent ι} (h : t.NewestKept)
    (hremove : ev = .go → ∀ peer, pc.removes = some peer → (t.removeConnection peer).NewestKept)
    (hs : PeatMesh.transportStep t pc ev = some (t', pc')) : t'.NewestKept := by
  revert hs
  fun_cases PeatMesh.transportStep t pc ev <;> rintro ⟨⟩
  case case6 => exact h.connectedPeers
  case case9 peer => exact hremove rfl peer rfl
  case case14 c _ | case17 c => exact h.insertConnection c
  case case16 c => exact h.close c
  case case19 c => exact hremove rfl c.peer rfl
  -- the others wait, and leave the transport as it is
  all_goals exact h

namespace TransportCalls

def step (p : TransportCalls ι) : TransportLabel ι → Option (TransportCalls ι)
  | .call i ev => Pool.step (fun _ => transportStep) p (i, ev)
  | .terminates c => some { p with shared := p.shared.close c }

def start : TransportCalls ι := ⟨.new, fun _ => .idle⟩

/-- A step that removes a peer's connection while its newest lives. -/
def Evicts (p : TransportCalls ι) : TransportLabel ι → Prop
  | .call i .go =>
    ∃ peer c, (p.pc i).removes = some peer ∧ p.shared.latest peer = some c ∧ p.shared.closed c = false
  | _ => False

variable {p p' : TransportCalls ι} {l : TransportLabel ι}

theorem newestKept_step (h : p.shared.NewestKept) (hkeep : ¬Evicts p l) (hs : step p l = some p') :
    p'.shared.NewestKept := by
  cases l with
  | terminates c =>
    cases hs
    exact h.close c
  | call i ev =>
    rw [step, Pool.step_eq_some] at hs
    obtain ⟨t, pc, hcall, rfl⟩ := hs
    refine h.transportStep (fun hgo peer hremoves => ?_) hcall
    subst hgo
    rw [newestKept_removeConnection_iff h]
    intro c hlatest
    by_contra hopen
    exact hkeep ⟨peer, c, hremoves, hlatest, by simpa using hopen⟩

theorem lost_of_evicts (h : p.shared.NewestKept) (hevicts : Evicts p l) :
    ∃ p', step p l = some p' ∧ ¬p'.shared.NewestKept := by
  cases l with
  | terminates c => cases hevicts
  | call i ev =>
    cases ev with
    | go =>
      obtain ⟨peer, c, hremoves, hlatest, hopen⟩ := hevicts
      obtain ⟨pc, hcall⟩ := transportStep_of_removes p.shared hremoves
      refine ⟨⟨p.shared.removeConnection peer, update p.pc i pc⟩, ?_, fun hkept => ?_⟩
      · rw [step, Pool.step_eq_some]
        exact ⟨_, _, hcall, rfl⟩
      · have hclosed := (newestKept_removeConnection_iff h peer).mp hkept c hlatest
        simp [hopen] at hclosed
    | _ => cases hevicts

/-- The newest connection to a peer is the peer's until it terminates exactly when no step removes a peer's
connection while the newest lives. -/
theorem newest_kept_iff (ls : List (TransportLabel ι)) :
    (∀ before, before <+: ls → ∀ p, exec step start before = some p → p.shared.NewestKept) ↔
      Along step (fun p l => ¬Evicts p l) (start : TransportCalls ι) ls :=
  forall_reached_iff_along (I := fun p => p.shared.NewestKept) (fun _ _ _ h hkeep hs => newestKept_step h hkeep hs)
    (fun _ h => h) (fun _ _ h hevicts => lost_of_evicts h (not_not.mp hevicts)) newestKept_new

def cleanedUpLate : List (TransportLabel Nat) :=
  [.call 0 (.accept ⟨1, 7⟩), .call 0 .go, .call 0 .go, .terminates ⟨1, 7⟩, .call 0 .go,
   .call 1 (.accept ⟨2, 7⟩), .call 1 .go, .call 1 .go, .call 0 .go]

/-- The second one lives, and is the newest, but the peer has none. -/
theorem cleanedUpLate_evicts :
    ((exec step start cleanedUpLate).map fun p =>
        (p.shared.latest 7, p.shared.closed ⟨2, 7⟩, p.shared.getConnection 7)) =
      some (some ⟨2, 7⟩, false, none) := by
  decide +kernel

end TransportCalls

end PeatMesh
