/-
The formation handshake (`security/formation_key.rs`,
`storage/mesh_sync_transport.rs`) and the network it runs on, symbolically: HKDF
and HMAC are perfect and a challenge's nonce is new. The adversary reads every
connection, is the end of any number of them, drops and delays, and holds the
secrets that leaked to it. What either end of a connection reads, the other end
of it sent.
-/
import PeatMesh.Runs

namespace PeatMesh

/-- `FormationKey`. The HMAC key is HKDF of the two. -/
structure FormationKey (σ : Type) where
  formationId : String
  secret : σ
  deriving DecidableEq, Repr

/-- What 32 bytes of response are: the HMAC of a nonce and the formation id
under a key, or none. -/
inductive Mac (σ ν : Type)
  | hmac (key : FormationKey σ) (nonce : ν)
  | noise
  deriving DecidableEq, Repr

inductive FormationAuthResult
  | accepted
  | rejected
  deriving DecidableEq, Repr

def FormationAuthResult.toByte : FormationAuthResult → UInt8
  | accepted => 0x01
  | rejected => 0x00

def FormationAuthResult.fromByte (b : UInt8) : FormationAuthResult :=
  if b = 0x01 then accepted else rejected

/-- A message of the handshake as its reader parses it; bytes that do not
parse come with the reader's error. -/
inductive AuthMsg (σ ν : Type)
  | version (v : UInt8)
  | challenge (formationId : String) (nonce : ν)
  | response (r : Mac σ ν)
  | verdict (b : UInt8)
  | malformed (e : String)
  deriving DecidableEq, Repr

def FORMATION_AUTH_VERSION : UInt8 := 1

inductive AcceptorState (ν : Type)
  | awaitVersion
  | awaitResponse (nonce : ν)
  | accepted
  | failed (e : String)
  deriving DecidableEq, Repr

inductive ConnectorState
  | awaitChallenge
  | awaitVerdict
  | accepted
  | failed (e : String)
  deriving DecidableEq, Repr

def AcceptorState.returned {ν : Type} : AcceptorState ν → Bool
  | accepted | failed _ => true
  | _ => false

def ConnectorState.returned : ConnectorState → Bool
  | accepted | failed _ => true
  | _ => false

namespace FormationKey

variable {σ ν : Type} [DecidableEq σ] [DecidableEq ν]

variable (fk : FormationKey σ)

def computeResponse (nonce : ν) : Mac σ ν := .hmac fk nonce

def verifyResponse (nonce : ν) (r : Mac σ ν) : Bool := fk.computeResponse nonce = r

def runFormationAuth (nonce : ν) :
    AcceptorState ν → AuthMsg σ ν → AcceptorState ν × List (AuthMsg σ ν)
  | .awaitVersion, .version v =>
    if v ≠ FORMATION_AUTH_VERSION then (.failed ("unsupported formation auth version: " ++ toString v), [])
    else (.awaitResponse nonce, [.challenge fk.formationId nonce])
  | .awaitResponse n, .response r =>
    if fk.verifyResponse n r then (.accepted, [.verdict FormationAuthResult.accepted.toByte])
    else (.failed "HMAC verification failed", [.verdict FormationAuthResult.rejected.toByte])
  | _, .malformed e => (.failed e, [])
  | _, _ => (.failed "unexpected message", [])

def respondToFormationAuth :
    ConnectorState → AuthMsg σ ν → ConnectorState × List (AuthMsg σ ν)
  | .awaitChallenge, .challenge formationId nonce =>
    let challengeLen := 2 + formationId.utf8ByteSize + 32
    if challengeLen > 1024 then (.failed ("challenge too large: " ++ toString challengeLen), [])
    else if formationId ≠ fk.formationId then
      (.failed ("formation ID mismatch: expected " ++ fk.formationId ++ ", got " ++ formationId), [])
    else (.awaitVerdict, [.response (fk.computeResponse nonce)])
  | .awaitVerdict, .verdict b =>
    match FormationAuthResult.fromByte b with
    | .accepted => (.accepted, [])
    | .rejected => (.failed "formation key authentication rejected by acceptor", [])
  | _, .malformed e => (.failed e, [])
  | _, _ => (.failed "unexpected message", [])

end FormationKey

/-! ## The network -/

variable {ι σ ν : Type} [DecidableEq ι] [DecidableEq σ] [DecidableEq ν]

/-- An end of a connection: a node of the mesh, or the adversary. -/
inductive Party (ι : Type)
  | node (i : ι)
  | adversary
  deriving DecidableEq, Repr

/-- The key of each node, and the secrets the adversary holds. -/
structure Setup (ι σ : Type) where
  keyOf : ι → FormationKey σ
  leaked : σ → Bool

variable (setup : Setup ι σ)

/-- A node whose formation has the secret, or the adversary if it leaked. -/
def Party.Holds (secret : σ) : Party ι → Prop
  | node i => (setup.keyOf i).secret = secret
  | adversary => setup.leaked secret = true

/-- A connection, its auth stream: its two ends, what is on its way up to
the acceptor and down to the connector, and where the two are. -/
structure Connection (ι σ ν : Type) where
  connector : Party ι
  acceptor : Party ι
  up : List (AuthMsg σ ν)
  down : List (AuthMsg σ ν)
  connectorState : ConnectorState
  acceptorState : AcceptorState ν
  deriving DecidableEq

def Connection.opened (connector acceptor : Party ι) : Connection ι σ ν where
  connector
  acceptor
  up := match connector with
    | .node _ => [.version FORMATION_AUTH_VERSION]
    | .adversary => []
  down := []
  connectorState := .awaitChallenge
  acceptorState := .awaitVersion

/-- The connections made so far, the nonces and the responses that were on
any of them. -/
structure Network (ι σ ν : Type) where
  connections : List (Connection ι σ ν)
  nonces : List ν
  macs : List (Mac σ ν)

def Network.idle : Network ι σ ν := ⟨[], [], []⟩

def noncesOf : List (AuthMsg σ ν) → List ν :=
  List.filterMap fun
    | .challenge _ n => some n
    | _ => none

def macsOf : List (AuthMsg σ ν) → List (Mac σ ν) :=
  List.filterMap fun
    | .response r => some r
    | _ => none

def Setup.derivable (macs : List (Mac σ ν)) : AuthMsg σ ν → Bool
  | .response (.hmac key n) => .hmac key n ∈ macs || setup.leaked key.secret
  | _ => true

/-- The adversary sends as one of the ends, an end reads the next message, or an end fails with an error of its own
(the acceptor also with its verdict out). -/
inductive ConnectionEvent (σ ν : Type)
  | sendUp (m : AuthMsg σ ν)
  | sendDown (m : AuthMsg σ ν)
  | readUp (nonce : ν)
  | readDown
  | acceptorFails (e : String)
  | connectorFails (e : String)
  deriving DecidableEq

def connectionStep (net : Network ι σ ν) (x : Connection ι σ ν) :
    ConnectionEvent σ ν → Option (Connection ι σ ν × List (AuthMsg σ ν))
  | .sendUp m =>
    if x.connector = .adversary ∧ setup.derivable net.macs m then some ({ x with up := x.up ++ [m] }, [m]) else none
  | .sendDown m =>
    if x.acceptor = .adversary ∧ setup.derivable net.macs m then some ({ x with down := x.down ++ [m] }, [m])
    else none
  | .readUp nonce =>
    match x.acceptor, x.up with
    | .node a, m :: up =>
      let (acceptorState, out) := (setup.keyOf a).runFormationAuth nonce x.acceptorState m
      -- a nonce that was never on the network
      if x.acceptorState.returned = false ∧ ∀ n ∈ noncesOf out, n ∉ net.nonces then
        some ({ x with up, acceptorState, down := x.down ++ out }, out)
      else none
    | _, _ => none
  | .readDown =>
    match x.connector, x.down with
    | .node j, m :: down =>
      let (connectorState, out) := (setup.keyOf j).respondToFormationAuth x.connectorState m
      if x.connectorState.returned = false then
        some ({ x with down, connectorState, up := x.up ++ out }, out)
      else none
    | _, _ => none
  | .acceptorFails e =>
    match x.acceptorState with
    | .failed _ => none
    | _ => some ({ x with acceptorState := .failed e }, [])
  | .connectorFails e =>
    if x.connectorState.returned = false then some ({ x with connectorState := .failed e }, []) else none

/-- A new connection, or a step on one. -/
inductive NetworkEvent (ι σ ν : Type)
  | connect (connector acceptor : Party ι)
  | on (c : Nat) (e : ConnectionEvent σ ν)
  deriving DecidableEq

def networkStep (net : Network ι σ ν) : NetworkEvent ι σ ν → Option (Network ι σ ν)
  | .connect connector acceptor =>
    some { net with connections := net.connections ++ [.opened connector acceptor] }
  | .on c e => do
    let x ← net.connections[c]?
    let (x', out) ← connectionStep setup net x e
    return ⟨net.connections.set c x', net.nonces ++ noncesOf out, net.macs ++ macsOf out⟩

end PeatMesh
