/-
The connector's three tables (`peer_connector.rs`): the formation peer set
that gates connections, the endpoint address lookup, and the blob store's known
peers. Each discovery event updates them apart. Events are given with the
certificates and the clock the connector reads.
-/
import PeatMesh.Admission
import PeatMesh.HybridDiscovery

namespace PeatMesh

open Runs

abbrev EndpointId := PublicKey

instance : Std.TransOrd EndpointId := inferInstanceAs (Std.TransOrd (Vector UInt8 32))

instance : LawfulBEq EndpointId := inferInstanceAs (LawfulBEq (Vector UInt8 32))

/-- What the connector keeps: `FormationPeerSet`, iroh's `MemoryLookup` and
the blob store's `known_peers`. -/
structure PeerTables where
  formationPeers : Std.ExtTreeSet EndpointId
  memoryLookup : Std.ExtTreeMap EndpointId (Std.ExtTreeSet String)
  knownPeers : List EndpointId

namespace PeerTables

def empty : PeerTables := ⟨∅, ∅, []⟩

variable (t : PeerTables) (e : EndpointId) (addrs : Std.ExtTreeSet String)

def addEndpointInfo : PeerTables :=
  { t with memoryLookup := t.memoryLookup.insert e ((t.memoryLookup[e]?.getD ∅).insertMany addrs.toList) }

def setEndpointInfo : PeerTables :=
  { t with memoryLookup := t.memoryLookup.insert e addrs }

def removeEndpointInfo : PeerTables :=
  { t with memoryLookup := t.memoryLookup.erase e }

def addPeer : PeerTables :=
  if e ∈ t.knownPeers then t else { t with knownPeers := t.knownPeers ++ [e] }

def removePeer : PeerTables :=
  { t with knownPeers := t.knownPeers.filter (· ≠ e) }

def insertFormation : PeerTables :=
  { t with formationPeers := t.formationPeers.insert e }

def removeFormation : PeerTables :=
  { t with formationPeers := t.formationPeers.erase e }

def letIn : PeerTables :=
  ((t.addEndpointInfo e addrs).addPeer e).insertFormation e

def drop : PeerTables :=
  ((t.removeEndpointInfo e).removePeer e).removeFormation e

/-- The endpoint is in the table of each kind: which tables hold it. -/
structure Holds (t : PeerTables) (e : EndpointId) (formation lookup known : Prop) : Prop where
  formationPeers : e ∈ t.formationPeers ↔ formation
  memoryLookup : e ∈ t.memoryLookup ↔ lookup
  knownPeers : e ∈ t.knownPeers ↔ known

variable {t : PeerTables} {e e' : EndpointId} {addrs : Std.ExtTreeSet String} {p q r : Prop}

theorem Holds.iff {p' q' r'} (h : t.Holds e p q r) : t.Holds e p' q' r' ↔ (p ↔ p') ∧ (q ↔ q') ∧ (r ↔ r') := by
  constructor
  · intro h'
    exact ⟨h.1.symm.trans h'.1, h.2.symm.trans h'.2, h.3.symm.trans h'.3⟩
  · rintro ⟨hp, hq, hr⟩
    exact ⟨h.1.trans hp, h.2.trans hq, h.3.trans hr⟩

theorem holds_empty : empty.Holds e False False False := by
  constructor <;> simp [empty]

theorem mem_knownPeers_addPeer : e' ∈ (t.addPeer e).knownPeers ↔ e' = e ∨ e' ∈ t.knownPeers := by
  unfold addPeer
  split
  · rename_i h
    constructor
    · exact .inr
    · rintro (rfl | h')
      · exact h
      · exact h'
  · simp [or_comm]

theorem Holds.letIn (h : t.Holds e' p q r) : (t.letIn e addrs).Holds e' (e' = e ∨ p) (e' = e ∨ q) (e' = e ∨ r) := by
  have hpeer : ∀ {t : PeerTables}, (t.addPeer e).formationPeers = t.formationPeers ∧
      (t.addPeer e).memoryLookup = t.memoryLookup := by
    intro t
    unfold addPeer
    split <;> exact ⟨rfl, rfl⟩
  constructor
  · simp [PeerTables.letIn, insertFormation, hpeer, addEndpointInfo, h.1, @eq_comm _ e' e]
  · simp [PeerTables.letIn, insertFormation, hpeer, addEndpointInfo, h.2, @eq_comm _ e' e]
  · simp [PeerTables.letIn, insertFormation, mem_knownPeers_addPeer, addEndpointInfo, h.3]

theorem Holds.drop (h : t.Holds e' p q r) : (t.drop e).Holds e' (e' ≠ e ∧ p) (e' ≠ e ∧ q) (e' ≠ e ∧ r) := by
  constructor
  · simp [PeerTables.drop, removeFormation, removePeer, removeEndpointInfo, h.1, @eq_comm _ e' e]
  · simp [PeerTables.drop, removeFormation, removePeer, removeEndpointInfo, h.2, @eq_comm _ e' e]
  · simp [PeerTables.drop, removeFormation, removePeer, removeEndpointInfo, h.3, and_comm]

theorem Holds.setEndpointInfo (h : t.Holds e' p q r) : (t.setEndpointInfo e addrs).Holds e' p (e' = e ∨ q) r := by
  refine ⟨h.1, ?_, h.3⟩
  simp [PeerTables.setEndpointInfo, h.2, @eq_comm _ e' e]

end PeerTables

/-! ## Events -/

/-- A discovery event, with the certificates (none where the connector has
no bundle) and the time the connector reads while it handles it. -/
structure Discovery where
  event : DiscoveryEvent
  certificateBundle : Option CertificateBundle
  nowMs : UInt64

/-- What stays the same while a connector runs: its formation secret, the
functions of other packages it calls, and its own endpoint. -/
structure ConnectorContext where
  formationSecret : List UInt8
  kd : KeyDerivation
  ed : Ed25519
  myEndpointId : EndpointId

namespace ConnectorContext

variable (ctx : ConnectorContext)

variable (ds : List Discovery) (d : Discovery)

def connector : PeerConnector := ⟨ctx.formationSecret, d.certificateBundle⟩

def derive (nodeId : String) : EndpointId :=
  (PeerConnector.mk ctx.formationSecret none).derivePeerEndpointId ctx.kd nodeId

def admits (nodeId : String) : Bool := (ctx.connector d).admits ctx.ed nodeId d.nowMs

def handle (t : PeerTables) (d : Discovery) : PeerTables :=
  match d.event with
  | .peerFound info =>
    let endpointId := (ctx.connector d).derivePeerEndpointId ctx.kd info.nodeId
    if endpointId = ctx.myEndpointId then t
    else if !ctx.admits d info.nodeId then t
    else t.letIn endpointId (.ofList info.addresses)
  | .peerLost nodeId => t.drop ((ctx.connector d).derivePeerEndpointId ctx.kd nodeId)
  | .peerUpdated info =>
    let endpointId := (ctx.connector d).derivePeerEndpointId ctx.kd info.nodeId
    if endpointId = ctx.myEndpointId then t
    else if !ctx.admits d info.nodeId then t.drop endpointId
    else t.setEndpointInfo endpointId (.ofList info.addresses)

def run : PeerTables := ds.foldl ctx.handle .empty

def subject : String :=
  match d.event with
  | .peerFound info | .peerUpdated info => info.nodeId
  | .peerLost nodeId => nodeId

variable (n : String)

def Passes (d : Discovery) : Prop := d.event.Reports n ∧ ctx.admits d n = true

def Ends (d : Discovery) : Prop :=
  (d.event.Reports n ∧ ctx.admits d n = false) ∨ d.event = .peerLost n

def Admitted : Prop := Since (ctx.Passes n) (ctx.Ends n) ds

def Expected (e : EndpointId) : Prop :=
  e ≠ ctx.myEndpointId ∧ ∃ n, ctx.derive n = e ∧ ctx.Admitted ds n

/-- The three tables hold the endpoints of the admitted peers. -/
def Consistent (t : PeerTables) (ds : List Discovery) : Prop :=
  ∀ e, t.Holds e (ctx.Expected ds e) (ctx.Expected ds e) (ctx.Expected ds e)

def Shared : Prop :=
  ∃ n', n' ≠ n ∧ ctx.derive n' = ctx.derive n ∧ ctx.Admitted ds n'

/-- The event changes the three tables alike. -/
def Keeps : Prop :=
  ctx.derive (subject d) ≠ ctx.myEndpointId →
    match d.event with
    | .peerFound info => ctx.admits d info.nodeId = false → ctx.Admitted ds info.nodeId → ctx.Shared ds info.nodeId
    | .peerLost nodeId => ¬ ctx.Shared ds nodeId
    | .peerUpdated info =>
      if ctx.admits d info.nodeId then ctx.Admitted ds info.nodeId ∨ ctx.Shared ds info.nodeId
      else ¬ ctx.Shared ds info.nodeId

/-! ## One event -/

variable {ctx} {ds : List Discovery} {d : Discovery} {n : String} {e : EndpointId} {t : PeerTables}

theorem Passes.subject_eq (h : ctx.Passes n d) : subject d = n := by
  obtain ⟨hreports, -⟩ := h
  unfold DiscoveryEvent.Reports at hreports
  unfold subject
  split at hreports <;> simp_all

theorem Ends.subject_eq (h : ctx.Ends n d) : subject d = n := by
  obtain ⟨hreports, -⟩ | hlost := h
  · unfold DiscoveryEvent.Reports at hreports
    unfold subject
    split at hreports <;> simp_all
  · simp [subject, hlost]

theorem admitted_concat : ctx.Admitted (ds ++ [d]) n ↔ ctx.Passes n d ∨ (ctx.Admitted ds n ∧ ¬ ctx.Ends n d) :=
  since_concat

theorem admitted_concat_of_ne (h : n ≠ subject d) : ctx.Admitted (ds ++ [d]) n ↔ ctx.Admitted ds n := by
  rw [admitted_concat]
  have hpasses : ¬ ctx.Passes n d := fun hp => h hp.subject_eq.symm
  have hends : ¬ ctx.Ends n d := fun he => h he.subject_eq.symm
  tauto

theorem shared_concat : ctx.Shared (ds ++ [d]) (subject d) ↔ ctx.Shared ds (subject d) := by
  refine exists_congr fun n' => and_congr_right fun hne => and_congr_right fun _ => ?_
  exact admitted_concat_of_ne hne

theorem expected_derive : ctx.Expected ds (ctx.derive n) ↔
    ctx.derive n ≠ ctx.myEndpointId ∧ (ctx.Admitted ds n ∨ ctx.Shared ds n) := by
  refine and_congr_right fun _ => ?_
  constructor
  · rintro ⟨n', hn', hadm⟩
    by_cases hne : n' = n
    · exact .inl (hne ▸ hadm)
    · exact .inr ⟨n', hne, hn', hadm⟩
  · rintro (hadm | ⟨n', -, hn', hadm⟩)
    · exact ⟨n, rfl, hadm⟩
    · exact ⟨n', hn', hadm⟩

theorem expected_concat_of_ne (h : e ≠ ctx.derive (subject d)) : ctx.Expected (ds ++ [d]) e ↔ ctx.Expected ds e := by
  refine and_congr_right fun _ => exists_congr fun n => and_congr_right fun hn => ?_
  refine admitted_concat_of_ne ?_
  rintro rfl
  exact h hn.symm

theorem expected_concat_of_passes (h : ctx.Passes (subject d) d) :
    ctx.Expected (ds ++ [d]) (ctx.derive (subject d)) ↔ ctx.derive (subject d) ≠ ctx.myEndpointId := by
  rw [expected_derive, admitted_concat]
  simp [h]

theorem expected_concat_of_ends (h : ctx.Ends (subject d) d) (hpasses : ¬ ctx.Passes (subject d) d) :
    ctx.Expected (ds ++ [d]) (ctx.derive (subject d)) ↔
      ctx.derive (subject d) ≠ ctx.myEndpointId ∧ ctx.Shared ds (subject d) := by
  rw [expected_derive, admitted_concat, shared_concat]
  simp [h, hpasses]

theorem consistent_concat_of_holds {p q r : EndpointId → Prop} (h : ∀ e, t.Holds e (p e) (q e) (r e))
    (hne : ∀ e, e ≠ ctx.derive (subject d) →
      (p e ↔ ctx.Expected ds e) ∧ (q e ↔ ctx.Expected ds e) ∧ (r e ↔ ctx.Expected ds e)) :
    ctx.Consistent t (ds ++ [d]) ↔
      (p (ctx.derive (subject d)) ↔ ctx.Expected (ds ++ [d]) (ctx.derive (subject d))) ∧
      (q (ctx.derive (subject d)) ↔ ctx.Expected (ds ++ [d]) (ctx.derive (subject d))) ∧
      (r (ctx.derive (subject d)) ↔ ctx.Expected (ds ++ [d]) (ctx.derive (subject d))) := by
  constructor
  · intro hc
    exact (h _).iff.mp (hc _)
  · intro hsub e
    by_cases he : e = ctx.derive (subject d)
    · rw [he]
      exact (h _).iff.mpr hsub
    · rw [expected_concat_of_ne he]
      exact (h e).iff.mpr (hne e he)

theorem consistent_concat_same (h : ctx.Consistent t ds) : ctx.Consistent t (ds ++ [d]) ↔
    (ctx.Expected ds (ctx.derive (subject d)) ↔ ctx.Expected (ds ++ [d]) (ctx.derive (subject d))) := by
  rw [consistent_concat_of_holds h fun e _ => ⟨.rfl, .rfl, .rfl⟩]
  simp

theorem consistent_concat_letIn (h : ctx.Consistent t ds) {addrs} :
    ctx.Consistent (t.letIn (ctx.derive (subject d)) addrs) (ds ++ [d]) ↔
      ctx.Expected (ds ++ [d]) (ctx.derive (subject d)) := by
  rw [consistent_concat_of_holds fun e => (h e).letIn]
  · simp
  · intro e he
    simp [he]

theorem consistent_concat_drop (h : ctx.Consistent t ds) :
    ctx.Consistent (t.drop (ctx.derive (subject d))) (ds ++ [d]) ↔
      ¬ ctx.Expected (ds ++ [d]) (ctx.derive (subject d)) := by
  rw [consistent_concat_of_holds fun e => (h e).drop]
  · simp
  · intro e he
    simp [he]

theorem consistent_concat_setEndpointInfo (h : ctx.Consistent t ds) {addrs} :
    ctx.Consistent (t.setEndpointInfo (ctx.derive (subject d)) addrs) (ds ++ [d]) ↔
      ctx.Expected ds (ctx.derive (subject d)) ∧ ctx.Expected (ds ++ [d]) (ctx.derive (subject d)) := by
  rw [consistent_concat_of_holds fun e => (h e).setEndpointInfo]
  · tauto
  · intro e he
    simp [he]

theorem consistent_handle (h : ctx.Consistent t ds) : ctx.Consistent (ctx.handle t d) (ds ++ [d]) ↔ ctx.Keeps ds d := by
  cases hev : d.event with
  | peerLost nodeId =>
    have hsub : nodeId = subject d := by simp [subject, hev]
    have hhandle : ctx.handle t d = t.drop (ctx.derive (subject d)) := by
      simp only [handle, hev, hsub]
      rfl
    have hends : ctx.Ends (subject d) d := .inr (by rw [hev, hsub])
    have hpasses : ¬ ctx.Passes (subject d) d := by simp [Passes, hev, DiscoveryEvent.Reports]
    rw [hhandle, consistent_concat_drop h, expected_concat_of_ends hends hpasses, not_and, Keeps]
    simp only [hev, hsub]
  | peerFound info | peerUpdated info =>
    have hsub : info.nodeId = subject d := by simp [subject, hev]
    have hreports : d.event.Reports (subject d) := by rw [hev]; exact hsub
    have hderive : (ctx.connector d).derivePeerEndpointId ctx.kd (subject d) = ctx.derive (subject d) := rfl
    simp only [handle, Keeps, hev, hsub, hderive]
    by_cases hown : ctx.derive (subject d) = ctx.myEndpointId
    · rw [if_pos hown, consistent_concat_same h]
      simp [Expected, hown]
    rw [if_neg hown]
    cases hadmits : ctx.admits d (subject d) with
    | true =>
      simp [consistent_concat_letIn h, consistent_concat_setEndpointInfo h,
        expected_concat_of_passes ⟨hreports, hadmits⟩, expected_derive, hown]
    | false =>
      have hpasses : ¬ ctx.Passes (subject d) d := fun hp => by simp [hp.2] at hadmits
      simp [consistent_concat_same h, consistent_concat_drop h,
        expected_concat_of_ends (.inl ⟨hreports, hadmits⟩) hpasses, expected_derive, hown]

/-! ## Every event -/

theorem consistent_nil : ctx.Consistent (ctx.run []) [] := by
  intro e
  refine PeerTables.holds_empty.iff.mpr ?_
  simp [Expected, Admitted, Since]

theorem run_concat : ctx.run (ds ++ [d]) = ctx.handle (ctx.run ds) d := by
  simp [run, List.foldl_append]

/-- The tables hold the admitted peers' endpoints after every event exactly when no find fails for one admitted, no
update passes for one that is not, and of two node ids with one endpoint neither is lost or rejected while the other
is admitted. -/
theorem consistent_iff_keeps (ctx : ConnectorContext) (ds : List Discovery) :
    (∀ ds', ds' <+: ds → ctx.Consistent (ctx.run ds') ds') ↔ ∀ ds' d, ds' ++ [d] <+: ds → ctx.Keeps ds' d := by
  refine forall_prefix_iff (P := fun ds => ctx.Consistent (ctx.run ds) ds) consistent_nil (fun ds d hbefore => ?_) ds
  rw [run_concat]
  exact consistent_handle (hbefore ds (List.prefix_refl ds))

end ConnectorContext

/-! A member is found before it is enrolled, and updated after. -/

def memberContext : ConnectorContext :=
  ⟨List.replicate 32 9, .ofB, .knowing [memberCertificate], Vector.replicate 32 1⟩

def memberInfo : PeerInfo := ⟨"b", ["10.0.0.2:4001"], none, 0, []⟩

theorem enrolledMember_in_lookup_only :
    let t := memberContext.run
      [⟨.peerFound memberInfo, some .new, 2000⟩, ⟨.peerUpdated memberInfo, some memberBundle, 3000⟩]
    memberContext.derive "b" ∈ t.memoryLookup ∧ memberContext.derive "b" ∉ t.formationPeers ∧
      memberContext.derive "b" ∉ t.knownPeers := by
  decide +kernel

end PeatMesh
