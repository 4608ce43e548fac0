/-
The transport manager (`transport/manager.rs`, `transport/capabilities.rs`):
which of the registered transports a message to a peer goes by. A transport is
chosen from the per-peer cache, or by score; `connect_with_fallback` dials the
candidates in order of score. Only the scoring way asks that the estimated
delivery time keeps the latency limit.
-/
import Std.Data.ExtTreeMap
import PeatMesh.Ranking
import PeatMesh.Store

namespace PeatMesh

open Ranking List

/-! ## Capabilities and requirements -/

inductive TransportType
  | quic
  | bluetoothClassic
  | bluetoothLE
  | wifiDirect
  | loRa
  | tacticalRadio
  | satellite
  | custom (id : UInt32)
  deriving DecidableEq, Repr

/-- `MessagePriority`, in its order. -/
inductive MessagePriority
  | background
  | normal
  | high
  | critical
  deriving DecidableEq, Repr

def MessagePriority.rank : MessagePriority → Nat
  | .background => 0
  | .normal => 1
  | .high => 2
  | .critical => 3

/-- `MessageRequirements`, what selection reads of it. -/
structure MessageRequirements where
  minBandwidthBps : UInt64 := 0
  maxLatencyMs : Option UInt32 := none
  messageSize : UInt64 := 0
  reliable : Bool := false
  priority : MessagePriority := .normal
  powerSensitive : Bool := false

/-- `TransportCapabilities`, likewise. -/
structure TransportCapabilities where
  transportType : TransportType
  maxBandwidthBps : UInt64
  typicalLatencyMs : UInt32
  reliable : Bool
  batteryImpact : UInt8
  maxMessageSize : UInt64

namespace TransportCapabilities

def quic : TransportCapabilities := ⟨.quic, 100000000, 10, true, 20, 0⟩

def lora (spreadingFactor : UInt8) : TransportCapabilities :=
  let (bandwidth, latency) : UInt64 × UInt32 :=
    match spreadingFactor with
    | 7 => (21900, 100)
    | 8 => (12500, 150)
    | 9 => (7000, 200)
    | 10 => (3900, 300)
    | 11 => (2100, 500)
    | 12 => (1100, 1000)
    | _ => (5000, 300)
  ⟨.loRa, bandwidth, latency, false, 10, 255⟩

variable (c : TransportCapabilities)

def meetsRequirements (req : MessageRequirements) : Bool :=
  if req.reliable && !c.reliable then false
  else if 0 < c.maxBandwidthBps && c.maxBandwidthBps < req.minBandwidthBps then false
  else if 0 < c.maxMessageSize && c.maxMessageSize < req.messageSize then false
  else true

def estimateDeliveryMs (messageSize : UInt64) : UInt32 :=
  let transferTime : UInt32 :=
    if c.maxBandwidthBps = 0 then 0 else (messageSize * 1000 / c.maxBandwidthBps).toUInt32
  c.typicalLatencyMs + transferTime

def score (signalQuality : Option UInt8) (req : MessageRequirements) (preferenceBonus : Int32) : Int32 :=
  let latency : Int32 :=
    if MessagePriority.high.rank ≤ req.priority.rank then 50 - (min c.typicalLatencyMs 50).toInt32 else 0
  let power : Int32 := if req.powerSensitive then c.batteryImpact.toUInt32.toInt32 else 0
  let signal : Int32 :=
    match signalQuality with
    | some quality => (quality / 10).toUInt32.toInt32
    | none => 0
  100 + latency - power + preferenceBonus + signal

end TransportCapabilities

/-- A `Transport`, as it answers at the time of a call; the last two are
provided by the trait and may be overridden. -/
structure Transport where
  capabilities : TransportCapabilities
  isAvailable : Bool
  signalQuality : Option UInt8
  canReach : String → Bool
  estimateDeliveryMs : UInt64 → UInt32 := capabilities.estimateDeliveryMs
  calculateScore : MessageRequirements → Int32 → Int32 := capabilities.score signalQuality

namespace Transport

def usable (t : Transport) (peer : String) (req : MessageRequirements) : Bool :=
  t.isAvailable && t.canReach peer && t.capabilities.meetsRequirements req

def inTime (t : Transport) (req : MessageRequirements) : Bool :=
  match req.maxLatencyMs with
  | some maxLatency => t.estimateDeliveryMs req.messageSize ≤ maxLatency
  | none => true

/-- The transport meets every requirement of the message. -/
structure Suits (t : Transport) (peer : String) (req : MessageRequirements) : Prop where
  available : t.isAvailable = true
  reaches : t.canReach peer = true
  meets : t.capabilities.meetsRequirements req = true
  inTime : ∀ maxLatency, req.maxLatencyMs = some maxLatency → t.estimateDeliveryMs req.messageSize ≤ maxLatency

theorem suits_iff {t : Transport} {peer req} :
    t.Suits peer req ↔ t.usable peer req = true ∧ t.inTime req = true := by
  have hinTime : t.inTime req = true ↔
      ∀ maxLatency, req.maxLatencyMs = some maxLatency → t.estimateDeliveryMs req.messageSize ≤ maxLatency := by
    unfold Transport.inTime
    cases req.maxLatencyMs <;> simp
  rw [hinTime]
  simp only [usable, Bool.and_eq_true]
  exact ⟨fun h => ⟨⟨⟨h.available, h.reaches⟩, h.meets⟩, h.inTime⟩,
    fun ⟨⟨⟨ha, hr⟩, hm⟩, ht⟩ => ⟨ha, hr, hm, ht⟩⟩

end Transport

open Transport

/-! ## The manager -/

/-- `TransportManagerConfig`, what choosing by type reads of it. -/
structure TransportManagerConfig where
  preferenceOrder : List TransportType
  enableFallback : Bool
  cachePeerTransport : Bool

def TransportManagerConfig.default : TransportManagerConfig :=
  ⟨[.quic, .wifiDirect, .bluetoothLE, .loRa], true, true⟩

inductive TransportError
  | connectionFailed (msg : String)
  | peerNotFound (msg : String)
  | alreadyConnected (msg : String)
  | notStarted
  | other (err : String)
  deriving DecidableEq, Repr

/-- `TransportManager`: the registered transports by type, in the order the
hash map iterates, and the transport last used for each peer. -/
structure TransportManager where
  config : TransportManagerConfig
  transports : List (TransportType × Transport)
  peerTransports : Std.ExtTreeMap String TransportType
  nodup : (transports.map Prod.fst).Nodup

namespace TransportManager

def new (config : TransportManagerConfig) : TransportManager := ⟨config, [], ∅, List.nodup_nil⟩

variable (m : TransportManager) (peer : String) (tt : TransportType)

def unregister : TransportManager :=
  { m with
    transports := m.transports.filter (·.1 ≠ tt)
    nodup := m.nodup.sublist (List.filter_sublist.map _) }

def register (t : Transport) : TransportManager :=
  { m with
    transports := (t.capabilities.transportType, t) :: (m.unregister t.capabilities.transportType).transports
    nodup := by
      rw [List.map_cons, List.nodup_cons]
      refine ⟨fun hmem => ?_, (m.unregister t.capabilities.transportType).nodup⟩
      obtain ⟨e, he, heq⟩ := List.mem_map.mp hmem
      simp [unregister, heq] at he }

def getTransport : Option Transport := m.transports.lookup tt

def availableTransports : List TransportType :=
  (m.transports.filter fun e => e.2.isAvailable && e.2.canReach peer).map Prod.fst

def preferenceBonus : Int32 :=
  match m.config.preferenceOrder.findIdx? (· = tt) with
  | some idx => 20 - (Int32.ofNat idx * 5)
  | none => 0

variable (req : MessageRequirements)

def score (e : TransportType × Transport) : Int32 :=
  e.2.calculateScore req (m.preferenceBonus e.1)

def recordSuccess : TransportManager :=
  if m.config.cachePeerTransport then { m with peerTransports := m.peerTransports.insert peer tt } else m

def clearCache : TransportManager :=
  { m with peerTransports := m.peerTransports.erase peer }

def cached : Option TransportType :=
  if m.config.cachePeerTransport then m.peerTransports[peer]? else none

def selectCandidates : List (TransportType × Int32) :=
  (m.availableTransports peer).filterMap fun tt =>
    (m.getTransport tt).bind fun t =>
      if !t.capabilities.meetsRequirements req then none
      else if !t.inTime req then none
      else some (tt, m.score req (tt, t))

def fallbackCandidates : List (TransportType × Int32) :=
  (m.availableTransports peer).filterMap fun tt =>
    (m.getTransport tt).bind fun t =>
      if !t.capabilities.meetsRequirements req then none
      else some (tt, m.score req (tt, t))

def maxByScore (l : List (TransportType × Int32)) : Option (TransportType × Int32) :=
  l.foldl (fun best e =>
    match best with
    | none => some e
    | some b => if e.2 < b.2 then some b else some e) none

def selectTransport : Option TransportType :=
  match m.cached peer with
  | some tt =>
    if (m.getTransport tt).any (·.usable peer req) then some tt
    else (maxByScore (m.selectCandidates peer req)).map (·.1)
  | none => (maxByScore (m.selectCandidates peer req)).map (·.1)

/-- What dialling comes to: the transport that connected or the error, the
transports dialled, and the manager after. -/
structure Dialled where
  result : Except TransportError TransportType
  dialled : List TransportType
  manager : TransportManager

variable (dial : TransportType → Except TransportError Unit)

def connect : Dialled :=
  match m.selectTransport peer req with
  | none => ⟨.error (.peerNotFound s!"No suitable transport for {peer}"), [], m⟩
  | some tt =>
    match m.getTransport tt with
    | none => ⟨.error .notStarted, [], m⟩
    | some _ =>
      match dial tt with
      | .ok () => ⟨.ok tt, [tt], m.recordSuccess peer tt⟩
      | .error e => ⟨.error e, [tt], m⟩

def dialInOrder (peer : String) (dial : TransportType → Except TransportError Unit) (m : TransportManager)
    (lastError : Option TransportError) : List (TransportType × Int32) → Dialled
  | [] => ⟨.error (lastError.getD (.peerNotFound s!"All transports failed for {peer}")), [], m⟩
  | (tt, _) :: rest =>
    match m.getTransport tt with
    | none => dialInOrder peer dial m lastError rest
    | some _ =>
      match dial tt with
      | .ok () => ⟨.ok tt, [tt], m.recordSuccess peer tt⟩
      | .error e =>
        if !m.config.enableFallback then ⟨.error e, [tt], m⟩
        else
          let r := dialInOrder peer dial (m.clearCache peer) (some e) rest
          { r with dialled := tt :: r.dialled }

def connectWithFallback : Dialled :=
  match rank (·.2.toInt) (m.fallbackCandidates peer req) with
  | [] => ⟨.error (.peerNotFound s!"No suitable transport for {peer}"), [], m⟩
  | sorted => dialInOrder peer dial m none sorted

/-! ## The candidates -/

variable {m : TransportManager} {peer : String} {req : MessageRequirements} {tt : TransportType} {t : Transport}

theorem getTransport_eq_some_iff : m.getTransport tt = some t ↔ (tt, t) ∈ m.transports := by
  unfold getTransport
  have hnodup := m.nodup
  generalize m.transports = l at hnodup
  induction l with
  | nil => simp
  | cons e l ih =>
    obtain ⟨ett, et⟩ := e
    obtain ⟨hnot, hnodup⟩ := nodup_cons.mp hnodup
    rw [lookup_cons]
    by_cases heq : tt = ett
    · subst heq
      simp only [beq_self_eq_true, mem_cons, Prod.mk.injEq, true_and, Option.some.injEq]
      refine ⟨fun h => .inl h.symm, ?_⟩
      rintro (h | h)
      · exact h.symm
      · exact absurd (mem_map_of_mem h) hnot
    · simp only [mem_cons, Prod.mk.injEq, heq, false_and, false_or, beq_false_of_ne heq]
      exact ih hnodup

theorem mem_availableTransports : tt ∈ m.availableTransports peer ↔
    ∃ t, m.getTransport tt = some t ∧ t.isAvailable = true ∧ t.canReach peer = true := by
  simp only [availableTransports, mem_map, mem_filter, Bool.and_eq_true, getTransport_eq_some_iff,
    Prod.exists, exists_and_right, exists_eq_right]

theorem mem_selectCandidates {score} (h : (tt, score) ∈ m.selectCandidates peer req) :
    ∃ t, m.getTransport tt = some t ∧ t.Suits peer req := by
  obtain ⟨tt', havailable, hsome⟩ := mem_filterMap.mp h
  obtain ⟨t, ht, hsome⟩ := Option.bind_eq_some_iff.mp hsome
  obtain ⟨t', ht', hup, hreach⟩ := mem_availableTransports.mp havailable
  rw [ht] at ht'
  cases ht'
  split at hsome
  · cases hsome
  next hmeets =>
    split at hsome
    · cases hsome
    next htime =>
      cases hsome
      refine ⟨t, ht, suits_iff.mpr ⟨?_, by simpa using htime⟩⟩
      simpa [usable, hup, hreach] using hmeets

theorem mem_of_maxByScore {l e}
    (h : maxByScore l = some e) : e ∈ l := by
  -- over the prefix read so far, the best is one read or the one it began with
  have hfold (best : Option (TransportType × Int32)) :
      l.foldl (fun best e =>
        match best with
        | none => some e
        | some b => if e.2 < b.2 then some b else some e) best = some e → e ∈ l ∨ best = some e := by
    clear h
    induction l generalizing best with
    | nil => exact .inr
    | cons a l ih =>
      intro h
      rcases ih _ h with hmem | hbest
      · exact .inl (mem_cons_of_mem a hmem)
      cases best with
      | none => exact .inl (by simp_all)
      | some b =>
        simp only at hbest
        split at hbest
        · exact .inr hbest
        · exact .inl (by simp_all)
  exact (hfold none h).resolve_right (by simp)

def usableTransports (m : TransportManager) (peer : String) (req : MessageRequirements) :
    List (TransportType × Transport) :=
  m.transports.filter (·.2.usable peer req)

theorem fallbackCandidates_eq : m.fallbackCandidates peer req =
    (m.usableTransports peer req).map fun e => (e.1, m.score req e) := by
  rw [fallbackCandidates, availableTransports, usableTransports, filterMap_map, filterMap_filter,
    ← filterMap_eq_map, filterMap_filter]
  refine filterMap_congr fun e he => ?_
  have hget : m.getTransport e.1 = some e.2 := getTransport_eq_some_iff.mpr he
  simp only [Function.comp_apply, hget, Option.bind_some, usable, Bool.and_eq_true]
  by_cases hreach : e.2.isAvailable = true ∧ e.2.canReach peer = true
  · by_cases hmeets : e.2.capabilities.meetsRequirements req = true <;> simp [hreach, hmeets]
  · rw [if_neg hreach, if_neg fun h => hreach h.1]

theorem nodup_usableTransports : (m.usableTransports peer req).Nodup :=
  (Nodup.of_map _ m.nodup).filter _

/-! ## Dialling -/

section Dialling

variable {dial : TransportType → Except TransportError Unit}

def ends (m : TransportManager) (dial : TransportType → Except TransportError Unit) (tt : TransportType) : Bool :=
  (dial tt).isOk || !m.config.enableFallback

theorem dialled_dialInOrder {l lastError}
    (h : ∀ e ∈ l, (m.getTransport e.1).isSome) :
    (dialInOrder peer dial m lastError l).dialled = (tried (fun e => m.ends dial e.1) l).map (·.1) := by
  induction l generalizing m lastError with
  | nil => rfl
  | cons e l ih =>
    obtain ⟨t, ht⟩ := Option.isSome_iff_exists.mp (h e (by simp))
    simp only [dialInOrder, ht, tried]
    split
    next hdial => simp [ends, hdial, Except.isOk, Except.toBool]
    next err hdial =>
      by_cases hfallback : m.config.enableFallback = true
      · have hends : m.ends dial e.1 = false := by simp [ends, hdial, hfallback, Except.isOk, Except.toBool]
        have hrest : _ = (tried (fun e => m.ends dial e.1) l).map (·.1) :=
          @ih (m.clearCache peer) (some err) fun e he => h e (mem_cons_of_mem _ he)
        simp [hends, hfallback, hrest]
      · simp [ends, hfallback]

theorem dialled_connectWithFallback : (m.connectWithFallback peer req dial).dialled = (tried (fun e => m.ends dial e.1)
      (rank (fun e => (m.score req e).toInt) (m.usableTransports peer req))).map (·.1) := by
  have hsorted : rank (·.2.toInt) (m.fallbackCandidates peer req) =
      (rank (fun e => (m.score req e).toInt) (m.usableTransports peer req)).map fun e => (e.1, m.score req e) := by
    rw [fallbackCandidates_eq, rank_map]
    rfl
  have hregistered : ∀ e ∈ rank (·.2.toInt) (m.fallbackCandidates peer req), (m.getTransport e.1).isSome := by
    intro e he
    rw [hsorted] at he
    obtain ⟨u, hu, rfl⟩ := mem_map.mp he
    exact Option.isSome_iff_exists.mpr ⟨u.2, getTransport_eq_some_iff.mpr (mem_filter.mp (mem_rank.mp hu)).1⟩
  have hdialled : (m.connectWithFallback peer req dial).dialled =
      (dialInOrder peer dial m none (rank (·.2.toInt) (m.fallbackCandidates peer req))).dialled := by
    unfold connectWithFallback
    split
    next hnil => rw [hnil]; rfl
    next => rfl
  rw [hdialled, dialled_dialInOrder hregistered, hsorted, tried_map, map_map]
  rfl

end Dialling

/-! ## What is chosen meets the requirements -/

theorem suits_of_maxByScore (h : (maxByScore (m.selectCandidates peer req)).map (·.1) = some tt) :
    ∃ t, m.getTransport tt = some t ∧ t.Suits peer req := by
  obtain ⟨⟨tt', score⟩, he, rfl⟩ := Option.map_eq_some_iff.mp h
  exact mem_selectCandidates (mem_of_maxByScore he)

theorem select_suits_iff :
    (∀ tt, m.selectTransport peer req = some tt → ∃ t, m.getTransport tt = some t ∧ t.Suits peer req) ↔
      ∀ tt t, m.cached peer = some tt → m.getTransport tt = some t → t.usable peer req = true →
        t.inTime req = true := by
  constructor
  · intro h tt t hcached ht husable
    have hselect : m.selectTransport peer req = some tt := by
      simp [selectTransport, hcached, ht, husable]
    obtain ⟨t', ht', hsuits⟩ := h tt hselect
    rw [ht] at ht'
    cases ht'
    exact (suits_iff.mp hsuits).2
  · intro h tt hselect
    unfold selectTransport at hselect
    split at hselect
    next cached hcached =>
      split at hselect
      next hany =>
        cases hselect
        obtain ⟨t, ht, husable⟩ := (Option.any_eq_true ..).mp hany
        exact ⟨t, ht, suits_iff.mpr ⟨husable, h tt t hcached ht husable⟩⟩
      next => exact suits_of_maxByScore hselect
    next => exact suits_of_maxByScore hselect

theorem fallback_suits_iff {dial} :
    (∀ tt ∈ (m.connectWithFallback peer req dial).dialled,
        ∃ t, m.getTransport tt = some t ∧ t.Suits peer req) ↔
      ∀ e ∈ m.transports, e.2.usable peer req = true → e.2.inTime req = false →
        ∃ c ∈ m.transports, c.2.usable peer req = true ∧ m.ends dial c.1 = true ∧
          Before (fun e => (m.score req e).toInt) m.transports c e := by
  have hentry (e : TransportType × Transport) (he : e ∈ m.usableTransports peer req) :
      (∃ t, m.getTransport e.1 = some t ∧ t.Suits peer req) ↔ e.2.inTime req = true := by
    obtain ⟨hmem, husable⟩ := mem_filter.mp he
    simp only [getTransport_eq_some_iff.mpr hmem, Option.some.injEq, exists_eq_left', suits_iff, husable,
      true_and]
  have hbefore (c e : TransportType × Transport) (hc : c.2.usable peer req = true) (he : e.2.usable peer req = true) :
      Before (fun e => (m.score req e).toInt) (m.usableTransports peer req) c e ↔
        Before (fun e => (m.score req e).toInt) m.transports c e := by
    have hpair : [c, e].Sublist (m.usableTransports peer req) ↔ [c, e].Sublist m.transports := by
      refine ⟨fun h => h.trans filter_sublist, fun h => ?_⟩
      simpa [usableTransports, hc, he] using h.filter (·.2.usable peer req)
    rw [Before, Before, hpair]
  have hdialled : (∀ tt ∈ (m.connectWithFallback peer req dial).dialled,
      ∃ t, m.getTransport tt = some t ∧ t.Suits peer req) ↔
      ∀ e ∈ tried (fun e => m.ends dial e.1)
        (rank (fun e => (m.score req e).toInt) (m.usableTransports peer req)), e.2.inTime req = true := by
    rw [dialled_connectWithFallback, forall_mem_map]
    refine forall₂_congr fun e he => hentry e ?_
    exact mem_rank.mp ((mem_tried_iff (nodup_rank nodup_usableTransports)).mp he).1
  rw [hdialled, forall_tried_rank_iff nodup_usableTransports]
  constructor
  · intro h e he husable hslow
    obtain ⟨c, hc, hends, hb⟩ := h e (mem_filter.mpr ⟨he, husable⟩) (by simp [hslow])
    obtain ⟨hc, hcu⟩ := mem_filter.mp hc
    exact ⟨c, hc, hcu, hends, (hbefore c e hcu husable).mp hb⟩
  · intro h e he hslow
    obtain ⟨he, husable⟩ := mem_filter.mp he
    obtain ⟨c, hc, hcu, hends, hb⟩ := h e he husable (by simpa using hslow)
    exact ⟨c, mem_filter.mpr ⟨hc, hcu⟩, hends, (hbefore c e hcu husable).mpr hb⟩

/-- `select_transport` answers with one that meets every requirement exactly when the peer's cached transport, if
usable, keeps the latency limit; `connect_with_fallback` dials only such exactly when every usable transport that
does not keep it has one ranked before it that connects or ends the search. -/
theorem choice_suits_iff (m : TransportManager) (peer : String) (req : MessageRequirements)
    (dial : TransportType → Except TransportError Unit) :
    ((∀ tt, m.selectTransport peer req = some tt → ∃ t, m.getTransport tt = some t ∧ t.Suits peer req) ↔
      ∀ tt t, m.cached peer = some tt → m.getTransport tt = some t → t.usable peer req = true →
        t.inTime req = true) ∧
    ((∀ tt ∈ (m.connectWithFallback peer req dial).dialled,
        ∃ t, m.getTransport tt = some t ∧ t.Suits peer req) ↔
      ∀ e ∈ m.transports, e.2.usable peer req = true → e.2.inTime req = false →
        ∃ c ∈ m.transports, c.2.usable peer req = true ∧ m.ends dial c.1 = true ∧
          Before (fun e => (m.score req e).toInt) m.transports c e) :=
  ⟨select_suits_iff, fallback_suits_iff⟩

def loraInRange : Transport where
  capabilities := .lora 12
  isAvailable := true
  signalQuality := none
  canReach := fun _ => true

def loraUsedBefore : TransportManager :=
  ((TransportManager.new .default).register loraInRange).recordSuccess "peer" .loRa

/-- Ten bytes within 100 ms: the link takes 1,009, and is chosen all the same. -/
theorem loraUsedBefore_too_slow :
    let req : MessageRequirements := { maxLatencyMs := some 100, messageSize := 10 }
    loraUsedBefore.selectTransport "peer" req = some .loRa ∧
      (loraUsedBefore.connectWithFallback "peer" req fun _ => .ok ()).dialled = [.loRa] ∧
      loraUsedBefore.getTransport .loRa = some loraInRange ∧
      loraInRange.estimateDeliveryMs req.messageSize = 1009 ∧ ¬ loraInRange.Suits "peer" req := by
  refine ⟨by decide +kernel, by decide +kernel, rfl, by decide +kernel, fun hsuits => ?_⟩
  exact absurd (hsuits.inTime 100 rfl) (by decide +kernel)

end TransportManager

/-! ## Delivery estimates -/

namespace TransportCapabilities

variable {c : TransportCapabilities} {size smaller larger : UInt64}

def transferMs (c : TransportCapabilities) (size : UInt64) : Nat := size.toNat * 1000 / c.maxBandwidthBps.toNat

/-- Neither the product nor the sum of an estimate overflows. -/
def EstimateFits (c : TransportCapabilities) (size : UInt64) : Prop :=
  size.toNat * 1000 < 2 ^ 64 ∧ c.typicalLatencyMs.toNat + c.transferMs size % 2 ^ 32 < 2 ^ 32

theorem toNat_estimateDeliveryMs (hfits : size.toNat * 1000 < 2 ^ 64) :
    (c.estimateDeliveryMs size).toNat = (c.typicalLatencyMs.toNat + c.transferMs size % 2 ^ 32) % 2 ^ 32 := by
  have hproduct : (size * 1000).toNat = size.toNat * 1000 := by
    exact Nat.mod_eq_of_lt hfits
  unfold estimateDeliveryMs transferMs
  rw [UInt32.toNat_add]
  split
  · rename_i hzero
    simp [hzero]
  · rw [UInt64.toNat_toUInt32, UInt64.toNat_div, hproduct]

theorem estimateDeliveryMs_le (hle : smaller ≤ larger) (hfits : larger.toNat * 1000 < 2 ^ 64)
    (hrange : c.typicalLatencyMs.toNat + c.transferMs larger < 2 ^ 32) :
    c.estimateDeliveryMs smaller ≤ c.estimateDeliveryMs larger := by
  have hsize : smaller.toNat * 1000 ≤ larger.toNat * 1000 :=
    Nat.mul_le_mul_right _ (UInt64.le_iff_toNat_le.mp hle)
  have htransfer : c.transferMs smaller ≤ c.transferMs larger := Nat.div_le_div_right hsize
  rw [UInt32.le_iff_toNat_le, toNat_estimateDeliveryMs (Nat.lt_of_le_of_lt hsize hfits), toNat_estimateDeliveryMs hfits]
  omega

/-- An estimate is exact exactly if the product fits and the whole time does, or the time is cut off to the greatest
number. Where it fits, a larger message passes only where a smaller one does. -/
theorem estimate_delivery_iff (c : TransportCapabilities) :
    (∀ size : UInt64,
      (c.EstimateFits size ∧
          (c.estimateDeliveryMs size).toNat = min (c.typicalLatencyMs.toNat + c.transferMs size) (2 ^ 32 - 1)) ↔
        size.toNat * 1000 < 2 ^ 64 ∧
          (c.typicalLatencyMs.toNat + c.transferMs size < 2 ^ 32 ∨
            2 ^ 32 ≤ c.transferMs size ∧ c.typicalLatencyMs.toNat + c.transferMs size % 2 ^ 32 = 2 ^ 32 - 1)) ∧
      ∀ smaller larger : UInt64, smaller ≤ larger → larger.toNat * 1000 < 2 ^ 64 →
        c.typicalLatencyMs.toNat + c.transferMs larger < 2 ^ 32 →
        c.estimateDeliveryMs smaller ≤ c.estimateDeliveryMs larger ∧
          ∀ t : Transport, t.estimateDeliveryMs = c.estimateDeliveryMs → ∀ req : MessageRequirements,
            t.inTime { req with messageSize := larger } = true →
              t.inTime { req with messageSize := smaller } = true := by
  refine ⟨fun size => ?_, fun smaller larger hle hfits hrange => ?_⟩
  · unfold EstimateFits
    by_cases hfits : size.toNat * 1000 < 2 ^ 64
    · rw [toNat_estimateDeliveryMs hfits]
      omega
    · exact iff_of_false (fun h => hfits h.1.1) fun h => hfits h.1
  · have hmono := estimateDeliveryMs_le hle hfits hrange
    refine ⟨hmono, fun t ht req hin => ?_⟩
    unfold inTime at hin ⊢
    cases hlatency : req.maxLatencyMs with
    | none => simp
    | some maxLatency =>
      simp only [hlatency, ht, decide_eq_true_eq] at hin ⊢
      exact UInt32.le_trans hmono hin

/-- A link of one byte a second: a message of 4,294,968 bytes is estimated at less
than a second, one that is a byte shorter at 49 days. -/
theorem estimate_delivery_wraps :
    let c : TransportCapabilities := ⟨.loRa, 1, 10, false, 10, 0⟩
    c.estimateDeliveryMs 4294968 = 714 ∧ c.estimateDeliveryMs 4294967 = 4294967010 := by
  decide +kernel

end TransportCapabilities

end PeatMesh
