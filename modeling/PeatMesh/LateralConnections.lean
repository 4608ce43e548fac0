/-
The lateral connections of the topology manager (`topology/manager.rs`). The
event loop looks at the limit before it connects to a lateral peer, and drops the
connection to one that is lost; a retry task does neither.
-/
import PeatMesh.SelectedPeer

namespace PeatMesh

open Runs TopologyManager List Option Std.ExtTreeMap TopologyAction

def LateralLost (peerId : String) (taken : List TopologyEvent) : Prop :=
  Since (· = .lateralPeerLost peerId) (· = .lateralPeerDiscovered peerId) taken
  deriving Decidable

namespace TopologyAction

variable {Packet : Type}

def admits : TopologyAction Packet → Bool
  | .connect .lateral _ _ | .insertLateral _ => true
  | _ => false

def seeks : TopologyAction Packet → Option String
  | .checkLimit peerId | .connect .lateral peerId _ | .insertLateral peerId => some peerId
  | _ => none

def drops : TopologyAction Packet → Option String
  | .checkLateral peerId | .removeLateral peerId => some peerId
  | _ => none

def joins : TopologyAction Packet → Bool
  | .connect .lateral _ _ | .insertLateral _ | .scheduleRetry .lateral _ | .checkRetry .lateral _
  | .retry .lateral _ _ _ | .reschedule .lateral _ _ => true
  | _ => false

end TopologyAction

namespace TopologyEvent

variable {Packet : Type}

variable (event : TopologyEvent)

theorem seeks_actions : ∀ a ∈ (event.actions : List (TopologyAction Packet)), ∀ peerId,
    a.seeks = some peerId → event = .lateralPeerDiscovered peerId := by
  cases event <;> simp [actions, seeks]

theorem checkLimit_actions (peerId : String) (h : .checkLimit peerId ∈ (event.actions : List (TopologyAction Packet))) :
    (event.actions : List (TopologyAction Packet)) = [.checkLimit peerId] := by
  cases event <;> simp_all [actions]

theorem joins_actions : ∀ a ∈ (event.actions : List (TopologyAction Packet)),
    a.joins = false := by
  cases event <;> simp [actions, joins]

theorem countP_actions : (event.actions : List (TopologyAction Packet)).countP (·.admits) = 0 := by
  cases event <;> rfl

end TopologyEvent

namespace TopologyManager

variable {Packet : Type} {m : TopologyManager Packet} {ok : Bool} {a : TopologyAction Packet} {r : Performed Packet}
  {peerId : String}

/-- No more lateral peers than the limit. -/
def WithinLimit (m : TopologyManager Packet) : Prop :=
  ∀ limit, m.config.maxLateralConnections = some limit → m.lateralPeerCount ≤ limit

theorem lateralPeerCount_of_insert {m' : TopologyManager Packet}
    (h : m'.lateralConnections = m.lateralConnections.insert peerId peerId) (hnew : peerId ∉ m.lateralConnections) :
    m'.lateralPeerCount = m.lateralPeerCount + 1 := by
  rw [mem_iff_contains] at hnew
  rw [lateralPeerCount, h, size_insert, if_neg hnew]
  rfl

theorem mem_lateral_perform (h : m.perform ok a = some r) :
    peerId ∈ r.manager.lateralConnections ↔
      a = .insertLateral peerId ∨ (peerId ∈ m.lateralConnections ∧ a ≠ .removeLateral peerId) := by
  revert h
  fun_cases perform m ok a <;> rintro ⟨⟩ <;> (try cases ‹Tier›) <;> simp [setRetryState, clearRetryState]
  all_goals grind

theorem seeks_perform (h : m.perform ok a = some r) (hprompt : a.Prompt) :
    ∀ b ∈ r.next, b.seeks = some peerId → a.seeks = some peerId := by
  revert h hprompt
  fun_cases perform m ok a <;> rintro ⟨⟩ <;> (try cases ‹Tier›) <;>
    simp_all +contextual [or_imp, TopologyAction.Prompt, seeks]

theorem countP_stored {tier q clears} :
    (stored tier q clears : List (TopologyAction Packet)).countP (·.admits) = if tier = .lateral then 1 else 0 := by
  cases tier <;> cases clears <;> rfl

theorem room_perform (h : m.perform ok a = some r) (hprompt : a.Prompt) :
    r.manager.lateralPeerCount + r.next.countP (·.admits) ≤ m.lateralPeerCount + (if a.admits then 1 else 0) ∨
      (∃ q, a = .checkLimit q) ∧ m.atLimit = false ∧
        r.manager.lateralPeerCount + r.next.countP (·.admits) = m.lateralPeerCount + 1 := by
  revert h hprompt
  fun_cases perform m ok a <;> rintro ⟨⟩ <;> (try cases ‹Tier›) <;> (try rw [countP_stored]) <;>
    simp_all [TopologyAction.Prompt, admits, lateralPeerCount, setRetryState, clearRetryState, size_insert_le,
      size_erase_le, countP_map, Function.comp_def]

theorem drops_perform (h : m.perform ok a = some r) (hdrops : a.drops = some peerId)
    (hheld : peerId ∈ r.manager.lateralConnections) : ∃ b ∈ r.next, b.drops = some peerId := by
  revert h hdrops hheld
  fun_cases perform m ok a <;> rintro ⟨⟩ <;> simp_all [drops]
  rintro rfl
  assumption

theorem not_checkLimit_perform (h : m.perform ok a = some r) (q : String) : .checkLimit q ∉ r.next := by
  revert h
  fun_cases perform m ok a <;> rintro ⟨⟩ <;> simp

theorem spawned_perform (h : m.perform ok a = some r) (ha : a.Within 0) : r.spawned = [] := by
  revert h ha
  fun_cases perform m ok a <;> rintro ⟨⟩ <;> simp [TopologyAction.Within]

theorem joins_perform (h : m.perform ok a = some r) (ha : a.joins = false) (hlimit : m.atLimit = true) :
    ∀ b ∈ r.next ++ r.spawned.flatten, b.joins = false := by
  revert h ha
  fun_cases perform m ok a <;> rintro ⟨⟩ <;> (try cases ‹Tier›) <;> simp_all +contextual [joins, or_imp]

end TopologyManager

namespace Topology

variable {Packet : Type} {config : TopologyConfig} {s s' : Topology Packet} {l : TopologyLabel Packet}

/-- At rest no lost peer is connected. -/
def NoneLost (s : Topology Packet) : Prop :=
  s.Quiet → ∀ peerId, LateralLost peerId s.taken → peerId ∉ s.manager.lateralConnections

/-! ## Without retries -/

/-- The loop alone makes and drops connections. -/
structure Alone (config : TopologyConfig) (s : Topology Packet) : Prop where
  config_eq : s.manager.config = config
  retries : s.RetriesLeft
  accounted : s.Accounted
  idle : s.tasks = []
  room : ∀ limit, config.maxLateralConnections = some limit →
    s.manager.lateralPeerCount + s.loop.countP (·.admits) ≤ limit
  checks : ∀ q, .checkLimit q ∈ s.loop → s.loop = [.checkLimit q]
  seeks : ∀ a ∈ s.loop, ∀ peerId, a.seeks = some peerId → ¬ LateralLost peerId s.taken
  held : ∀ peerId, peerId ∈ s.manager.lateralConnections → LateralLost peerId s.taken →
    ∃ a ∈ s.loop, a.drops = some peerId

theorem Alone.recv {event queue} (h : Alone config s)
    (hretries : RetriesLeft { s with queue := queue, taken := s.taken ++ [event], loop := event.actions })
    (haccounted : Accounted { s with queue := queue, taken := s.taken ++ [event], loop := event.actions })
    (hloop : s.loop = []) :
    Alone config { s with queue := queue, taken := s.taken ++ [event], loop := event.actions } := by
  refine ⟨h.config_eq, hretries, haccounted, h.idle, fun limit hlimit => ?_, fun q hq => ?_, fun a ha p hp => ?_,
    fun p hmem hlost => ?_⟩
  · have hroom := h.room limit hlimit
    simpa [TopologyEvent.countP_actions, hloop] using hroom
  · exact event.checkLimit_actions q hq
  · have hevent := event.seeks_actions a ha p hp
    simp [LateralLost, since_concat, hevent]
  · rw [LateralLost, since_concat] at hlost
    rcases hlost with rfl | ⟨hlost, -⟩
    · exact ⟨.checkLateral p, by simp [TopologyEvent.actions], rfl⟩
    · obtain ⟨a, ha, -⟩ := h.held p hmem hlost
      rw [hloop] at ha
      cases ha

theorem Alone.step (h : Alone config s) (hzero : config.maxRetries = 0) (hstep : s.step l = some s') :
    Alone config s' := by
  have hretries := h.retries.step hstep
  have haccounted := h.accounted.step hstep
  cases step_cases hstep with
  | recv event queue _ hloop => exact h.recv hretries haccounted hloop
  | loop ok a rest r _ hloop hr =>
    have ha : a ∈ s.loop := by simp [hloop]
    have hprompt := h.accounted.prompt a ha
    have hwithin : a.Within 0 := by
      have := h.retries.loop a ha
      rwa [h.config_eq, hzero] at this
    refine ⟨(config_step hstep).trans h.config_eq, hretries, haccounted, ?_, fun limit hlimit => ?_, fun q hq => ?_,
      fun b hb p hp => ?_, fun p hmem hlost => ?_⟩
    · simp [h.idle, spawned_perform hr hwithin]
    · have hroom := h.room limit hlimit
      rw [hloop, countP_cons] at hroom
      show r.manager.lateralPeerCount + (r.next ++ rest).countP (·.admits) ≤ limit
      rw [countP_append]
      rcases room_perform hr hprompt with hle | ⟨⟨q, rfl⟩, hbelow, heq⟩
      · omega
      -- the check is all the loop has to do
      have halone := h.checks q ha
      rw [hloop] at halone
      cases halone
      have hlt : s.manager.lateralPeerCount < limit := by
        simpa [atLimit, h.config_eq, hlimit] using hbelow
      simp only [countP_nil]
      omega
    · rcases mem_append.mp hq with hq | hq
      · exact absurd hq (not_checkLimit_perform hr q)
      have halone := h.checks q (by simp [hloop, hq])
      rw [hloop] at halone
      cases halone
      cases hq
    · rcases mem_append.mp hb with hb | hb
      · exact h.seeks a ha p (seeks_perform hr hprompt b hb hp)
      · exact h.seeks b (by simp [hloop, hb]) p hp
    · rcases (mem_lateral_perform hr).mp hmem with rfl | ⟨hold, hne⟩
      · exact absurd hlost (h.seeks _ ha p rfl)
      obtain ⟨b, hb, hdrops⟩ := h.held p hold hlost
      rw [hloop, mem_cons] at hb
      rcases hb with rfl | hb
      · obtain ⟨c, hc, hdrops⟩ := drops_perform hr hdrops hmem
        exact ⟨c, mem_append_left _ hc, hdrops⟩
      · exact ⟨b, mem_append_right _ hb, hdrops⟩
  | task i ok a rest r htask => simp [h.idle] at htask
  | send | sendTelemetry | wait =>
    exact ⟨h.config_eq, hretries, haccounted, h.idle, h.room, h.checks, h.seeks, h.held⟩

theorem Alone.holds (h : Alone config s) : s.manager.WithinLimit ∧ s.NoneLost := by
  refine ⟨fun limit hlimit => ?_, fun hquiet peerId hlost hmem => ?_⟩
  · have hroom := h.room limit (h.config_eq ▸ hlimit)
    omega
  · obtain ⟨a, ha, -⟩ := h.held peerId hmem hlost
    rw [hquiet.1] at ha
    cases ha

theorem alone_start : Alone config (start config : Topology Packet) := by
  refine ⟨rfl, retriesLeft_start, ⟨rfl, by simp [start]⟩, rfl, fun limit _ => ?_, by simp [start], by simp [start], ?_⟩
  · simp [start, new, lateralPeerCount]
  · simp [start, new]

/-! ## Without a place -/

/-- There are no lateral connections, and none is about to be made. -/
structure Barred (config : TopologyConfig) (s : Topology Packet) : Prop where
  config_eq : s.manager.config = config
  empty : ∀ peerId, peerId ∉ s.manager.lateralConnections
  joins : ∀ a ∈ s.todo, a.joins = false

variable {ok : Bool} {a : TopologyAction Packet} {r : Performed Packet}

theorem Barred.acts (h : Barred config s)
    (hzero : config.maxLateralConnections = some 0) (hacts : s.Acts ok a r s') : Barred config s' := by
  obtain ⟨hr, hmanager, -, others, hbefore, hafter⟩ := hacts
  have hlimit : s.manager.atLimit = true := by simp [atLimit, h.config_eq, hzero]
  have hjoins : ∀ b ∈ a :: others, b.joins = false := fun b hb => h.joins b (hbefore.mem_iff.mpr hb)
  rw [forall_mem_cons] at hjoins
  refine ⟨by rw [hmanager, config_perform hr, h.config_eq], fun peerId hmem => ?_, fun b hb => ?_⟩
  · rw [hmanager, mem_lateral_perform hr] at hmem
    rcases hmem with rfl | ⟨hold, -⟩
    · cases hjoins.1
    · exact h.empty peerId hold
  · rcases mem_append.mp (hafter.mem_iff.mp hb) with hb | hb
    · exact joins_perform hr hjoins.1 hlimit b hb
    · exact hjoins.2 b hb

theorem Barred.step (h : Barred config s) (hzero : config.maxLateralConnections = some 0)
    (hstep : s.step l = some s') : Barred config s' := by
  cases step_cases hstep with
  | recv event queue _ hloop =>
    refine ⟨h.config_eq, h.empty, forall_mem_append.mpr ⟨event.joins_actions, fun a ha => ?_⟩⟩
    exact h.joins a (mem_append_right _ ha)
  | loop ok a rest r _ hloop hr => exact h.acts hzero (acts_loop hloop hr)
  | task i ok a rest r htask hr => exact h.acts hzero (acts_task htask hr)
  | send | sendTelemetry | wait => exact ⟨h.config_eq, h.empty, h.joins⟩

theorem Barred.holds (h : Barred config s) : s.manager.WithinLimit ∧ s.NoneLost := by
  refine ⟨fun limit _ => ?_, fun _ peerId _ => h.empty peerId⟩
  have hempty : s.manager.lateralConnections = ∅ :=
    eq_empty_iff_forall_not_mem.mpr h.empty
  simp [lateralPeerCount, hempty]

theorem barred_start : Barred config (start config : Topology Packet) :=
  ⟨rfl, by simp [start, new], by simp [start, todo]⟩

/-! ## With retries -/

def waiting (m : TopologyManager Packet) (events : List TopologyEvent) (peerId : String) (wakeAt : Nat) :
    Topology Packet :=
  ⟨m, events, [], events, [], false, [[.retry .lateral peerId 0 wakeAt]]⟩

section Waiting

variable (m : TopologyManager Packet) (events : List TopologyEvent) (peerId : String) (wakeAt : Nat)

variable {s : Topology Packet} {ls : List (TopologyLabel Packet)} {rest : List (TopologyAction Packet)}

theorem exec_event {event} (hqueue : s.queue = []) (hloop : s.loop = []) (hexited : s.exited = false) :
    exec step s (.send event :: .recv :: ls) = exec step { s with
      sent := s.sent ++ [event], taken := s.taken ++ [event], loop := event.actions } ls := by
  simp only [exec, step, hqueue, hloop, hexited, nil_append, bind_some]

theorem exec_loop (hloop : s.loop = a :: rest) (hexited : s.exited = false) (hr : s.manager.perform ok a = some r) :
    exec step s (.loop ok :: ls) = exec step { s with
      manager := r.manager, loop := r.next ++ rest, exited := r.exits, tasks := s.tasks ++ r.spawned } ls := by
  simp only [exec, step, hloop, hexited, hr, map_some, bind_some]

theorem exec_task {i} (htask : s.tasks[i]? = some (a :: rest)) (hr : s.manager.perform ok a = some r) :
    exec step s (.task i ok :: ls) = exec step { s with
      manager := r.manager, tasks := s.tasks.set i (r.next ++ rest) ++ r.spawned } ls := by
  simp only [exec, step, htask, hr, map_some, bind_some]

theorem exec_unreached (hretries : 0 < config.maxRetries)
    (hlimit : (TopologyManager.new config : TopologyManager Packet).atLimit = false) (peerId : String) :
    ∃ m : TopologyManager Packet, m.config = config ∧ m.lateralConnections = ∅ ∧
      exec step (start config)
        [.send (.lateralPeerDiscovered peerId), .recv, .loop true, .loop false, .loop true, .task 0 true] =
          some (waiting m [.lateralPeerDiscovered peerId] peerId (config.backoff 0)) := by
  let m : TopologyManager Packet := (new config).setRetryState .lateral peerId ⟨0, 0 + config.backoff 0⟩
  have hlimited : (new config : TopologyManager Packet).perform true (.checkLimit peerId) =
      (new config).goOn [.connect .lateral peerId true] := if_neg (by simp [hlimit])
  have hfailed : (new config : TopologyManager Packet).perform false (.connect .lateral peerId true) =
      (new config).goOn [.scheduleRetry .lateral peerId] := by
    simp only [perform, Bool.false_eq_true, if_false]
    exact if_pos hretries
  have hcheck : m.perform true (.checkRetry .lateral peerId) =
      m.goOn [.retry .lateral peerId 0 (0 + config.backoff 0)] := by
    have hstate : m.retryState .lateral peerId = some ⟨0, 0 + config.backoff 0⟩ := getElem?_insert_self
    simp only [perform, hstate]
    exact if_neg (Nat.not_le.mpr hretries)
  refine ⟨m, rfl, rfl, ?_⟩
  rw [exec_event rfl rfl rfl, exec_loop rfl rfl hlimited, exec_loop rfl rfl hfailed, exec_loop rfl rfl rfl,
    exec_task rfl hcheck]
  exact congrArg (fun wakeAt => some (waiting m _ peerId wakeAt)) (Nat.zero_add _)

theorem exec_reached (hlimit : m.atLimit = false) (q : String) :
    ∃ m' : TopologyManager Packet, m'.config = m.config ∧
      m'.lateralConnections = m.lateralConnections.insert q q ∧
      exec step (waiting m events peerId wakeAt)
        [.send (.lateralPeerDiscovered q), .recv, .loop true, .loop true, .loop true, .loop true] =
          some (waiting m' (events ++ [TopologyEvent.lateralPeerDiscovered q]) peerId wakeAt) := by
  refine ⟨clearRetryState { m with lateralConnections := m.lateralConnections.insert q q } .lateral q,
    rfl, rfl, ?_⟩
  have hcheck : m.perform true (.checkLimit q) = m.goOn [.connect .lateral q true] := if_neg (by simp [hlimit])
  rw [exec_event rfl rfl rfl, exec_loop rfl rfl hcheck]
  rfl

theorem exec_lost (hnew : peerId ∉ m.lateralConnections) :
    ∃ m' : TopologyManager Packet, m'.config = m.config ∧ m'.lateralConnections = m.lateralConnections ∧
      exec step (waiting m events peerId wakeAt)
        [.send (.lateralPeerLost peerId), .recv, .loop true, .loop true] =
          some (waiting m' (events ++ [TopologyEvent.lateralPeerLost peerId]) peerId wakeAt) := by
  refine ⟨m.clearRetryState .lateral peerId, rfl, rfl, ?_⟩
  have hcheck : (m.clearRetryState .lateral peerId).perform true (.checkLateral peerId) =
      (m.clearRetryState .lateral peerId).goOn [] := if_neg hnew
  rw [exec_event rfl rfl rfl, exec_loop rfl rfl rfl, exec_loop rfl rfl hcheck]
  rfl

theorem exec_retried :
    ∃ s : Topology Packet, exec step (waiting m events peerId wakeAt)
        [.wait wakeAt, .task 0 true, .task 0 true, .task 0 true] = some s ∧
      s.manager.config = m.config ∧ s.manager.lateralConnections = m.lateralConnections.insert peerId peerId ∧
      s.taken = events ∧ s.Quiet := by
  refine ⟨⟨clearRetryState { m with
      lateralConnections := m.lateralConnections.insert peerId peerId
      now := m.now + wakeAt } .lateral peerId, events, [], events, [], false, [[]]⟩, ?_, rfl, rfl, rfl, rfl, by simp⟩
  have hwake : ¬m.now + wakeAt < wakeAt := Nat.not_lt.mpr (Nat.le_add_left wakeAt m.now)
  refine exec_cons.mpr ⟨_, rfl, exec_cons.mpr ⟨_, congrArg (Option.map _) (if_neg hwake), ?_⟩⟩
  rfl

end Waiting

theorem atLimit_new (hplace : config.maxLateralConnections ≠ some 0) :
    (TopologyManager.new config : TopologyManager Packet).atLimit = false := by
  simp only [atLimit, new, lateralPeerCount]
  cases h : config.maxLateralConnections with
  | none => rfl
  | some limit => simpa [h] using hplace

theorem exists_lost (hretries : 0 < config.maxRetries) (hplace : config.maxLateralConnections ≠ some 0) :
    ∃ ls, ∃ s : Topology Packet, exec step (start config) ls = some s ∧ ¬ s.NoneLost := by
  obtain ⟨m, -, hempty, hunreached⟩ := exec_unreached hretries (@atLimit_new Packet config hplace) "a"
  obtain ⟨m', -, -, hlost⟩ := exec_lost m [.lateralPeerDiscovered "a"] "a" (config.backoff 0) (by simp [hempty])
  obtain ⟨s, hretried, -, hconnections, htaken, hquiet⟩ := exec_retried m'
    [.lateralPeerDiscovered "a", .lateralPeerLost "a"] "a" (config.backoff 0)
  refine ⟨_, s, exec_append.mpr ⟨_, hunreached, exec_append.mpr ⟨_, hlost, hretried⟩⟩, fun h => ?_⟩
  refine h hquiet "a" ?_ (by simp [hconnections])
  rw [htaken]
  decide

theorem exists_full {limit} (hretries : 0 < config.maxRetries)
    (hconfig : config.maxLateralConnections = some limit) (hlimit : limit ≠ 0) :
    ∀ count ≤ limit, ∃ ls events, ∃ m : TopologyManager Packet, m.config = config ∧ m.lateralPeerCount = count ∧
      (∀ peerId ∈ m.lateralConnections, 0 < peerId.length ∧ peerId.length ≤ count) ∧
      exec step (start config) ls = some (waiting m events "" (config.backoff 0)) := by
  intro count hcount
  induction count with
  | zero =>
    have hplace : config.maxLateralConnections ≠ some 0 := by simpa [hconfig] using hlimit
    obtain ⟨m, hm, hempty, hunreached⟩ := exec_unreached hretries (@atLimit_new Packet config hplace) ""
    refine ⟨_, _, m, hm, ?_, ?_, hunreached⟩ <;> simp [lateralPeerCount, hempty]
  | succ count ih =>
    obtain ⟨ls, events, m, hm, hsize, hnames, hexec⟩ := ih (by omega)
    have hroom : m.atLimit = false := by
      simp only [atLimit, hm, hconfig, hsize, any_some, decide_eq_false_iff_not]
      omega
    -- a name that is longer than all the others
    have hlength : (String.ofList (replicate (count + 1) 'a')).length = count + 1 := by simp
    have hnew : String.ofList (replicate (count + 1) 'a') ∉ m.lateralConnections := by
      intro hmem
      have hle := (hnames _ hmem).2
      omega
    obtain ⟨m', hm', hconnections, hreached⟩ := exec_reached m events "" (config.backoff 0) hroom
      (String.ofList (replicate (count + 1) 'a'))
    refine ⟨_, _, m', hm'.trans hm, ?_, fun peerId hmem => ?_, exec_append.mpr ⟨_, hexec, hreached⟩⟩
    · rw [lateralPeerCount_of_insert hconnections hnew, hsize]
    · rw [hconnections, mem_insert] at hmem
      rcases hmem with heq | hmem
      · rw [← Std.LawfulEqCmp.eq_of_compare heq]
        omega
      · have hbounds := hnames peerId hmem
        omega

theorem exists_exceeded {limit} (hretries : 0 < config.maxRetries)
    (hconfig : config.maxLateralConnections = some limit) (hlimit : limit ≠ 0) :
    ∃ ls, ∃ s : Topology Packet, exec step (start config) ls = some s ∧ ¬ s.manager.WithinLimit := by
  obtain ⟨ls, events, m, hm, hsize, hnames, hexec⟩ := exists_full hretries hconfig hlimit limit (Nat.le_refl limit)
  obtain ⟨s, hretried, hs, hconnections, -, -⟩ := exec_retried m events "" (config.backoff 0)
  refine ⟨_, s, exec_append.mpr ⟨_, hexec, hretried⟩, fun h => ?_⟩
  have hnew : "" ∉ m.lateralConnections := fun hmem => Nat.lt_irrefl 0 (hnames "" hmem).1
  have hle := h limit (by rw [hs, hm, hconfig])
  rw [lateralPeerCount_of_insert hconnections hnew] at hle
  omega

/-- In every run the limit holds, and no lost peer is connected at rest, exactly without retries or without a place;
the limit also where there is none. -/
theorem lateral_bounded_iff (Packet : Type) (config : TopologyConfig) :
    ((∀ ls, ∀ s : Topology Packet, exec step (start config) ls = some s → s.manager.WithinLimit) ↔
        config.maxRetries = 0 ∨ config.maxLateralConnections = some 0 ∨ config.maxLateralConnections = none) ∧
      ((∀ ls, ∀ s : Topology Packet, exec step (start config) ls = some s → s.NoneLost) ↔
        config.maxRetries = 0 ∨ config.maxLateralConnections = some 0) := by
  have halone (hzero : config.maxRetries = 0) (ls) (s : Topology Packet)
      (hexec : exec step (start config) ls = some s) : s.manager.WithinLimit ∧ s.NoneLost :=
    (exec_invariant (fun _ _ _ h hstep => Alone.step h hzero hstep) alone_start hexec).holds
  have hbarred (hzero : config.maxLateralConnections = some 0) (ls) (s : Topology Packet)
      (hexec : exec step (start config) ls = some s) : s.manager.WithinLimit ∧ s.NoneLost :=
    (exec_invariant (fun _ _ _ h hstep => Barred.step h hzero hstep) barred_start hexec).holds
  constructor
  · constructor
    · intro h
      by_contra hcond
      obtain ⟨hretries, hplace, hnone⟩ : config.maxRetries ≠ 0 ∧ config.maxLateralConnections ≠ some 0 ∧
          config.maxLateralConnections ≠ none := by simpa [not_or] using hcond
      obtain ⟨limit, hlimit⟩ := ne_none_iff_exists'.mp hnone
      obtain ⟨ls, s, hexec, hbad⟩ := exists_exceeded (Nat.pos_of_ne_zero hretries) hlimit
        (fun hzero => hplace (hzero ▸ hlimit))
      exact hbad (h ls s hexec)
    · rintro (hzero | hzero | hnone) ls s hexec
      · exact (halone hzero ls s hexec).1
      · exact (hbarred hzero ls s hexec).1
      · intro limit hlimit
        rw [config_exec hexec, hnone] at hlimit
        cases hlimit
  · constructor
    · intro h
      by_contra hcond
      obtain ⟨hretries, hplace⟩ := not_or.mp hcond
      obtain ⟨ls, s, hexec, hbad⟩ := exists_lost (Nat.pos_of_ne_zero hretries) hplace
      exact hbad (h ls s hexec)
    · rintro (hzero | hzero) ls s hexec
      · exact (halone hzero ls s hexec).2
      · exact (hbarred hzero ls s hexec).2

def oneRetry : TopologyConfig := ⟨some 1, 1, fun _ => 0, 0⟩

def placeTaken : List (TopologyLabel Unit) :=
  [.send (.lateralPeerDiscovered "a"), .recv, .loop true, .loop false, .loop true, .task 0 true,
    .send (.lateralPeerDiscovered "b"), .recv, .loop true, .loop true, .loop true, .loop true,
    .task 0 true, .task 0 true, .task 0 true]

def lostMeanwhile : List (TopologyLabel Unit) :=
  [.send (.lateralPeerDiscovered "a"), .recv, .loop true, .loop false, .loop true, .task 0 true,
    .send (.lateralPeerLost "a"), .recv, .loop true, .loop true, .task 0 true, .task 0 true, .task 0 true]

theorem retry_exceeds_and_holds_lost :
    (∃ s, exec step (start oneRetry) placeTaken = some s ∧ s.manager.lateralPeerCount = 2) ∧
      ∃ s, exec step (start oneRetry) lostMeanwhile = some s ∧ s.Quiet ∧
        s.taken = [.lateralPeerDiscovered "a", .lateralPeerLost "a"] ∧ "a" ∈ s.manager.lateralConnections := by
  refine ⟨⟨_, exec_eq_getD (by decide +kernel), ?_⟩, _, exec_eq_getD (by decide +kernel), ?_⟩ <;> decide +kernel

end Topology

end PeatMesh
