/-
What the router's memory of packet ids keeps out (`routing/router.rs`). An
id goes from a full cache only if it has expired or is the oldest there, and it
is recorded before the packet's hops are looked at.
-/
import PeatMesh.SelectiveRouter

namespace PeatMesh

open Stamps List

/-- A call of `route`: its time, the order the cache iterates in, and what it is
called with. -/
structure RouteCall where
  now : Nat
  order : Stamps.Order String
  packet : DataPacket
  state : TopologyState
  thisNodeId : String

namespace SelectiveRouter

variable {r r' : SelectiveRouter} {c : RouteCall} {id : String} {t now : Nat}

def call (r : SelectiveRouter) (c : RouteCall) : RoutingDecision × SelectiveRouter :=
  r.route c.packet c.state c.thisNodeId c.now c.order

def after (r : SelectiveRouter) (calls : List RouteCall) : SelectiveRouter :=
  calls.foldl (fun r c => (r.call c).2) r

def passes (r : SelectiveRouter) (c : RouteCall) : Bool := !(r.isDuplicate c.packet.packetId c.now c.order).1

def recorded (r : SelectiveRouter) : List RouteCall → List (String × Nat)
  | [] => []
  | c :: calls =>
    (if r.passes c then [(c.packet.packetId, c.now)] else []) ++ recorded (r.call c).2 calls

/-! ## One call -/

theorem call_snd : (r.call c).2 = (r.isDuplicate c.packet.packetId c.now c.order).2 := rfl

theorem call_fst : (r.call c).1 = if r.passes c then routeFresh c.packet c.state c.thisNodeId else .drop := by
  show (if (r.isDuplicate c.packet.packetId c.now c.order).1 then _ else _) = _
  rw [passes]
  cases (r.isDuplicate c.packet.packetId c.now c.order).1 <;> rfl

theorem call_cases (henabled : r.dedupConfig.enabled = true) :
    (r.alreadySeen c.packet.packetId c.now = true ∧ r.passes c = false ∧ (r.call c).2 = r) ∨
      (r.alreadySeen c.packet.packetId c.now = false ∧ r.passes c = true ∧
        (r.call c).2 = { r with
          seenPackets := (r.makeRoom r.seenPackets c.now c.order).insert c.packet.packetId c.now }) := by
  rw [call_snd, passes, isDuplicate, henabled]
  cases r.alreadySeen c.packet.packetId c.now with
  | true => exact .inl ⟨rfl, rfl, rfl⟩
  | false => exact .inr ⟨rfl, rfl, rfl⟩

theorem call_dedupConfig : (r.call c).2.dedupConfig = r.dedupConfig := by
  rw [call_snd, isDuplicate]
  split
  · rfl
  · split <;> rfl

theorem alreadySeen_iff : r.alreadySeen id now = true ↔
    ∃ t, r.seenPackets.get? id = some t ∧ now - t < r.dedupConfig.ttl := by
  unfold alreadySeen
  cases r.seenPackets.get? id with
  | none => simp
  | some t => simp

theorem passes_iff (henabled : r.dedupConfig.enabled = true) :
    r.passes c = true ↔ r.alreadySeen c.packet.packetId c.now = false := by
  rcases call_cases henabled with ⟨hseen, hpasses, -⟩ | ⟨hseen, hpasses, -⟩
  · rw [hseen, hpasses]
    simp
  · rw [hseen, hpasses]
    simp

theorem get?_call_self (henabled : r.dedupConfig.enabled = true) (h : r.passes c = true) :
    (r.call c).2.seenPackets.get? c.packet.packetId = some c.now := by
  rcases call_cases henabled with ⟨-, hnot, -⟩ | ⟨-, -, hcall⟩
  · rw [hnot] at h
    cases h
  · rw [hcall]
    rw [get?_insert, if_pos rfl]

theorem makeRoom_cases (r : SelectiveRouter) (cache : Stamps String) (now : Nat) (order : Stamps.Order String) :
    (cache.size < r.dedupConfig.maxEntries ∧ r.makeRoom cache now order = cache) ∨
      (((r.evictExpired cache now).size < r.dedupConfig.maxEntries ∨ (r.evictExpired cache now).size = 0) ∧
        r.makeRoom cache now order = r.evictExpired cache now) ∨
      ∃ e, r.dedupConfig.maxEntries ≤ (r.evictExpired cache now).size ∧
        (r.evictExpired cache now).oldest order = some e ∧
        r.makeRoom cache now order = (r.evictExpired cache now).remove e.1 := by
  simp only [makeRoom]
  split
  · split
    · rename_i hfull
      cases holdest : (r.evictExpired cache now).oldest order with
      | none => exact .inr (.inl ⟨.inr (oldest_eq_none holdest), rfl⟩)
      | some e => exact .inr (.inr ⟨e, hfull, rfl, rfl⟩)
    · rename_i hroom
      exact .inr (.inl ⟨.inl (Nat.lt_of_not_le hroom), rfl⟩)
  · rename_i hroom
    exact .inl ⟨Nat.lt_of_not_le hroom, rfl⟩

variable {cache : Stamps String}

theorem get?_makeRoom (now : Nat) (order : Stamps.Order String) (h : cache.get? id = some t) :
    (r.makeRoom cache now order).get? id = some t ∨
      r.dedupConfig.ttl ≤ now - t ∨
      (r.dedupConfig.maxEntries ≤ (r.evictExpired cache now).size ∧
        ∀ id' t', (r.evictExpired cache now).get? id' = some t' → t ≤ t') := by
  by_cases hexpired : r.dedupConfig.ttl ≤ now - t
  · exact .inr (.inl hexpired)
  have hkept : (r.evictExpired cache now).get? id = some t :=
    get?_retain.mpr ⟨h, decide_eq_true (by omega)⟩
  rcases r.makeRoom_cases cache now order with ⟨-, heq⟩ | ⟨-, heq⟩ | ⟨e, hfull, holdest, heq⟩
  · exact .inl (by rw [heq, h])
  · exact .inl (by rw [heq, hkept])
  · obtain ⟨hget, hleast⟩ := oldest_spec holdest
    by_cases hid : id = e.1
    · rw [← hid, hkept] at hget
      cases hget
      exact .inr (.inr ⟨hfull, hleast⟩)
    · rw [heq]
      exact .inl (get?_remove.mpr ⟨hkept, hid⟩)

theorem get?_of_makeRoom {order}
    (h : (r.makeRoom cache now order).get? id = some t) : cache.get? id = some t := by
  rcases r.makeRoom_cases cache now order with ⟨-, heq⟩ | ⟨-, heq⟩ | ⟨e, -, -, heq⟩
  all_goals rw [heq] at h
  · exact h
  · exact (get?_retain.mp h).1
  · exact (get?_retain.mp (get?_remove.mp h).1).1

theorem size_makeRoom (now : Nat) (order : Stamps.Order String) (h : cache.size ≤ max 1 r.dedupConfig.maxEntries) :
    (r.makeRoom cache now order).size + 1 ≤ max 1 r.dedupConfig.maxEntries := by
  have hle : (r.evictExpired cache now).size ≤ cache.size := size_retain_le _
  rcases r.makeRoom_cases cache now order with ⟨hroom, heq⟩ | ⟨hroom, heq⟩ | ⟨e, -, holdest, heq⟩
  · rw [heq]
    omega
  · rw [heq]
    omega
  · have hremove := size_remove (oldest_spec holdest).1
    rw [heq]
    omega

/-! ## A run of calls -/

variable {calls l₁ l₂ : List RouteCall}

theorem after_cons : r.after (c :: calls) = (r.call c).2.after calls := rfl

theorem after_append : r.after (l₁ ++ l₂) = (r.after l₁).after l₂ := foldl_append

theorem recorded_append : r.recorded (l₁ ++ l₂) = r.recorded l₁ ++ (r.after l₁).recorded l₂ := by
  induction l₁ generalizing r with
  | nil => rfl
  | cons c l₁ ih => rw [cons_append, recorded, recorded, ih, append_assoc, after_cons]

theorem after_dedupConfig : (r.after calls).dedupConfig = r.dedupConfig := by
  induction calls generalizing r with
  | nil => rfl
  | cons c calls ih => rw [after_cons, ih, call_dedupConfig]

theorem size_after (henabled : r.dedupConfig.enabled = true) (h : r.seenPackets.size ≤ max 1 r.dedupConfig.maxEntries) :
    (r.after calls).seenPackets.size ≤ max 1 r.dedupConfig.maxEntries := by
  induction calls generalizing r with
  | nil => exact h
  | cons c calls ih =>
    rw [after_cons]
    rcases call_cases henabled with ⟨-, -, hcall⟩ | ⟨-, -, hcall⟩
    · rw [hcall]
      exact ih henabled h
    rw [hcall]
    refine ih henabled ?_
    have hroom := size_makeRoom c.now c.order h
    exact Nat.le_trans size_insert_le hroom

def Recorded (r : SelectiveRouter) (history : List (String × Nat)) (now : Nat) : Prop :=
  ∀ id t, r.seenPackets.get? id = some t → (id, t) ∈ history ∧ t ≤ now

def Displaced (maxEntries : Nat) (history : List (String × Nat)) (id : String) (since now : Nat) : Prop :=
  ∃ others : List String, others.Nodup ∧ maxEntries ≤ others.length ∧ id ∉ others ∧
    ∀ other ∈ others, ∃ t, since ≤ t ∧ t ≤ now ∧ (other, t) ∈ history

def Kept (r : SelectiveRouter) (history : List (String × Nat)) (id : String) (since now : Nat) : Prop :=
  (∃ t, since ≤ t ∧ r.seenPackets.get? id = some t) ∨
    r.dedupConfig.ttl ≤ now - since ∨
    Displaced r.dedupConfig.maxEntries history id since now

variable {history : List (String × Nat)} {since : Nat}

theorem Displaced.mono {maxEntries now' history'} (hle : now ≤ now')
    (hsub : history ⊆ history') (h : Displaced maxEntries history id since now) :
    Displaced maxEntries history' id since now' := by
  obtain ⟨others, hnodup, hlen, hid, hall⟩ := h
  refine ⟨others, hnodup, hlen, hid, fun other hother => ?_⟩
  obtain ⟨t, hsince, hnow, hmem⟩ := hall other hother
  exact ⟨t, hsince, Nat.le_trans hnow hle, hsub hmem⟩

theorem Kept.mono {now'} (hle : now ≤ now') (h : r.Kept history id since now) : r.Kept history id since now' := by
  rcases h with hget | hexpired | hdisplaced
  · exact .inl hget
  · exact .inr (.inl (by omega))
  · exact .inr (.inr (hdisplaced.mono hle (Subset.refl _)))

theorem Recorded.mono {now'} (hle : now ≤ now') (h : r.Recorded history now) : r.Recorded history now' :=
  fun id t ht => ⟨(h id t ht).1, Nat.le_trans (h id t ht).2 hle⟩

theorem Recorded.call (henabled : r.dedupConfig.enabled = true) (h : r.Recorded history now)
    (hle : now ≤ c.now) : (r.call c).2.Recorded (history ++ r.recorded [c]) c.now := by
  intro id t ht
  rcases call_cases henabled with ⟨-, -, hcall⟩ | ⟨-, hpasses, hcall⟩
  · rw [hcall] at ht
    exact ⟨mem_append_left _ (h id t ht).1, Nat.le_trans (h id t ht).2 hle⟩
  rw [hcall] at ht
  rw [get?_insert] at ht
  split at ht
  · rename_i hid
    cases ht
    refine ⟨mem_append_right _ ?_, Nat.le_refl _⟩
    simp [recorded, hpasses, hid]
  · have hold := h id t (get?_of_makeRoom ht)
    exact ⟨mem_append_left _ hold.1, Nat.le_trans hold.2 hle⟩

theorem displaced_of_full (h : r.Recorded history now) (hle : now ≤ c.now) (hget : r.seenPackets.get? id = some t)
    (hsince : since ≤ t) (hid : id ≠ c.packet.packetId) (hnew : r.alreadySeen c.packet.packetId c.now = false)
    (hfull : r.dedupConfig.maxEntries ≤ (r.evictExpired r.seenPackets c.now).size)
    (hleast : ∀ id' t', (r.evictExpired r.seenPackets c.now).get? id' = some t' → t ≤ t')
    (hfresh : ¬r.dedupConfig.ttl ≤ c.now - t) :
    Displaced r.dedupConfig.maxEntries (history ++ [(c.packet.packetId, c.now)]) id since c.now := by
  have hkept : (r.evictExpired r.seenPackets c.now).get? id = some t :=
    get?_retain.mpr ⟨hget, decide_eq_true (by omega)⟩
  have hnone : ¬(c.packet.packetId ∈ (r.evictExpired r.seenPackets c.now).keys) := by
    intro hmem
    obtain ⟨t', ht'⟩ := mem_keys_iff.mp hmem
    obtain ⟨hget', hfresh'⟩ := get?_retain.mp ht'
    have hseen := alreadySeen_iff.mpr ⟨t', hget', of_decide_eq_true hfresh'⟩
    rw [hnew] at hseen
    cases hseen
  have hremove := size_remove hkept
  refine ⟨c.packet.packetId :: ((r.evictExpired r.seenPackets c.now).remove id).keys, ?_, ?_, ?_, ?_⟩
  · refine nodup_cons.mpr ⟨fun hmem => hnone ?_, nodup _⟩
    exact (filter_sublist.map _).subset hmem
  · simp only [length_cons, Stamps.keys, length_map]
    rw [size] at hremove
    omega
  · intro hmem
    rcases mem_cons.mp hmem with heq | hmem
    · exact hid heq
    · obtain ⟨t', ht'⟩ := mem_keys_iff.mp hmem
      exact (get?_remove.mp ht').2 rfl
  · intro other hother
    rcases mem_cons.mp hother with rfl | hother
    · have htime := (h id t hget).2
      exact ⟨c.now, by omega, Nat.le_refl _, mem_append_right _ (mem_singleton_self _)⟩
    obtain ⟨t', ht'⟩ := mem_keys_iff.mp hother
    have hin := (get?_remove.mp ht').1
    have hold := h other t' (get?_retain.mp hin).1
    exact ⟨t', Nat.le_trans hsince (hleast other t' hin), by omega, mem_append_left _ hold.1⟩

theorem Kept.call (henabled : r.dedupConfig.enabled = true) (hrecorded : r.Recorded history now)
    (hle : now ≤ c.now) (h : r.Kept history id since now) :
    (r.call c).2.Kept (history ++ r.recorded [c]) id since c.now := by
  rcases h with ⟨t, hsince, hget⟩ | hexpired | hdisplaced
  · rcases call_cases henabled with ⟨-, -, hcall⟩ | ⟨hnew, hpasses, hcall⟩
    · rw [hcall]
      exact .inl ⟨t, hsince, hget⟩
    have htime := (hrecorded id t hget).2
    have hone : r.recorded [c] = [(c.packet.packetId, c.now)] := by simp [recorded, hpasses]
    rw [hcall, hone]
    by_cases hid : id = c.packet.packetId
    · exact .inl ⟨c.now, by omega, by rw [get?_insert, if_pos hid]⟩
    rcases get?_makeRoom c.now c.order hget with hget' | hexpired | ⟨hfull, hleast⟩
    · exact .inl ⟨t, hsince, by rw [get?_insert, if_neg hid]; exact hget'⟩
    · exact .inr (.inl (show r.dedupConfig.ttl ≤ c.now - since by omega))
    · by_cases hfresh : r.dedupConfig.ttl ≤ c.now - t
      · exact .inr (.inl (show r.dedupConfig.ttl ≤ c.now - since by omega))
      · have hdisplaced := displaced_of_full hrecorded hle hget hsince hid hnew hfull hleast hfresh
        exact .inr (.inr hdisplaced)
  · exact .inr (.inl (by rw [call_dedupConfig]; omega))
  · exact .inr (.inr (by rw [call_dedupConfig]; exact hdisplaced.mono hle (subset_append_left _ _)))

theorem recorded_cons :
    history ++ r.recorded (c :: calls) = history ++ r.recorded [c] ++ (r.call c).2.recorded calls := by
  simp only [recorded, append_nil, append_assoc]

theorem after_invariant {P : SelectiveRouter → List (String × Nat) → Nat → Prop}
    (hcall : ∀ r history now c, r.dedupConfig.enabled = true → P r history now → now ≤ c.now →
      P (r.call c).2 (history ++ r.recorded [c]) c.now)
    (hmono : ∀ r history now now', P r history now → now ≤ now' → P r history now') {last}
    (henabled : r.dedupConfig.enabled = true) (hle : ∀ c ∈ calls, now ≤ c.now)
    (htimes : calls.Pairwise fun a b => a.now ≤ b.now) (hlast : now ≤ last) (hlasts : ∀ c ∈ calls, c.now ≤ last)
    (h : P r history now) : P (r.after calls) (history ++ r.recorded calls) last := by
  induction calls generalizing r history now with
  | nil =>
    rw [recorded, append_nil]
    exact hmono r history now last h hlast
  | cons c calls ih =>
    obtain ⟨hfirst, hrest⟩ := pairwise_cons.mp htimes
    rw [recorded_cons]
    exact ih (by rw [call_dedupConfig]; exact henabled) hfirst hrest (hlasts c mem_cons_self)
      (fun c' hc' => hlasts c' (mem_cons_of_mem _ hc'))
      (hcall r history now c henabled h (hle c mem_cons_self))

theorem displaced_of_passes {c₁ c₂ between} (henabled : r.dedupConfig.enabled = true)
    (hrecorded : r.Recorded history c₁.now) (hnext : ∀ c ∈ between, c₁.now ≤ c.now)
    (htimes : between.Pairwise fun a b => a.now ≤ b.now) (hlast : ∀ c ∈ between, c.now ≤ c₂.now)
    (hle : c₁.now ≤ c₂.now) (hsame : c₂.packet.packetId = c₁.packet.packetId) (hfirst : r.passes c₁ = true)
    (hsecond : (r.after (c₁ :: between)).passes c₂ = true) (httl : c₂.now - c₁.now < r.dedupConfig.ttl) :
    Displaced r.dedupConfig.maxEntries (history ++ r.recorded (c₁ :: between)) c₁.packet.packetId c₁.now c₂.now := by
  have hconfig : (r.after (c₁ :: between)).dedupConfig = r.dedupConfig := after_dedupConfig
  have hkept : (r.call c₁).2.Kept (history ++ r.recorded [c₁]) c₁.packet.packetId c₁.now c₁.now := by
    exact .inl ⟨c₁.now, Nat.le_refl _, get?_call_self henabled hfirst⟩
  have hafter := after_invariant
    (P := fun r history now => r.Recorded history now ∧ r.Kept history c₁.packet.packetId c₁.now now)
    (fun _ _ _ _ henabled h hle => ⟨h.1.call henabled hle, h.2.call henabled h.1 hle⟩)
    (fun _ _ _ _ h hle => ⟨h.1.mono hle, h.2.mono hle⟩)
    (by rw [call_dedupConfig]; exact henabled) hnext htimes hle hlast ⟨hrecorded.call henabled (Nat.le_refl _), hkept⟩
  rw [← recorded_cons, ← after_cons] at hafter
  rcases hafter.2 with ⟨t, hsince, hget⟩ | hexpired | hdisplaced
  · -- the cache has the id still, and the second copy does not pass
    have hseen : (r.after (c₁ :: between)).alreadySeen c₂.packet.packetId c₂.now = true :=
      alreadySeen_iff.mpr ⟨t, by rw [hsame]; exact hget, by rw [hconfig]; omega⟩
    rw [passes_iff (by rw [hconfig]; exact henabled), hseen] at hsecond
    cases hsecond
  · rw [hconfig] at hexpired
    omega
  · rw [hconfig] at hdisplaced
    exact hdisplaced

/-- A packet that passes twice within the time to live was displaced by as many other ids as the cache holds, all
recorded in between. -/
theorem dedup_window (config : DeduplicationConfig) (henabled : config.enabled = true) (calls : List RouteCall)
    (htimes : calls.Pairwise fun a b => a.now ≤ b.now) :
    (∀ before c₁ between c₂ rest, calls = before ++ c₁ :: (between ++ c₂ :: rest) →
        c₂.packet.packetId = c₁.packet.packetId →
        ((newWithDeduplication config).after before).passes c₁ = true →
        ((newWithDeduplication config).after (before ++ c₁ :: between)).passes c₂ = true →
        c₂.now - c₁.now < config.ttl →
        ∃ others : List String, others.Nodup ∧ config.maxEntries ≤ others.length ∧ c₁.packet.packetId ∉ others ∧
          ∀ other ∈ others, ∃ t, c₁.now ≤ t ∧ t ≤ c₂.now ∧
            (other, t) ∈ (newWithDeduplication config).recorded (before ++ c₁ :: between)) ∧
      ((newWithDeduplication config).after calls).seenPackets.size ≤ max 1 config.maxEntries := by
  refine ⟨?_, size_after henabled (Nat.zero_le _)⟩
  intro before c₁ between c₂ rest hcalls hsame hfirst hsecond httl
  rw [hcalls, pairwise_append, pairwise_cons, pairwise_append] at htimes
  obtain ⟨hbefore, ⟨hnext, hbetween, -, hlast⟩, hcross⟩ := htimes
  have hconfig : ((newWithDeduplication config).after before).dedupConfig = config := after_dedupConfig
  have hempty : (newWithDeduplication config).Recorded [] 0 := fun id t ht => by cases ht
  have hrecorded := after_invariant (P := Recorded) (fun _ _ _ _ henabled h hle => h.call henabled hle)
    (fun _ _ _ _ h hle => h.mono hle) henabled (fun _ _ => Nat.zero_le _) hbefore (Nat.zero_le c₁.now)
    (fun c hc => hcross c hc c₁ mem_cons_self) hempty
  rw [nil_append] at hrecorded
  rw [after_append] at hsecond
  have hdisplaced := displaced_of_passes (by rw [hconfig]; exact henabled) hrecorded
    (fun c hc => hnext c (mem_append_left _ hc)) hbetween (fun c hc => hlast c hc c₂ mem_cons_self)
    (hnext c₂ (mem_append_right _ mem_cons_self)) hsame hfirst hsecond (by rw [hconfig]; exact httl)
  rw [hconfig, ← recorded_append] at hdisplaced
  exact hdisplaced

def telemetryCall (packetId : String) (now : Nat) (hopCount : UInt16) : RouteCall where
  now := now
  order := .asIs
  packet := { DataPacket.telemetry packetId "n" [] with hopCount := hopCount }
  state := ⟨some "p", .empty, .empty, .leader⟩
  thisNodeId := "m"

/-- A cache for one id, and another packet comes between. -/
theorem dedup_window_of_one :
    [telemetryCall "a" 0 0, telemetryCall "b" 1 0, telemetryCall "a" 2 0].Pairwise (fun a b => a.now ≤ b.now) ∧
      ∃ others : List String, others.Nodup ∧ 1 ≤ others.length ∧ "a" ∉ others ∧
        ∀ other ∈ others, ∃ t, 0 ≤ t ∧ t ≤ 2 ∧
          (other, t) ∈ (newWithDeduplication { ttl := 10, maxEntries := 1 }).recorded
            [telemetryCall "a" 0 0, telemetryCall "b" 1 0] :=
  ⟨by decide, (dedup_window { ttl := 10, maxEntries := 1 } rfl
    [telemetryCall "a" 0 0, telemetryCall "b" 1 0, telemetryCall "a" 2 0] (by decide)).1
    [] (telemetryCall "a" 0 0) [telemetryCall "b" 1 0] (telemetryCall "a" 2 0) [] rfl rfl
    (by decide) (by decide) (by decide)⟩

/-! ## Two copies of a packet -/

/-- Two copies of a packet, with calls for other packets between them: the first
is dropped for its hops, and the second comes before the first has expired. -/
structure Copies (r : SelectiveRouter) (c₁ : RouteCall) (between : List RouteCall) (c₂ : RouteCall) : Prop where
  enabled : r.dedupConfig.enabled = true
  passes : r.passes c₁ = true
  atMaxHops : c₁.packet.atMaxHops = true
  same : c₂.packet = { c₁.packet with hopCount := c₂.packet.hopCount }
  others : ∀ c ∈ between, c.packet.packetId ≠ c₁.packet.packetId
  later : c₁.now ≤ c₂.now
  soon : c₂.now - c₁.now < r.dedupConfig.ttl

theorem get?_of_after (henabled : r.dedupConfig.enabled = true)
    (hothers : ∀ c ∈ calls, c.packet.packetId ≠ id) (h : (r.after calls).seenPackets.get? id = some t) :
    r.seenPackets.get? id = some t := by
  induction calls generalizing r with
  | nil => exact h
  | cons c calls ih =>
    have hrest := ih (r := (r.call c).2) (by rw [call_dedupConfig]; exact henabled)
      (fun c' hc' => hothers c' (mem_cons_of_mem _ hc')) h
    rcases call_cases henabled with ⟨-, -, hcall⟩ | ⟨-, -, hcall⟩
    · rw [hcall] at hrest
      exact hrest
    · rw [hcall] at hrest
      rw [get?_insert, if_neg (hothers c mem_cons_self).symm] at hrest
      exact get?_of_makeRoom hrest

variable {c₁ c₂ : RouteCall} {between : List RouteCall}

theorem Copies.id_eq (h : Copies r c₁ between c₂) : c₂.packet.packetId = c₁.packet.packetId := by
  rw [h.same]

theorem Copies.passes_without (h : Copies r c₁ between c₂) : (r.after between).passes c₂ = true := by
  rw [passes_iff (by rw [after_dedupConfig]; exact h.enabled), h.id_eq, Bool.eq_false_iff]
  intro hseen
  obtain ⟨t, hget, hfresh⟩ := alreadySeen_iff.mp hseen
  rw [after_dedupConfig] at hfresh
  -- what is in the cache was there before the first copy, which passed
  have hold := get?_of_after h.enabled h.others hget
  have hpasses := (passes_iff h.enabled).mp h.passes
  have hlater := h.later
  rw [alreadySeen_iff.mpr ⟨t, hold, by omega⟩] at hpasses
  cases hpasses

theorem Copies.passes_with (h : Copies r c₁ between c₂) :
    (r.after (c₁ :: between)).passes c₂ = true ↔
      (r.after (c₁ :: between)).seenPackets.get? c₁.packet.packetId = none := by
  have hconfig : (r.after (c₁ :: between)).dedupConfig = r.dedupConfig := after_dedupConfig
  rw [passes_iff (by rw [hconfig]; exact h.enabled), h.id_eq, Bool.eq_false_iff, Ne, alreadySeen_iff, hconfig]
  cases hget : (r.after (c₁ :: between)).seenPackets.get? c₁.packet.packetId with
  | none => simp
  | some t =>
    have hfirst := get?_of_after (r := (r.call c₁).2) (by rw [call_dedupConfig]; exact h.enabled) h.others hget
    rw [get?_call_self h.enabled h.passes] at hfirst
    cases hfirst
    have hsoon := h.soon
    simp [hsoon]

/-- The first copy makes no difference exactly if the second would be dropped anyway, or its record is gone. -/
theorem dead_copy_harmless_iff (h : Copies r c₁ between c₂) :
    (((r.after (c₁ :: between)).call c₂).1 = ((r.after between).call c₂).1 ↔
      c₂.packet.atMaxHops = true ∨ c₂.packet.sourceNodeId = c₂.thisNodeId ∨
        (shouldConsume c₂.packet c₂.state c₂.thisNodeId = false ∧ shouldForward c₂.packet c₂.state = false) ∨
        (r.after (c₁ :: between)).seenPackets.get? c₁.packet.packetId = none) ∧
      (r.call c₁).2.seenPackets.get? c₁.packet.packetId = some c₁.now := by
  refine ⟨?_, get?_call_self h.enabled h.passes⟩
  have hdrop := routeFresh_eq_drop_iff c₂.packet c₂.state c₂.thisNodeId
  rw [call_fst, call_fst, if_pos h.passes_without, ← h.passes_with]
  cases hpasses : (r.after (c₁ :: between)).passes c₂ with
  | true => simp
  | false =>
    rw [if_neg (by simp), eq_comm, hdrop]
    simp

theorem copies_of_telemetry : Copies (newWithDeduplication {}) (telemetryCall "a" 0 10) [] (telemetryCall "a" 1 9) :=
  ⟨rfl, by decide, by decide, by decide, by simp, by decide, by decide⟩

theorem dead_copy_differs :
    Copies (newWithDeduplication {}) (telemetryCall "a" 0 10) [] (telemetryCall "a" 1 9) ∧
      (((newWithDeduplication {}).after [telemetryCall "a" 0 10]).call (telemetryCall "a" 1 9)).1 ≠
        (((newWithDeduplication {}).after []).call (telemetryCall "a" 1 9)).1 := by
  refine ⟨copies_of_telemetry, fun hsame => ?_⟩
  have h := (dead_copy_harmless_iff copies_of_telemetry).1.mp hsame
  revert h
  decide

/-- The packet comes with no hops left, and then with one. -/
theorem dead_copy_drops_live :
    (((newWithDeduplication {}).after [telemetryCall "a" 0 10]).call (telemetryCall "a" 1 9)).1 = .drop ∧
      (((newWithDeduplication {}).after []).call (telemetryCall "a" 1 9)).1 = .consumeAndForward "p" := by
  decide

end SelectiveRouter

end PeatMesh
