/-
How far a tombstone gets in a mesh of disk-backed nodes. One that comes in a
batch is stored and not passed on: a batch that overtakes a single can end the
flood at the node it reaches.
-/
import PeatMesh.TombstoneMesh

namespace PeatMesh

open Runs List AutomergeStore

namespace TombstoneMesh

variable {ι Doc μ : Type}

/-! ## Who has a tombstone, and to whom it is coming -/

section Spread

variable {s s' : TombstoneMesh ι Doc} {k : String} {u v w : ι}

def Coming (s : TombstoneMesh ι Doc) (k : String) (w : ι) : Prop :=
  ∃ p ∈ s.inFlight, p.dst = w ∧ ∃ msg, p.send = .single msg ∧ msg.tombstone.key = k

instance [DecidableEq ι] : Decidable (s.Coming k w) :=
  decidable_of_iff (∃ p ∈ s.inFlight, p.dst = w ∧ ∃ msg ∈ p.send.single?, msg.tombstone.key = k) <| by
    simp [Coming, TombstoneSend.single?_eq_some]

def Spread (links : ι → Links ι) (k : String) (s : TombstoneMesh ι Doc) : Prop :=
  ∀ v, s.Holds k v → ∀ w ∈ (links v).connectedPeers, s.Holds k w ∨ s.Coming k w

/-- Nothing held is given up, and what was coming is coming still or has come. -/
structure Grows (k : String) (s s' : TombstoneMesh ι Doc) : Prop where
  holds : ∀ v, s.Holds k v → s'.Holds k v
  coming : ∀ w, s.Coming k w → s'.Coming k w ∨ s'.Holds k w

theorem Spread.of_grows {links} (h : Spread links k s) (hgrows : Grows k s s')
    (hnew : ∀ v, s'.Holds k v → ¬ s.Holds k v → ∀ w ∈ (links v).connectedPeers, s'.Holds k w ∨ s'.Coming k w) :
    Spread links k s' := by
  intro v hv w hw
  by_cases hold : s.Holds k v
  · rcases h v hold w hw with hhas | hcoming
    · exact .inl (hgrows.holds w hhas)
    · exact (hgrows.coming w hcoming).symm
  · exact hnew v hv hold w hw

theorem coming_propagate {msg targets} :
    (s.propagate v msg targets).Coming k w ↔ s.Coming k w ∨ (w ∈ targets ∧ msg.tombstone.key = k) := by
  simp only [Coming, propagate, mem_append, mem_map]
  constructor
  · rintro ⟨p, hp | ⟨t, ht, rfl⟩, rfl, m, hm, hk⟩
    · exact .inl ⟨p, hp, rfl, m, hm, hk⟩
    · cases hm
      exact .inr ⟨ht, hk⟩
  · rintro (⟨p, hp, rfl, m, hm, hk⟩ | ⟨hw, hk⟩)
    · exact ⟨p, .inl hp, rfl, m, hm, hk⟩
    · exact ⟨_, .inr ⟨w, hw, rfl⟩, rfl, msg, rfl, hk⟩

theorem mem_eraseIdx_or {i p q} (hp : s.inFlight[i]? = some p) (hq : q ∈ s.inFlight) :
    q ∈ s.inFlight.eraseIdx i ∨ q = p := by
  obtain ⟨j, hj⟩ := mem_iff_getElem?.mp hq
  by_cases hji : j = i
  · subst hji
    rw [hp] at hj
    cases hj
    exact .inr rfl
  · exact .inl (mem_eraseIdx_iff_getElem?.mpr ⟨j, hji, hj⟩)

theorem coming_erase {i p w} (hp : s.inFlight[i]? = some p) (hw : s.Coming k w) :
    { s with inFlight := s.inFlight.eraseIdx i }.Coming k w ∨
      (w = p.dst ∧ ∃ msg, p.send = .single msg ∧ msg.tombstone.key = k) := by
  obtain ⟨q, hq, rfl, hsingle⟩ := hw
  rcases mem_eraseIdx_or hp hq with hstill | rfl
  · exact .inl ⟨q, hstill, rfl, hsingle⟩
  · exact .inr ⟨rfl, hsingle⟩

end Spread

/-! ## The flood is complete -/

section Complete

variable {links : ι → Links ι} {decodeMessage : List UInt8 → Option μ} {s s' : TombstoneMesh ι Doc} {k : String}
  {l : MeshLabel ι}

/-- What brings `k` to a node is readable and floods, or its peers have `k` or have it coming. -/
def Relayed (decodeMessage : List UInt8 → Option μ) (links : ι → Links ι) (k : String) (s : TombstoneMesh ι Doc) :
    MeshLabel ι → Prop
  | .originate _ msg => Sendable msg ∧ (msg.tombstone.key = k → msg.direction.Floods)
  | .exchange _ _ => True
  | .outside p => ∀ msg ∈ p.send.single?, Sendable msg ∧ (msg.tombstone.key = k →
      msg.direction.Floods ∧ (p.src ∈ (links p.dst).connectedPeers → s.Holds k p.src))
  | .deliver i => ∀ p ∈ s.inFlight[i]?, ∀ batch ∈ readBatch decodeMessage p.send, ¬ s.Holds k p.dst →
      (∃ msg ∈ batch.tombstones, msg.tombstone.key = k) →
      ∀ w ∈ (links p.dst).connectedPeers, s.Holds k w ∨ s.Coming k w

instance [DecidableEq ι] : Decidable (Relayed decodeMessage links k s l) :=
  match l with
  | .originate _ msg => inferInstanceAs (Decidable (Sendable msg ∧ (msg.tombstone.key = k → msg.direction.Floods)))
  | .exchange _ _ => inferInstanceAs (Decidable True)
  | .outside p => inferInstanceAs (Decidable (∀ msg ∈ p.send.single?, Sendable msg ∧ (msg.tombstone.key = k →
      msg.direction.Floods ∧ (p.src ∈ (links p.dst).connectedPeers → s.Holds k p.src))))
  | .deliver i => inferInstanceAs (Decidable (∀ p ∈ s.inFlight[i]?, ∀ batch ∈ readBatch decodeMessage p.send,
      ¬ s.Holds k p.dst → (∃ msg ∈ batch.tombstones, msg.tombstone.key = k) →
      ∀ w ∈ (links p.dst).connectedPeers, s.Holds k w ∨ s.Coming k w))

/-- Every node is disk-backed, every single in flight is readable, and one for `k` goes to every peer and comes from
none that lacks it; and `k` spreads. -/
structure Flooding (links : ι → Links ι) (k : String) (s : TombstoneMesh ι Doc) : Prop where
  disk : ∀ v, (s.store v).isInMemory = false
  sound : ∀ p ∈ s.inFlight, ∀ msg, p.send = .single msg →
    Sendable msg ∧ (msg.tombstone.key = k →
      msg.direction.Floods ∧ (p.src ∈ (links p.dst).connectedPeers → s.Holds k p.src))
  spread : Spread links k s

variable {flight : List (Transit ι)}

theorem Flooding.of_flight (h : Flooding links k s) (hkept : ∀ q ∈ s.inFlight, ∀ msg, q.send = .single msg → q ∈ flight)
    (hnew : ∀ q ∈ flight, q ∉ s.inFlight → ∀ msg, q.send = .single msg → Sendable msg ∧ (msg.tombstone.key = k →
      msg.direction.Floods ∧ (q.src ∈ (links q.dst).connectedPeers → s.Holds k q.src))) :
    Flooding links k { s with inFlight := flight } := by
  refine ⟨h.disk, fun q hq m hm => ?_, ?_⟩
  · by_cases hold : q ∈ s.inFlight
    · exact h.sound q hold m hm
    · exact hnew q hq hold m hm
  · refine h.spread.of_grows ⟨fun w hw => hw, fun w hw => .inl ?_⟩ fun w hw hnot => absurd hw hnot
    obtain ⟨q, hq, hdst, m, hm, hk⟩ := hw
    exact ⟨q, hkept q hq m hm, hdst, m, hm, hk⟩

variable [DecidableEq ι]

variable {v : ι} {store : AutomergeStore Doc}

theorem disk_setStore (h : ∀ v, (s.store v).isInMemory = false)
    (hv : store.isInMemory = false) : ∀ w, ((s.setStore v store).store w).isInMemory = false :=
  (Function.forall_update_iff s.store fun _ store => store.isInMemory = false).mpr ⟨hv, fun w _ => h w⟩

variable {msg : TombstoneSyncMessage}

theorem Flooding.send {targets} (h : Flooding links k s) (hflight : ∀ q ∈ flight, q ∈ s.inFlight)
    (hcame : ∀ w, s.Coming k w → { s with inFlight := flight }.Coming k w ∨ (w = v ∧ msg.tombstone.key = k))
    (hdisk : store.isInMemory = false)
    (hstored : (store.tombstone k).isSome = true ↔ s.Holds k v ∨ msg.tombstone.key = k)
    (hsend : Sendable msg) (hfloods : msg.tombstone.key = k → msg.direction.Floods)
    (htargets : msg.tombstone.key = k → ¬ s.Holds k v → ∀ w ∈ (links v).connectedPeers, w ∈ targets ∨ s.Holds k w) :
    Flooding links k (({ s with inFlight := flight }.setStore v store).propagate v msg targets) := by
  set s' := ({ s with inFlight := flight }.setStore v store).propagate v msg targets with hs'
  have hholds (w : ι) : s'.Holds k w ↔ s.Holds k w ∨ (w = v ∧ msg.tombstone.key = k) := by
    have hw : s'.Holds k w ↔ if w = v then (store.tombstone k).isSome = true else s.Holds k w := holds_setStore
    rw [hw, hstored]
    by_cases hwv : w = v
    · subst hwv
      simp
    · simp [hwv]
  have hcoming (w : ι) : s'.Coming k w ↔
      { s with inFlight := flight }.Coming k w ∨ (w ∈ targets ∧ msg.tombstone.key = k) := coming_propagate
  refine ⟨disk_setStore h.disk hdisk, ?_, ?_⟩
  · intro p hp m hm
    rcases mem_append.mp hp with hold | hnew
    · obtain ⟨hsendable, hkey⟩ := h.sound p (hflight p hold) m hm
      exact ⟨hsendable, fun hk => ⟨(hkey hk).1, fun hpeer => (hholds _).mpr (.inl ((hkey hk).2 hpeer))⟩⟩
    · obtain ⟨w, -, rfl⟩ := mem_map.mp hnew
      cases hm
      exact ⟨hsend, fun hk => ⟨hfloods hk, fun _ => (hholds _).mpr (.inr ⟨rfl, hk⟩)⟩⟩
  · refine h.spread.of_grows ⟨fun w hw => (hholds w).mpr (.inl hw), fun w hw => ?_⟩ fun w hw hnot u hu => ?_
    · rcases hcame w hw with hstill | hhere
      · exact .inl ((hcoming w).mpr (.inl hstill))
      · exact .inr ((hholds w).mpr (.inr hhere))
    · obtain ⟨rfl, hk⟩ := ((hholds w).mp hw).resolve_left hnot
      rcases htargets hk hnot u hu with htarget | hhas
      · exact .inr ((hcoming u).mpr (.inr ⟨htarget, hk⟩))
      · exact .inl ((hholds u).mpr (.inl hhas))

theorem Flooding.originate
    (h : Flooding links k s) (hput : (s.store v).putTombstone msg.tombstone = some store) (hsend : Sendable msg)
    (hfloods : msg.tombstone.key = k → msg.direction.Floods) :
    Flooding links k ((s.setStore v store).propagate v msg (propagateTombstoneToAll (links v) msg)) := by
  refine h.send (fun q hq => hq) (fun w hw => .inl hw) ?_ ?_ hsend hfloods fun hk _ w hw => ?_
  · rw [isInMemory_putTombstone hput, h.disk]
  · rw [tombstone_putTombstone hput (h.disk v)]
    by_cases hk : msg.tombstone.key = k <;> simp [hk, Holds]
  · rw [propagateTombstoneToAll_of_floods (hfloods hk)]
    exact .inl hw

theorem Flooding.deliver_single {i p} (h : Flooding links k s)
    (hp : s.inFlight[i]? = some p) (hmsg : p.send = .single msg) :
    Flooding links k ({ s with inFlight := s.inFlight.eraseIdx i }.receive links p
      ([.tombstone msg.onWire] : List (ReceivedSyncPayload μ))) := by
  obtain ⟨hsend, hkey⟩ := h.sound p (mem_of_getElem? hp) msg hmsg
  have hser : msg.onWire.tombstone.serializes = true := by
    rw [Tombstone.serializes, decide_eq_true_eq]
    exact Int.natCast_nonneg _
  refine h.send (fun q hq => mem_of_mem_eraseIdx hq) (fun w hw => ?_) ?_ ?_ (sendable_onWire hsend)
    (fun hk => (hkey hk).1) fun hk hnot w hw => ?_
  · rcases coming_erase hp hw with hstill | ⟨hw, m, hm, hk⟩
    · exact .inl hstill
    · rw [hmsg] at hm
      cases hm
      exact .inr ⟨hw, hk⟩
  · rw [handleIncomingTombstone_fst, isInMemory_applyTombstone, h.disk]
  · rw [handleIncomingTombstone_fst, tombstone_applyTombstone (h.disk _), Option.isSome_or, Bool.or_eq_true,
      isSome_firstFor]
    simp [hser, Holds]
  · have hnone : ((s.store p.dst).tombstone msg.onWire.tombstone.key).isSome = false := by
      rw [hk]
      simpa [Holds] using hnot
    rw [handleIncomingTombstone_snd, hnone, hser, if_neg (by simp), if_pos (by simp), Option.getD_some,
      @propagateTombstoneToPeers_of_floods msg.onWire ι _ _ _ (hkey hk).1]
    by_cases hsrc : w = p.src
    · exact .inr (hsrc ▸ (hkey hk).2 (hsrc ▸ hw))
    · exact .inl (by simp [hw, hsrc])

theorem Flooding.deliver_batch {i p batch batch'} (h : Flooding links k s)
    (hp : s.inFlight[i]? = some p) (hbatch : p.send = .batch batch')
    (hrelayed : ¬ s.Holds k p.dst → (∃ msg ∈ batch.tombstones, msg.tombstone.key = k) →
      ∀ w ∈ (links p.dst).connectedPeers, s.Holds k w ∨ s.Coming k w) :
    Flooding links k ({ s with inFlight := s.inFlight.eraseIdx i }.receive links p
      ([.tombstoneBatch batch] : List (ReceivedSyncPayload μ))) := by
  set s' := ({ s with inFlight := s.inFlight.eraseIdx i }.receive links p
    ([.tombstoneBatch batch] : List (ReceivedSyncPayload μ))) with hs'
  have hholds (w : ι) : s'.Holds k w ↔ s.Holds k w ∨
      (w = p.dst ∧ ∃ msg ∈ batch.tombstones, msg.tombstone.key = k ∧ msg.tombstone.serializes = true) := by
    have hw : s'.Holds k w ↔ if w = p.dst then
        ((handleIncomingTombstoneBatch (s.store p.dst) batch).1.tombstone k).isSome = true else s.Holds k w :=
      holds_setStore
    rw [hw, handleIncomingTombstoneBatch_fst, tombstone_applyAll (h.disk _), Option.isSome_or, Bool.or_eq_true,
      isSome_firstFor]
    by_cases hwv : w = p.dst
    · subst hwv
      simp [Holds]
    · simp [hwv]
  have hcoming (w : ι) (hw : s.Coming k w) : s'.Coming k w := by
    refine (coming_erase hp hw).resolve_right ?_
    rintro ⟨-, m, hm, -⟩
    rw [hbatch] at hm
    cases hm
  refine ⟨disk_setStore h.disk ?_, fun q hq m hm => ?_, ?_⟩
  · rw [handleIncomingTombstoneBatch_fst, isInMemory_applyAll, h.disk]
  · obtain ⟨hsendable, hkey⟩ := h.sound q (mem_of_mem_eraseIdx hq) m hm
    exact ⟨hsendable, fun hk => ⟨(hkey hk).1, fun hpeer => (hholds _).mpr (.inl ((hkey hk).2 hpeer))⟩⟩
  · refine h.spread.of_grows ⟨fun w hw => (hholds w).mpr (.inl hw), fun w hw => .inl (hcoming w hw)⟩ ?_
    intro w hw hnot u hu
    obtain ⟨rfl, m, hm, hk, -⟩ := ((hholds w).mp hw).resolve_left hnot
    rcases hrelayed hnot ⟨m, hm, hk⟩ u hu with hhas | hon
    · exact .inl ((hholds u).mpr (.inl hhas))
    · exact .inr (hcoming u hon)

theorem Flooding.step (h : Flooding links k s) (hrelayed : Relayed decodeMessage links k s l)
    (hstep : s.step decodeMessage links l = some s') : Flooding links k s' := by
  cases l with
  | originate v msg =>
    obtain ⟨store, hput, rfl⟩ := Option.map_eq_some_iff.mp hstep
    exact h.originate hput hrelayed.1 hrelayed.2
  | exchange v w =>
    obtain ⟨batches, rfl⟩ := step_exchange hstep
    refine h.of_flight (fun q hq m hm => mem_append_left _ hq) fun q hq hnot m hm => ?_
    obtain ⟨b, -, rfl⟩ := mem_map.mp ((mem_append.mp hq).resolve_left hnot)
    cases hm
  | outside p =>
    cases hstep
    refine h.of_flight (fun q hq m hm => mem_append_left _ hq) fun q hq hnot m hm => ?_
    rw [mem_singleton.mp ((mem_append.mp hq).resolve_left hnot)] at hm ⊢
    exact hrelayed m (TombstoneSend.single?_eq_some.mpr hm)
  | deliver i =>
    obtain ⟨p, hp, rfl⟩ := Option.map_eq_some_iff.mp hstep
    cases hsend : p.send with
    | single msg =>
      rw [receive_single decodeMessage (h.sound p (mem_of_getElem? hp) msg hsend).1]
      exact h.deliver_single hp hsend
    | batch b =>
      rcases receive_batch decodeMessage b with hnone | ⟨received, hreceived⟩
      · rw [hnone]
        refine h.of_flight (fun q hq m hm => ?_) fun q hq hnot => absurd (mem_of_mem_eraseIdx hq) hnot
        refine (mem_eraseIdx_or hp hq).resolve_right ?_
        rintro rfl
        rw [hsend] at hm
        cases hm
      · rw [hreceived]
        exact h.deliver_batch hp hsend (hrelayed p hp received (by rw [hsend, readBatch, hreceived]; rfl))

/-- Where disk-backed nodes are linked to one another, what is sent fits and, for `k`, goes to every peer, and no
batch brings `k` to a node with a peer that lacks it and has none coming: once nothing is in flight, all have a
tombstone under `k` or none has. -/
theorem flood_reaches_all (decodeMessage : List UInt8 → Option μ) (links : ι → Links ι) (network : Set ι)
    (hconnected : ∀ v ∈ network, ∀ w ∈ network, Relation.ReflTransGen (fun v w => w ∈ (links v).connectedPeers) v w)
    (store : ι → AutomergeStore Doc) (hdisk : ∀ v, (store v).isInMemory = false) (k : String)
    (hnone : ∀ v, (store v).tombstone k = none) (ls : List (MeshLabel ι))
    (hrelayed : Along (step decodeMessage links) (Relayed decodeMessage links k) (start store) ls)
    (s : TombstoneMesh ι Doc) (hexec : exec (step decodeMessage links) (start store) ls = some s)
    (hquiet : s.inFlight = []) :
    ∀ v ∈ network, s.Holds k v → ∀ w ∈ network, s.Holds k w := by
  have hstart : Flooding links k (start store) :=
    ⟨hdisk, by simp [start], fun v hv => by simp [Holds, start, hnone] at hv⟩
  have hend := along_invariant (fun _ _ _ h hG hstep => Flooding.step h hG hstep) hstart hrelayed hexec
  have hcoming (w : ι) : ¬ s.Coming k w := by
    rintro ⟨p, hp, -⟩
    rw [hquiet] at hp
    cases hp
  intro v hv hholds w hw
  have hpath := hconnected v hv w hw
  clear hw
  induction hpath with
  | refl => exact hholds
  | tail _ hlink ih => exact (hend.spread _ ih _ hlink).resolve_right (hcoming _)

end Complete

def line : Trio → Links Trio
  | .first => ⟨[.second], none⟩
  | .second => ⟨[.first, .third], none⟩
  | .third => ⟨[.second], none⟩

theorem line_connected (v w : Trio) : Relation.ReflTransGen (fun v w => w ∈ (line v).connectedPeers) v w := by
  have hup : ∀ v : Trio, Relation.ReflTransGen (fun v w => w ∈ (line v).connectedPeers) .second v
    | .first => .single (by decide)
    | .second => .refl
    | .third => .single (by decide)
  have hdown : ∀ v : Trio, Relation.ReflTransGen (fun v w => w ∈ (line v).connectedPeers) v .second
    | .first => .single (by decide)
    | .second => .refl
    | .third => .single (by decide)
  exact (hdown v).trans (hup w)

def notice : TombstoneSyncMessage := ⟨⟨"d", "c", 0, "n", 1, none⟩, .bidirectional⟩

def fresh : TombstoneMesh Trio Nat := start fun _ => .ofDb ⟨∅, ∅⟩

def downTheLine : List (MeshLabel Trio) := [.originate .first notice, .deliver 0, .deliver 0]

def overtaken : List (MeshLabel Trio) :=
  [.originate .first notice, .exchange .first .second, .deliver 1, .deliver 0]

theorem downTheLine_reaches_all :
    ∃ s, exec (step (fun _ => (none : Option Unit)) line) fresh downTheLine = some s ∧ s.inFlight = [] ∧
      ∀ w, s.Holds "c:d" w := by
  have hexec : exec (step (fun _ => (none : Option Unit)) line) fresh downTheLine = some _ :=
    exec_eq_getD (by decide +kernel)
  have hquiet : ((exec (step (fun _ => (none : Option Unit)) line) fresh downTheLine).getD fresh).inFlight = [] := by
    decide +kernel
  exact ⟨_, hexec, hquiet, fun w => flood_reaches_all _ line Set.univ (fun v _ w _ => line_connected v w) _
    (fun _ => rfl) "c:d" (fun _ => by decide +kernel) downTheLine (by decide +kernel) _ hexec hquiet .first trivial
    (by decide +kernel) w trivial⟩

theorem overtaken_stops_at_one :
    ∃ s, exec (step (fun _ => (none : Option Unit)) line) fresh overtaken = some s ∧ s.inFlight = [] ∧
      s.Holds "c:d" .first ∧ s.Holds "c:d" .second ∧ ¬ s.Holds "c:d" .third := by
  refine ⟨_, exec_eq_getD (by decide +kernel), ?_⟩
  decide +kernel

end TombstoneMesh

end PeatMesh
