/-
What the formation handshake proves to its two ends. The response to a
challenge names neither connection nor end, so an adversary that relays has it
made by another; and a node that connects reads nothing its acceptor would need
the secret for. The invariant is about responses: the one an acceptor waits for
from the adversary has not been on the network, unless the secret leaked.
-/
import PeatMesh.FormationAuth

namespace PeatMesh

open Runs List FormationAuthResult Network

variable {ι σ ν : Type}

/-! ## Messages -/

variable {l : List (AuthMsg σ ν)}

@[simp]
theorem mem_noncesOf {n : ν} : n ∈ noncesOf l ↔ ∃ formationId, .challenge formationId n ∈ l := by
  simp only [noncesOf, mem_filterMap]
  constructor
  · rintro ⟨m, hm, heq⟩
    cases m <;> simp at heq
    exact ⟨_, heq ▸ hm⟩
  · rintro ⟨formationId, hm⟩
    exact ⟨_, hm, rfl⟩

@[simp]
theorem mem_macsOf {r} : r ∈ macsOf l ↔ .response r ∈ l := by
  simp only [macsOf, mem_filterMap]
  constructor
  · rintro ⟨m, hm, heq⟩
    cases m <;> simp at heq
    exact heq ▸ hm
  · intro hm
    exact ⟨_, hm, rfl⟩

theorem respondToFormationAuth_cases (fk : FormationKey σ) (s : ConnectorState) (m : AuthMsg σ ν) :
    (∃ formationId n, m = .challenge formationId n ∧
        fk.respondToFormationAuth s m = (.awaitVerdict, [.response (.hmac fk n)])) ∨
      (∃ b, m = .verdict b ∧ fromByte b = .accepted ∧
        fk.respondToFormationAuth s m = (.accepted, [])) ∨
      ∃ e, fk.respondToFormationAuth s m = (.failed e, []) := by
  fun_cases FormationKey.respondToFormationAuth fk s m with
  | case3 => exact .inl ⟨_, _, rfl, rfl⟩
  | case4 b hb => exact .inr (.inl ⟨b, rfl, hb, rfl⟩)
  | _ => exact .inr (.inr ⟨_, rfl⟩)

/-! ## The property -/

/-- An end that has accepted has a holder of its secret at the other end. -/
def Connection.Mutual (setup : Setup ι σ) (x : Connection ι σ ν) : Prop :=
  (∀ a, x.acceptor = .node a → x.acceptorState = .accepted → x.connector.Holds setup (setup.keyOf a).secret) ∧
    ∀ j, x.connector = .node j → x.connectorState = .accepted → x.acceptor.Holds setup (setup.keyOf j).secret

/-! ## The invariant -/

structure ConnectionOk (setup : Setup ι σ) (net : Network ι σ ν) (x : Connection ι σ ν) : Prop where
  waiting_used : ∀ n, x.acceptorState = .awaitResponse n → n ∈ net.nonces
  down_used : ∀ formationId n, .challenge formationId n ∈ x.down → n ∈ net.nonces
  up_seen : ∀ r, .response r ∈ x.up → r ∈ net.macs
  up_own : ∀ j r, x.connector = .node j → .response r ∈ x.up → ∃ n, r = .hmac (setup.keyOf j) n
  down_verdict : ∀ a j b, x.acceptor = .node a → x.connector = .node j → .verdict b ∈ x.down →
    fromByte b = .accepted → (setup.keyOf a).secret = (setup.keyOf j).secret
  waiting_unseen : ∀ a n, x.acceptor = .node a → x.connector = .adversary → x.acceptorState = .awaitResponse n →
    .hmac (setup.keyOf a) n ∈ net.macs → setup.leaked (setup.keyOf a).secret = true
  sound : x.Mutual setup

structure NetworkOk (setup : Setup ι σ) (net : Network ι σ ν) : Prop where
  each : ∀ (c : Nat) x, net.connections[c]? = some x → ConnectionOk setup net x
  macs_used : ∀ key n, .hmac key n ∈ net.macs → n ∈ net.nonces ∨ setup.leaked key.secret = true
  /-- A challenge an acceptor waits on is under way from no other. -/
  alone : ∀ (c d : Nat) x y a formationId n, net.connections[c]? = some x → net.connections[d]? = some y →
    x.acceptorState = .awaitResponse n → y.acceptor = .node a → .challenge formationId n ∈ y.down → c = d

theorem networkOk_idle (setup : Setup ι σ) : NetworkOk setup (idle : Network ι σ ν) :=
  ⟨by simp [idle], by simp [idle], by simp [idle]⟩

def Network.after (net : Network ι σ ν) (c : Nat) (x' : Connection ι σ ν) (out : List (AuthMsg σ ν)) : Network ι σ ν :=
  ⟨net.connections.set c x', net.nonces ++ noncesOf out, net.macs ++ macsOf out⟩

variable {setup : Setup ι σ} {net net' : Network ι σ ν} {x x' y : Connection ι σ ν} {out : List (AuthMsg σ ν)} {c : Nat}

theorem ConnectionOk.grow (h : ConnectionOk setup net y)
    (hnew : ∀ a n, y.acceptor = .node a → y.connector = .adversary → y.acceptorState = .awaitResponse n →
      .response (.hmac (setup.keyOf a) n) ∈ out → setup.leaked (setup.keyOf a).secret = true) :
    ConnectionOk setup (net.after c x' out) y where
  waiting_used n hn := mem_append_left _ (h.waiting_used n hn)
  down_used formationId n hn := mem_append_left _ (h.down_used formationId n hn)
  up_seen r hr := mem_append_left _ (h.up_seen r hr)
  up_own := h.up_own
  down_verdict := h.down_verdict
  waiting_unseen a n ha hj hn hmem := by
    rcases mem_append.mp hmem with hold | hout
    · exact h.waiting_unseen a n ha hj hn hold
    · exact hnew a n ha hj hn (mem_macsOf.mp hout)
  sound := h.sound

theorem Network.getElem?_after {c d} (hc : net.connections[c]? = some x)
    (hd : (net.after c x' out).connections[d]? = some y) :
    d = c ∧ y = x' ∨ d ≠ c ∧ net.connections[d]? = some y := by
  by_cases hdc : d = c
  · subst hdc
    have hlt := (List.getElem?_eq_some_iff.mp hc).1
    rw [after, List.getElem?_set_self hlt] at hd
    cases hd
    exact .inl ⟨rfl, rfl⟩
  · rw [after, getElem?_set_ne (Ne.symm hdc)] at hd
    exact .inr ⟨hdc, hd⟩

theorem ConnectionOk.opened (connector acceptor : Party ι) : ConnectionOk setup net (.opened connector acceptor) := by
  have hup : ∀ r, .response r ∉ (Connection.opened connector acceptor : Connection ι σ ν).up := by
    intro r
    cases connector <;> simp [Connection.opened]
  exact {
    waiting_used := nofun
    down_used := nofun
    up_seen := fun r hr => absurd hr (hup r)
    up_own := fun j r _ hr => absurd hr (hup r)
    down_verdict := fun a j b _ _ hb => nomatch hb
    waiting_unseen := fun a n _ _ hn => nomatch hn
    sound := ⟨fun a _ hn => (nomatch hn), fun j _ hn => (nomatch hn)⟩ }

theorem NetworkOk.connect (h : NetworkOk setup net) (connector acceptor : Party ι) :
    NetworkOk setup { net with connections := net.connections ++ [.opened connector acceptor] } := by
  have hget : ∀ {c : Nat} {y}, (net.connections ++ [.opened connector acceptor])[c]? = some y →
      net.connections[c]? = some y ∨ y = .opened connector acceptor := by
    intro c y hy
    rcases Nat.lt_or_ge c net.connections.length with hlt | hge
    · exact .inl (by rwa [getElem?_append_left hlt] at hy)
    · rw [getElem?_append_right hge] at hy
      exact .inr (by simpa using mem_of_getElem? hy)
  refine ⟨fun c y hy => ?_, h.macs_used, fun c d y y' a formationId n hy hy' hwaits ha hmem => ?_⟩
  · rcases hget hy with hold | rfl
    · have hok := h.each c y hold
      exact ⟨hok.waiting_used, hok.down_used, hok.up_seen, hok.up_own, hok.down_verdict, hok.waiting_unseen, hok.sound⟩
    · exact .opened connector acceptor
  · rcases hget hy with hy₀ | rfl
    · rcases hget hy' with hy₀' | rfl
      · exact h.alone c d y y' a formationId n hy₀ hy₀' hwaits ha hmem
      · cases hmem
    · cases hwaits

/-! The parts of a connection a step changes, one at a time. -/

theorem ConnectionOk.of_subset {up down : List (AuthMsg σ ν)} (h : ConnectionOk setup net x) (hup : up ⊆ x.up)
    (hdown : down ⊆ x.down) : ConnectionOk setup net { x with up, down } :=
  { h with
    down_used := fun formationId n hn => h.down_used formationId n (hdown hn)
    up_seen := fun r hr => h.up_seen r (hup hr)
    up_own := fun j r hj hr => h.up_own j r hj (hup hr)
    down_verdict := fun a j b ha hj hb => h.down_verdict a j b ha hj (hdown hb) }

theorem ConnectionOk.putUp (h : ConnectionOk setup net x) (hseen : ∀ r, .response r ∈ out → r ∈ net.macs)
    (hown : ∀ j r, x.connector = .node j → .response r ∈ out → ∃ n, r = .hmac (setup.keyOf j) n) :
    ConnectionOk setup net { x with up := x.up ++ out } :=
  { h with
    up_seen := fun r hr => (mem_append.mp hr).elim (h.up_seen r) (hseen r)
    up_own := fun j r hj hr => (mem_append.mp hr).elim (h.up_own j r hj) (hown j r hj) }

theorem ConnectionOk.putDown (h : ConnectionOk setup net x)
    (hused : ∀ formationId n, .challenge formationId n ∈ out → n ∈ net.nonces)
    (hverdict : ∀ a j b, x.acceptor = .node a → x.connector = .node j → .verdict b ∈ out →
      fromByte b = .accepted → (setup.keyOf a).secret = (setup.keyOf j).secret) :
    ConnectionOk setup net { x with down := x.down ++ out } :=
  { h with
    down_used := fun formationId n hn => (mem_append.mp hn).elim (h.down_used formationId n) (hused formationId n)
    down_verdict := fun a j b ha hj hb =>
      (mem_append.mp hb).elim (h.down_verdict a j b ha hj) (hverdict a j b ha hj) }

theorem ConnectionOk.setAcceptor (s : AcceptorState ν) (h : ConnectionOk setup net x)
    (hused : ∀ n, s = .awaitResponse n → n ∈ net.nonces)
    (hunseen : ∀ a n, x.acceptor = .node a → s = .awaitResponse n → .hmac (setup.keyOf a) n ∈ net.macs →
      setup.leaked (setup.keyOf a).secret = true)
    (haccepted : ∀ a, x.acceptor = .node a → s = .accepted → x.connector.Holds setup (setup.keyOf a).secret) :
    ConnectionOk setup net { x with acceptorState := s } :=
  { h with
    waiting_used := hused
    waiting_unseen := fun a n ha _ => hunseen a n ha
    sound := ⟨haccepted, h.sound.2⟩ }

theorem ConnectionOk.setConnector (s : ConnectorState) (h : ConnectionOk setup net x)
    (haccepted : ∀ j, x.connector = .node j → s = .accepted → x.acceptor.Holds setup (setup.keyOf j).secret) :
    ConnectionOk setup net { x with connectorState := s } :=
  { h with sound := ⟨h.sound.1, haccepted⟩ }

/-! ## The condition -/

variable [DecidableEq σ] [DecidableEq ν]

variable (setup)

def Network.awaits (net : Network ι σ ν) (key : FormationKey σ) (nonce : ν) : Bool :=
  net.connections.any fun y =>
    match y.connector, y.acceptor with
    | .adversary, .node a => y.acceptorState = .awaitResponse nonce ∧ setup.keyOf a = key
    | _, _ => false

def Connection.deceived (net : Network ι σ ν) (x : Connection ι σ ν) : Bool :=
  match x.connector, x.acceptor, x.down with
  | .node j, .adversary, .challenge _ n :: _ =>
    !setup.leaked (setup.keyOf j).secret && net.awaits setup (setup.keyOf j) n
  | .node j, .adversary, .verdict b :: _ =>
    !setup.leaked (setup.keyOf j).secret && fromByte b = .accepted
  | _, _, _ => false

/-- No connector reads a relayed challenge or an acceptance from the adversary. -/
def Undeceived (net : Network ι σ ν) : NetworkEvent ι σ ν → Prop
  | .on c .readDown => ∀ x ∈ net.connections[c]?, x.deceived setup net = false
  | _ => True

instance (net : Network ι σ ν) (e : NetworkEvent ι σ ν) : Decidable (Undeceived setup net e) := by
  unfold Undeceived
  split <;> infer_instance

variable {setup}

/-! ## What a step does to its connection -/

/-- The steps on a connection, with what they read and put on it. -/
inductive ConnectionMove (setup : Setup ι σ) (net : Network ι σ ν) (x : Connection ι σ ν) :
    ConnectionEvent σ ν → Connection ι σ ν → List (AuthMsg σ ν) → Prop
  | sendUp {m} (connector : x.connector = .adversary) (derivable : setup.derivable net.macs m = true) :
      ConnectionMove setup net x (.sendUp m) { x with up := x.up ++ [m] } [m]
  | sendDown {m} (acceptor : x.acceptor = .adversary) (derivable : setup.derivable net.macs m = true) :
      ConnectionMove setup net x (.sendDown m) { x with down := x.down ++ [m] } [m]
  | challenge {a m up nonce} (acceptor : x.acceptor = .node a) (read : x.up = m :: up)
      (fresh : nonce ∉ net.nonces) :
      ConnectionMove setup net x (.readUp nonce)
        { x with up, acceptorState := .awaitResponse nonce,
                 down := x.down ++ [.challenge (setup.keyOf a).formationId nonce] }
        [.challenge (setup.keyOf a).formationId nonce]
  | verified {a n up nonce} (acceptor : x.acceptor = .node a) (waiting : x.acceptorState = .awaitResponse n)
      (read : x.up = .response (.hmac (setup.keyOf a) n) :: up) :
      ConnectionMove setup net x (.readUp nonce)
        { x with up, acceptorState := .accepted, down := x.down ++ [.verdict accepted.toByte] }
        [.verdict accepted.toByte]
  | refused {a m up nonce e out} (acceptor : x.acceptor = .node a) (read : x.up = m :: up)
      (wrote : out = [] ∨ out = [.verdict rejected.toByte]) :
      ConnectionMove setup net x (.readUp nonce)
        { x with up, acceptorState := .failed e, down := x.down ++ out } out
  | responded {j formationId n down} (connector : x.connector = .node j)
      (read : x.down = .challenge formationId n :: down) :
      ConnectionMove setup net x .readDown
        { x with down, connectorState := .awaitVerdict, up := x.up ++ [.response (.hmac (setup.keyOf j) n)] }
        [.response (.hmac (setup.keyOf j) n)]
  | accepted {j b down} (connector : x.connector = .node j) (read : x.down = .verdict b :: down)
      (verdict : fromByte b = .accepted) :
      ConnectionMove setup net x .readDown { x with down, connectorState := .accepted } []
  | dismissed {j m down e} (connector : x.connector = .node j) (read : x.down = m :: down) :
      ConnectionMove setup net x .readDown { x with down, connectorState := .failed e } []
  | acceptorFails {e} : ConnectionMove setup net x (.acceptorFails e) { x with acceptorState := .failed e } []
  | connectorFails {e} : ConnectionMove setup net x (.connectorFails e) { x with connectorState := .failed e } []

theorem runFormationAuth_cases (fk : FormationKey σ) (nonce : ν) (s : AcceptorState ν) (m : AuthMsg σ ν) :
    fk.runFormationAuth nonce s m = (.awaitResponse nonce, [.challenge fk.formationId nonce]) ∨
      (∃ n, s = .awaitResponse n ∧ m = .response (.hmac fk n) ∧
        fk.runFormationAuth nonce s m = (.accepted, [.verdict accepted.toByte])) ∨
      ∃ e out, fk.runFormationAuth nonce s m = (.failed e, out) ∧
        (out = [] ∨ out = [.verdict rejected.toByte]) := by
  fun_cases FormationKey.runFormationAuth fk nonce s m with
  | case2 => exact .inl rfl
  | case3 n r hverify =>
    have hr : r = .hmac fk n := (of_decide_eq_true hverify).symm
    exact .inr (.inl ⟨n, rfl, hr ▸ rfl, rfl⟩)
  | case4 => exact .inr (.inr ⟨_, _, rfl, .inr rfl⟩)
  | _ => exact .inr (.inr ⟨_, _, rfl, .inl rfl⟩)

variable {e : ConnectionEvent σ ν}

variable [DecidableEq ι] in
theorem connectionStep_cases (h : connectionStep setup net x e = some (x', out)) :
    ConnectionMove setup net x e x' out := by
  revert h
  fun_cases connectionStep setup net x e <;> rintro ⟨⟩
  · rename_i hm
    exact .sendUp hm.1 hm.2
  · rename_i hm
    exact .sendDown hm.1 hm.2
  · rename_i nonce a m up hup hacceptor state hrun hguard
    rcases runFormationAuth_cases (setup.keyOf a) nonce x.acceptorState m with heq | ⟨n, hs, rfl, heq⟩ |
      ⟨e, out', heq, hout⟩ <;> cases hrun.symm.trans heq
    · exact .challenge hacceptor hup (hguard.2 nonce (by simp [noncesOf]))
    · exact .verified hacceptor hs hup
    · exact .refused hacceptor hup hout
  · rename_i j m down hdown hconnector state _ hrun
    rcases respondToFormationAuth_cases (setup.keyOf j) x.connectorState m with ⟨fid, n, rfl, heq⟩ |
      ⟨b, rfl, hb, heq⟩ | ⟨e, heq⟩ <;> cases hrun.symm.trans heq
    · exact .responded hconnector hdown
    · rw [append_nil]
      exact .accepted hconnector hdown hb
    · rw [append_nil]
      exact .dismissed hconnector hdown
  · exact .acceptorFails
  · exact .connectorFails

/-! ## One step -/

theorem NetworkOk.new_mac (h : NetworkOk setup net) {c d : Nat}
    {a : ι} {n : ν} (hc : net.connections[c]? = some x) (hmove : ConnectionMove setup net x e x' out)
    (hguard : Undeceived setup net (.on c e)) (hd : net.connections[d]? = some y) (hacceptor : y.acceptor = .node a)
    (hconnector : y.connector = .adversary) (hwaits : y.acceptorState = .awaitResponse n)
    (hnew : .response (.hmac (setup.keyOf a) n) ∈ out) : setup.leaked (setup.keyOf a).secret = true := by
  have hold := (h.each d y hd).waiting_unseen a n hacceptor hconnector hwaits
  cases hmove with
  | sendUp _ hder | sendDown _ hder =>
    rw [mem_singleton] at hnew
    simp only [← hnew, Setup.derivable, Bool.or_eq_true, decide_eq_true_eq] at hder
    exact hder.elim hold id
  | @responded j formationId n' down hj hread =>
    simp only [mem_singleton, AuthMsg.response.injEq, Mac.hmac.injEq] at hnew
    obtain ⟨hkey, rfl⟩ := hnew
    cases hx : x.acceptor with
    | node a' =>
      -- its own acceptor made the challenge, so it is the connection `d`
      have hcd := h.alone d c y x a' formationId n hd hc hwaits hx (by simp [hread])
      rw [hcd, hc] at hd
      cases hd
      rw [hj] at hconnector
      cases hconnector
    | adversary =>
      have hundeceived := hguard x hc
      have hawaits : net.awaits setup (setup.keyOf a) n = true := by
        rw [awaits, any_eq_true]
        exact ⟨y, mem_of_getElem? hd, by simp [hconnector, hacceptor, hwaits]⟩
      simpa [Connection.deceived, hj, hx, hread, ← hkey, hawaits] using hundeceived
  | refused _ _ hout => rcases hout with rfl | rfl <;> simp at hnew
  | challenge | verified | accepted | dismissed | acceptorFails | connectorFails => simp at hnew

namespace ConnectionMove

variable {e : ConnectionEvent σ ν} {n : ν}

theorem acceptor_eq (h : ConnectionMove setup net x e x' out) : x'.acceptor = x.acceptor := by
  cases h <;> rfl

theorem waiting (h : ConnectionMove setup net x e x' out) (hn : x'.acceptorState = .awaitResponse n) :
    x.acceptorState = .awaitResponse n ∨ n ∉ net.nonces := by
  cases h with
  | challenge _ _ hfresh =>
    cases hn
    exact .inr hfresh
  | verified | refused | acceptorFails => cases hn
  | sendUp | sendDown | responded | accepted | dismissed | connectorFails => exact .inl hn

theorem challenge_mem {a : ι} {formationId : String} (h : ConnectionMove setup net x e x' out)
    (ha : x'.acceptor = .node a) (hmem : .challenge formationId n ∈ x'.down) :
    .challenge formationId n ∈ x.down ∨ n ∉ net.nonces := by
  cases h with
  | sendDown hadversary =>
    rw [hadversary] at ha
    cases ha
  | challenge _ _ hfresh =>
    rcases mem_append.mp hmem with hold | hnew
    · exact .inl hold
    · rw [mem_singleton] at hnew
      cases hnew
      exact .inr hfresh
  | verified => exact .inl (by simpa using hmem)
  | refused _ _ hout => exact .inl (by rcases hout with rfl | rfl <;> simpa using hmem)
  | responded _ hread | accepted _ hread | dismissed _ hread => exact .inl (hread ▸ mem_cons_of_mem _ hmem)
  | sendUp | acceptorFails | connectorFails => exact .inl hmem

end ConnectionMove

theorem NetworkOk.moved (h : NetworkOk setup net)
    (hc : net.connections[c]? = some x) (hmove : ConnectionMove setup net x e x' out)
    (hguard : Undeceived setup net (.on c e)) : ConnectionOk setup (net.after c x' out) x' := by
  have hx : ConnectionOk setup (net.after c x' out) x :=
    (h.each c x hc).grow fun a n ha hj hn => h.new_mac hc hmove hguard hc ha hj hn
  have hup : ∀ {m up}, x.up = m :: up → up ⊆ x.up := fun hread => hread ▸ subset_cons_self _ _
  have hdown : ∀ {m down}, x.down = m :: down → down ⊆ x.down := fun hread => hread ▸ subset_cons_self _ _
  cases hmove with
  | sendUp hconnector _ =>
    refine hx.putUp (fun r hr => mem_append_right _ (mem_macsOf.mpr hr)) fun j r hj => ?_
    rw [hconnector] at hj
    cases hj
  | sendDown hacceptor _ =>
    refine hx.putDown (fun f n hn => mem_append_right _ (mem_noncesOf.mpr ⟨f, hn⟩)) fun a j b ha => ?_
    rw [hacceptor] at ha
    cases ha
  | @challenge a m up nonce ha hread hfresh =>
    -- a response to the fresh nonce was never made but with a leaked secret
    have hunseen : ∀ a', .hmac (setup.keyOf a') nonce ∈ net.macs → setup.leaked (setup.keyOf a').secret = true :=
      fun a' hmem => (h.macs_used _ _ hmem).resolve_left hfresh
    have hread' := hx.of_subset (hup hread) (Subset.refl _)
    have hwaits := hread'.setAcceptor (.awaitResponse nonce) (by rintro n ⟨⟩; simp [Network.after])
      (by rintro a' n - ⟨⟩ hmem; exact hunseen a' (by simpa [Network.after, macsOf] using hmem)) nofun
    exact hwaits.putDown (fun f n hn => mem_append_right _ (mem_noncesOf.mpr ⟨f, hn⟩)) (by simp)
  | @verified a n up nonce ha hwaits hread =>
    have hmem : .response (.hmac (setup.keyOf a) n) ∈ x.up := by simp [hread]
    have hholds : x.connector.Holds setup (setup.keyOf a).secret := by
      cases hconnector : x.connector with
      | adversary => exact hx.waiting_unseen a n ha hconnector hwaits (hx.up_seen _ hmem)
      | node j =>
        obtain ⟨n', heq⟩ := hx.up_own j _ hconnector hmem
        simp only [Mac.hmac.injEq] at heq
        exact congrArg FormationKey.secret heq.1.symm
    have hread' := hx.of_subset (hup hread) (Subset.refl _)
    have haccepted := hread'.setAcceptor .accepted nofun nofun fun a' ha' _ => by
      cases ha.symm.trans ha'
      exact hholds
    refine haccepted.putDown (by simp) fun a' j b ha' hj _ _ => ?_
    cases ha.symm.trans ha'
    rw [hj] at hholds
    exact hholds.symm
  | @refused a m up nonce e out ha hread hout =>
    have hread' := hx.of_subset (hup hread) (Subset.refl _)
    have hfailed := hread'.setAcceptor (.failed e) nofun nofun nofun
    refine hfailed.putDown (by rcases hout with rfl | rfl <;> simp) fun a' j b _ _ hb hverdict => ?_
    rcases hout with rfl | rfl
    · cases hb
    · rw [mem_singleton] at hb
      cases hb
      cases hverdict
  | @responded j formationId n down hj hread =>
    have hread' := hx.of_subset (Subset.refl _) (hdown hread)
    have hwaits := hread'.setConnector .awaitVerdict nofun
    refine hwaits.putUp (fun r hr => mem_append_right _ (mem_macsOf.mpr hr)) fun j' r hj' hr => ?_
    cases hj.symm.trans hj'
    rw [mem_singleton] at hr
    cases hr
    exact ⟨n, rfl⟩
  | @accepted j b down hj hread hverdict =>
    have hholds : x.acceptor.Holds setup (setup.keyOf j).secret := by
      cases hacceptor : x.acceptor with
      | adversary =>
        have hundeceived := hguard x hc
        simpa [Connection.deceived, hj, hacceptor, hread, hverdict, Party.Holds] using hundeceived
      | node a => exact hx.down_verdict a j b hacceptor hj (by simp [hread]) hverdict
    refine (hx.of_subset (Subset.refl _) (hdown hread)).setConnector .accepted fun j' hj' _ => ?_
    cases hj.symm.trans hj'
    exact hholds
  | dismissed hj hread => exact (hx.of_subset (Subset.refl _) (hdown hread)).setConnector _ nofun
  | acceptorFails => exact hx.setAcceptor _ nofun nofun nofun
  | connectorFails => exact hx.setConnector _ nofun

theorem NetworkOk.on (h : NetworkOk setup net)
    (hc : net.connections[c]? = some x) (hmove : ConnectionMove setup net x e x' out)
    (hguard : Undeceived setup net (.on c e)) : NetworkOk setup (net.after c x' out) where
  each d y hd := by
    rcases getElem?_after hc hd with ⟨-, rfl⟩ | ⟨-, hd⟩
    · exact h.moved hc hmove hguard
    · exact (h.each d y hd).grow fun a n ha hj hn => h.new_mac hc hmove hguard hd ha hj hn
  macs_used key n hmem := by
    rcases mem_append.mp hmem with hold | hnew
    · exact (h.macs_used key n hold).imp_left (mem_append_left _)
    rw [mem_macsOf] at hnew
    cases hmove with
    | sendUp _ hder | sendDown _ hder =>
      rw [mem_singleton] at hnew
      simp only [← hnew, Setup.derivable, Bool.or_eq_true, decide_eq_true_eq] at hder
      exact hder.elim (fun hold => (h.macs_used key n hold).imp_left (mem_append_left _)) .inr
    | responded hj hread =>
      rw [mem_singleton] at hnew
      cases hnew
      exact .inl (mem_append_left _ ((h.each c x hc).down_used _ n (hread ▸ mem_cons_self)))
    | refused _ _ hout => rcases hout with rfl | rfl <;> simp at hnew
    | challenge | verified | accepted | dismissed | acceptorFails | connectorFails => simp at hnew
  alone d d' y y' a formationId n hd hd' hwaits ha hmem := by
    -- what is fresh is waited on, and under way, nowhere else
    rcases getElem?_after hc hd with ⟨rfl, rfl⟩ | ⟨-, hy⟩ <;>
      rcases getElem?_after hc hd' with ⟨rfl, rfl⟩ | ⟨-, hy'⟩
    · rfl
    · rcases hmove.waiting hwaits with hold | hfresh
      · exact h.alone d d' x y' a formationId n hc hy' hold ha hmem
      · exact absurd ((h.each d' y' hy').down_used formationId n hmem) hfresh
    · rcases hmove.challenge_mem ha hmem with hold | hfresh
      · exact h.alone d d' y x a formationId n hy hc hwaits (hmove.acceptor_eq ▸ ha) hold
      · exact absurd ((h.each d y hy).waiting_used n hwaits) hfresh
    · exact h.alone d d' y y' a formationId n hy hy' hwaits ha hmem

variable [DecidableEq ι]

theorem NetworkOk.step {e} (h : NetworkOk setup net) (hguard : Undeceived setup net e)
    (hstep : networkStep setup net e = some net') : NetworkOk setup net' := by
  cases e with
  | connect connector acceptor =>
    cases hstep
    exact h.connect connector acceptor
  | on c e =>
    simp only [networkStep, Option.bind_eq_bind, Option.bind_eq_some_iff, Prod.exists] at hstep
    obtain ⟨x, hc, x', out, hmove, heq⟩ := hstep
    cases heq
    exact h.on hc (connectionStep_cases hmove) hguard

/-- In every run in which no connector is deceived, each end that accepts has a holder of its formation secret at
the other end. -/
theorem handshake_mutual (setup : Setup ι σ) (events : List (NetworkEvent ι σ ν)) (net : Network ι σ ν)
    (hrun : exec (networkStep setup) .idle events = some net)
    (hundeceived : Along (networkStep setup) (Undeceived setup) .idle events) :
    ∀ x ∈ net.connections, x.Mutual setup := by
  have hok : NetworkOk setup net := along_invariant (fun _ _ _ h hguard hstep => h.step hguard hstep)
    (networkOk_idle setup) hundeceived hrun
  intro x hx
  obtain ⟨c, hc⟩ := getElem?_of_mem hx
  exact (hok.each c x hc).sound

/-! Two nodes of one formation, whose secret the adversary does not hold. -/

def alpha : FormationKey Nat := ⟨"alpha", 0⟩

def alphaSetup : Setup Nat Nat := ⟨fun _ => alpha, fun _ => false⟩

def honestRun : List (NetworkEvent Nat Nat Nat) :=
  [.connect (.node 1) (.node 0), .connect .adversary (.node 0),
   .on 0 (.readUp 7), .on 1 (.sendUp (.version 1)), .on 1 (.readUp 8),
   .on 0 .readDown, .on 0 (.readUp 9), .on 0 .readDown,
   .on 1 (.sendUp (.response .noise)), .on 1 (.readUp 9)]

theorem honestRun_mutual : ∃ net, exec (networkStep alphaSetup) .idle honestRun = some net ∧
    (∃ x ∈ net.connections, x.acceptorState = .accepted ∧ x.connectorState = .accepted) ∧
    ∀ x ∈ net.connections, x.Mutual alphaSetup :=
  ⟨_, exec_eq_getD (by decide +kernel), by decide +kernel,
    handshake_mutual alphaSetup honestRun _ (exec_eq_getD (by decide +kernel)) (by decide +kernel)⟩

def relayRun : List (NetworkEvent Nat Nat Nat) :=
  [.connect .adversary (.node 0), .connect (.node 1) .adversary,
   .on 0 (.sendUp (.version 1)), .on 0 (.readUp 7),
   .on 1 (.sendDown (.challenge "alpha" 7)), .on 1 .readDown,
   .on 0 (.sendUp (.response (.hmac alpha 7))), .on 0 (.readUp 8),
   .on 1 (.sendDown (.verdict 1)), .on 1 .readDown]

theorem relayRun_admits_adversary : ∃ net, exec (networkStep alphaSetup) .idle relayRun = some net ∧
    (∃ x ∈ net.connections, x.connector = .adversary ∧ x.acceptor = .node 0 ∧ x.acceptorState = .accepted) ∧
    (∃ x ∈ net.connections, x.connector = .node 1 ∧ x.acceptor = .adversary ∧ x.connectorState = .accepted) ∧
    ¬ Party.Holds alphaSetup alpha.secret .adversary :=
  ⟨_, exec_eq_getD (by decide +kernel), by decide +kernel, by decide +kernel, nofun⟩

end PeatMesh
