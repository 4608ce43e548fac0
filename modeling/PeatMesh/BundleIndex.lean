/-
The two indexes of a certificate bundle (`security/certificate.rs`): the
certificates by their subject's key, and the node ids with the key of the
certificate last added for each. Two things part them: a certificate for
another node id's key, and the removal of the expired.
-/
import PeatMesh.Runs
import PeatMesh.TrustChain

namespace PeatMesh

open Runs CertificateBundle List Option Std.ExtTreeMap

/-! ## What the operations leave in the node id index -/

namespace CertificateBundle

variable {b : CertificateBundle} {c : MeshCertificate} {key : PublicKey} {nowMs : UInt64} {n : String}

def NamesValid (b : CertificateBundle) (nowMs : UInt64) (n : String) : Prop :=
  ∀ key c, b.getCertificate key = some c → c.nodeId = n → c.isValid nowMs = true

def OnlyNamed (b : CertificateBundle) (c : MeshCertificate) : Prop :=
  ∀ n : String, b.nodeIdIndex[n]? = some c.subjectPublicKey → n = c.nodeId

theorem nodeIdIndex_addAuthority : (b.addAuthority key).nodeIdIndex = b.nodeIdIndex := by
  unfold addAuthority
  split <;> rfl

theorem nodeIdIndex_addCertificateUnchecked (hn : n ≠ "") :
    (b.addCertificateUnchecked c).nodeIdIndex[n]? =
      if c.nodeId = n then some c.subjectPublicKey else b.nodeIdIndex[n]? := by
  by_cases hc : c.nodeId = ""
  · simp [addCertificateUnchecked, hc, hn.symm]
  · simp [addCertificateUnchecked, hc, Std.ExtTreeMap.getElem?_insert]

theorem getElem?_foldl_erase {gone : List (PublicKey × MeshCertificate)} {index : Std.ExtTreeMap String PublicKey} :
    (gone.foldl (fun index e => if e.2.nodeId = "" then index else index.erase e.2.nodeId) index)[n]? = some key ↔
      index[n]? = some key ∧ (n ≠ "" → ∀ e ∈ gone, e.2.nodeId ≠ n) := by
  induction gone generalizing index with
  | nil => simp
  | cons e gone ih =>
    rw [foldl_cons, ih, forall_mem_cons]
    by_cases he : e.2.nodeId = ""
    · simp only [he, if_true]
      exact and_congr_right fun _ => forall_congr' fun hn => (and_iff_right hn.symm).symm
    simp only [he, if_false, getElem?_erase, Std.compare_eq_iff_eq]
    by_cases heq : e.2.nodeId = n
    · have hn : n ≠ "" := heq ▸ he
      simp [heq, hn]
    · simp [heq]

theorem nodeIdIndex_removeExpired : (b.removeExpired nowMs).1.nodeIdIndex[n]? = some key ↔
    b.nodeIdIndex[n]? = some key ∧ (n ≠ "" → b.NamesValid nowMs n) := by
  simp only [removeExpired, getElem?_foldl_erase, Prod.forall, mem_toList_iff_getElem?_eq_some,
    getElem?_filter', filter_eq_some_iff, NamesValid, getCertificate]
  refine and_congr_right fun _ => forall_congr' fun _ => forall₂_congr fun key' c' => ?_
  cases c'.isValid nowMs <;> simp

theorem getElem?_removeExpired : (b.removeExpired nowMs).1.certificates[key]? = some c ↔
    b.certificates[key]? = some c ∧ c.isValid nowMs = true := by
  simp only [removeExpired, getElem?_filter', filter_eq_some_iff]

theorem getCertificateByNodeId_eq_some : b.getCertificateByNodeId n = some c ↔
    b.nodeIdIndex[n]? = some c.subjectPublicKey ∧ b.certificates[c.subjectPublicKey]? = some c := by
  simp only [getCertificateByNodeId, bind_eq_some_iff]
  refine ⟨fun ⟨key, hindex, hc⟩ => ?_, fun ⟨hindex, hc⟩ => ⟨_, hindex, hc⟩⟩
  obtain rfl := b.keyed key c hc
  exact ⟨hindex, hc⟩

end CertificateBundle

/-! ## The bundle and its history -/

/-- A call on the bundle, those without validation among them. -/
inductive BundleCall
  | checked (op : BundleOp)
  | addCertificateUnchecked (c : MeshCertificate)

/-- A bundle, the certificate last added for each node id and the time of the
last removal. -/
structure BundleHistory where
  bundle : CertificateBundle
  latest : String → Option MeshCertificate
  removedAt : Option UInt64

namespace BundleHistory

def new : BundleHistory := ⟨.new, fun _ => none, none⟩

def added (h : BundleHistory) (c : MeshCertificate) (b : CertificateBundle) : BundleHistory :=
  ⟨b, Function.update h.latest c.nodeId (some c), h.removedAt⟩

def step (ed : Ed25519) (h : BundleHistory) : BundleCall → BundleHistory
  | .checked (.addAuthority key) => { h with bundle := h.bundle.addAuthority key }
  | .checked (.addCertificate c nowMs) =>
    match h.bundle.addCertificate ed c nowMs with
    | .ok b => h.added c b
    | .error _ => h
  | .checked (.removeExpired nowMs) => { h with bundle := (h.bundle.removeExpired nowMs).1, removedAt := some nowMs }
  | .addCertificateUnchecked c => h.added c (h.bundle.addCertificateUnchecked c)

def after (ed : Ed25519) (calls : List BundleCall) : BundleHistory := calls.foldl (step ed) .new

/-- A certificate the bundle must lead to from its node id: the last that was
added for it, and valid when the expired were last removed. -/
structure Current (h : BundleHistory) (c : MeshCertificate) : Prop where
  held : h.bundle.getCertificate c.subjectPublicKey = some c
  named : c.nodeId ≠ ""
  latest : h.latest c.nodeId = some c
  valid : ∀ nowMs, h.removedAt = some nowMs → c.isValid nowMs = true

/-- The two indexes agree: a node id leads to a certificate of that node id,
and to the one that is current for it. -/
structure Agrees (h : BundleHistory) : Prop where
  names : ∀ n c, h.bundle.getCertificateByNodeId n = some c → c.nodeId = n
  finds : ∀ c, h.Current c → h.bundle.getCertificateByNodeId c.nodeId = some c

/-- An entry of the index is for the certificate last added for its node id, which lacks one only if it was there,
and valid, at the last removal. -/
structure Linked (h : BundleHistory) : Prop where
  index : ∀ n key, h.bundle.nodeIdIndex[n]? = some key → n ≠ "" ∧ ∃ c, h.latest n = some c ∧ c.subjectPublicKey = key
  latest : ∀ c, h.bundle.getCertificate c.subjectPublicKey = some c →
    h.bundle.nodeIdIndex[c.nodeId]? = some c.subjectPublicKey → h.latest c.nodeId = some c
  entry : ∀ c, h.bundle.getCertificate c.subjectPublicKey = some c → c.nodeId ≠ "" → h.latest c.nodeId = some c →
    h.bundle.nodeIdIndex[c.nodeId]? = some c.subjectPublicKey ∨
      ∃ nowMs, h.removedAt = some nowMs ∧ c.isValid nowMs = true

end BundleHistory

/-- The call leaves the two indexes together. -/
def BundleCall.Keeps (ed : Ed25519) (b : CertificateBundle) : BundleCall → Prop
  | .checked (.addAuthority _) => True
  | .checked (.addCertificate c nowMs) => (∃ b', b.addCertificate ed c nowMs = .ok b') → b.OnlyNamed c
  | .checked (.removeExpired nowMs) =>
    ∀ n c, b.getCertificateByNodeId n = some c → c.isValid nowMs = true → b.NamesValid nowMs n
  | .addCertificateUnchecked c => b.OnlyNamed c

namespace BundleHistory

variable {ed : Ed25519} {h : BundleHistory} {c : MeshCertificate} {nowMs : UInt64} {calls : List BundleCall}

/-! ## Adding a certificate -/

variable {n : String} {key : PublicKey}

theorem nodeIdIndex_added (hl : h.Linked) :
    (h.bundle.addCertificateUnchecked c).nodeIdIndex[n]? = some key ↔
      n ≠ "" ∧ c.nodeId = n ∧ c.subjectPublicKey = key ∨ c.nodeId ≠ n ∧ h.bundle.nodeIdIndex[n]? = some key := by
  by_cases hn : n = ""
  · -- no entry is for the empty node id, before or after
    have hnone : h.bundle.nodeIdIndex[n]? ≠ some key := fun hi => (hl.index n key hi).1 hn
    by_cases hc : c.nodeId = ""
    · simp [addCertificateUnchecked, hc, hn, hn ▸ hnone]
    · simp [addCertificateUnchecked, hc, hn, Std.ExtTreeMap.getElem?_insert]
  · rw [nodeIdIndex_addCertificateUnchecked hn]
    by_cases hc : c.nodeId = n <;> simp [hc, hn]

theorem getCertificate_added {d} :
    (h.bundle.addCertificateUnchecked c).getCertificate key = some d ↔
      c.subjectPublicKey = key ∧ c = d ∨ c.subjectPublicKey ≠ key ∧ h.bundle.getCertificate key = some d := by
  rw [getCertificate, getElem?_addCertificateUnchecked]
  by_cases hkey : c.subjectPublicKey = key <;> simp [hkey, getCertificate]

theorem latest_added {d b} :
    (h.added c b).latest n = some d ↔ c.nodeId = n ∧ c = d ∨ c.nodeId ≠ n ∧ h.latest n = some d := by
  by_cases hn : c.nodeId = n
  · subst hn
    simp [added]
  · simp [added, Function.update_of_ne (Ne.symm hn), hn]

theorem linked_added (hl : h.Linked) : (h.added c (h.bundle.addCertificateUnchecked c)).Linked := by
  refine ⟨fun n key hi => ?_, fun d hd hi => ?_, fun d hd hn hlast => ?_⟩
  · obtain ⟨hn, hname, hkey⟩ | ⟨hname, hi⟩ := (nodeIdIndex_added hl).mp hi
    · exact ⟨hn, c, latest_added.mpr (.inl ⟨hname, rfl⟩), hkey⟩
    · obtain ⟨hn, d, hlast, hkey⟩ := hl.index n key hi
      exact ⟨hn, d, latest_added.mpr (.inr ⟨hname, hlast⟩), hkey⟩
  · rw [latest_added]
    obtain ⟨-, rfl⟩ | ⟨hkey, hd⟩ := getCertificate_added.mp hd
    · exact .inl ⟨rfl, rfl⟩
    · -- the entry is not the new one, since the keys differ
      obtain ⟨-, -, heq⟩ | ⟨hname, hi⟩ := (nodeIdIndex_added hl).mp hi
      · exact absurd heq hkey
      · exact .inr ⟨hname, hl.latest d hd hi⟩
  · obtain ⟨hname, rfl⟩ | ⟨hname, hlast⟩ := latest_added.mp hlast
    · exact .inl ((nodeIdIndex_added hl).mpr (.inl ⟨hn, rfl, rfl⟩))
    · obtain ⟨-, rfl⟩ | ⟨hkey, hd⟩ := getCertificate_added.mp hd
      · exact absurd rfl hname
      · refine (hl.entry d hd hn hlast).imp_left fun hi => ?_
        exact (nodeIdIndex_added hl).mpr (.inr ⟨hname, hi⟩)

theorem agrees_added (hl : h.Linked) (ha : h.Agrees) :
    (h.added c (h.bundle.addCertificateUnchecked c)).Agrees ↔ h.bundle.OnlyNamed c := by
  have hself : (h.bundle.addCertificateUnchecked c).certificates[c.subjectPublicKey]? = some c := by
    simp [getElem?_addCertificateUnchecked]
  refine ⟨fun ha' n hi => ?_, fun honly => ⟨fun n d hget => ?_, fun d hd => ?_⟩⟩
  · -- the other node id would lead to `c`
    by_contra hne
    have hi' := (nodeIdIndex_added hl).mpr (.inr ⟨fun heq => hne heq.symm, hi⟩)
    exact hne (ha'.names n c (getCertificateByNodeId_eq_some.mpr ⟨hi', hself⟩)).symm
  · obtain ⟨hi, hd⟩ := getCertificateByNodeId_eq_some.mp hget
    obtain ⟨hkey, rfl⟩ | ⟨hkey, hd⟩ := getCertificate_added.mp hd
    · obtain ⟨-, hname, -⟩ | ⟨hname, hi⟩ := (nodeIdIndex_added hl).mp hi
      · exact hname
      · exact (honly n hi).symm
    · obtain ⟨-, -, heq⟩ | ⟨hname, hi⟩ := (nodeIdIndex_added hl).mp hi
      · exact absurd heq hkey
      · exact ha.names n d (getCertificateByNodeId_eq_some.mpr ⟨hi, hd⟩)
  · rw [getCertificateByNodeId_eq_some]
    obtain ⟨hname, rfl⟩ | ⟨hname, hlast⟩ := latest_added.mp hd.latest
    · exact ⟨(nodeIdIndex_added hl).mpr (.inl ⟨hd.named, rfl, rfl⟩), hself⟩
    · obtain ⟨-, rfl⟩ | ⟨hkey, hheld⟩ := getCertificate_added.mp hd.held
      · exact absurd rfl hname
      · have hget := ha.finds d ⟨hheld, hd.named, hlast, hd.valid⟩
        obtain ⟨hi, -⟩ := getCertificateByNodeId_eq_some.mp hget
        exact ⟨(nodeIdIndex_added hl).mpr (.inr ⟨hname, hi⟩), hd.held⟩

/-! ## Removing the expired -/

theorem linked_removed (hl : h.Linked) : (h.step ed (.checked (.removeExpired nowMs))).Linked := by
  refine ⟨fun n key hi => ?_, fun d hd hi => ?_, fun d hd _ _ => .inr ⟨nowMs, rfl, ?_⟩⟩
  · exact hl.index n key (nodeIdIndex_removeExpired.mp hi).1
  · exact hl.latest d (getElem?_removeExpired.mp hd).1
      (nodeIdIndex_removeExpired.mp hi).1
  · exact (getElem?_removeExpired.mp hd).2

theorem Agrees.getCertificateByNodeId_iff (ha : h.Agrees) (hl : h.Linked) :
    h.bundle.getCertificateByNodeId n = some c ↔
      h.bundle.getCertificate c.subjectPublicKey = some c ∧ n ≠ "" ∧ c.nodeId = n ∧ h.latest n = some c := by
  refine ⟨fun hget => ?_, fun ⟨hheld, hn, hname, hlast⟩ => ?_⟩
  · obtain rfl := ha.names n c hget
    obtain ⟨hi, hheld⟩ := getCertificateByNodeId_eq_some.mp hget
    exact ⟨hheld, (hl.index _ _ hi).1, rfl, hl.latest c hheld hi⟩
  · subst hname
    by_cases hi : h.bundle.nodeIdIndex[c.nodeId]? = some c.subjectPublicKey
    · exact getCertificateByNodeId_eq_some.mpr ⟨hi, hheld⟩
    -- without its entry it was valid at the last removal, so it is current
    obtain ⟨nowMs, hat, hvalid⟩ := (hl.entry c hheld hn hlast).resolve_left hi
    refine ha.finds c ⟨hheld, hn, hlast, fun nowMs' hat' => ?_⟩
    obtain rfl : nowMs = nowMs' := some_inj.mp (hat.symm.trans hat')
    exact hvalid

theorem agrees_removed (hl : h.Linked) (ha : h.Agrees) :
    (h.step ed (.checked (.removeExpired nowMs))).Agrees ↔
      BundleCall.Keeps ed h.bundle (.checked (.removeExpired nowMs)) := by
  refine ⟨fun ha' n c hget hvalid => ?_, fun hkeeps => ⟨fun n d hget => ?_, fun d hd => ?_⟩⟩
  · obtain ⟨hheld, hn, rfl, hlast⟩ := (ha.getCertificateByNodeId_iff hl).mp hget
    have hget' := ha'.finds c ⟨getElem?_removeExpired.mpr ⟨hheld, hvalid⟩, hn, hlast,
      fun nowMs' hat => some_inj.mp hat ▸ hvalid⟩
    obtain ⟨hi, -⟩ := getCertificateByNodeId_eq_some.mp hget'
    exact (nodeIdIndex_removeExpired.mp hi).2 hn
  · obtain ⟨hi, hd⟩ := getCertificateByNodeId_eq_some.mp hget
    exact ha.names n d (getCertificateByNodeId_eq_some.mpr
      ⟨(nodeIdIndex_removeExpired.mp hi).1, (getElem?_removeExpired.mp hd).1⟩)
  · obtain ⟨hheld, hvalid⟩ := getElem?_removeExpired.mp hd.held
    have hget := (ha.getCertificateByNodeId_iff hl).mpr ⟨hheld, hd.named, rfl, hd.latest⟩
    obtain ⟨hi, -⟩ := getCertificateByNodeId_eq_some.mp hget
    exact getCertificateByNodeId_eq_some.mpr
      ⟨nodeIdIndex_removeExpired.mpr ⟨hi, fun _ => hkeeps _ d hget hvalid⟩, hd.held⟩

/-! ## All calls -/

theorem addAuthority_indexes {b : CertificateBundle} :
    (b.addAuthority key).getCertificate = b.getCertificate ∧
      (b.addAuthority key).getCertificateByNodeId = b.getCertificateByNodeId := by
  refine ⟨funext fun _ => ?_, funext fun _ => ?_⟩
  · rw [getCertificate, certificates_addAuthority, getCertificate]
  · rw [getCertificateByNodeId, certificates_addAuthority,
      nodeIdIndex_addAuthority, getCertificateByNodeId]

theorem linked_step (hl : h.Linked) (call : BundleCall) : (h.step ed call).Linked := by
  match call with
  | .checked (.addAuthority key) =>
    refine ⟨fun n key' hi => hl.index n key' ?_, fun d hd hi => hl.latest d ?_ ?_, fun d hd hn hlast => ?_⟩
    · rwa [step, nodeIdIndex_addAuthority] at hi
    · rwa [step, addAuthority_indexes.1] at hd
    · rwa [step, nodeIdIndex_addAuthority] at hi
    · simp only [step, nodeIdIndex_addAuthority, addAuthority_indexes.1] at hd hlast ⊢
      exact hl.entry d hd hn hlast
  | .checked (.addCertificate c nowMs) =>
    rw [step]
    split
    · rename_i b hadd
      obtain ⟨-, -, rfl⟩ := addCertificate_eq_ok.mp hadd
      exact linked_added hl
    · exact hl
  | .checked (.removeExpired nowMs) => exact linked_removed hl
  | .addCertificateUnchecked c => exact linked_added hl

theorem agrees_step (hl : h.Linked) (ha : h.Agrees) (call : BundleCall) :
    (h.step ed call).Agrees ↔ call.Keeps ed h.bundle := by
  match call with
  | .checked (.addAuthority key) =>
    refine iff_of_true ⟨fun n d hget => ha.names n d ?_, fun d hd => ?_⟩ trivial
    · rwa [step, addAuthority_indexes.2] at hget
    · have hheld := hd.held
      rw [step, addAuthority_indexes.1] at hheld
      rw [step, addAuthority_indexes.2]
      exact ha.finds d ⟨hheld, hd.named, hd.latest, hd.valid⟩
  | .checked (.addCertificate c nowMs) =>
    rw [step, BundleCall.Keeps]
    split
    · rename_i b hadd
      obtain ⟨-, -, rfl⟩ := addCertificate_eq_ok.mp hadd
      rw [agrees_added hl ha, hadd]
      simp
    · rename_i e hadd
      rw [hadd]
      simp [ha]
  | .checked (.removeExpired nowMs) => exact agrees_removed hl ha
  | .addCertificateUnchecked c => exact agrees_added hl ha

theorem linked_new : new.Linked := by
  refine ⟨fun n key hi => ?_, fun c hc => ?_, fun c hc => ?_⟩
  · simp [new, CertificateBundle.new] at hi
  all_goals simp [new, CertificateBundle.new, getCertificate] at hc

theorem agrees_new : new.Agrees := by
  refine ⟨fun n c hget => ?_, fun c hc => ?_⟩
  · simp [new, CertificateBundle.new, getCertificateByNodeId] at hget
  · cases hc.latest

theorem after_concat {call} : after ed (calls ++ [call]) = (after ed calls).step ed call := by
  simp [after]

theorem linked_after : (after ed calls).Linked := by
  induction calls using reverseRecOn with
  | nil => exact linked_new
  | append_singleton calls call ih =>
    rw [after_concat]
    exact linked_step ih call

/-- The two indexes agree throughout exactly when no certificate is added for a key another node id leads to, and
none expired is removed where a node id leads to a valid one. -/
theorem indexes_agree_iff (ed : Ed25519) (calls : List BundleCall) :
    (∀ before, before <+: calls → (after ed before).Agrees) ↔
      ∀ before call, before ++ [call] <+: calls → call.Keeps ed (after ed before).bundle := by
  refine forall_prefix_iff (P := fun calls => (after ed calls).Agrees) agrees_new (fun before call hbefore => ?_) calls
  rw [after_concat]
  exact agrees_step linked_after (hbefore before (prefix_refl before)) call

def issued (nodeId : String) (key : PublicKey) (expiresAtMs : UInt64) : MeshCertificate :=
  { memberCertificate with nodeId, subjectPublicKey := key, expiresAtMs }

def twoNames : List MeshCertificate :=
  [issued "a" memberCertificate.subjectPublicKey 0, issued "b" memberCertificate.subjectPublicKey 0]

def twoKeys : List MeshCertificate := [issued "a" strangerKey 1000, issued "a" memberCertificate.subjectPublicKey 0]

def adding (certs : List MeshCertificate) : List BundleCall :=
  .checked (.addAuthority authorityKey) :: certs.map fun c => .checked (.addCertificate c 500)

/-- The old name leads to the certificate for the new one; and with the expired certificate the node's entry goes.
-/
theorem twoNames_and_twoKeys_part :
    ((after (.knowing twoNames) (adding twoNames)).bundle.getCertificateByNodeId "a" =
        some (issued "b" memberCertificate.subjectPublicKey 0) ∧
      ¬(after (.knowing twoNames) (adding twoNames)).Agrees) ∧
    ((after (.knowing twoKeys)
        (adding twoKeys ++ [BundleCall.checked (.removeExpired 2000)])).bundle.getCertificateByNodeId "a" = none ∧
      ¬(after (.knowing twoKeys) (adding twoKeys ++ [BundleCall.checked (.removeExpired 2000)])).Agrees) := by
  have hnames : (after (.knowing twoNames) (adding twoNames)).bundle.getCertificateByNodeId "a" =
      some (issued "b" memberCertificate.subjectPublicKey 0) := by decide +kernel
  -- one run of the calls gives all that the new certificate's being current asks for
  obtain ⟨hkeys, hheld, hlatest⟩ : getCertificateByNodeId
        (after (.knowing twoKeys) (adding twoKeys ++ [BundleCall.checked (.removeExpired 2000)])).bundle "a" = none ∧
      getCertificate
        (after (.knowing twoKeys) (adding twoKeys ++ [BundleCall.checked (.removeExpired 2000)])).bundle
        memberCertificate.subjectPublicKey = some (issued "a" memberCertificate.subjectPublicKey 0) ∧
      (after (.knowing twoKeys) (adding twoKeys ++ [BundleCall.checked (.removeExpired 2000)])).latest "a" =
        some (issued "a" memberCertificate.subjectPublicKey 0) := by decide +kernel
  refine ⟨⟨hnames, fun ha => absurd (ha.names _ _ hnames) (by decide)⟩, hkeys, fun ha => ?_⟩
  have hfound := ha.finds (issued "a" memberCertificate.subjectPublicKey 0)
    ⟨hheld, by decide, hlatest, fun nowMs hat => ?_⟩
  · exact absurd (hkeys.symm.trans hfound) (by simp)
  · obtain rfl : (2000 : UInt64) = nowMs := some_inj.mp hat
    decide

end BundleHistory

end PeatMesh
