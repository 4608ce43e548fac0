/-
Revocation. `handle_revocation_change` means to take the revoked certificate
out of the bundle, but `rebuild_bundle` removes nothing, and what it skips it
knows by the `subject` an entry claims. `publish_certificate` looks at no
revocation at all. `Readmits` names the calls that can let a key in.
-/
import PeatMesh.Runs
import PeatMesh.CertificateStore
import PeatMesh.TrustChain

namespace PeatMesh

open Runs CertificateStore List CertificateBundle

section

variable {ed : Ed25519} {codecs : Codecs} {key : PublicKey} {st st' : CertificateStore} {b : CertificateBundle}

def Powerless (ed : Ed25519) (key : PublicKey) (b : CertificateBundle) : Prop :=
  ∀ c, b.getCertificate key = some c → c.usable ed = false

def Processes (codecs : Codecs) (key : PublicKey) (st : CertificateStore) : Call → Prop
  | .handleRevocationChange id _ => (entry st.revocations id).bind (revokedKey codecs) = some key
  | .loadAll _ => ∃ id, (entry st.revocations id).bind (revokedKey codecs) = some key
  | _ => False

def Slips (ed : Ed25519) (codecs : Codecs) (key : PublicKey) (st : CertificateStore) : Prop :=
  ∃ e ∈ st.entries, e.subject ∉ st.loadRevocationSet ∧
    ∃ cert ∈ e.toCertificate codecs, cert.subjectPublicKey = key ∧ cert.usable ed = true
  deriving Decidable

def Readmits (ed : Ed25519) (codecs : Codecs) (key : PublicKey) (st : CertificateStore) : Call → Prop
  | .publishCertificate cert _ stored => stored = true ∧ cert.subjectPublicKey = key ∧ cert.usable ed = true
  | .loadAll _ => Slips ed codecs key st
  | .handleRevocationChange id _ => ((entry st.revocations id).bind (revokedKey codecs)).isSome ∧ Slips ed codecs key st
  | .handleCertChange id nowMs read =>
    (read && (entry st.revocations id).isSome) = false ∧
      ∃ cert ∈ (entry st.certificates id).bind (·.toCertificate codecs),
        cert.subjectPublicKey = key ∧ cert.usable ed = true ∧
        (cert.isRoot = true ∨ st.bundle.isTrustedIssuer ed cert.issuerPublicKey nowMs = true)
  | .publishRevocation .. | .remoteCertificate .. | .remoteRevocation .. => False

instance : ∀ a, Decidable (Readmits ed codecs key st a)
  | .publishCertificate .. => inferInstanceAs (Decidable (_ ∧ _))
  | .loadAll _ => inferInstanceAs (Decidable (Slips ed codecs key st))
  | .handleRevocationChange .. => inferInstanceAs (Decidable (_ ∧ Slips ed codecs key st))
  | .handleCertChange .. => inferInstanceAs (Decidable (_ ∧ ∃ _ ∈ _, _))
  | .publishRevocation .. | .remoteCertificate .. | .remoteRevocation .. => inferInstanceAs (Decidable False)

theorem Powerless.addCertificateUnchecked {cert} (h : Powerless ed key b)
    (hc : cert.subjectPublicKey = key → cert.usable ed = false) :
    Powerless ed key (b.addCertificateUnchecked cert) := by
  intro c hget
  rw [getCertificate, getElem?_addCertificateUnchecked] at hget
  split at hget
  · rename_i hkey; cases hget; exact hc hkey
  · exact h c hget

theorem Powerless.offer {cert nowMs} (h : Powerless ed key b)
    (hc : (cert.isRoot = true ∨ b.isTrustedIssuer ed cert.issuerPublicKey nowMs = true) →
      cert.subjectPublicKey = key → cert.usable ed = false) :
    Powerless ed key (offer ed b cert nowMs) := by
  unfold CertificateStore.offer
  split
  · rename_i hadd
    obtain ⟨-, htrust, rfl⟩ := addCertificate_eq_ok.mp hadd
    exact h.addCertificateUnchecked (hc htrust)
  · exact h

theorem Powerless.reload {revoked scan} (h : Powerless ed key b)
    (hscan : ∀ e ∈ scan, e.1.subject ∉ revoked → ∀ cert, e.1.toCertificate codecs = some cert →
      cert.subjectPublicKey = key → cert.usable ed = false) :
    Powerless ed key (reload ed codecs revoked b scan) := by
  unfold CertificateStore.reload
  induction scan generalizing b with
  | nil => exact h
  | cons e scan ih =>
    rw [foldl_cons]
    refine ih ?_ fun e' he' => hscan e' (mem_cons_of_mem _ he')
    split
    · exact h
    rename_i hrev
    split
    · rename_i cert hcert
      exact h.offer fun _ => hscan e mem_cons_self hrev cert hcert
    · exact h

theorem Powerless.reloaded {scan} (h : Powerless ed key st.bundle)
    (hslip : ¬ Slips ed codecs key st) (hs : reloaded ed codecs st scan = some st') : Powerless ed key st'.bundle := by
  unfold CertificateStore.reloaded at hs
  split at hs
  · cases hs; exact h
  rename_i scan
  split at hs
  · rename_i hperm
    cases hs
    refine h.reload fun e he hrev cert hcert hkey => ?_
    -- the scan holds the collection's entries, and none of them slips
    have hmem : e.1 ∈ st.entries := hperm.subset (mem_map_of_mem he)
    by_contra huse
    exact hslip ⟨e.1, hmem, hrev, cert, hcert, hkey, by simpa using huse⟩
  · cases hs

theorem Powerless.step {a} (h : Powerless ed key st.bundle) (hre : ¬ Readmits ed codecs key st a)
    (hs : step ed codecs st a = some st') : Powerless ed key st'.bundle := by
  cases a with
  | publishCertificate cert nowMs stored =>
    cases stored with
    | false => cases hs; exact h
    | true =>
      cases hs
      have hc (hkey : cert.subjectPublicKey = key) : cert.usable ed = false := by
        by_contra huse
        exact hre ⟨rfl, hkey, by simpa using huse⟩
      simp only
      split
      · rename_i hadd
        obtain ⟨-, -, rfl⟩ := addCertificate_eq_ok.mp hadd
        exact h.addCertificateUnchecked hc
      · exact h.addCertificateUnchecked hc
  | publishRevocation key' reason nowMs stored => cases stored <;> cases hs <;> exact h
  | loadAll scan => exact h.reloaded hre hs
  | handleCertChange id nowMs read =>
    simp only [CertificateStore.step] at hs
    split at hs
    · cases hs; exact h
    rename_i hrev
    split at hs
    · rename_i cert hcert
      cases hs
      refine h.offer fun htrust hkey => ?_
      by_contra huse
      exact hre ⟨by simpa using hrev, cert, hcert, hkey, by simpa using huse, htrust⟩
    · cases hs; exact h
  | handleRevocationChange id scan =>
    simp only [CertificateStore.step] at hs
    split at hs
    · rename_i key' hkey'
      exact h.reloaded (fun hslip => hre ⟨by simp [hkey'], hslip⟩) hs
    · cases hs; exact h
  | remoteCertificate id doc => cases doc <;> cases hs <;> exact h
  | remoteRevocation id doc => cases hs; exact h

/-- At some point of the run the key is out, and no call from then on readmits it. -/
def OutForGood (ed : Ed25519) (codecs : Codecs) (key : PublicKey) (st : CertificateStore) (l : List Call) : Prop :=
  ∃ before after st₁, l = before ++ after ∧ exec (step ed codecs) st before = some st₁ ∧
    Powerless ed key st₁.bundle ∧ Along (step ed codecs) (fun st a => ¬ Readmits ed codecs key st a) st₁ after

/-- A revoked key stays out of the bundle at every time, after any run from a state in which it is out and no call
since has readmitted it. -/
theorem revoked_never_validates (ed : Ed25519) (codecs : Codecs) (key : PublicKey) (st st' : CertificateStore)
    (l : List Call) (hrun : exec (step ed codecs) st l = some st')
    (hgood : OutForGood ed codecs key st l) (nowMs : UInt64) :
    st'.bundle.validatePeer ed key nowMs = false := by
  obtain ⟨before, after, st₁, rfl, hbefore, hout, halong⟩ := hgood
  obtain ⟨st₂, h₂, hafter⟩ := exec_append.mp hrun
  rw [hbefore] at h₂
  cases h₂
  have hend : Powerless ed key st'.bundle :=
    along_invariant (I := fun st => Powerless ed key st.bundle) (fun _ _ _ h hG hs => h.step hG hs) hout halong hafter
  exact validatePeer_eq_false_iff.mpr hend nowMs

end

/-! ## A revocation in time, and one too late -/

def memberKey : PublicKey := memberCertificate.subjectPublicKey

def memberHex : String := "8139770ea87d175f56a35466c34c7ecccb8d8a91b4ee37a25df60f5b8fc9b394"

def memberCodecs : Codecs where
  hexEncode bytes := if bytes = memberKey.toList then memberHex else ""
  hexDecode text := if text = memberHex then some memberKey.toList else none
  base64Encode bytes := if bytes = memberCertificate.encode then memberData else ""
  base64Decode text := if text = memberData then some memberCertificate.encode else none
where
  memberData : String :=
    "gTl3Dqh9F19Wo1Rmw0x+zMuNipG07jeiXfYPW4/Js5QBbQFiAgcAAAAAAAAAAAAAAAAAAAAAiojj3XQJ8ZX9UtstPLpdcspnCb8d" ++
    "lBIb83SIAbQPb1wA+A3+TtQ8ibIjEAzzPyKnEarrLri9N/8hYUnEcAcJZNnnX+du711bkiCUrD283eT3VDNVL/QQ4yFc2IO0260F"

def memberEntry : CertificateEntry := .fromCertificate memberCodecs memberCertificate 0

def revokedInTime : List Call :=
  [.publishRevocation memberKey "lost" 1 true, .handleRevocationChange memberHex (some []),
   .remoteCertificate memberHex (some (some memberEntry)), .handleCertChange memberHex 3 true]

def revokedTooLate : List Call :=
  [.publishCertificate memberCertificate 0 true, .publishRevocation memberKey "lost" 1 true,
   .handleRevocationChange memberHex (some [(memberEntry, 2)])]

def memberRun (l : List Call) : Option CertificateStore :=
  exec (step (.knowing [memberCertificate]) memberCodecs) (.new ∅ ∅ [authorityKey]) l

theorem revokedInTime_stays_out :
    ∃ st', memberRun revokedInTime = some st' ∧
      st'.bundle.validatePeer (.knowing [memberCertificate]) memberKey 5 = false := by
  have hrun : memberRun revokedInTime = _ := exec_eq_getD (by decide +kernel)
  have hbefore : memberRun (revokedInTime.take 1) = _ := exec_eq_getD (by decide +kernel)
  refine ⟨_, hrun, revoked_never_validates _ _ _ _ _ _ hrun ⟨revokedInTime.take 1, _, _, rfl, hbefore, ?_, ?_⟩ 5⟩
  · rw [Powerless, ← validatePeer_eq_false_iff]
    intro nowMs
    rfl
  · decide +kernel

theorem revokedTooLate_validates :
    ∃ st₁ st₂ : CertificateStore, memberRun (revokedTooLate.take 2) = some st₁ ∧
      (∃ a, revokedTooLate.drop 2 = [a] ∧ Processes memberCodecs memberKey st₁ a) ∧
      memberRun revokedTooLate = some st₂ ∧
      st₂.bundle.validatePeer (.knowing [memberCertificate]) memberKey 5 = true := by
  -- one evaluation: the run up to the change, and from there to its end
  have heval : (memberRun (revokedTooLate.take 2)).any fun st =>
      decide ((entry st.revocations memberHex).bind (revokedKey memberCodecs) = some memberKey) &&
        (exec (step (.knowing [memberCertificate]) memberCodecs) st (revokedTooLate.drop 2)).any
          (·.bundle.validatePeer (.knowing [memberCertificate]) memberKey 5) := by decide +kernel
  obtain ⟨st₁, hbefore, hboth⟩ := (Option.any_eq_true _ _).mp heval
  obtain ⟨hprocesses, hend⟩ := Bool.and_eq_true_iff.mp hboth
  have hprocesses := of_decide_eq_true hprocesses
  obtain ⟨st₂, hlast, hvalid⟩ := (Option.any_eq_true _ _).mp hend
  have hrun : memberRun (revokedTooLate.take 2 ++ revokedTooLate.drop 2) = some st₂ :=
    exec_append.mpr ⟨st₁, hbefore, hlast⟩
  rw [take_append_drop] at hrun
  exact ⟨st₁, st₂, hbefore, ⟨_, rfl, hprocesses⟩, hrun, hvalid⟩

end PeatMesh
