/-
Where the trust in a peer comes from. A certificate is admitted on the
strength of what the bundle held at that moment, which may since have been
replaced or have expired, so the chain behind a certificate is a chain through
the bundle's history.
-/
import Mathlib.Data.List.Induction
import PeatMesh.Certificate

namespace PeatMesh

open List CertificateBundle

inductive BundleOp
  | addAuthority (key : PublicKey)
  | addCertificate (c : MeshCertificate) (nowMs : UInt64)
  | removeExpired (nowMs : UInt64)

def BundleOp.apply (ed : Ed25519) (b : CertificateBundle) : BundleOp → CertificateBundle
  | .addAuthority key => b.addAuthority key
  | .addCertificate c nowMs =>
    match b.addCertificate ed c nowMs with
    | .ok b' => b'
    | .error _ => b
  | .removeExpired nowMs => (b.removeExpired nowMs).1

def bundleAfter (ed : Ed25519) (history : List BundleOp) : CertificateBundle :=
  history.foldl (BundleOp.apply ed) .new

def ByAuthority (history : List BundleOp) (c : MeshCertificate) : Prop := .addAuthority c.issuerPublicKey ∈ history

def SelfSigned (c : MeshCertificate) : Prop := c.subjectPublicKey = c.issuerPublicKey

/-- The chain of trust behind a certificate added after the calls `history`: its issuer signed it and, unless the
chain ends there, is the subject of a certificate the bundle held, which could enroll and has a chain of its own. -/
inductive TrustChain (ed : Ed25519) (Signed : PublicKey → List UInt8 → Prop)
    (Anchor : List BundleOp → MeshCertificate → Prop) : List BundleOp → MeshCertificate → Prop
  | anchor : Signed c.issuerPublicKey c.signableBytes → Anchor history c → TrustChain ed Signed Anchor history c
  | delegate : Signed c.issuerPublicKey c.signableBytes →
      (bundleAfter ed history).certificates[c.issuerPublicKey]? = some issuer →
      issuer.subjectPublicKey = c.issuerPublicKey → issuer.hasPermission ENROLL = true →
      earlier ++ [BundleOp.addCertificate issuer nowMs] <+: history → TrustChain ed Signed Anchor earlier issuer →
      TrustChain ed Signed Anchor history c

/-- By an authority, or self-signed. -/
def Rooted (history : List BundleOp) (c : MeshCertificate) : Prop := ByAuthority history c ∨ SelfSigned c

section

variable {ed : Ed25519} {Signed : PublicKey → List UInt8 → Prop} {history : List BundleOp}

theorem bundleAfter_concat {op} : bundleAfter ed (history ++ [op]) = op.apply ed (bundleAfter ed history) := by
  simp [bundleAfter]

theorem mem_authorities_bundleAfter {key} :
    key ∈ (bundleAfter ed history).authorities → .addAuthority key ∈ history := by
  induction history using reverseRecOn with
  | nil => intro h; cases h
  | append_singleton history op ih =>
    rw [bundleAfter_concat]
    intro h
    cases op with
    | addAuthority key' =>
      rcases mem_authorities_addAuthority.mp h with rfl | h
      · simp
      · simp [ih h]
    | addCertificate c nowMs =>
      simp only [BundleOp.apply] at h
      split at h
      · rename_i hadd
        obtain ⟨-, -, rfl⟩ := addCertificate_eq_ok.mp hadd
        simp [ih h]
      · simp [ih h]
    | removeExpired nowMs => simp [ih h]

theorem trustChain_of_stored
    (hsig : ∀ c : MeshCertificate, c.verifies ed = true → Signed c.issuerPublicKey c.signableBytes)
    {key : PublicKey} {c} (h : (bundleAfter ed history).certificates[key]? = some c) :
    ∃ earlier nowMs, earlier ++ [BundleOp.addCertificate c nowMs] <+: history ∧
      TrustChain ed Signed Rooted earlier c := by
  induction history using reverseRecOn generalizing key c with
  | nil => simp [bundleAfter, new] at h
  | append_singleton history op ih =>
    rw [bundleAfter_concat] at h
    have before {key : PublicKey} {c : MeshCertificate} (h : (bundleAfter ed history).certificates[key]? = some c) :
        ∃ earlier nowMs, earlier ++ [BundleOp.addCertificate c nowMs] <+: history ++ [op] ∧
          TrustChain ed Signed Rooted earlier c := by
      obtain ⟨earlier, nowMs, hpre, hchain⟩ := ih h
      exact ⟨earlier, nowMs, hpre.trans (prefix_append ..), hchain⟩
    cases op with
    | addAuthority key' =>
      simp only [BundleOp.apply, certificates_addAuthority] at h
      exact before h
    | removeExpired nowMs => exact before (of_getElem?_removeExpired h)
    | addCertificate c' nowMs =>
      simp only [BundleOp.apply] at h
      split at h
      · rename_i b' hadd
        obtain ⟨hver, hissuer, rfl⟩ := addCertificate_eq_ok.mp hadd
        rw [getElem?_addCertificateUnchecked] at h
        split at h
        · -- the certificate just added: its chain is what admitted it
          cases h
          refine ⟨history, nowMs, prefix_rfl, ?_⟩
          rcases hissuer with hroot | htrust
          · exact .anchor (hsig _ hver) (.inr (by simpa [SelfSigned, MeshCertificate.isRoot] using hroot))
          rcases isTrustedIssuer_iff.mp htrust with hauth | ⟨issuer, hissuer, henroll, -, -⟩
          · exact .anchor (hsig _ hver) (.inl (mem_authorities_bundleAfter hauth))
          · obtain ⟨earlier, t, hpre, hchain⟩ := ih hissuer
            exact .delegate (hsig _ hver) hissuer (keyed _ _ _ hissuer) henroll hpre hchain
        · exact before h
      · exact before h

/-- After any history of calls on an empty bundle, a peer that validates has a certificate stored for its key with a
finite chain of trust, ending at an authority or at a self-signed certificate. -/
theorem validated_has_trustChain (ed : Ed25519) (Signed : PublicKey → List UInt8 → Prop)
    (hsig : ∀ key bytes sig, ed.verify key bytes sig = .ok () → Signed key bytes)
    (history : List BundleOp) (key : PublicKey) (nowMs : UInt64)
    (h : (bundleAfter ed history).validatePeer ed key nowMs = true) :
    ∃ c, (bundleAfter ed history).certificates[key]? = some c ∧ c.subjectPublicKey = key ∧
      ∃ earlier addedMs, earlier ++ [BundleOp.addCertificate c addedMs] <+: history ∧
        TrustChain ed Signed Rooted earlier c := by
  obtain ⟨c, hc, -, -⟩ := validatePeer_iff.mp h
  refine ⟨c, hc, keyed _ _ _ hc, trustChain_of_stored (fun c hver => ?_) hc⟩
  apply hsig _ _ c.signature
  exact MeshCertificate.verify_of_verifies hver

theorem TrustChain.exists_authority {c} (h : TrustChain ed Signed ByAuthority history c) :
    ∃ key, .addAuthority key ∈ history := by
  induction h with
  | anchor _ hauth => exact ⟨_, hauth⟩
  | delegate _ _ _ _ hpre _ ih =>
    obtain ⟨key, hkey⟩ := ih
    exact ⟨key, hpre.subset (mem_append_left _ hkey)⟩

end

/-! ## An enrolled member, and a stranger

Keys and signatures here are Ed25519's, of the seeds of 32 bytes 1, 2 and 3. -/

variable (certs : List MeshCertificate)

def Ed25519.knowing : Ed25519 where
  fromBytes _ := .ok ()
  verify key bytes sig :=
    if certs.any fun c => c.issuerPublicKey = key ∧ c.signableBytes = bytes ∧ c.signature = sig then .ok ()
    else .error "signature error"

def authorityKey : PublicKey :=
  #v[138, 136, 227, 221, 116, 9, 241, 149, 253, 82, 219, 45, 60, 186, 93, 114, 202, 103, 9, 191, 29,
     148, 18, 27, 243, 116, 136, 1, 180, 15, 111, 92]

def memberCertificate : MeshCertificate where
  subjectPublicKey :=
    #v[129, 57, 119, 14, 168, 125, 23, 95, 86, 163, 84, 102, 195, 76, 126, 204, 203, 141, 138, 145, 180,
       238, 55, 162, 93, 246, 15, 91, 143, 201, 179, 148]
  meshId := "m"
  nodeId := "b"
  tier := .tactical
  permissions := 0b111
  issuedAtMs := 0
  expiresAtMs := 0
  issuerPublicKey := authorityKey
  signature :=
    #v[0, 248, 13, 254, 78, 212, 60, 137, 178, 35, 16, 12, 243, 63, 34, 167, 17, 170, 235, 46, 184, 189,
       55, 255, 33, 97, 73, 196, 112, 7, 9, 100, 217, 231, 95, 231, 110, 239, 93, 91, 146, 32, 148, 172,
       61, 188, 221, 228, 247, 84, 51, 85, 47, 244, 16, 227, 33, 92, 216, 131, 180, 219, 173, 5]

def strangerKey : PublicKey :=
  #v[237, 73, 40, 198, 40, 209, 194, 198, 234, 233, 3, 56, 144, 89, 149, 97, 41, 89, 39, 58, 92, 99,
     249, 54, 54, 193, 70, 20, 172, 135, 55, 209]

def strangerCertificate : MeshCertificate where
  subjectPublicKey := strangerKey
  meshId := "m"
  nodeId := "r"
  tier := .tactical
  permissions := 0b11
  issuedAtMs := 0
  expiresAtMs := 0
  issuerPublicKey := strangerKey
  signature :=
    #v[119, 110, 228, 101, 201, 110, 20, 242, 84, 129, 80, 124, 199, 227, 75, 40, 156, 180, 122, 157, 153,
       124, 4, 219, 19, 79, 96, 219, 208, 211, 223, 8, 10, 0, 58, 222, 190, 54, 99, 19, 58, 150, 85, 91,
       183, 99, 224, 183, 115, 16, 28, 243, 222, 152, 90, 89, 178, 89, 83, 197, 165, 57, 198, 11]

def SignedIn (key : PublicKey) (bytes : List UInt8) : Prop :=
  ∃ c ∈ certs, c.issuerPublicKey = key ∧ c.signableBytes = bytes

theorem signedIn_of_knowing {certs key bytes sig}
    (h : (Ed25519.knowing certs).verify key bytes sig = .ok ()) : SignedIn certs key bytes := by
  simp only [Ed25519.knowing] at h
  split at h
  · rename_i hany
    simp only [any_eq_true, decide_eq_true_eq] at hany
    obtain ⟨c, hc, hkey, hbytes, -⟩ := hany
    exact ⟨c, hc, hkey, hbytes⟩
  · cases h

theorem member_has_trustChain :
    ∃ c, (bundleAfter (.knowing [memberCertificate])
        [.addAuthority authorityKey, .addCertificate memberCertificate 1000]).certificates[
          memberCertificate.subjectPublicKey]? = some c ∧ c.subjectPublicKey = memberCertificate.subjectPublicKey ∧
      ∃ earlier addedMs, earlier ++ [BundleOp.addCertificate c addedMs] <+:
          [BundleOp.addAuthority authorityKey, .addCertificate memberCertificate 1000] ∧
        TrustChain (.knowing [memberCertificate]) (SignedIn [memberCertificate]) Rooted earlier c :=
  validated_has_trustChain _ _ (fun _ _ _ => signedIn_of_knowing) _ _ 2000 (by decide +kernel)

theorem stranger_validates_without_authority :
    (bundleAfter (.knowing [strangerCertificate]) [.addCertificate strangerCertificate 1000]).validatePeer
        (.knowing [strangerCertificate]) strangerKey 2000 = true ∧
      ¬ ∃ c earlier addedMs, earlier ++ [BundleOp.addCertificate c addedMs] <+:
          [BundleOp.addCertificate strangerCertificate 1000] ∧
        TrustChain (.knowing [strangerCertificate]) (SignedIn [strangerCertificate]) ByAuthority earlier c := by
  refine ⟨by decide +kernel, ?_⟩
  rintro ⟨c, earlier, addedMs, hpre, hchain⟩
  obtain ⟨key, hkey⟩ := hchain.exists_authority
  simpa using hpre.subset (mem_append_left _ hkey)

end PeatMesh
