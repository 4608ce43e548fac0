/-
Loading certificates (`load_certificates_from_dir`,
`security/certificate.rs`; `load_all`, `storage/certificate_store.rs`). Both
offer certificates to a bundle that has only authorities yet, in whatever order
they are listed, and drop the ones that are refused.
-/
import PeatMesh.CertificateStore
import PeatMesh.TrustChain

namespace PeatMesh

open CertificateStore List CertificateBundle

/-! ## The loads -/

/-- What reading an entry of a directory comes to. A directory that cannot be
listed is one with a single unreadable entry. -/
inductive DirEntry
  /-- The entry or its file cannot be read. -/
  | unreadable
  /-- Not a file. -/
  | other
  | file (bytes : List UInt8)
  deriving DecidableEq, Repr

def loadCertificatesFromDir (ed : Ed25519) (b : CertificateBundle) :
    List (DirEntry × UInt64) → CertificateBundle × Option Nat
  | [] => (b, some 0)
  | (.unreadable, _) :: _ => (b, none)
  | (.other, _) :: listing => loadCertificatesFromDir ed b listing
  | (.file bytes, nowMs) :: listing =>
    match MeshCertificate.decode bytes with
    | .ok c =>
      match b.addCertificate ed c nowMs with
      | .ok b' =>
        let (loaded, count) := loadCertificatesFromDir ed b' listing
        (loaded, count.map (· + 1))
      | .error _ => loadCertificatesFromDir ed b listing
    | .error _ => loadCertificatesFromDir ed b listing

namespace DirEntry

def readable : DirEntry → Bool
  | .unreadable => false
  | _ => true

def certificate : DirEntry → Option MeshCertificate
  | .file bytes => (MeshCertificate.decode bytes).toOption
  | _ => none

def offered (e : DirEntry × UInt64) : Option (MeshCertificate × UInt64) := e.1.certificate.map (·, e.2)

end DirEntry

def CertificateStore.offered (codecs : Codecs) (revoked : List String) (e : CertificateEntry × UInt64) :
    Option (MeshCertificate × UInt64) :=
  if e.1.subject ∈ revoked then none else (e.1.toCertificate codecs).map (·, e.2)

def offerAll (ed : Ed25519) (b : CertificateBundle) (offers : List (MeshCertificate × UInt64)) : CertificateBundle :=
  offers.foldl (fun b o => offer ed b o.1 o.2) b

def trusting (authorities : List PublicKey) : CertificateBundle := authorities.foldl .addAuthority .new

section Order

variable {ed : Ed25519} {authorities : List PublicKey} {b : CertificateBundle} {c : MeshCertificate} {key : PublicKey}
  {nowMs : UInt64} {offers : List (MeshCertificate × UInt64)}

theorem reload_eq_offerAll {codecs revoked scan} :
    reload ed codecs revoked b scan = offerAll ed b (scan.filterMap (offered codecs revoked)) := by
  induction scan generalizing b with
  | nil => rfl
  | cons e scan ih =>
    rw [reload, foldl_cons, ← reload, ih, filterMap_cons, offered]
    split
    · rfl
    · cases e.1.toCertificate codecs <;> rfl

variable {listing : List (DirEntry × UInt64)}

theorem loadCertificatesFromDir_eq_offerAll :
    (loadCertificatesFromDir ed b listing).1 =
      offerAll ed b ((listing.takeWhile (·.1.readable)).filterMap DirEntry.offered) := by
  induction listing generalizing b with
  | nil => rfl
  | cons e listing ih =>
    obtain ⟨e, nowMs⟩ := e
    cases e with
    | unreadable => rfl
    | other => exact ih
    | file bytes =>
      rw [loadCertificatesFromDir, takeWhile_cons_of_pos rfl, filterMap_cons, DirEntry.offered,
        DirEntry.certificate]
      cases MeshCertificate.decode bytes with
      | error _ => exact ih
      | ok c =>
        show _ = offerAll ed (offer ed b c nowMs) _
        simp only [offer]
        cases b.addCertificate ed c nowMs with
        | error _ => exact ih
        | ok b' => exact ih

/-! ## What is accepted -/

/-- Accepted whatever certificates the bundle holds. -/
def Direct (ed : Ed25519) (authorities : List PublicKey) (c : MeshCertificate) : Prop :=
  c.verifies ed = true ∧ (c.isRoot = true ∨ c.issuerPublicKey ∈ authorities)

def Delegates (ed : Ed25519) (d : MeshCertificate) (o : MeshCertificate × UInt64) : Prop :=
  o.1.verifies ed = true ∧ o.1.issuerPublicKey = d.subjectPublicKey ∧ d.hasPermission ENROLL = true ∧
    d.isValid o.2 = true

/-- The order does not matter: no certificate needs one that another brings,
and there is one a subject among those accepted anyway. -/
structure OrderFree (ed : Ed25519) (authorities : List PublicKey) (offers : List (MeshCertificate × UInt64)) :
    Prop where
  undelegated : ∀ o ∈ offers, ¬Direct ed authorities o.1 →
    ∀ d ∈ offers, Direct ed authorities d.1 → ¬Delegates ed d.1 o
  oneEach : ∀ d ∈ offers, ∀ d' ∈ offers, Direct ed authorities d.1 → Direct ed authorities d'.1 →
    d.1.subjectPublicKey = d'.1.subjectPublicKey → d.1 = d'.1

theorem offer_of_accepted (hverifies : c.verifies ed = true)
    (hissuer : c.isRoot = true ∨ b.isTrustedIssuer ed c.issuerPublicKey nowMs = true) :
    offer ed b c nowMs = b.addCertificateUnchecked c := by
  rw [offer, addCertificate_eq_ok.mpr ⟨hverifies, hissuer, rfl⟩]

theorem offer_of_refused
    (h : ¬(c.verifies ed = true ∧ (c.isRoot = true ∨ b.isTrustedIssuer ed c.issuerPublicKey nowMs = true))) :
    offer ed b c nowMs = b := by
  rw [offer]
  split
  · rename_i b' hadd
    obtain ⟨hverifies, hissuer, -⟩ := addCertificate_eq_ok.mp hadd
    exact absurd ⟨hverifies, hissuer⟩ h
  · rfl

theorem authorities_offer : (offer ed b c nowMs).authorities = b.authorities := by
  rw [offer]
  split
  · rename_i b' hadd
    obtain ⟨-, -, rfl⟩ := addCertificate_eq_ok.mp hadd
    rfl
  · rfl

theorem offer_of_undelegated (h : ¬Direct ed b.authorities c)
    (hdelegates : ∀ (key : PublicKey) (d : MeshCertificate), b.certificates[key]? = some d →
      ¬Delegates ed d (c, nowMs)) : offer ed b c nowMs = b := by
  refine offer_of_refused fun ⟨hverifies, hissuer⟩ => ?_
  obtain hroot | htrusted := hissuer
  · exact h ⟨hverifies, .inl hroot⟩
  · obtain hmem | ⟨d, hd, henroll, hvalid, -⟩ := isTrustedIssuer_iff.mp htrusted
    · exact h ⟨hverifies, .inr hmem⟩
    · exact hdelegates _ d hd ⟨hverifies, (b.keyed _ d hd).symm, henroll, hvalid⟩

theorem authorities_offerAll : (offerAll ed b offers).authorities = b.authorities := by
  induction offers generalizing b with
  | nil => rfl
  | cons o offers ih =>
    show (offerAll ed (offer ed b o.1 o.2) offers).authorities = _
    rw [ih, authorities_offer]

variable {offers' : List (MeshCertificate × UInt64)}

theorem offerAll_append :
    offerAll ed b (offers ++ offers') = offerAll ed (offerAll ed b offers) offers' := foldl_append

variable {o : MeshCertificate × UInt64}

theorem offerAll_cons :
    offerAll ed b (o :: offers) = offerAll ed (offer ed b o.1 o.2) offers := rfl

theorem getElem?_offerAll_imp (h : (offerAll ed b offers).certificates[key]? = some c) :
    b.certificates[key]? = some c ∨ ∃ o ∈ offers, o.1 = c := by
  induction offers generalizing b with
  | nil => exact .inl h
  | cons o offers ih =>
    obtain h | ⟨o', ho', heq⟩ := ih h
    · simp only [offer] at h
      split at h
      · rename_i b' hadd
        obtain ⟨-, -, rfl⟩ := addCertificate_eq_ok.mp hadd
        rw [getElem?_addCertificateUnchecked] at h
        split at h
        · exact .inr ⟨o, mem_cons_self, Option.some_inj.mp h⟩
        · exact .inl h
      · exact .inl h
    · exact .inr ⟨o', mem_cons_of_mem o ho', heq⟩

/-! ## Where the order does not matter -/

section Free

variable {D : MeshCertificate → Prop} (hone : ∀ d d', D d → D d' → d.subjectPublicKey = d'.subjectPublicKey → d = d')
include hone

theorem getElem?_offer_iff (key : PublicKey) (c : MeshCertificate)
    (hheld : ∀ (key : PublicKey) (d : MeshCertificate), b.certificates[key]? = some d → D d)
    (hdirect : Direct ed b.authorities o.1 → D o.1)
    (hundelegated : ¬Direct ed b.authorities o.1 → ∀ d, D d → ¬Delegates ed d o) :
    (offer ed b o.1 o.2).certificates[key]? = some c ↔
      b.certificates[key]? = some c ∨ c.subjectPublicKey = key ∧ Direct ed b.authorities c ∧ o.1 = c := by
  by_cases ho : Direct ed b.authorities o.1
  · rw [offer_of_accepted ho.1 (ho.2.imp_right fun h => isTrustedIssuer_iff.mpr (.inl h)),
      getElem?_addCertificateUnchecked]
    split
    · rename_i hkey
      refine ⟨fun h => ?_, fun h => ?_⟩
      · obtain rfl := Option.some_inj.mp h
        exact .inr ⟨hkey, ho, rfl⟩
      · obtain hc | ⟨-, -, rfl⟩ := h
        · -- the certificate it replaces is the same
          rw [hone _ c (hdirect ho) (hheld key c hc) (hkey.trans (b.keyed key c hc).symm)]
        · rfl
    · rename_i hkey
      refine ⟨.inl, fun h => h.resolve_right fun ⟨hc, _, heq⟩ => hkey ?_⟩
      rw [heq, hc]
  · rw [offer_of_undelegated ho fun _ d hd => hundelegated ho d (hheld _ d hd)]
    refine ⟨.inl, fun h => h.resolve_right fun ⟨_, hc, heq⟩ => ho ?_⟩
    rw [heq]
    exact hc

theorem getElem?_offerAll_iff (key : PublicKey) (c : MeshCertificate)
    (hheld : ∀ (key : PublicKey) (d : MeshCertificate), b.certificates[key]? = some d → D d)
    (hdirect : ∀ o ∈ offers, Direct ed b.authorities o.1 → D o.1)
    (hundelegated : ∀ o ∈ offers, ¬Direct ed b.authorities o.1 → ∀ d, D d → ¬Delegates ed d o) :
    (offerAll ed b offers).certificates[key]? = some c ↔ b.certificates[key]? = some c ∨
      c.subjectPublicKey = key ∧ Direct ed b.authorities c ∧ ∃ o ∈ offers, o.1 = c := by
  induction offers generalizing b with
  | nil => simp [offerAll]
  | cons o offers ih =>
    obtain ⟨hdirect, hdirects⟩ := forall_mem_cons.mp hdirect
    obtain ⟨hundelegated, hundelegateds⟩ := forall_mem_cons.mp hundelegated
    have hstep : ∀ (key : PublicKey) (c : MeshCertificate), _ := fun key c =>
      getElem?_offer_iff hone key c hheld hdirect hundelegated
    rw [offerAll_cons, ih, hstep, authorities_offer, exists_mem_cons_iff]
    · rw [or_assoc]
      refine or_congr_right ?_
      rw [← and_or_left, ← and_or_left]
    · intro key d hd
      obtain hd | ⟨-, hd, rfl⟩ := (hstep key d).mp hd
      · exact hheld key d hd
      · exact hdirect hd
    · rwa [authorities_offer]
    · rwa [authorities_offer]

end Free

theorem OrderFree.getElem?_offerAll_iff
    (h : OrderFree ed b.authorities offers) (hempty : b.certificates = ∅) (hperm : offers'.Perm offers) :
    (offerAll ed b offers').certificates[key]? = some c ↔
      c.subjectPublicKey = key ∧ Direct ed b.authorities c ∧ ∃ o ∈ offers, o.1 = c := by
  have hone : ∀ d d' : MeshCertificate, (Direct ed b.authorities d ∧ ∃ o ∈ offers, o.1 = d) →
      (Direct ed b.authorities d' ∧ ∃ o ∈ offers, o.1 = d') → d.subjectPublicKey = d'.subjectPublicKey → d = d' := by
    intro d d' ⟨hd, o, ho, heq⟩ ⟨hd', o', ho', heq'⟩ hsubject
    subst heq heq'
    exact h.oneEach o ho o' ho' hd hd' hsubject
  have hdirect : ∀ o ∈ offers', Direct ed b.authorities o.1 →
      Direct ed b.authorities o.1 ∧ ∃ o' ∈ offers, o'.1 = o.1 :=
    fun o ho hdirect => ⟨hdirect, o, hperm.mem_iff.mp ho, rfl⟩
  rw [PeatMesh.getElem?_offerAll_iff hone key c (by simp [hempty]) hdirect]
  · simp [hempty, hperm.mem_iff]
  · intro o ho hdirect d ⟨hd, o', ho', heq⟩
    subst heq
    exact h.undelegated o (hperm.mem_iff.mp ho) hdirect o' ho' hd

/-! ## Where it does -/

theorem getElem?_offerAll_concat (hverifies : o.1.verifies ed = true)
    (hissuer : o.1.isRoot = true ∨ (offerAll ed b offers).isTrustedIssuer ed o.1.issuerPublicKey o.2 = true) :
    (offerAll ed b (offers ++ [o])).certificates[o.1.subjectPublicKey]? = some o.1 := by
  rw [offerAll_append, offerAll_cons, offer_of_accepted hverifies hissuer]
  simp [offerAll, getElem?_addCertificateUnchecked]

variable (offers)

theorem getElem?_offerAll_concat_direct (h : Direct ed b.authorities o.1) :
    (offerAll ed b (offers ++ [o])).certificates[o.1.subjectPublicKey]? = some o.1 := by
  refine getElem?_offerAll_concat h.1 (h.2.imp_right fun hmem => isTrustedIssuer_iff.mpr (.inl ?_))
  rwa [authorities_offerAll]

theorem getElem?_offerAll_delegated {d o}
    (hd : Direct ed b.authorities d.1) (h : Delegates ed d.1 o) :
    (offerAll ed b (offers ++ [d] ++ [o])).certificates[o.1.subjectPublicKey]? = some o.1 := by
  obtain ⟨hverifies, hissuer, henroll, hvalid⟩ := h
  refine getElem?_offerAll_concat hverifies (.inr (isTrustedIssuer_iff.mpr (.inr ⟨d.1, ?_⟩)))
  rw [hissuer]
  exact ⟨getElem?_offerAll_concat_direct offers hd, henroll, hvalid, hd.1⟩

variable {offers}

theorem offerAll_of_not_direct (hempty : b.certificates = ∅) (h : ∀ o ∈ offers, ¬Direct ed b.authorities o.1) :
    offerAll ed b offers = b := by
  induction offers with
  | nil => rfl
  | cons o offers ih =>
    obtain ⟨ho, hrest⟩ := forall_mem_cons.mp h
    rw [offerAll_cons, offer_of_undelegated ho (by simp [hempty])]
    exact ih hrest

theorem getElem?_offerAll_ne (hempty : b.certificates = ∅) (hc : ¬Direct ed b.authorities c) :
    (offerAll ed b (offers.filter (fun o => decide (o.1 = c)) ++
      offers.filter (fun o => !decide (o.1 = c)))).certificates[key]? ≠ some c := by
  intro h
  rw [offerAll_append, offerAll_of_not_direct hempty] at h
  · obtain h | ⟨o, ho, heq⟩ := getElem?_offerAll_imp h
    · simp [hempty] at h
    · simp [heq] at ho
  · intro o ho
    simp only [mem_filter, decide_eq_true_eq] at ho
    rwa [ho.2]

theorem exists_perm_cons {α a} {l : List α} (h : a ∈ l) : ∃ l', (a :: l').Perm l := by
  obtain ⟨s, t, rfl⟩ := append_of_mem h
  exact ⟨s ++ t, perm_middle.symm⟩

theorem exists_perm_cons_cons {α a b} {l : List α} (ha : a ∈ l) (hb : b ∈ l) (hne : a ≠ b) :
    ∃ l', (a :: b :: l').Perm l := by
  obtain ⟨l₁, h₁⟩ := exists_perm_cons ha
  have hb : b ∈ l₁ := (mem_cons.mp (h₁.mem_iff.mpr hb)).resolve_left (Ne.symm hne)
  obtain ⟨l₂, h₂⟩ := exists_perm_cons hb
  exact ⟨l₂, (h₂.cons a).trans h₁⟩

theorem offerAll_order_free_iff (hempty : b.certificates = ∅) :
    (∀ offers', offers'.Perm offers → (offerAll ed b offers').certificates = (offerAll ed b offers).certificates) ↔
      OrderFree ed b.authorities offers := by
  refine ⟨fun h => ⟨fun o ho hdirect d hd hdirect' hdelegates => ?_, fun d hd d' hd' hdirect hdirect' hsubject => ?_⟩,
    fun h offers' hperm => Std.ExtTreeMap.ext_getElem? fun key => Option.ext fun c => ?_⟩
  · -- the delegated one last, behind its delegate, or first
    have hne : o ≠ d := fun heq => hdirect (heq ▸ hdirect')
    obtain ⟨l, hl⟩ := exists_perm_cons_cons ho hd hne
    have hlast : (l ++ [d] ++ [o]).Perm offers :=
      ((perm_append_singleton o _).trans ((perm_append_singleton d l).cons o)).trans hl
    have hin := getElem?_offerAll_delegated l hdirect' hdelegates
    rw [h _ hlast, ← h _ (filter_append_perm (fun o' => decide (o'.1 = o.1)) offers)] at hin
    exact getElem?_offerAll_ne hempty hdirect hin
  · obtain ⟨l, hl⟩ := exists_perm_cons hd
    obtain ⟨l', hl'⟩ := exists_perm_cons hd'
    have hin := getElem?_offerAll_concat_direct l hdirect
    have hin' := getElem?_offerAll_concat_direct l' hdirect'
    rw [h _ ((perm_append_singleton d l).trans hl)] at hin
    rw [h _ ((perm_append_singleton d' l').trans hl'), ← hsubject, hin] at hin'
    exact Option.some_inj.mp hin'
  · rw [h.getElem?_offerAll_iff hempty hperm, h.getElem?_offerAll_iff hempty (Perm.refl offers)]

/-! ## The two loads -/

theorem forall_perm_filterMap {α β f} {P : List β → Prop} {l} :
    (∀ l' : List α, l'.Perm l → P (l'.filterMap f)) ↔ ∀ m : List β, m.Perm (l.filterMap f) → P m := by
  refine ⟨fun h m hm => ?_, fun h l' hl' => h _ (hl'.filterMap f)⟩
  -- an order of the list that brings `m`, by induction on `m`
  suffices hex : ∃ l' : List α, l'.Perm l ∧ l'.filterMap f = m by
    obtain ⟨l', hl', rfl⟩ := hex
    exact h l' hl'
  clear h
  induction m generalizing l with
  | nil => exact ⟨l, Perm.refl l, nil_perm.mp hm⟩
  | cons a m ih =>
    obtain ⟨x, hx, hxa⟩ := mem_filterMap.mp (hm.mem_iff.mp mem_cons_self)
    obtain ⟨t, ht⟩ := exists_perm_cons hx
    have hcons : (a :: m).Perm (a :: t.filterMap f) := by
      have := hm.trans (ht.filterMap f).symm
      rwa [filterMap_cons_some hxa] at this
    obtain ⟨t', ht', rfl⟩ := ih hcons.cons_inv
    exact ⟨x :: t', (ht'.cons x).trans ht, filterMap_cons_some hxa⟩

theorem DirEntry.readable_of_offered {e} (h : offered e = some o) : e.1.readable = true := by
  obtain ⟨e, nowMs⟩ := e
  cases e with
  | unreadable => simp [offered, certificate] at h
  | other => rfl
  | file bytes => rfl

theorem loadCertificatesFromDir_order_free_iff (hempty : b.certificates = ∅) :
    (∀ listing', listing'.Perm listing →
        (loadCertificatesFromDir ed b listing').1.certificates =
          (loadCertificatesFromDir ed b listing).1.certificates) ↔
      OrderFree ed b.authorities (listing.filterMap DirEntry.offered) ∧
        ((∀ e ∈ listing, e.1.readable = true) ∨
          ∀ o ∈ listing.filterMap DirEntry.offered, ¬Direct ed b.authorities o.1) := by
  simp only [loadCertificatesFromDir_eq_offerAll]
  by_cases hread : ∀ e ∈ listing, e.1.readable = true
  · have hwhole : ∀ listing' : List (DirEntry × UInt64), listing'.Perm listing →
        listing'.takeWhile (·.1.readable) = listing' := fun listing' hperm =>
      takeWhile_eq_self_iff.mpr fun e he => hread e (hperm.mem_iff.mp he)
    rw [and_iff_left (.inl hread), ← offerAll_order_free_iff hempty, ← forall_perm_filterMap,
      hwhole listing (Perm.refl listing)]
    exact forall₂_congr fun listing' hperm => by rw [hwhole listing' hperm]
  · obtain ⟨u, hu, hunread⟩ : ∃ u ∈ listing, u.1.readable = false := by simpa using hread
    refine ⟨fun h => ?_, fun ⟨_, hnone⟩ => ?_⟩
    · have hnone : ∀ o ∈ listing.filterMap DirEntry.offered, ¬Direct ed b.authorities o.1 := by
        intro o ho hdirect
        obtain ⟨e, he, heo⟩ := mem_filterMap.mp ho
        -- the listing breaks off right after it, or before
        have hreadable := DirEntry.readable_of_offered heo
        obtain ⟨l, hl⟩ := exists_perm_cons_cons he hu fun heq => by simp [heq, hunread] at hreadable
        have heq := (h _ hl).trans (h _ ((Perm.swap e u l).trans hl)).symm
        simp only [takeWhile_cons, hreadable, hunread, if_true, Bool.false_eq_true, if_false,
          filterMap_cons_some heo, filterMap_nil] at heq
        have hin := getElem?_offerAll_concat_direct [] hdirect
        rw [nil_append, heq, offerAll, foldl_nil, hempty] at hin
        simp at hin
      refine ⟨⟨fun _ _ _ d hd hdirect => ?_, fun d hd _ _ hdirect => ?_⟩, .inr hnone⟩
      · exact absurd hdirect (hnone d hd)
      · exact absurd hdirect (hnone d hd)
    · have hrefused : ∀ listing' : List (DirEntry × UInt64), listing'.Perm listing →
          offerAll ed b ((listing'.takeWhile (·.1.readable)).filterMap DirEntry.offered) = b := by
        intro listing' hperm
        refine offerAll_of_not_direct hempty fun o ho => hnone.resolve_left hread o ?_
        exact (hperm.filterMap _).mem_iff.mp (((List.takeWhile_prefix _).sublist.filterMap _).subset ho)
      intro listing' hperm
      rw [hrefused listing' hperm, hrefused listing (Perm.refl listing)]

theorem certificates_trusting : (trusting authorities).certificates = ∅ := by
  unfold trusting
  induction authorities using reverseRecOn with
  | nil => rfl
  | append_singleton authorities key ih => rw [foldl_concat, certificates_addAuthority, ih]

theorem mem_authorities_trusting : key ∈ (trusting authorities).authorities ↔ key ∈ authorities := by
  unfold trusting
  induction authorities using reverseRecOn with
  | nil => rfl
  | append_singleton authorities key' ih =>
    rw [foldl_concat, mem_authorities_addAuthority, ih, mem_append, mem_singleton,
      or_comm]

theorem orderFree_trusting :
    OrderFree ed (trusting authorities).authorities offers ↔ OrderFree ed authorities offers := by
  have hdirect : Direct ed (trusting authorities).authorities = Direct ed authorities := by
    funext c
    simp only [Direct, mem_authorities_trusting]
  constructor <;> exact fun h => ⟨hdirect ▸ h.undelegated, hdirect ▸ h.oneEach⟩

end Order

/-- Loading does not depend on the order exactly when no certificate needs a delegate's, the others are one a
subject, and no entry cuts a directory's listing short. -/
theorem loading_order_free_iff (ed : Ed25519) (codecs : Codecs) (authorities : List PublicKey) :
    (∀ listing : List (DirEntry × UInt64),
      (∀ listing', listing'.Perm listing →
          (loadCertificatesFromDir ed (trusting authorities) listing').1.certificates =
            (loadCertificatesFromDir ed (trusting authorities) listing).1.certificates) ↔
        OrderFree ed authorities (listing.filterMap DirEntry.offered) ∧
          ((∀ e ∈ listing, e.1.readable = true) ∨
            ∀ o ∈ listing.filterMap DirEntry.offered, ¬Direct ed authorities o.1)) ∧
    ∀ certificates revocations scan, (new certificates revocations authorities).IsScan scan →
      ((∀ scan', scan'.Perm scan →
          ((new certificates revocations authorities).step ed codecs (.loadAll (some scan'))).map
              (·.bundle.certificates) =
            ((new certificates revocations authorities).step ed codecs (.loadAll (some scan))).map
              (·.bundle.certificates)) ↔
        OrderFree ed authorities (scan.filterMap
          (offered codecs (new certificates revocations authorities).loadRevocationSet))) := by
  refine ⟨fun listing => ?_, fun certificates revocations scan hscan => ?_⟩
  · rw [loadCertificatesFromDir_order_free_iff certificates_trusting, orderFree_trusting]
    simp only [Direct, mem_authorities_trusting]
  · have hstep : ∀ scan' : List (CertificateEntry × UInt64), scan'.Perm scan →
        ((new certificates revocations authorities).step ed codecs (.loadAll (some scan'))).map
          (·.bundle.certificates) =
        some (offerAll ed (trusting authorities) (scan'.filterMap (offered codecs
          (new certificates revocations authorities).loadRevocationSet))).certificates := by
      intro scan' hperm
      have hscan' : (new certificates revocations authorities).IsScan scan' :=
        (hperm.map _).trans hscan
      rw [step, reloaded, if_pos hscan', Option.map_some, reload_eq_offerAll]
      rfl
    rw [← orderFree_trusting, ← offerAll_order_free_iff certificates_trusting, ← forall_perm_filterMap,
      hstep scan (Perm.refl scan)]
    exact forall₂_congr fun scan' hperm => by rw [hstep scan' hperm, Option.some_inj]

def enrolledCertificate : MeshCertificate :=
  { memberCertificate with
    subjectPublicKey := strangerKey, nodeId := "c", issuerPublicKey := memberCertificate.subjectPublicKey }

def enrolledEd25519 : Ed25519 := .knowing [memberCertificate, enrolledCertificate]

def enrolledCodecs : Codecs where
  hexEncode key := if key = strangerKey.toList then "ed49" else "8139"
  hexDecode _ := none
  base64Encode bytes := if bytes = memberCertificate.encode then "bWVtYmVy" else "ZW5yb2xsZWQ="
  base64Decode text :=
    if text = "bWVtYmVy" then some memberCertificate.encode
    else if text = "ZW5yb2xsZWQ=" then some enrolledCertificate.encode else none

def enrolledScan : List (CertificateEntry × UInt64) :=
  [memberCertificate, enrolledCertificate].map fun c => (.fromCertificate enrolledCodecs c 0, 1000)

def enrolledTable : Table (Option CertificateEntry) :=
  enrolledScan.foldl (fun table e => table.insert e.1.subject (some e.1)) ∅

def enrolledStore : CertificateStore := .new enrolledTable ∅ [authorityKey]

def enrolledListing : List (DirEntry × UInt64) :=
  [memberCertificate, enrolledCertificate].map fun c => (.file c.encode, 1000)

theorem enrolledScan_not_orderFree : enrolledStore.IsScan enrolledScan ∧
    ¬OrderFree enrolledEd25519 [authorityKey]
      (enrolledScan.filterMap (offered enrolledCodecs enrolledStore.loadRevocationSet)) := by
  have hscan : enrolledStore.IsScan enrolledScan := by decide +kernel
  refine ⟨hscan, fun hfree => ?_⟩
  have hkept : (enrolledStore.step enrolledEd25519 enrolledCodecs (.loadAll (some enrolledScan))).any
      (·.bundle.certificates[strangerKey]?.isSome) = true := by decide +kernel
  have hlost : (enrolledStore.step enrolledEd25519 enrolledCodecs (.loadAll (some enrolledScan.reverse))).any
      (·.bundle.certificates[strangerKey]?.isNone) = true := by decide +kernel
  obtain ⟨st, hst, hsome⟩ := (Option.any_eq_true _ _).mp hkept
  obtain ⟨st', hst', hnone⟩ := (Option.any_eq_true _ _).mp hlost
  have hsame := ((loading_order_free_iff enrolledEd25519 enrolledCodecs [authorityKey]).2 enrolledTable ∅ enrolledScan
    hscan).mpr hfree enrolledScan.reverse (reverse_perm enrolledScan)
  rw [← enrolledStore, hst, hst', Option.map_some, Option.map_some] at hsame
  rw [Option.some_inj.mp hsame, Option.isNone_iff_eq_none] at hnone
  simp [hnone] at hsome

/-- Listed after the member's, the certificate the member issued is loaded;
listed before it, it is not. -/
theorem enrolled_lost_when_first :
    ((loadCertificatesFromDir enrolledEd25519 (trusting [authorityKey]) enrolledListing).1.getCertificate strangerKey =
        some enrolledCertificate ∧
      (loadCertificatesFromDir enrolledEd25519 (trusting [authorityKey]) enrolledListing.reverse).1.getCertificate
        strangerKey = none) ∧
    ((enrolledStore.step enrolledEd25519 enrolledCodecs (.loadAll (some enrolledScan))).map
        (·.bundle.getCertificate strangerKey) = some (some enrolledCertificate) ∧
      (enrolledStore.step enrolledEd25519 enrolledCodecs (.loadAll (some enrolledScan.reverse))).map
        (·.bundle.getCertificate strangerKey) = some none) := by
  decide +kernel

end PeatMesh
