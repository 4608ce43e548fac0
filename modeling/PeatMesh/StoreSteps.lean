/-
The store's calls taken apart (`storage/automerge_store.rs`): each redb
transaction and each time the cache's lock is held is a step of its own, and
any number of calls are under way at once on a disk-backed store. A cache entry
behind the disk is harmless while some call is still to put it right, and
`Spoils` names the steps that leave nobody to do so.
-/
import PeatMesh.Runs
import PeatMesh.Store

namespace PeatMesh

open Runs AutomergeStore Function

inductive StoreCall (Doc : Type)
  | get (key : String)
  | put (key : String) (doc : Doc)
  | delete (key : String)
  deriving DecidableEq

/-- Where a call is: what it does next. -/
inductive CallPc (Doc : Type)
  | idle
  /-- `get`, before it looks in the cache, -/
  | getCache (key : String)
  /-- before it reads the disk, -/
  | getDisk (key : String)
  /-- and before it fills the cache. -/
  | fill (key : String) (doc : Doc)
  /-- `put`, before it commits to disk, -/
  | putDisk (key : String) (doc : Doc)
  /-- and before it writes the cache. -/
  | putCache (key : String) (doc : Doc)
  /-- `delete`, before it commits to disk, -/
  | deleteDisk (key : String)
  /-- and before it drops the cache entry. -/
  | deleteCache (key : String)
  /-- Returned; the document is a `get`'s answer. -/
  | done (ok : Bool) (answer : Option Doc)

/-- Which call starts, and whether a transaction succeeds. -/
inductive CallEv (Doc : Type)
  | start (call : StoreCall Doc)
  | ok
  | fail
  deriving DecidableEq

structure DiskCache (Doc : Type) where
  documents : Table Doc
  cache : Lru String Doc

section Steps

variable {Doc : Type}

def CallPc.enter : StoreCall Doc → CallPc Doc
  | .get key => .getCache key
  | .put key doc => .putDisk key doc
  | .delete key => .deleteDisk key

variable (key : String) (s : DiskCache Doc)

def callStep : CallPc Doc → CallEv Doc → Option (DiskCache Doc × CallPc Doc)
  | .idle, .start call => some (s, .enter call)
  | .getCache key, .ok =>
    match (s.cache.get key).1 with
    | some doc => some ({ s with cache := (s.cache.get key).2 }, .done true (some doc))
    | none => some (s, .getDisk key)
  | .getDisk key, .ok =>
    match s.documents[key]? with
    | some doc => some (s, .fill key doc)
    | none => some (s, .done true none)
  | .fill key doc, .ok => some ({ s with cache := s.cache.put key doc }, .done true (some doc))
  | .putDisk key doc, .ok => some ({ s with documents := s.documents.insert key doc }, .putCache key doc)
  | .putCache key doc, .ok => some ({ s with cache := s.cache.put key doc }, .done true none)
  | .deleteDisk key, .ok => some ({ s with documents := s.documents.erase key }, .deleteCache key)
  | .deleteCache key, .ok => some ({ s with cache := s.cache.pop key }, .done true none)
  -- a transaction that fails ends the call; the cache sections do not fail
  | .getDisk _, .fail | .putDisk _ _, .fail | .deleteDisk _, .fail => some (s, .done false none)
  | _, _ => none

abbrev Calls (Doc : Type) := Pool (DiskCache Doc) (CallPc Doc)

abbrev callsStep : Calls Doc → Nat × CallEv Doc → Option (Calls Doc) := Pool.step fun _ => callStep

/-- No call is in flight. -/
def Calls.Quiescent (c : Calls Doc) : Prop := ∀ i, c.pc i = .idle ∨ ∃ ok answer, c.pc i = .done ok answer

/-- What the cache holds for the key is what the disk holds. -/
def DiskCache.Coherent : Prop :=
  ∀ doc, s.cache.peek key = some doc → s.documents[key]? = some doc

def CallPc.Mends : CallPc Doc → Prop
  | .putDisk key' _ | .deleteDisk key' | .deleteCache key' => key' = key
  | .putCache key' doc => key' = key ∧ s.documents[key]? = some doc
  | _ => False

/-- A step that leaves the cache behind the disk, with no other call to mend it. -/
def Spoils (c : Calls Doc) (a : Nat × CallEv Doc) : Prop :=
  (∀ j, j ≠ a.1 → ¬ (c.pc j).Mends key c.shared) ∧
    ((∃ doc, (c.pc a.1 = .fill key doc ∨ c.pc a.1 = .putCache key doc) ∧ c.shared.documents[key]? ≠ some doc) ∨
      (a.2 = .fail ∧ (c.pc a.1).Mends key c.shared ∧ ¬ c.shared.Coherent key))

def CallPc.Current : CallPc Doc → Prop
  | .fill key' doc | .putCache key' doc => key' = key → s.documents[key]? = some doc
  | _ => True

instance [DecidableEq Doc] {key : String} {s : DiskCache Doc} : ∀ pc : CallPc Doc, Decidable (pc.Current key s)
  | .fill key' doc | .putCache key' doc => inferInstanceAs (Decidable (key' = key → s.documents[key]? = some doc))
  | .idle | .getCache _ | .getDisk _ | .putDisk _ _ | .deleteDisk _ | .deleteCache _ | .done _ _ => isTrue trivial

theorem not_spoils_of_current {key c} {a : Nat × CallEv Doc} (hev : a.2 ≠ .fail)
    (hcur : (c.pc a.1).Current key c.shared) : ¬ Spoils key c a := by
  rintro ⟨-, ⟨doc, hpc, hne⟩ | ⟨hfail, -⟩⟩
  · rcases hpc with hpc | hpc <;> rw [hpc] at hcur <;> exact hne (hcur rfl)
  · exact hev hfail

/-! ## A step, seen from one key -/

variable {key : String} {s s' : DiskCache Doc} {pc pc' : CallPc Doc} {ev : CallEv Doc}

/-- What a step does to the disk and the cache entry of `key`, and to
whether its call mends `key`. -/
inductive EntryStep (key : String) (s : DiskCache Doc) (pc : CallPc Doc) (ev : CallEv Doc) (s' : DiskCache Doc)
    (pc' : CallPc Doc) : Prop
  /-- The disk keeps its document, and the entry stays or is dropped. -/
  | quiet : s'.documents[key]? = s.documents[key]? →
      (∀ doc, s'.cache.peek key = some doc → s.cache.peek key = some doc) →
      (pc.Mends key s → ev ≠ .fail → pc'.Mends key s') → EntryStep key s pc ev s' pc'
  /-- The disk moves on, and the call will follow with the cache. -/
  | commit : pc'.Mends key s' → EntryStep key s pc ev s' pc'
  /-- The entry is written. -/
  | write (doc) : pc = .fill key doc ∨ pc = .putCache key doc → s'.documents[key]? = s.documents[key]? →
      s'.cache.peek key = some doc → EntryStep key s pc ev s' pc'
  | drop : s'.cache.peek key = none → EntryStep key s pc ev s' pc'

theorem entryStep (h : callStep s pc ev = some (s', pc')) (key : String) : EntryStep key s pc ev s' pc' := by
  revert h
  fun_cases callStep s pc ev <;> rintro ⟨⟩
  case case1 | case3 | case4 | case5 => exact .quiet rfl (fun _ => id) nofun
  case case2 => exact .quiet rfl (fun _ => Lru.peek_get) nofun
  case case6 key' doc =>
    by_cases hk : key' = key
    · subst hk; exact .write doc (.inl rfl) rfl Lru.peek_put_self
    · exact .quiet rfl (fun _ => Lru.peek_put_of_ne (Ne.symm hk)) nofun
  case case7 key' doc =>
    by_cases hk : key' = key
    · subst hk; exact .commit ⟨rfl, by simp⟩
    · exact .quiet (by simp [Table.getElem?_insert, hk]) (fun _ => id) fun hm => absurd hm hk
  case case8 key' doc =>
    by_cases hk : key' = key
    · subst hk; exact .write doc (.inr rfl) rfl Lru.peek_put_self
    · exact .quiet rfl (fun _ => Lru.peek_put_of_ne (Ne.symm hk)) fun hm => absurd hm.1 hk
  case case9 key' =>
    by_cases hk : key' = key
    · subst hk; exact .commit rfl
    · exact .quiet (by simp [Table.getElem?_erase, hk]) (fun _ => id) fun hm => absurd hm hk
  case case10 key' =>
    by_cases hk : key' = key
    · subst hk; exact .drop Lru.peek_pop_self
    · exact .quiet rfl (fun _ hd => (Lru.peek_of_peek_pop hd).1) fun hm => absurd hm hk
  all_goals exact .quiet rfl (fun _ => id) fun _ hev => absurd rfl hev

theorem CallPc.Mends.congr (h : pc.Mends key s) (hdisk : s'.documents[key]? = s.documents[key]?) : pc.Mends key s' := by
  cases pc with
  | putCache key' doc => exact ⟨h.1, hdisk.trans h.2⟩
  | putDisk | deleteDisk | deleteCache => exact h
  | idle | getCache | getDisk | fill | done => exact h.elim

/-! ## Runs -/

def Calls.Mended (key : String) (c : Calls Doc) : Prop :=
  ¬ c.shared.Coherent key → ∃ j, (c.pc j).Mends key c.shared

theorem Calls.Mended.step {c c'} {a : Nat × CallEv Doc} (h : c.Mended key) (hspoil : ¬ Spoils key c a)
    (hs : callsStep c a = some c') : c'.Mended key := by
  obtain ⟨i, ev⟩ := a
  obtain ⟨s', pc', ho, rfl⟩ := Pool.step_eq_some.mp hs
  intro hinc
  -- the call that took the step is mending now, or another one is
  refine (exists_update_iff c.pc fun _ pc => pc.Mends key s').mpr ?_
  cases entryStep ho key with
  | quiet hdisk hpeek hkeep =>
    have hbefore : ¬ c.shared.Coherent key := fun hco => hinc fun doc hd => hdisk.trans (hco doc (hpeek doc hd))
    obtain ⟨j, hj⟩ := h hbefore
    by_cases hji : j = i
    · subst hji
      by_cases hev : ev = .fail
      · -- it gave up: somebody else is left to mend
        by_contra hno
        exact hspoil ⟨fun j' hj' hm => hno (.inr ⟨j', hj', hm.congr hdisk⟩), .inr ⟨hev, hj, hbefore⟩⟩
      · exact .inl (hkeep hj hev)
    · exact .inr ⟨j, hji, hj.congr hdisk⟩
  | commit hm => exact .inl hm
  | write doc hpc hdisk hpeek =>
    by_contra hno
    refine hspoil ⟨fun j hj hm => hno (.inr ⟨j, hj, hm.congr hdisk⟩), .inl ⟨doc, hpc, fun hsame => hinc fun d hd => ?_⟩⟩
    rw [hpeek] at hd
    cases hd
    exact hdisk.trans hsame
  | drop hnone => exact absurd (fun doc hd => by rw [hnone] at hd; cases hd) hinc

/-- From any coherent cache, in every state without calls in flight of a run with no spoiling step, what the cache
holds for a key is the document the disk holds. -/
theorem cache_coherent_at_rest (key : String) (s : DiskCache Doc) (hstart : s.Coherent key)
    (l : List (Nat × CallEv Doc)) (c : Calls Doc) (hrun : exec callsStep ⟨s, fun _ => .idle⟩ l = some c)
    (halong : Along callsStep (fun c a => ¬ Spoils key c a) ⟨s, fun _ => .idle⟩ l) (hq : c.Quiescent) (doc : Doc)
    (hcached : c.shared.cache.peek key = some doc) : c.shared.documents[key]? = some doc := by
  have hend : c.Mended key :=
    along_invariant (I := Calls.Mended key) (fun _ _ _ h hG hs => h.step hG hs) (fun hno => absurd hstart hno)
      halong hrun
  have hco : c.shared.Coherent key := by
    by_contra hno
    obtain ⟨j, hj⟩ := hend hno
    rcases hq j with hidle | ⟨ok, answer, hdone⟩
    · rw [hidle] at hj; exact hj
    · rw [hdone] at hj; exact hj
  exact hco doc hcached

/-! ## Against the whole calls -/

def StoreCall.apply (s : AutomergeStore Doc) : StoreCall Doc → AutomergeStore Doc × Option Doc
  | .get key => ((s.get key).2, (s.get key).1)
  | .put key doc => (s.put key doc, none)
  | .delete key => (s.delete key, none)

theorem exec_call_alone {st t} (hdb : st.db = some t) (pc : Nat → CallPc Doc) (i : Nat)
    (hidle : pc i = .idle) (call : StoreCall Doc) :
    ∃ evs t', (call.apply st).1.db = some t' ∧
      exec callsStep ⟨⟨t.documents, st.cache⟩, pc⟩ ((.start call :: evs).map (Prod.mk i)) =
        some ⟨⟨t'.documents, (call.apply st).1.cache⟩, update pc i (.done true (call.apply st).2)⟩ := by
  simp only [callsStep, Pool.exec_alone, hidle]
  cases call with
  | put key doc =>
    refine ⟨[.ok, .ok], { t with documents := t.documents.insert key doc }, ?_, ?_⟩
    · simp [StoreCall.apply, put_db, hdb]
    · simp [exec, callStep, CallPc.enter, StoreCall.apply, put_cache]
  | delete key =>
    refine ⟨[.ok, .ok], { t with documents := t.documents.erase key }, ?_, ?_⟩
    · simp [StoreCall.apply, delete_db, hdb]
    · simp [exec, callStep, CallPc.enter, StoreCall.apply, delete_cache]
  | get key =>
    simp only [StoreCall.apply, get_fst, get_cache hdb]
    cases hpeek : st.cache.peek key with
    | some doc =>
      have hdoc := document_of_peek hpeek
      refine ⟨[.ok], t, by rw [get_db, hdb], ?_⟩
      simp [exec, callStep, CallPc.enter, Lru.get_fst, hpeek, hdoc]
    | none =>
      have hdocument : st.document key = t.documents[key]? := by simp [document, hdb]
      cases hdoc : t.documents[key]? with
      | some doc =>
        refine ⟨[.ok, .ok, .ok], t, by rw [get_db, hdb], ?_⟩
        simp [exec, callStep, CallPc.enter, Lru.get_fst, hpeek, hdocument, hdoc]
      | none =>
        refine ⟨[.ok, .ok], t, by rw [get_db, hdb], ?_⟩
        simp [exec, callStep, CallPc.enter, Lru.get_fst, hpeek, hdocument, hdoc]

def StoreCall.applyAll (s : AutomergeStore Doc) (calls : List (StoreCall Doc)) : AutomergeStore Doc :=
  calls.foldl (fun s call => (call.apply s).1) s

/-- Calls made one after the other have a run that ends with the disk and the cache of `StoreCall.applyAll`, each
with the answer it has there. -/
theorem exec_calls_in_turn {st t} (hdb : st.db = some t) (calls : List (StoreCall Doc)) :
    ∃ evs t' pc, (StoreCall.applyAll st calls).db = some t' ∧
      exec callsStep ⟨⟨t.documents, st.cache⟩, fun _ => .idle⟩ evs =
        some ⟨⟨t'.documents, (StoreCall.applyAll st calls).cache⟩, pc⟩ ∧
      ∀ i, pc i = match calls[i]? with
        | none => .idle
        | some call => .done true (call.apply (StoreCall.applyAll st (calls.take i))).2 := by
  induction calls using List.reverseRecOn with
  | nil => exact ⟨[], t, fun _ => .idle, hdb, rfl, fun i => rfl⟩
  | append_singleton calls call ih =>
    obtain ⟨evs, t₁, pc, hdb₁, hrun, hpc⟩ := ih
    have hidle : pc calls.length = .idle := by rw [hpc, List.getElem?_eq_none (Nat.le_refl _)]
    obtain ⟨evs', t₂, hdb₂, hcall⟩ := exec_call_alone hdb₁ pc calls.length hidle call
    have hall : StoreCall.applyAll st (calls ++ [call]) = (call.apply (StoreCall.applyAll st calls)).1 := by
      simp [StoreCall.applyAll]
    have hexec := exec_append.mpr ⟨_, hrun, hcall⟩
    rw [← hall] at hdb₂ hexec
    refine ⟨_, t₂, _, hdb₂, hexec, fun i => ?_⟩
    rcases Nat.lt_trichotomy i calls.length with hlt | rfl | hgt
    · rw [update_of_ne hlt.ne, hpc, List.getElem?_append_left hlt, List.take_append_of_le_length hlt.le]
    · simp
    · rw [update_of_ne hgt.ne', hpc, List.getElem?_eq_none hgt.le, List.getElem?_eq_none (by simp; omega)]

end Steps

/-! ## A read across a write -/

def readThenWritten : List (Nat × CallEv Nat) :=
  [(0, .start (.get "k")), (0, .ok), (0, .ok), (0, .ok), (1, .start (.put "k" 2)), (1, .ok), (1, .ok)]

def readAcrossDelete : List (Nat × CallEv Nat) :=
  [(0, .start (.get "k")), (0, .ok), (0, .ok), (1, .start (.delete "k")), (1, .ok), (1, .ok), (0, .ok)]

def oneOnDisk : DiskCache Nat := ⟨(∅ : Table Nat).insert "k" 1, (AutomergeStore.ofDb ⟨∅, ∅⟩).cache⟩

theorem readThenWritten_coherent :
    ∃ c, exec callsStep ⟨oneOnDisk, fun _ => .idle⟩ readThenWritten = some c ∧ c.shared.cache.peek "k" = some 2 ∧
      c.shared.documents["k"]? = some 2 := by
  refine ⟨_, rfl, Lru.peek_put_self, cache_coherent_at_rest "k" oneOnDisk nofun readThenWritten _ rfl ?_ (fun i => ?_) 2
    Lru.peek_put_self⟩
  · have hcur : Along callsStep (fun c a => a.2 ≠ .fail ∧ (c.pc a.1).Current "k" c.shared) ⟨oneOnDisk, fun _ => .idle⟩
        readThenWritten := by decide +kernel
    exact hcur.mono fun c a h => not_spoils_of_current h.1 h.2
  · simp only [update_apply]
    repeat' split
    all_goals simp

theorem readAcrossDelete_incoherent :
    oneOnDisk.Coherent "k" ∧ ∃ c, exec callsStep ⟨oneOnDisk, fun _ => .idle⟩ readAcrossDelete = some c ∧ c.Quiescent ∧
      c.shared.cache.peek "k" = some 1 ∧ c.shared.documents["k"]? = none := by
  refine ⟨nofun, _, rfl, fun i => ?_, Lru.peek_put_self, ?_⟩
  · simp only [update_apply]
    repeat' split
    all_goals simp
  · show (((∅ : Table Nat).insert "k" 1).erase "k")["k"]? = none
    simp

end PeatMesh
