/-
The blob stores' files (`storage/iroh_blob_store.rs`). A token's hash is any
text, as it may come from a peer; the stores join it to the directory, and ask
whether something is there before they ask whether it is a hash at all.

The operating system, the texts `Hash::from_str` takes and the downloads are
the caller's. `exported` is what the store wrote where: no operation reads it.
-/
import PeatMesh.PeerConnector

namespace PeatMesh

open Option Except

/-! ## Paths -/

def joinPath (dir name : String) : String :=
  if name.toList.head? = some '/' then name
  else if dir = "" ∨ dir.toList.getLast? = some '/' then dir ++ name
  else dir ++ "/" ++ name

def PlainName (name : String) : Prop := name ≠ "" ∧ '/' ∉ name.toList ∧ name ≠ "." ∧ name ≠ ".."
  deriving Decidable

theorem plainName_of_isAlphanum {name} (hne : name ≠ "") (h : ∀ c ∈ name.toList, c.isAlphanum = true) :
    PlainName name := by
  have hslash : ('/' : Char).isAlphanum = false := by decide
  have hdot : ('.' : Char).isAlphanum = false := by decide
  refine ⟨hne, fun hmem => ?_, ?_, ?_⟩
  · rw [h _ hmem] at hslash
    cases hslash
  · rintro rfl
    rw [h '.' (by decide)] at hdot
    cases hdot
  · rintro rfl
    rw [h '.' (by decide)] at hdot
    cases hdot

theorem plainName_sidecar {text} : PlainName (text ++ ".meta.json") ↔ '/' ∉ text.toList := by
  have hlen : (text ++ ".meta.json").length = text.length + 10 := by
    rw [String.length_append]
    rfl
  have hne : ∀ s : String, s.length < 10 → text ++ ".meta.json" ≠ s := by
    rintro s hs rfl
    omega
  simp only [PlainName, String.toList_append, List.mem_append, not_or]
  constructor
  · rintro ⟨-, ⟨h, -⟩, -⟩
    exact h
  · intro h
    exact ⟨hne "" (by decide), ⟨h, by decide⟩, hne "." (by decide), hne ".." (by decide)⟩

/-! ## Tokens -/

abbrev Hash := Vector UInt8 32

def Hash.toHex (x : Hash) : String := Bytes.hex x.toList

/-- `Hash::from_str`, an error as its text: it reads letters and digits
only, and what `to_hex` writes. -/
structure HashCodec where
  fromStr : String → Except String Hash
  alphanum : ∀ {s x}, fromStr s = .ok x → s ≠ "" ∧ ∀ c ∈ s.toList, c.isAlphanum = true
  fromStr_toHex : ∀ x : Hash, fromStr x.toHex = .ok x

structure BlobMetadata where
  name : Option String
  contentType : Option String
  custom : List (String × String)
  deriving DecidableEq, Repr

/-- `BlobToken`, its `BlobHash` as the text it holds. -/
structure BlobToken where
  hash : String
  sizeBytes : UInt64
  metadata : BlobMetadata
  deriving DecidableEq, Repr

structure SidecarMetadata where
  metadata : BlobMetadata
  sizeBytes : UInt64
  createdAt : Nat
  deriving DecidableEq, Repr

/-! ## The stores -/

/-- What the stores call of the operating system, an error as its text. -/
structure FileSystem (σ : Type) where
  exists' : σ → String → Bool
  write : σ → String → List UInt8 → Except String σ
  removeFile : σ → String → Except String σ

/-- What a store is used with: the operating system, `Hash::from_str`,
BLAKE3, and the JSON of a sidecar. -/
structure BlobContext (σ : Type) where
  fs : FileSystem σ
  codec : HashCodec
  blake3 : List UInt8 → Hash
  sidecarJson : SidecarMetadata → Except String (List UInt8)

/-- `IrohBlobStore`, with the files of the system and a record of its own
exports. -/
structure BlobStore (σ : Type) where
  blobDir : String
  store : Std.ExtTreeMap Hash (List UInt8)
  tokenCache : Table BlobToken
  files : σ
  exported : List (String × Hash)

/-- How a download from one peer goes: past the timeout, to an error, or to
the blob's bytes. -/
inductive Download
  | timedOut
  | failed (e : String)
  | done (content : List UInt8)
  deriving DecidableEq, Repr

/-- What an operation leaves: an error, or the path it returned, with the
paths of the sidecar it wrote and of the blob and the sidecar it removed. -/
structure BlobOutcome (σ : Type) where
  error : Option String
  returned : Option String
  sidecar : Option String
  removedBlob : Option String
  removedSidecar : Option String
  store : BlobStore σ

namespace BlobStore

variable {σ : Type} (ctx : BlobContext σ) (b : BlobStore σ)

variable (hash : String)

def metadataPath : String := joinPath b.blobDir (hash ++ ".meta.json")

def localBlobPath : String := joinPath b.blobDir hash

def fails (e : String) : BlobOutcome σ := ⟨some e, none, none, none, none, b⟩

def blobHashToIrohHash : Except String Hash :=
  match ctx.codec.fromStr hash with
  | .ok x => .ok x
  | .error e => .error ("Invalid blob hash '" ++ hash ++ "': " ++ e)

variable (token : BlobToken)

def saveMetadata (sidecar : SidecarMetadata) (returned : Option String) : BlobOutcome σ :=
  match ctx.sidecarJson sidecar with
  | .error e => b.fails e
  | .ok json =>
    match ctx.fs.write b.files (b.metadataPath token.hash) json with
    | .error _ => b.fails ("Failed to write metadata to " ++ b.metadataPath token.hash)
    | .ok files => ⟨none, returned, some (b.metadataPath token.hash), none, none,
        { b with files, tokenCache := b.tokenCache.insert token.hash token }⟩

def createBlob (content : List UInt8) (metadata : BlobMetadata) (now : Nat) : BlobOutcome σ :=
  let x := ctx.blake3 content
  let size := UInt64.ofNat content.length
  saveMetadata ctx { b with store := b.store.insert x content } ⟨x.toHex, size, metadata⟩ ⟨metadata, size, now⟩ none

def exportBlob (x : Hash) : Except String String × BlobStore σ :=
  let localPath := b.localBlobPath x.toHex
  if ctx.fs.exists' b.files localPath then (.ok localPath, b)
  else
    match b.store[x]? with
    | none => (.error ("Failed to get blob " ++ x.toHex ++ ": "), b)
    | some content =>
      match ctx.fs.write b.files localPath content with
      | .error _ => (.error ("Failed to export blob to " ++ localPath), b)
      | .ok files => (.ok localPath, { b with files, exported := (localPath, x) :: b.exported })

def fetchBlob : BlobOutcome σ :=
  let localPath := b.localBlobPath token.hash
  if ctx.fs.exists' b.files localPath then ⟨none, some localPath, none, none, none, b⟩
  else
    match blobHashToIrohHash ctx token.hash with
    | .error e => b.fails e
    | .ok x =>
      if x ∈ b.store then
        match b.exportBlob ctx x with
        | (.error e, b) => b.fails e
        | (.ok path, b) => ⟨none, some path, none, none, none, b⟩
      else b.fails ("Blob " ++ token.hash ++ " not available locally. In Phase 1, ensure the blob is stored " ++
        "on this node or connected via P2P to a node that has it.")

def firstDownload (download : EndpointId → Download) : List EndpointId → Option (List UInt8)
  | [] => none
  | peer :: peers =>
    match download peer with
    | .done content => some content
    | .timedOut | .failed _ => firstDownload download peers

variable (indexed known : List EndpointId)

def orderedPeers : List EndpointId :=
  known.foldl (fun peers peer => if peer ∈ peers then peers else peers ++ [peer]) indexed

def fetchNetworked (download : EndpointId → Download) (now : Nat) : BlobOutcome σ :=
  let localPath := b.localBlobPath token.hash
  if ctx.fs.exists' b.files localPath then ⟨none, some localPath, none, none, none, b⟩
  else
    match blobHashToIrohHash ctx token.hash with
    | .error e => b.fails e
    | .ok x =>
      if x ∈ b.store then b.fetchBlob ctx token
      else if known = [] then
        b.fails ("Blob " ++ token.hash ++ " not available locally and no peers configured for remote fetch")
      else
        match firstDownload download (orderedPeers indexed known) with
        | none => b.fails ("Failed to fetch blob " ++ token.hash ++ " from any of " ++
            toString (orderedPeers indexed known).length ++ " known peers")
        | some content =>
          match exportBlob ctx { b with store := b.store.insert x content } x with
          | (.error e, b) => b.fails e
          | (.ok path, b) => b.saveMetadata ctx token ⟨token.metadata, token.sizeBytes, now⟩ (some path)

def removeFile (path : String) : Except String (BlobStore σ) :=
  match ctx.fs.removeFile b.files path with
  | .error e => .error e
  | .ok files => .ok { b with files, exported := b.exported.filter (·.1 ≠ path) }

def deleteMetadata (removedBlob : Option String) : BlobOutcome σ :=
  let path := b.metadataPath hash
  if ctx.fs.exists' b.files path then
    match b.removeFile ctx path with
    | .error _ => ⟨some ("Failed to delete metadata at " ++ path), none, none, removedBlob, none, b⟩
    | .ok b => ⟨none, none, none, removedBlob, some path, { b with tokenCache := b.tokenCache.erase hash }⟩
  else ⟨none, none, none, removedBlob, none, { b with tokenCache := b.tokenCache.erase hash }⟩

def deleteBlob : BlobOutcome σ :=
  let localPath := b.localBlobPath hash
  if ctx.fs.exists' b.files localPath then
    match b.removeFile ctx localPath with
    | .error _ => b.fails ("Failed to delete local blob: " ++ localPath)
    | .ok b => b.deleteMetadata ctx hash (some localPath)
  else b.deleteMetadata ctx hash none

end BlobStore

open BlobStore

/-! ## What stays inside the directory -/

inductive BlobOp
  | create (content : List UInt8) (metadata : BlobMetadata) (now : Nat)
  | fetch (token : BlobToken)
  | fetchNetworked (token : BlobToken) (indexed known : List EndpointId) (download : EndpointId → Download) (now : Nat)
  | delete (hash : String)

section Inside

variable {σ : Type} (ctx : BlobContext σ) (b : BlobStore σ)

def BlobStore.run : BlobOp → BlobOutcome σ
  | .create content metadata now => b.createBlob ctx content metadata now
  | .fetch token => b.fetchBlob ctx token
  | .fetchNetworked token indexed known download now => b.fetchNetworked ctx token indexed known download now
  | .delete hash => b.deleteBlob ctx hash

def BlobOp.hash : BlobOp → String
  | .create content _ _ => (ctx.blake3 content).toHex
  | .fetch token | .fetchNetworked token _ _ _ _ => token.hash
  | .delete hash => hash

def NamedBy (hash name : String) : Prop := name = hash ∨ ∃ x, ctx.codec.fromStr hash = .ok x ∧ name = x.toHex

def ChildNamed (dir hash suffix path : String) : Prop :=
  ∃ name, NamedBy ctx hash name ∧ PlainName (name ++ suffix) ∧ path = joinPath dir (name ++ suffix)

/-- What the operation returned, wrote or removed is inside the directory and named by the hash, and what it
returned is the store's own export for it. -/
structure BlobOutcome.Inside (dir hash : String) (o : BlobOutcome σ) : Prop where
  returned : ∀ path, o.returned = some path →
    ChildNamed ctx dir hash "" path ∧ ∃ x, ctx.codec.fromStr hash = .ok x ∧ (path, x) ∈ o.store.exported
  sidecar : ∀ path, o.sidecar = some path → ChildNamed ctx dir hash ".meta.json" path
  removedBlob : ∀ path, o.removedBlob = some path → ChildNamed ctx dir hash "" path
  removedSidecar : ∀ path, o.removedSidecar = some path → ChildNamed ctx dir hash ".meta.json" path

def BlobStore.ExportedAs (hash path : String) : Prop :=
  ∃ x, ctx.codec.fromStr hash = .ok x ∧ (path, x) ∈ b.exported

def BlobStore.OwnExport (x : Hash) : Prop :=
  ctx.fs.exists' b.files (b.localBlobPath x.toHex) = true → (b.localBlobPath x.toHex, x) ∈ b.exported

/-- What is at the path is the store's own export, or a removal there is of a plain name. -/
def BlobOp.Guard : BlobOp → Prop
  | .create _ _ _ => True
  | .fetch token =>
    if ctx.fs.exists' b.files (b.localBlobPath token.hash) then b.ExportedAs ctx token.hash (b.localBlobPath token.hash)
    else ∀ x, ctx.codec.fromStr token.hash = .ok x → x ∈ b.store → b.OwnExport ctx x
  | .fetchNetworked token indexed known download now =>
    if ctx.fs.exists' b.files (b.localBlobPath token.hash) then b.ExportedAs ctx token.hash (b.localBlobPath token.hash)
    else ∀ x, ctx.codec.fromStr token.hash = .ok x →
      -- held already, or downloaded and its sidecar written
      (x ∈ b.store ∨ (known ≠ [] ∧ (firstDownload download (orderedPeers indexed known)).isSome ∧
        ∃ json, ctx.sidecarJson ⟨token.metadata, token.sizeBytes, now⟩ = .ok json ∧
          (ctx.fs.write b.files (b.metadataPath token.hash) json).isOk)) →
      b.OwnExport ctx x
  | .delete hash =>
    if ctx.fs.exists' b.files (b.localBlobPath hash) then
      (ctx.fs.removeFile b.files (b.localBlobPath hash)).isOk → PlainName hash
    else ctx.fs.exists' b.files (b.metadataPath hash) = true →
      (ctx.fs.removeFile b.files (b.metadataPath hash)).isOk → '/' ∉ hash.toList

end Inside

variable {σ : Type} {ctx : BlobContext σ} {b b' : BlobStore σ} {dir hash suffix path : String} {x : Hash}

theorem plainName_of_fromStr (h : ctx.codec.fromStr hash = .ok x) : PlainName hash :=
  plainName_of_isAlphanum (ctx.codec.alphanum h).1 (ctx.codec.alphanum h).2

theorem plainName_toHex (ctx : BlobContext σ) (x : Hash) : PlainName x.toHex :=
  plainName_of_fromStr (ctx.codec.fromStr_toHex x)

theorem childNamed_local : ChildNamed ctx dir hash "" (joinPath dir hash) ↔ PlainName hash := by
  simp only [ChildNamed, String.append_empty]
  constructor
  · rintro ⟨name, rfl | ⟨x, hx, -⟩, hplain, -⟩
    · exact hplain
    · exact plainName_of_fromStr hx
  · intro hplain
    exact ⟨hash, .inl rfl, hplain, rfl⟩

theorem childNamed_sidecar :
    ChildNamed ctx dir hash ".meta.json" (joinPath dir (hash ++ ".meta.json")) ↔ '/' ∉ hash.toList := by
  simp only [ChildNamed, plainName_sidecar]
  constructor
  · rintro ⟨name, rfl | ⟨x, hx, -⟩, hslash, -⟩
    · exact hslash
    · exact (plainName_of_fromStr hx).2.1
  · intro hslash
    exact ⟨hash, .inl rfl, hslash, rfl⟩

theorem childNamed_toHex (h : ctx.codec.fromStr hash = .ok x) : ChildNamed ctx dir hash "" (joinPath dir x.toHex) := by
  simp only [ChildNamed, String.append_empty]
  exact ⟨x.toHex, .inr ⟨x, h, rfl⟩, plainName_toHex ctx x, rfl⟩

/-! ## The operations, one by one -/

theorem inside_fails (e : String) : (b.fails e).Inside ctx dir hash := by
  constructor <;> intro path h <;> cases h

theorem inside_returned_iff : BlobOutcome.Inside ctx dir hash ⟨none, some path, none, none, none, b⟩ ↔
    ChildNamed ctx dir hash "" path ∧ b.ExportedAs ctx hash path := by
  constructor
  · intro h
    exact h.returned path rfl
  · intro h
    refine ⟨?_, nofun, nofun, nofun⟩
    rintro _ ⟨⟩
    exact h

theorem inside_local_iff :
    BlobOutcome.Inside ctx b.blobDir hash ⟨none, some (b.localBlobPath hash), none, none, none, b⟩ ↔
      b.ExportedAs ctx hash (b.localBlobPath hash) := by
  rw [inside_returned_iff]
  refine and_iff_right_of_imp ?_
  rintro ⟨x, hx, -⟩
  exact childNamed_local.mpr (plainName_of_fromStr hx)

theorem exportBlob_eq_ok (h : b.exportBlob ctx x = (.ok path, b')) :
    path = b.localBlobPath x.toHex ∧ b'.blobDir = b.blobDir ∧ ((path, x) ∈ b'.exported ↔ b.OwnExport ctx x) ∧
      (¬ b.OwnExport ctx x → b' = b) := by
  unfold exportBlob at h
  simp only at h
  unfold BlobStore.OwnExport
  split at h
  · rename_i hexists
    cases h
    simp [hexists]
  · rename_i hexists
    split at h
    · cases h
    split at h
    · cases h
    · cases h
      simp [hexists]

theorem exportBlob_eq_error {e} (h : b.exportBlob ctx x = (.error e, b')) :
    ctx.fs.exists' b.files (b.localBlobPath x.toHex) = false := by
  unfold exportBlob at h
  simp only at h
  split at h
  · cases h
  · rename_i hexists
    simpa using hexists

theorem exportedAs_iff_mem (h : ctx.codec.fromStr hash = .ok x) :
    b.ExportedAs ctx hash path ↔ (path, x) ∈ b.exported := by
  simp [BlobStore.ExportedAs, h]

theorem inside_fetchBlob (token : BlobToken) :
    (b.fetchBlob ctx token).Inside ctx b.blobDir token.hash ↔ (BlobOp.fetch token).Guard ctx b := by
  unfold fetchBlob blobHashToIrohHash
  simp only [BlobOp.Guard]
  split
  · exact inside_local_iff
  cases hx : ctx.codec.fromStr token.hash with
  | error e => simp [inside_fails]
  | ok x =>
    simp only [ok.injEq, forall_eq']
    split
    · rename_i hmem
      cases hexport : b.exportBlob ctx x with
      | mk result b' =>
        cases result with
        | error e =>
          have hfree := exportBlob_eq_error hexport
          simp [inside_fails, BlobStore.OwnExport, hfree]
        | ok path =>
          obtain ⟨rfl, hdir, hown, -⟩ := exportBlob_eq_ok hexport
          simp only [inside_returned_iff, exportedAs_iff_mem hx, hown, hmem, true_imp_iff]
          exact and_iff_right (childNamed_toHex hx)
    · rename_i hmem
      simp [inside_fails, hmem]

theorem inside_saveMetadata {token sidecar returned}
    (hdir : b.blobDir = dir) (hhash : token.hash = hash) (hslash : '/' ∉ hash.toList) :
    (b.saveMetadata ctx token sidecar returned).Inside ctx dir hash ↔
      ((∃ json, ctx.sidecarJson sidecar = .ok json ∧
          (ctx.fs.write b.files (b.metadataPath hash) json).isOk) →
        ∀ path, returned = some path → ChildNamed ctx dir hash "" path ∧ b.ExportedAs ctx hash path) := by
  subst hdir hhash
  unfold saveMetadata
  cases ctx.sidecarJson sidecar with
  | error e => simp [inside_fails]
  | ok json =>
    simp only [Except.ok.injEq, exists_eq_left']
    cases ctx.fs.write b.files (b.metadataPath token.hash) json with
    | error e => simp [inside_fails, Except.isOk, Except.toBool]
    | ok files =>
      simp only [Except.isOk, Except.toBool, true_imp_iff]
      constructor
      · intro h
        exact h.returned
      · intro h
        refine ⟨h, ?_, by simp, by simp⟩
        intro path hpath
        obtain rfl := some.inj hpath
        exact childNamed_sidecar.mpr hslash

theorem inside_createBlob (content : List UInt8) (metadata : BlobMetadata) (now : Nat) :
    (b.createBlob ctx content metadata now).Inside ctx b.blobDir (ctx.blake3 content).toHex := by
  have hslash := (plainName_toHex ctx (ctx.blake3 content)).2.1
  simp only [createBlob]
  generalize (ctx.blake3 content).toHex = hash at hslash ⊢
  refine (inside_saveMetadata ?_ ?_ hslash).mpr ?_
  · rfl
  · rfl
  · intro _ path h
    cases h

theorem inside_fetchNetworked (token : BlobToken) (indexed known : List EndpointId) (download : EndpointId → Download)
    (now : Nat) : (b.fetchNetworked ctx token indexed known download now).Inside ctx b.blobDir token.hash ↔
      (BlobOp.fetchNetworked token indexed known download now).Guard ctx b := by
  unfold fetchNetworked blobHashToIrohHash
  simp only [BlobOp.Guard]
  split
  · exact inside_local_iff
  rename_i hexists
  cases hx : ctx.codec.fromStr token.hash with
  | error e => simp [inside_fails]
  | ok x =>
    simp only [ok.injEq, forall_eq']
    split
    · -- the local store has it
      rename_i hmem
      rw [inside_fetchBlob, BlobOp.Guard, if_neg hexists, hx]
      simp [hmem]
    · rename_i hmem
      split
      · rename_i hknown
        simp [inside_fails, hmem, hknown]
      rename_i hknown
      cases firstDownload download (orderedPeers indexed known) with
      | none => simp [inside_fails, hmem]
      | some content =>
        simp only [hmem, hknown, false_or, ne_eq, not_false_eq_true, true_and, isSome_some]
        have hslash := (plainName_of_fromStr hx).2.1
        have hown : BlobStore.OwnExport ctx { b with store := b.store.insert x content } x ↔ b.OwnExport ctx x := .rfl
        cases hexport : exportBlob ctx { b with store := b.store.insert x content } x with
        | mk result b' =>
          cases result with
          | error e =>
            have hfree := exportBlob_eq_error hexport
            rw [← hown, BlobStore.OwnExport, hfree]
            simp [inside_fails]
          | ok path =>
            obtain ⟨rfl, hdir, hmem', hsame⟩ := exportBlob_eq_ok hexport
            have hchild : ChildNamed ctx b.blobDir token.hash "" (b.localBlobPath x.toHex) := childNamed_toHex hx
            simp only [inside_saveMetadata hdir rfl hslash, some.injEq, forall_eq', exportedAs_iff_mem hx]
            by_cases hexported : b.OwnExport ctx x
            · exact iff_of_true (fun _ => ⟨hchild, hmem'.mpr hexported⟩) fun _ => hexported
            · obtain rfl := hsame hexported
              exact imp_congr_right fun _ => (and_iff_right hchild).trans hmem'

theorem inside_deleteMetadata {removedBlob} (hdir : b.blobDir = dir) :
    (b.deleteMetadata ctx hash removedBlob).Inside ctx dir hash ↔
      (∀ path, removedBlob = some path → ChildNamed ctx dir hash "" path) ∧
      (ctx.fs.exists' b.files (b.metadataPath hash) = true →
        (ctx.fs.removeFile b.files (b.metadataPath hash)).isOk → '/' ∉ hash.toList) := by
  subst hdir
  have hsidecar : ChildNamed ctx b.blobDir hash ".meta.json" (b.metadataPath hash) ↔ '/' ∉ hash.toList :=
    childNamed_sidecar
  simp only [deleteMetadata, removeFile]
  cases ctx.fs.exists' b.files (b.metadataPath hash) with
  | false =>
    simp only [Bool.false_eq_true, if_false, false_imp_iff, and_true]
    constructor
    · intro h
      exact h.removedBlob
    · intro h
      exact ⟨by simp, by simp, h, by simp⟩
  | true =>
    simp only [if_true, true_imp_iff]
    cases ctx.fs.removeFile b.files (b.metadataPath hash) with
    | error e =>
      simp only [Except.isOk, Except.toBool, Bool.false_eq_true, false_imp_iff, and_true]
      constructor
      · intro h
        exact h.removedBlob
      · intro h
        exact ⟨by simp, by simp, h, by simp⟩
    | ok files =>
      simp only [Except.isOk, Except.toBool, true_imp_iff]
      constructor
      · intro h
        exact ⟨h.removedBlob, hsidecar.mp (h.removedSidecar _ rfl)⟩
      · rintro ⟨h, hslash⟩
        refine ⟨by simp, by simp, h, ?_⟩
        rintro _ ⟨⟩
        exact hsidecar.mpr hslash

theorem inside_deleteBlob (hash : String) :
    (b.deleteBlob ctx hash).Inside ctx b.blobDir hash ↔ (BlobOp.delete hash).Guard ctx b := by
  simp only [deleteBlob, removeFile, BlobOp.Guard]
  split
  · cases ctx.fs.removeFile b.files (b.localBlobPath hash) with
    | error e => simp [inside_fails, Except.isOk, Except.toBool]
    | ok files =>
      simp only [Except.isOk, Except.toBool, true_imp_iff]
      have hdir : blobDir { b with files, exported := b.exported.filter (·.1 ≠ b.localBlobPath hash) } =
          b.blobDir := rfl
      rw [inside_deleteMetadata hdir]
      simp only [some.injEq, forall_eq', localBlobPath, childNamed_local]
      exact and_iff_left_of_imp fun hplain _ _ => hplain.2.1
  · rw [inside_deleteMetadata rfl]
    simp

/-- **An operation stays inside the blob directory, on files of the store's
own, exactly when it meets its guard.** -/
theorem blobOp_inside_iff_guard (ctx : BlobContext σ) (b : BlobStore σ) (op : BlobOp) :
    (b.run ctx op).Inside ctx b.blobDir (op.hash ctx) ↔ op.Guard ctx b := by
  cases op with
  | create content metadata now =>
    simp only [BlobOp.Guard, iff_true]
    exact inside_createBlob content metadata now
  | fetch token => exact inside_fetchBlob token
  | fetchNetworked token indexed known download now =>
    exact inside_fetchNetworked token indexed known download now
  | delete hash => exact inside_deleteBlob hash

/-! An absolute path in place of a hash. -/

def HashCodec.hexLower : HashCodec where
  fromStr s :=
    match Bytes.unhex s.toList with
    | some l => if h : l.length = 32 then .ok ⟨l.toArray, h⟩ else .error "invalid length"
    | none => .error "invalid symbol"
  alphanum := by
    intro s x h
    split at h
    · rename_i l hl
      refine ⟨?_, Bytes.isAlphanum_of_unhex hl⟩
      rintro rfl
      cases hl
      cases h
    · cases h
  fromStr_toHex := by
    rintro ⟨⟨l⟩, hl⟩
    rw [Hash.toHex, Bytes.unhex_toList_hex]
    have hlen : l.length = 32 := hl
    simp [hlen]

def FileSystem.flat : FileSystem (Table (List UInt8)) where
  exists' files path := files.contains path
  write files path content := .ok (files.insert path content)
  removeFile files path := if files.contains path then .ok (files.erase path) else .error "not found"

def flatContext : BlobContext (Table (List UInt8)) :=
  ⟨.flat, .hexLower, fun _ => Vector.replicate 32 0, fun _ => .ok []⟩

def hostStore : BlobStore (Table (List UInt8)) :=
  ⟨"/var/lib/peat/blobs", ∅, ∅, (∅ : Table (List UInt8)).insert "/etc/hostname" [104, 10], []⟩

/-- The file elsewhere is handed out as a blob, and deleted as one. -/
theorem absolutePath_leaves_blobDir :
    (hostStore.run flatContext (.fetch ⟨"/etc/hostname", 2, ⟨none, none, []⟩⟩)).returned = some "/etc/hostname" ∧
      (hostStore.run flatContext (.delete "/etc/hostname")).removedBlob = some "/etc/hostname" := by
  decide +kernel

end PeatMesh
