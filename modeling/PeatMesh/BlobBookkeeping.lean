/-
What a blob store says it has (`storage/iroh_blob_store.rs`): blobs in
memory, cached tokens, and in its directory the exported blobs and a sidecar
for each it has met. Bytes are counted from the cache alone unless it is empty,
and a restart empties it.

A path names one file, and reads and writes succeed. Sums do not overflow.
-/
import PeatMesh.BlobStore

namespace PeatMesh

open List Std.ExtTreeMap

/-- What a store is used with over a directory: `BlobContext`, with the JSON of
a sidecar as it is read, too. -/
structure BlobDirContext where
  codec : HashCodec
  blake3 : List UInt8 → Hash
  toJson : SidecarMetadata → List UInt8
  fromJson : List UInt8 → Option SidecarMetadata

def BlobDirContext.toBlob (ctx : BlobDirContext) : BlobContext (Table (List UInt8)) :=
  ⟨.flat, ctx.codec, ctx.blake3, fun m => .ok (ctx.toJson m)⟩

def trimEndMatches (pattern : List Char) : Nat → List Char → List Char
  | 0, l => l
  | fuel + 1, l => if pattern <:+ l then trimEndMatches pattern fuel (l.take (l.length - pattern.length)) else l

namespace BlobStore

abbrev OnDisk := BlobStore (Table (List UInt8))

variable (ctx : BlobDirContext) (b : OnDisk)

def readDir : List String :=
  b.files.toList.filterMap fun e =>
    let name := String.ofList (e.1.toList.drop (joinPath b.blobDir "").length)
    if PlainName name ∧ joinPath b.blobDir name = e.1 then some name else none

def loadMetadata (hash : String) : Option SidecarMetadata := b.files[b.metadataPath hash]?.bind ctx.fromJson

def sidecarOf (name : String) : Option BlobToken :=
  if ".meta.json".toList <:+ name.toList then
    let hash := String.ofList (trimEndMatches ".meta.json".toList name.length name.toList)
    (b.loadMetadata ctx hash).map fun sidecar => ⟨hash, sidecar.sizeBytes, sidecar.metadata⟩
  else none

def cachedTokens : List BlobToken := b.tokenCache.toList.map (·.2)

def listLocalBlobs : List BlobToken :=
  b.readDir.foldl (fun tokens name =>
    match b.sidecarOf ctx name with
    | some token => if tokens.any (·.hash = token.hash) then tokens else tokens ++ [token]
    | none => tokens) b.cachedTokens

def totalBytes (tokens : List BlobToken) : Nat := tokens.foldr (·.sizeBytes.toNat + ·) 0

def localStorageBytes : Nat :=
  if b.tokenCache.isEmpty then totalBytes (b.readDir.filterMap (b.sidecarOf ctx)) else totalBytes b.cachedTokens

def blobExistsLocally (hash : String) : Bool :=
  b.files.contains (b.localBlobPath hash) || b.tokenCache.contains hash || b.files.contains (b.metadataPath hash)

def restart : OnDisk := { b with store := ∅, tokenCache := ∅ }

end BlobStore

open BlobStore

inductive BookOp
  | create (content : List UInt8) (metadata : BlobMetadata) (now : Nat)
  | fetch (token : BlobToken)
  | delete (hash : String)
  | restart

namespace BookOp

variable (ctx : BlobDirContext)

def apply (b : OnDisk) : BookOp → OnDisk
  | .create content metadata now => (b.createBlob ctx.toBlob content metadata now).store
  | .fetch token => (b.fetchBlob ctx.toBlob token).store
  | .delete hash => (b.deleteBlob ctx.toBlob hash).store
  | .restart => b.restart

def run (dir : String) (ops : List BookOp) : OnDisk := ops.foldl (apply ctx) ⟨dir, ∅, ∅, ∅, []⟩

/-- The bytes counted are those of the blobs listed, and a blob that exists can
be fetched. -/
structure InOrder (b : OnDisk) : Prop where
  bytes : b.localStorageBytes ctx = totalBytes (b.listLocalBlobs ctx)
  fetches (x : Hash) (token : BlobToken) : token.hash = x.toHex → b.blobExistsLocally x.toHex = true →
    (b.fetchBlob ctx.toBlob token).error = none

/-- What a create with no token cached, or a restart, finds in the directory is as the books need it. -/
def Meets (b : OnDisk) : BookOp → Prop
  | .create content _ _ => b.tokenCache.isEmpty = true → ∀ (x : Hash) sidecar, x ≠ ctx.blake3 content →
      b.loadMetadata ctx x.toHex = some sidecar → sidecar.sizeBytes = 0
  | .restart => ∀ x : Hash, b.metadataPath x.toHex ∈ b.files → b.localBlobPath x.toHex ∈ b.files
  | _ => True

end BookOp

/-! ## Paths -/

variable {dir hash text : String} {x y : Hash}

theorem joinPath_append (dir text : String) :
    joinPath dir (text ++ ".meta.json") = joinPath dir text ++ ".meta.json" := by
  have hhead : (text ++ ".meta.json").toList.head? = some '/' ↔ text.toList.head? = some '/' := by
    rw [String.toList_append]
    cases text.toList with
    | nil => decide
    | cons c l => simp
  unfold joinPath
  simp only [hhead]
  split
  · rfl
  · split <;> simp only [String.append_assoc]

theorem joinPath_plain (h : '/' ∉ text.toList) : joinPath dir text = joinPath dir "" ++ text := by
  have hhead : ¬ text.toList.head? = some '/' := fun hhead => h (mem_of_mem_head? hhead)
  unfold joinPath
  rw [if_neg hhead]
  split <;> simp

theorem toHex_inj : x.toHex = y.toHex ↔ x = y := by
  refine ⟨fun h => ?_, congrArg Hash.toHex⟩
  have hx := Bytes.unhex_toList_hex x.toList
  rw [← Hash.toHex, h, Hash.toHex, Bytes.unhex_toList_hex, Option.some.injEq] at hx
  exact Vector.toList_inj.mp hx.symm

theorem toHex_ne_sidecar : ¬ ".meta.json".toList <:+ x.toHex.toList := by
  intro h
  have hdot := Bytes.isAlphanum_of_unhex (Bytes.unhex_toList_hex x.toList) '.' (h.mem (by decide))
  cases hdot

theorem slash_notMem_toHex : '/' ∉ x.toHex.toList := by
  intro h
  cases Bytes.isAlphanum_of_unhex (Bytes.unhex_toList_hex x.toList) '/' h

theorem length_toHex : x.toHex.toList.length = 64 := by
  rw [Hash.toHex, Bytes.hex]
  simp [Bytes.hexDigits]

theorem trimEndMatches_sidecar : trimEndMatches ".meta.json".toList (x.toHex ++ ".meta.json").length
    (x.toHex ++ ".meta.json").toList = x.toHex.toList := by
  have hlength : (x.toHex ++ ".meta.json").length = 72 + 1 + 1 := by
    rw [String.length_append, ← String.length_toList, length_toHex]
    rfl
  have hcut : (x.toHex ++ ".meta.json").toList.take
      ((x.toHex ++ ".meta.json").toList.length - ".meta.json".toList.length) = x.toHex.toList := by
    rw [String.toList_append, length_append, Nat.add_sub_cancel, take_left]
  rw [hlength, trimEndMatches, if_pos (by rw [String.toList_append]; exact suffix_append _ _), hcut,
    trimEndMatches, if_neg toHex_ne_sidecar]

namespace BlobStore

variable {b : OnDisk}

theorem metadataPath_eq : b.metadataPath hash = b.localBlobPath hash ++ ".meta.json" := joinPath_append _ _

theorem localBlobPath_toHex : b.localBlobPath x.toHex = joinPath b.blobDir "" ++ x.toHex :=
  joinPath_plain slash_notMem_toHex

theorem localBlobPath_inj : b.localBlobPath x.toHex = b.localBlobPath y.toHex ↔ x = y := by
  rw [localBlobPath_toHex, localBlobPath_toHex, String.append_right_inj, toHex_inj]

theorem metadataPath_inj : b.metadataPath x.toHex = b.metadataPath y.toHex ↔ x = y := by
  rw [metadataPath_eq, metadataPath_eq, String.append_left_inj, localBlobPath_inj]

theorem localBlobPath_ne (path : String) : b.localBlobPath x.toHex ≠ path ++ ".meta.json" := by
  intro h
  have hsuffix : ".meta.json".toList <:+ (joinPath b.blobDir "").toList ++ x.toHex.toList := by
    rw [← String.toList_append, ← localBlobPath_toHex, h, String.toList_append]
    exact suffix_append _ _
  refine toHex_ne_sidecar (suffix_of_suffix_length_le hsuffix (suffix_append _ _) ?_)
  rw [length_toHex]
  decide

theorem mem_readDir {name} : name ∈ b.readDir ↔ PlainName name ∧ joinPath b.blobDir name ∈ b.files := by
  simp only [readDir, mem_filterMap, Option.ite_none_right_eq_some, Option.some.injEq, Prod.exists,
    mem_toList_iff_getElem?_eq_some]
  constructor
  · rintro ⟨path, content, hget, ⟨hplain, hpath⟩, rfl⟩
    rw [hpath]
    exact ⟨hplain, mem_iff_isSome_getElem?.mpr (by rw [hget]; rfl)⟩
  · rintro ⟨hplain, hmem⟩
    have hname : String.ofList ((joinPath b.blobDir name).toList.drop (joinPath b.blobDir "").length) = name := by
      rw [joinPath_plain hplain.2.1, String.toList_append, ← String.length_toList, drop_left, String.ofList_toList]
    exact ⟨_, _, getElem?_eq_some_getElem hmem, ⟨by rwa [hname], by rw [hname]⟩, hname⟩

/-! ## What is kept -/

variable {ctx : BlobDirContext}

/-- Each cached token is of a blob in memory, and the directory has exports and
sidecars only. -/
structure Kept (b : OnDisk) : Prop where
  cached (k : String) (token : BlobToken) : b.tokenCache[k]? = some token →
    token.hash = k ∧ ∃ x : Hash, k = x.toHex ∧ x ∈ b.store
  files (path : String) : path ∈ b.files → ∃ x : Hash, path = b.localBlobPath x.toHex ∨ path = b.metadataPath x.toHex

/-- What the books are in order by. -/
structure Sound (ctx : BlobDirContext) (b : OnDisk) : Prop where
  counted : b.tokenCache.isEmpty = true ∨ ∀ (x : Hash) sidecar, x.toHex ∉ b.tokenCache →
    b.loadMetadata ctx x.toHex = some sidecar → sidecar.sizeBytes = 0
  held (x : Hash) : b.metadataPath x.toHex ∈ b.files → b.localBlobPath x.toHex ∈ b.files ∨ x ∈ b.store

theorem sidecarOf_toHex : b.sidecarOf ctx (x.toHex ++ ".meta.json") = (b.loadMetadata ctx x.toHex).map fun sidecar =>
    ⟨x.toHex, sidecar.sizeBytes, sidecar.metadata⟩ := by
  rw [sidecarOf, if_pos (by rw [String.toList_append]; exact suffix_append _ _), trimEndMatches_sidecar,
    String.ofList_toList]

theorem Kept.name_of_sidecarOf (h : Kept b) {name token} (hname : name ∈ b.readDir)
    (hsidecar : b.sidecarOf ctx name = some token) : ∃ x : Hash, name = x.toHex ++ ".meta.json" := by
  obtain ⟨hplain, hmem⟩ := mem_readDir.mp hname
  have hsuffix : ".meta.json".toList <:+ name.toList := by
    by_contra hno
    rw [sidecarOf, if_neg hno] at hsidecar
    cases hsidecar
  obtain ⟨y, hpath | hpath⟩ := h.files _ hmem
  · obtain ⟨start, hstart⟩ := hsuffix
    have hsplit : name = String.ofList start ++ ".meta.json" := by
      rw [← String.toList_inj, String.toList_append, String.toList_ofList, hstart]
    rw [hsplit, joinPath_append] at hpath
    exact absurd hpath.symm (localBlobPath_ne _)
  · rw [joinPath_plain hplain.2.1, metadataPath_eq, localBlobPath_toHex, String.append_assoc,
      String.append_right_inj] at hpath
    exact ⟨y, hpath⟩

theorem Kept.mem_sidecars (h : Kept b) {token} : token ∈ b.readDir.filterMap (b.sidecarOf ctx) ↔
    ∃ (x : Hash) (sidecar : SidecarMetadata), b.loadMetadata ctx x.toHex = some sidecar ∧
      token = ⟨x.toHex, sidecar.sizeBytes, sidecar.metadata⟩ := by
  rw [mem_filterMap]
  constructor
  · rintro ⟨name, hname, hsidecar⟩
    obtain ⟨x, rfl⟩ := h.name_of_sidecarOf hname hsidecar
    rw [sidecarOf_toHex, Option.map_eq_some_iff] at hsidecar
    obtain ⟨sidecar, hload, rfl⟩ := hsidecar
    exact ⟨x, sidecar, hload, rfl⟩
  · rintro ⟨x, sidecar, hload, rfl⟩
    refine ⟨x.toHex ++ ".meta.json", mem_readDir.mpr ⟨plainName_sidecar.mpr slash_notMem_toHex, ?_⟩, ?_⟩
    · obtain ⟨content, hget, -⟩ := Option.bind_eq_some_iff.mp hload
      exact mem_iff_isSome_getElem?.mpr (Option.isSome_iff_exists.mpr ⟨content, hget⟩)
    · rw [sidecarOf_toHex, hload, Option.map_some]

theorem Kept.nodup_sidecars (h : Kept b) : ((b.readDir.filterMap (b.sidecarOf ctx)).map (·.hash)).Nodup := by
  have hnames : b.readDir.Pairwise (· ≠ ·) := by
    refine distinct_keys_toList.filterMap _ fun e e' hne name hname name' hname' heq => hne ?_
    simp only [Option.ite_none_right_eq_some, Option.some.injEq] at hname hname'
    rw [← hname.1.2, ← hname'.1.2, hname.2, hname'.2, heq]
    exact Std.ReflOrd.compare_self
  refine Pairwise.map _ (fun _ _ => id) ((Pairwise.and_mem.mp hnames).filterMap _ ?_)
  rintro name name' ⟨hname, hname', hne⟩ token htoken token' htoken' heq
  obtain ⟨x, rfl⟩ := h.name_of_sidecarOf hname htoken
  obtain ⟨x', rfl⟩ := h.name_of_sidecarOf hname' htoken'
  rw [sidecarOf_toHex, Option.map_eq_some_iff] at htoken htoken'
  obtain ⟨_, -, rfl⟩ := htoken
  obtain ⟨_, -, rfl⟩ := htoken'
  exact hne (congrArg (· ++ ".meta.json") heq)

theorem foldl_listing {f} {names : List String} {init : List BlobToken}
    (hnodup : ((names.filterMap f).map (·.hash)).Nodup) :
    names.foldl (fun tokens name =>
      match f name with
      | some token => if tokens.any (·.hash = token.hash) then tokens else tokens ++ [token]
      | none => tokens) init =
      init ++ (names.filterMap f).filter fun token => !init.any (·.hash = token.hash) := by
  induction names generalizing init with
  | nil => simp
  | cons name names ih =>
    cases hf : f name with
    | none =>
      rw [filterMap_cons_none hf] at hnodup ⊢
      rw [foldl_cons, hf]
      exact ih hnodup
    | some token =>
      rw [filterMap_cons_some hf] at hnodup ⊢
      obtain ⟨hnew, hrest⟩ := nodup_cons.mp hnodup
      rw [foldl_cons, hf]
      cases hany : init.any (·.hash = token.hash) with
      | true =>
        simp only [hany, if_true]
        rw [ih hrest, filter_cons_of_neg (by simp [hany])]
      | false =>
        simp only [hany, Bool.false_eq_true, if_false]
        rw [ih hrest, filter_cons_of_pos (by simp [hany]), append_assoc, singleton_append]
        congr 2
        refine filter_congr fun t ht => ?_
        have hne : token.hash ≠ t.hash := fun heq => hnew (mem_map.mpr ⟨t, ht, heq.symm⟩)
        simp [hne]

theorem Kept.any_cached (h : Kept b) : b.cachedTokens.any (·.hash = hash) = b.tokenCache.contains hash := by
  rw [Bool.eq_iff_iff, Std.ExtTreeMap.contains_iff_mem, Std.ExtTreeMap.mem_iff_isSome_getElem?]
  simp only [cachedTokens, any_map, any_eq_true, Prod.exists, Function.comp_apply, decide_eq_true_eq,
    Std.ExtTreeMap.mem_toList_iff_getElem?_eq_some, Option.isSome_iff_exists]
  constructor
  · rintro ⟨k, token, hget, heq⟩
    rw [← heq, (h.cached k token hget).1]
    exact ⟨token, hget⟩
  · rintro ⟨token, hget⟩
    exact ⟨hash, token, hget, (h.cached hash token hget).1⟩

theorem totalBytes_append (l l' : List BlobToken) : totalBytes (l ++ l') = totalBytes l + totalBytes l' := by
  induction l with
  | nil => exact (Nat.zero_add _).symm
  | cons token l ih => simp only [totalBytes, cons_append, foldr_cons] at ih ⊢; omega

theorem totalBytes_eq_zero_iff {l} : totalBytes l = 0 ↔ ∀ token ∈ l, token.sizeBytes = 0 := by
  induction l with
  | nil => simp [totalBytes]
  | cons token l ih =>
    rw [forall_mem_cons, ← ih, ← UInt64.toNat_inj]
    exact Nat.add_eq_zero_iff

theorem Kept.bytes_iff (h : Kept b) : b.localStorageBytes ctx = totalBytes (b.listLocalBlobs ctx) ↔
    b.tokenCache.isEmpty = true ∨ ∀ (x : Hash) sidecar, x.toHex ∉ b.tokenCache →
      b.loadMetadata ctx x.toHex = some sidecar → sidecar.sizeBytes = 0 := by
  have hlist : b.listLocalBlobs ctx = b.cachedTokens ++
      (b.readDir.filterMap (b.sidecarOf ctx)).filter fun token => !b.tokenCache.contains token.hash := by
    rw [listLocalBlobs, foldl_listing h.nodup_sidecars]
    simp only [h.any_cached]
  rw [hlist, totalBytes_append, localStorageBytes]
  cases hempty : b.tokenCache.isEmpty with
  | true =>
    have hnone : b.tokenCache = ∅ := isEmpty_iff.mp hempty
    have hnil : (∅ : Table BlobToken).toList = [] := rfl
    simp [cachedTokens, hnone, hnil, totalBytes]
  | false =>
    simp only [Bool.false_eq_true, if_false, false_or, Nat.left_eq_add, totalBytes_eq_zero_iff, mem_filter,
      h.mem_sidecars, Bool.not_eq_true', ← Bool.not_eq_true, Std.ExtTreeMap.contains_iff_mem]
    constructor
    · intro hall x sidecar hnew hload
      exact hall _ ⟨⟨x, sidecar, hload, rfl⟩, hnew⟩
    · rintro hall _ ⟨⟨x, sidecar, hload, rfl⟩, hnew⟩
      exact hall x sidecar hnew hload

theorem fetch_error_iff {token} (htoken : token.hash = x.toHex) :
    (b.fetchBlob ctx.toBlob token).error = none ↔ b.localBlobPath x.toHex ∈ b.files ∨ x ∈ b.store := by
  have hexists : ∀ path, ctx.toBlob.fs.exists' b.files path = true ↔ path ∈ b.files := fun path =>
    contains_iff_mem
  have hparse : blobHashToIrohHash ctx.toBlob x.toHex = .ok x := by
    rw [blobHashToIrohHash, show ctx.toBlob.codec = ctx.codec from rfl, ctx.codec.fromStr_toHex]
  rw [fetchBlob, htoken]
  by_cases hlocal : b.localBlobPath x.toHex ∈ b.files
  · simp [hexists, hlocal]
  simp only [hexists, hlocal, if_false, hparse, false_or]
  by_cases hmem : x ∈ b.store
  · simp only [hmem, if_true, exportBlob, hexists, hlocal, if_false, getElem?_eq_some_getElem hmem]
    exact iff_of_true rfl trivial
  · simp [hmem, fails]

theorem Kept.fetches_iff (h : Kept b) : (∀ (x : Hash) (token : BlobToken), token.hash = x.toHex →
    b.blobExistsLocally x.toHex = true → (b.fetchBlob ctx.toBlob token).error = none) ↔
      ∀ x : Hash, b.metadataPath x.toHex ∈ b.files → b.localBlobPath x.toHex ∈ b.files ∨ x ∈ b.store := by
  simp only [blobExistsLocally, Bool.or_eq_true, Std.ExtTreeMap.contains_iff_mem]
  constructor
  · intro hall x hmem
    exact (fetch_error_iff rfl).mp (hall x ⟨x.toHex, 0, ⟨none, none, []⟩⟩ rfl (.inr hmem))
  · intro hall x token htoken hmem
    refine (fetch_error_iff htoken).mpr ?_
    rcases hmem with (hlocal | hcached) | hsidecar
    · exact .inl hlocal
    · obtain ⟨-, y, hy, hstore⟩ := h.cached _ _ (getElem?_eq_some_getElem hcached)
      rw [toHex_inj.mp hy]
      exact .inr hstore
    · exact hall x hsidecar

theorem Kept.inOrder_iff (h : Kept b) : BookOp.InOrder ctx b ↔ Sound ctx b :=
  ⟨fun ho => ⟨h.bytes_iff.mp ho.bytes, h.fetches_iff.mp ho.fetches⟩,
    fun hs => ⟨h.bytes_iff.mpr hs.counted, h.fetches_iff.mpr hs.held⟩⟩

end BlobStore

/-! ## Operations -/

namespace BookOp

variable {ctx : BlobDirContext} {b : OnDisk}

theorem create_eq (content : List UInt8) (metadata : BlobMetadata) (now : Nat) :
    apply ctx b (.create content metadata now) =
      { b with
        store := b.store.insert (ctx.blake3 content) content
        tokenCache := b.tokenCache.insert (ctx.blake3 content).toHex
          ⟨(ctx.blake3 content).toHex, UInt64.ofNat content.length, metadata⟩
        files := b.files.insert (b.metadataPath (ctx.blake3 content).toHex)
          (ctx.toJson ⟨metadata, UInt64.ofNat content.length, now⟩) } := rfl

variable (ctx b) in
theorem fetch_cases (token : BlobToken) : apply ctx b (.fetch token) = b ∨
    ∃ (x : Hash) (content : List UInt8) (exported : List (String × Hash)),
      apply ctx b (.fetch token) = { b with files := b.files.insert (b.localBlobPath x.toHex) content, exported } := by
  simp only [apply, fetchBlob]
  split
  · exact .inl rfl
  split
  · exact .inl rfl
  split
  · rename_i x _ hmem
    simp only [exportBlob, getElem?_eq_some_getElem hmem]
    split
    · rename_i hexport
      split at hexport <;> cases hexport
    rename_i hexport
    split at hexport
    · cases hexport
      exact .inl rfl
    · cases hexport
      exact .inr ⟨x, _, _, rfl⟩
  · exact .inl rfl

theorem erase_absent {files : Table (List UInt8)} {path} (h : files.contains path = false) :
    files.erase path = files := by
  refine ext_getElem? fun path' => ?_
  rw [Table.getElem?_erase]
  split
  · subst path'
    exact (getElem?_eq_none_of_contains_eq_false h).symm
  · rfl

theorem deleteMetadata_eq (b : OnDisk) (hash : String) (removed : Option String) :
    ∃ exported, (b.deleteMetadata ctx.toBlob hash removed).store =
      { b with tokenCache := b.tokenCache.erase hash, files := b.files.erase (b.metadataPath hash), exported } := by
  have hfs : ctx.toBlob.fs = .flat := rfl
  cases hmem : b.files.contains (b.metadataPath hash) with
  | true => exact ⟨_, by simp only [deleteMetadata, removeFile, hfs, FileSystem.flat, hmem, if_true]; rfl⟩
  | false =>
    rw [erase_absent hmem]
    exact ⟨_, by simp only [deleteMetadata, hfs, FileSystem.flat, hmem, Bool.false_eq_true, if_false]; rfl⟩

variable (ctx b) in
theorem delete_eq (hash : String) : ∃ exported, apply ctx b (.delete hash) =
    { b with
      tokenCache := b.tokenCache.erase hash
      files := (b.files.erase (b.localBlobPath hash)).erase (b.metadataPath hash)
      exported } := by
  have hfs : ctx.toBlob.fs = .flat := rfl
  cases hmem : b.files.contains (b.localBlobPath hash) with
  | true =>
    simp only [apply, deleteBlob, removeFile, hfs, FileSystem.flat, hmem, if_true]
    exact deleteMetadata_eq _ hash _
  | false =>
    simp only [apply, deleteBlob, hfs, FileSystem.flat, hmem, Bool.false_eq_true, if_false, erase_absent hmem]
    exact deleteMetadata_eq b hash _

theorem kept_apply (h : Kept b) (op : BookOp) : Kept (apply ctx b op) := by
  cases op with
  | create content metadata now =>
    rw [create_eq]
    constructor
    · intro k token hget
      rw [Table.getElem?_insert] at hget
      split at hget
      · subst k
        cases hget
        exact ⟨rfl, _, rfl, mem_insert_self⟩
      · obtain ⟨htoken, x, hx, hmem⟩ := h.cached k token hget
        exact ⟨htoken, x, hx, mem_insert.mpr (.inr hmem)⟩
    · intro path hmem
      rcases mem_insert.mp hmem with heq | hmem
      · exact ⟨_, .inr (Std.compare_eq_iff_eq.mp heq).symm⟩
      · exact h.files path hmem
  | fetch token =>
    obtain heq | ⟨x, content, exported, heq⟩ := fetch_cases ctx b token
    · rwa [heq]
    · rw [heq]
      refine ⟨h.cached, fun path hmem => ?_⟩
      rcases mem_insert.mp hmem with heq | hmem
      · exact ⟨x, .inl (Std.compare_eq_iff_eq.mp heq).symm⟩
      · exact h.files path hmem
  | delete hash =>
    obtain ⟨exported, heq⟩ := delete_eq ctx b hash
    rw [heq]
    refine ⟨fun k token hget => ?_, fun path hmem => ?_⟩
    · rw [Table.getElem?_erase, Option.ite_none_left_eq_some] at hget
      exact h.cached k token hget.2
    · exact h.files path (mem_of_mem_erase (mem_of_mem_erase hmem))
  | restart =>
    refine ⟨fun k token hget => ?_, h.files⟩
    cases hget

theorem sound_create_iff (hs : Sound ctx b) (content : List UInt8) (metadata : BlobMetadata) (now : Nat) :
    Sound ctx (apply ctx b (.create content metadata now)) ↔ Meets ctx b (.create content metadata now) := by
  have hgrows {x : Hash} (hx : x ∈ b.store) : x ∈ b.store.insert (ctx.blake3 content) content :=
    mem_insert.mpr (.inr hx)
  rw [create_eq]
  have hother {x : Hash} (hx : x ≠ ctx.blake3 content) (json : List UInt8) :
      (b.files.insert (b.metadataPath (ctx.blake3 content).toHex) json)[b.metadataPath x.toHex]? =
        b.files[b.metadataPath x.toHex]? := by
    rw [Table.getElem?_insert, if_neg fun h => hx (metadataPath_inj.mp h).symm]
  constructor
  · intro hs' hempty x sidecar hx hload
    refine (hs'.counted.resolve_left (by simp)) x sidecar ?_ ?_
    · rw [mem_insert, isEmpty_iff.mp hempty]
      rintro (h | h)
      · exact hx (toHex_inj.mp (Std.compare_eq_iff_eq.mp h)).symm
      · exact absurd h not_mem_empty
    · exact (congrArg (·.bind ctx.fromJson) (hother hx _)).trans hload
  · intro hmeets
    refine ⟨.inr fun x sidecar hnew hload => ?_, fun x hmem => ?_⟩
    · rw [mem_insert, not_or, Std.compare_eq_iff_eq, toHex_inj] at hnew
      have hload : b.loadMetadata ctx x.toHex = some sidecar :=
        (congrArg (·.bind ctx.fromJson) (hother (Ne.symm hnew.1) _)).symm.trans hload
      cases hempty : b.tokenCache.isEmpty with
      | true => exact hmeets hempty x sidecar (Ne.symm hnew.1) hload
      | false => exact (hs.counted.resolve_left (by simp [hempty])) x sidecar hnew.2 hload
    · by_cases hx : x = ctx.blake3 content
      · exact .inr (hx ▸ mem_insert_self)
      · refine (hs.held x ?_).imp (fun hlocal => mem_insert.mpr (.inr hlocal)) hgrows
        rw [mem_iff_isSome_getElem?] at hmem ⊢
        rwa [← hother hx]

theorem sound_fetch (hs : Sound ctx b) (token : BlobToken) : Sound ctx (apply ctx b (.fetch token)) := by
  obtain heq | ⟨x, content, exported, heq⟩ := fetch_cases ctx b token
  · rwa [heq]
  · rw [heq]
    have hsame (y : Hash) : (b.files.insert (b.localBlobPath x.toHex) content)[b.metadataPath y.toHex]? =
        b.files[b.metadataPath y.toHex]? := by
      rw [Table.getElem?_insert, if_neg (by rw [metadataPath_eq]; exact localBlobPath_ne _)]
    refine ⟨hs.counted.imp_right fun hall y sidecar hnew hload => ?_, fun y hmem => ?_⟩
    · exact hall y sidecar hnew ((congrArg (·.bind ctx.fromJson) (hsame y)).symm.trans hload)
    · refine (hs.held y ?_).imp_left fun hlocal => mem_insert.mpr (.inr hlocal)
      rwa [mem_iff_isSome_getElem?, ← hsame y, ← mem_iff_isSome_getElem?]

theorem sound_delete (hs : Sound ctx b) (hash : String) : Sound ctx (apply ctx b (.delete hash)) := by
  obtain ⟨exported, heq⟩ := delete_eq ctx b hash
  rw [heq]
  constructor
  · rcases hs.counted with hempty | hall
    · rw [isEmpty_iff.mp hempty]
      exact .inl (by simp)
    refine .inr fun x sidecar hnew hload => ?_
    obtain ⟨content, hget, hjson⟩ := Option.bind_eq_some_iff.mp hload
    rw [Table.getElem?_erase, Option.ite_none_left_eq_some, Table.getElem?_erase, Option.ite_none_left_eq_some] at hget
    refine hall x sidecar (fun hmem => hnew ?_) (Option.bind_eq_some_iff.mpr ⟨content, hget.2.2, hjson⟩)
    rw [mem_erase, ne_eq, Std.compare_eq_iff_eq]
    exact ⟨fun h => hget.1 (h ▸ rfl), hmem⟩
  · intro x hmem
    simp only [mem_erase, ne_eq, Std.compare_eq_iff_eq] at hmem ⊢
    obtain ⟨hne, -, hmem⟩ := hmem
    refine (hs.held x hmem).imp_left fun hlocal => ⟨fun h => ?_, fun h => hne ?_, hlocal⟩
    · rw [metadataPath_eq] at h
      exact localBlobPath_ne _ h.symm
    · rw [metadataPath_eq, h]
      exact metadataPath_eq.symm

theorem sound_restart_iff : Sound ctx (apply ctx b .restart) ↔ Meets ctx b .restart := by
  constructor
  · intro hs x hmem
    exact (hs.held x hmem).resolve_right not_mem_empty
  · intro hmeets
    exact ⟨.inl rfl, fun x hmem => .inl (hmeets x hmem)⟩

theorem sound_apply_iff (hs : Sound ctx b) (op : BookOp) : Sound ctx (apply ctx b op) ↔ Meets ctx b op := by
  cases op with
  | create content metadata now => exact sound_create_iff hs content metadata now
  | fetch token => exact iff_of_true (sound_fetch hs token) trivial
  | delete hash => exact iff_of_true (sound_delete hs hash) trivial
  | restart => exact sound_restart_iff

variable {dir : String}

theorem run_concat (ops : List BookOp) (op : BookOp) : run ctx dir (ops ++ [op]) = apply ctx (run ctx dir ops) op := by
  rw [run, foldl_concat, run]

theorem kept_run (ops : List BookOp) : Kept (run ctx dir ops) := by
  induction ops using reverseRecOn with
  | nil => constructor <;> simp [run]
  | append_singleton ops op ih =>
    rw [run_concat]
    exact kept_apply ih op

/-- The books are in order all along exactly when every restart finds all blobs exported, and the first create after
one finds no other sidecar. -/
theorem books_in_order_iff (ctx : BlobDirContext) (dir : String) (ops : List BookOp) :
    (∀ before, before <+: ops → InOrder ctx (run ctx dir before)) ↔
      ∀ before op, before ++ [op] <+: ops → Meets ctx (run ctx dir before) op := by
  refine Runs.forall_prefix_iff (P := fun before => InOrder ctx (run ctx dir before)) ?_
    (fun before op hbefore => ?_) ops
  · refine (kept_run []).inOrder_iff.mpr ⟨.inl rfl, fun x hmem => ?_⟩
    exact absurd hmem (by simp [run])
  · have hs := (kept_run before).inOrder_iff.mp (hbefore before (prefix_refl before))
    rw [(kept_run _).inOrder_iff, run_concat]
    exact sound_apply_iff hs op

/-! A blob that is not exported before a restart, and one created after it. -/

def unnamed : BlobMetadata := ⟨none, none, []⟩

def lengthContext : BlobDirContext where
  codec := .hexLower
  blake3 l := Vector.replicate 32 (UInt8.ofNat l.length)
  toJson m := List.replicate m.sizeBytes.toNat 0
  fromJson l := some ⟨unnamed, UInt64.ofNat l.length, 0⟩

def restarted : List BookOp := [.create [7] unnamed 0, .restart]

/-- The blob exists and cannot be fetched, and is listed and not counted. -/
theorem unexported_not_fetched :
    ((run lengthContext "blobs" restarted).blobExistsLocally (lengthContext.blake3 [7]).toHex = true ∧
      ((run lengthContext "blobs" restarted).fetchBlob lengthContext.toBlob
        ⟨(lengthContext.blake3 [7]).toHex, 1, unnamed⟩).error.isSome = true) ∧
      (run lengthContext "blobs" (restarted ++ [.create [7, 7] unnamed 0])).localStorageBytes lengthContext = 2 ∧
        totalBytes ((run lengthContext "blobs" (restarted ++ [.create [7, 7] unnamed 0])).listLocalBlobs
          lengthContext) = 3 := by
  decide +kernel

end BookOp

end PeatMesh
