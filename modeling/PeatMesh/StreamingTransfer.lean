/-
Streaming blob transfer (`storage/streaming_transfer.rs`): bytes flow from a
source to a target in chunks, through a hasher, and a checkpoint counts what
has been written. The loops stop at the first read of no bytes, which says
nothing where the buffer has no room, and nothing compares the bytes that came
with the checkpoint's total size.

A source is its bytes and how its reads go, a target how its writes go. SHA-256
is any function. `overflowChecks` tells a build that panics on an overflow from
one that wraps.
-/
import PeatMesh.Bytes

namespace PeatMesh

open List Option UInt64

/-! ## Configuration and checkpoint -/

structure TimeLimit where
  nanos : Nat
  debug : String
  deriving DecidableEq, Repr

structure StreamingTransferConfig where
  chunkSize : Nat
  checkpointInterval : Nat
  verifyDigest : Bool
  readTimeout : TimeLimit
  writeTimeout : TimeLimit
  deriving DecidableEq, Repr

def StreamingTransferConfig.custom (chunkSize checkpointInterval : Nat) : StreamingTransferConfig :=
  ⟨chunkSize, checkpointInterval, true, ⟨120 * 10 ^ 9, "120s"⟩, ⟨120 * 10 ^ 9, "120s"⟩⟩

structure TransferCheckpoint where
  sessionId : String
  digest : String
  totalSize : UInt64
  offset : UInt64
  chunksCompleted : UInt64
  partialSha256 : List UInt8
  uploadSessionUrl : Option String
  deriving DecidableEq, Repr

namespace TransferCheckpoint

def new (sessionId digest : String) (totalSize : UInt64) : TransferCheckpoint :=
  ⟨sessionId, digest, totalSize, 0, 0, [], none⟩

def isComplete (c : TransferCheckpoint) : Bool := c.totalSize ≤ c.offset

end TransferCheckpoint

structure TransferResult where
  bytesTransferred : UInt64
  totalSize : UInt64
  computedDigest : String
  resumed : Bool
  checkpointsSaved : UInt64
  deriving DecidableEq, Repr

/-- `io::ErrorKind`, the kinds the transfer makes itself and any other. -/
inductive IoErrorKind
  | unexpectedEof
  | timedOut
  | invalidData
  | other (name : String)
  deriving DecidableEq, Repr

structure IoError where
  kind : IoErrorKind
  text : String
  deriving DecidableEq, Repr

/-! ## Source and target -/

/-- How a read of the caller's source goes: after `delay` nanoseconds, with
at most `more + 1` bytes or an error. -/
structure ReadTurn where
  delay : Nat
  answer : Except IoError Nat
  deriving Repr

/-- `AsyncRead`: the bytes still to come, and how the coming reads go. Past
these, a read gives at once what there is room for. -/
structure Source where
  bytes : List UInt8
  turns : List ReadTurn
  deriving Repr

namespace Source

def delay (s : Source) : Nat := (s.turns.head?.map (·.delay)).getD 0

def read (s : Source) (len : Nat) : Except IoError (List UInt8) × Source :=
  match s.turns with
  | [] => (.ok (s.bytes.take len), ⟨s.bytes.drop len, []⟩)
  | ⟨_, .ok more⟩ :: turns => (.ok (s.bytes.take (min len (more + 1))), ⟨s.bytes.drop (min len (more + 1)), turns⟩)
  | ⟨_, .error e⟩ :: turns => (.error e, ⟨s.bytes, turns⟩)

end Source

/-- How a `write_all` to the caller's target goes: after `delay`
nanoseconds, to its end or to an error; short of its end the target has
taken `accepted` bytes. -/
structure WriteTurn where
  delay : Nat
  accepted : Nat
  error : Option IoError
  deriving Repr

/-- `AsyncWrite`: what it took in this call, how the coming writes go, and
whether the last flush fails. -/
structure Target where
  written : List UInt8
  turns : List WriteTurn
  flush : Option IoError
  deriving Repr

def Target.writeAll (t : Target) (limit : Nat) (chunk : List UInt8) : Option (Except IoError Unit) × Target :=
  match t.turns with
  | [] => (some (.ok ()), { t with written := t.written ++ chunk })
  | turn :: turns =>
    if limit < turn.delay then (none, { t with written := t.written ++ chunk.take turn.accepted, turns })
    else
      match turn.error with
      | some e => (some (.error e), { t with written := t.written ++ chunk.take turn.accepted, turns })
      | none => (some (.ok ()), { t with written := t.written ++ chunk, turns })

/-! ## The transfer -/

/-- Where a transfer is. `hashed` is what the hasher was fed; `callbacks`,
where there is an `on_checkpoint`, how its coming calls go. -/
structure Session where
  source : Source
  target : Target
  hashed : List UInt8
  checkpoint : TransferCheckpoint
  callbacks : Option (List (Option IoError))
  checkpointsSaved : UInt64
  deriving Repr

inductive Stop
  | finished
  | failed (e : IoError)
  | panicked
  deriving DecidableEq, Repr

section Transfer

variable (overflowChecks : Bool) (cfg : StreamingTransferConfig)

def addLength (a : UInt64) (n : Nat) : Option UInt64 :=
  if overflowChecks ∧ 2 ^ 64 ≤ a.toNat + n then none else some (a + UInt64.ofNat n)

def subLength (a b : UInt64) : Option UInt64 :=
  if overflowChecks ∧ a < b then none else some (a - b)

def isMultipleOf (a : UInt64) (n : Nat) : Bool := if n = 0 then a = 0 else a.toNat % n = 0

def skipChunk (s : Session) (remaining : UInt64) : Except (Stop × Session) (Session × UInt64) :=
  match s.source.read (min remaining.toNat cfg.chunkSize) with
  | (.error e, source) => .error (.failed e, { s with source })
  | (.ok [], source) =>
    match subLength overflowChecks s.checkpoint.totalSize remaining with
    | none => .error (.panicked, { s with source })
    | some pos => .error (.failed ⟨.unexpectedEof, "source ended at " ++ toString pos.toNat ++
        " while skipping to offset " ++ toString s.checkpoint.offset.toNat⟩, { s with source })
  | (.ok chunk, source) =>
    .ok ({ s with source, hashed := s.hashed ++ chunk }, remaining - UInt64.ofNat chunk.length)

def skipLoop : Nat → Session → UInt64 → Option (Stop × Session)
  | 0, _, _ => none
  | fuel + 1, s, remaining =>
    if remaining = 0 then some (.finished, s)
    else
      match skipChunk overflowChecks cfg s remaining with
      | .error stop => some stop
      | .ok (s', remaining') => skipLoop fuel s' remaining'

def saveCheckpoint (s : Session) : Except (Stop × Session) Session :=
  if isMultipleOf s.checkpoint.chunksCompleted cfg.checkpointInterval then
    match s.callbacks with
    | none => .ok s
    | some (some e :: rest) => .error (.failed e, { s with callbacks := some rest })
    | some calls => .ok { s with callbacks := some calls.tail, checkpointsSaved := s.checkpointsSaved + 1 }
  else .ok s

def countChunk (c : TransferCheckpoint) (n : Nat) : Option TransferCheckpoint := do
  let offset ← addLength overflowChecks c.offset n
  let chunksCompleted ← addLength overflowChecks c.chunksCompleted 1
  return { c with offset, chunksCompleted }

def copyChunk (s : Session) : Except (Stop × Session) Session :=
  let at' := toString s.checkpoint.offset.toNat
  if cfg.readTimeout.nanos < s.source.delay then
    .error (.failed ⟨.timedOut, "read timed out after " ++ cfg.readTimeout.debug ++ " at offset " ++ at'⟩, s)
  else
    match s.source.read cfg.chunkSize with
    | (.error e, source) =>
      .error (.failed ⟨e.kind, "read failed at offset " ++ at' ++ ": " ++ e.text⟩, { s with source })
    | (.ok [], source) => .error (.finished, { s with source })
    | (.ok chunk, source) =>
      match s.target.writeAll cfg.writeTimeout.nanos chunk with
      | (none, target) =>
        .error (.failed ⟨.timedOut, "write timed out after " ++ cfg.writeTimeout.debug ++ " at offset " ++ at'⟩,
          { s with source, target, hashed := s.hashed ++ chunk })
      | (some (.error e), target) =>
        .error (.failed ⟨e.kind, "write failed at offset " ++ at' ++ ": " ++ e.text⟩,
          { s with source, target, hashed := s.hashed ++ chunk })
      | (some (.ok _), target) =>
        match countChunk overflowChecks s.checkpoint chunk.length with
        | none => .error (.panicked, { s with source, target, hashed := s.hashed ++ chunk })
        | some checkpoint => saveCheckpoint cfg { s with source, target, checkpoint, hashed := s.hashed ++ chunk }

def copyLoop : Nat → Session → Option (Stop × Session)
  | 0, _ => none
  | fuel + 1, s =>
    match copyChunk overflowChecks cfg s with
    | .error stop => some stop
    | .ok s' => copyLoop fuel s'

variable (sha256 : List UInt8 → List UInt8)

def digestOf (hashed : List UInt8) : String :=
  "sha256:" ++ Bytes.hex (sha256 hashed)

def finishTransfer (initialOffset : UInt64) (s : Session) : Except Stop TransferResult :=
  match s.target.flush with
  | some e => .error (.failed e)
  | none =>
    let computedDigest := digestOf sha256 s.hashed
    if cfg.verifyDigest ∧ s.checkpoint.digest ≠ "" ∧ computedDigest ≠ s.checkpoint.digest then
      .error (.failed ⟨.invalidData, "digest mismatch: expected " ++ s.checkpoint.digest ++ ", computed " ++
        computedDigest⟩)
    else
      match subLength overflowChecks s.checkpoint.offset initialOffset with
      | none => .error .panicked
      | some bytesTransferred =>
        .ok ⟨bytesTransferred, s.checkpoint.offset, computedDigest, 0 < initialOffset, s.checkpointsSaved⟩

def streamTransfer (source : Source) (target : Target)
    (checkpoint : TransferCheckpoint) (callbacks : Option (List (Option IoError))) :
    Option (Except Stop TransferResult × Session) := do
  let fuel := source.bytes.length + 1
  let (stop, s) ← skipLoop overflowChecks cfg fuel ⟨source, target, [], checkpoint, callbacks, 0⟩ checkpoint.offset
  if stop = .finished then
    let (stop, s) ← copyLoop overflowChecks cfg fuel s
    if stop = .finished then return (finishTransfer overflowChecks cfg sha256 checkpoint.offset s, s)
    else return (.error stop, s)
  else return (.error stop, s)

end Transfer

/-! ## One turn -/

variable {overflowChecks : Bool} {cfg : StreamingTransferConfig} {s s' s'' : Session} {chunk chunk' : List UInt8}

theorem Source.read_eq_ok {src src' : Source} {len} (h : src.read len = (.ok chunk, src')) :
    src.bytes = chunk ++ src'.bytes ∧ chunk.length ≤ len ∧ (chunk = [] → len = 0 ∨ src.bytes = []) := by
  have htake : ∀ n, n ≤ len → (n = 0 → len = 0) → src.bytes = src.bytes.take n ++ src.bytes.drop n ∧
      (src.bytes.take n).length ≤ len ∧ (src.bytes.take n = [] → len = 0 ∨ src.bytes = []) := by
    intro n hn hzero
    refine ⟨(take_append_drop _ _).symm, by simp; omega, ?_⟩
    intro hnil
    rw [take_eq_nil_iff] at hnil
    exact hnil.imp_left hzero
  unfold read at h
  split at h
  · cases h
    exact htake len le_rfl id
  · cases h
    exact htake _ (Nat.min_le_left _ _) (by omega)
  · cases h

theorem Target.writeAll_eq_ok {t t' : Target} {limit} (h : t.writeAll limit chunk = (some (.ok ()), t')) :
    t'.written = t.written ++ chunk := by
  revert h
  fun_cases writeAll t limit chunk <;> rintro ⟨⟩ <;> rfl

theorem Target.writeAll_within (t : Target) (limit : Nat) (chunk : List UInt8) :
    (t.writeAll limit chunk).2.written <+: t.written ++ chunk := by
  have htake : ∀ n, t.written ++ chunk.take n <+: t.written ++ chunk := fun n =>
    (prefix_append_right_inj t.written).mpr (List.take_prefix n chunk)
  fun_cases writeAll t limit chunk <;> first
    | exact prefix_refl _
    | exact htake _

theorem countChunk_eq_some {c c' n} (h : countChunk overflowChecks c n = some c') :
    c'.offset = c.offset + UInt64.ofNat n ∧ c'.totalSize = c.totalSize := by
  simp only [countChunk, addLength, Option.bind_eq_bind, Option.bind_eq_some_iff, Option.pure_def,
    Option.some.injEq] at h
  obtain ⟨offset, hoffset, chunks, -, rfl⟩ := h
  split at hoffset
  · cases hoffset
  · cases hoffset
    exact ⟨rfl, rfl⟩

structure Session.Alike (s s' : Session) : Prop where
  source : s'.source = s.source
  target : s'.target = s.target
  hashed : s'.hashed = s.hashed
  checkpoint : s'.checkpoint = s.checkpoint

theorem saveCheckpoint_eq_ok (h : saveCheckpoint cfg s = .ok s') : s.Alike s' := by
  revert h
  fun_cases saveCheckpoint cfg s <;> rintro ⟨⟩ <;> exact ⟨rfl, rfl, rfl, rfl⟩

variable {stop : Stop}

theorem saveCheckpoint_eq_error (h : saveCheckpoint cfg s = .error (stop, s')) : stop ≠ .finished ∧ s.Alike s' := by
  revert h
  fun_cases saveCheckpoint cfg s <;> rintro ⟨⟩
  exact ⟨nofun, rfl, rfl, rfl, rfl⟩

/-- The bytes `chunk` went from the source through the hasher to the target,
and the checkpoint counts them. -/
structure Session.Moved (s s' : Session) (chunk : List UInt8) : Prop where
  source : s.source.bytes = chunk ++ s'.source.bytes
  written : s'.target.written = s.target.written ++ chunk
  hashed : s'.hashed = s.hashed ++ chunk
  offset : s'.checkpoint.offset = s.checkpoint.offset + UInt64.ofNat chunk.length
  totalSize : s'.checkpoint.totalSize = s.checkpoint.totalSize

structure Session.Skipped (s s' : Session) (chunk : List UInt8) : Prop where
  source : s.source.bytes = chunk ++ s'.source.bytes
  hashed : s'.hashed = s.hashed ++ chunk
  target : s'.target = s.target
  checkpoint : s'.checkpoint = s.checkpoint

theorem Session.Skipped.trans (h : s.Skipped s' chunk) (h' : s'.Skipped s'' chunk') :
    s.Skipped s'' (chunk ++ chunk') where
  source := by rw [h.source, h'.source, append_assoc]
  hashed := by rw [h'.hashed, h.hashed, append_assoc]
  target := h'.target.trans h.target
  checkpoint := h'.checkpoint.trans h.checkpoint

theorem Session.Moved.trans (h : s.Moved s' chunk) (h' : s'.Moved s'' chunk') : s.Moved s'' (chunk ++ chunk') where
  source := by rw [h.source, h'.source, append_assoc]
  written := by rw [h'.written, h.written, append_assoc]
  hashed := by rw [h'.hashed, h.hashed, append_assoc]
  offset := by
    rw [h'.offset, h.offset, length_append, UInt64.ofNat_add, UInt64.add_assoc]
  totalSize := h'.totalSize.trans h.totalSize

theorem copyChunk_eq_ok (h : copyChunk overflowChecks cfg s = .ok s') :
    ∃ chunk, chunk ≠ [] ∧ chunk.length ≤ cfg.chunkSize ∧ s.Moved s' chunk := by
  revert h
  fun_cases copyChunk overflowChecks cfg s with
  | case7 _ chunk source hne hread _ target hwrite checkpoint hcount =>
    intro h
    obtain ⟨hbytes, hsize, -⟩ := Source.read_eq_ok hread
    obtain ⟨hoffset, htotal⟩ := countChunk_eq_some hcount
    have halike := saveCheckpoint_eq_ok h
    refine ⟨chunk, hne, hsize, ?_, ?_, ?_, ?_, ?_⟩
    · rw [halike.source, hbytes]
    · rw [halike.target, Target.writeAll_eq_ok hwrite]
    · rw [halike.hashed]
    · rw [halike.checkpoint, hoffset]
    · rw [halike.checkpoint, htotal]
  | _ => rintro ⟨⟩

theorem copyChunk_eq_error (h : copyChunk overflowChecks cfg s = .error (stop, s')) :
    s'.target.written <+: s.target.written ++ s.source.bytes ∧
      (stop = .finished → s.Moved s' [] ∧ (cfg.chunkSize = 0 ∨ s'.source.bytes = [])) := by
  have hsource {chunk source target r} (hread : s.source.read cfg.chunkSize = (.ok chunk, source))
      (hwrite : s.target.writeAll cfg.writeTimeout.nanos chunk = (r, target)) :
      target.written <+: s.target.written ++ s.source.bytes := by
    have hwithin := s.target.writeAll_within cfg.writeTimeout.nanos chunk
    rw [hwrite] at hwithin
    exact hwithin.trans ((prefix_append_right_inj _).mpr ⟨_, (Source.read_eq_ok hread).1.symm⟩)
  revert h
  fun_cases copyChunk overflowChecks cfg s with
  | case1 | case2 =>
    rintro ⟨⟩
    exact ⟨prefix_append _ _, nofun⟩
  | case3 _ source hread =>
    rintro ⟨⟩
    obtain ⟨hbytes, -, hend⟩ := Source.read_eq_ok hread
    refine ⟨prefix_append _ _, fun _ => ⟨⟨hbytes, by simp, by simp, by simp, rfl⟩, ?_⟩⟩
    rw [nil_append] at hbytes
    exact hbytes ▸ hend rfl
  | case4 _ _ chunk source hne hread target hwrite | case5 _ _ chunk source hne hread e target hwrite
  | case6 _ chunk source hne hread _ target hwrite =>
    rintro ⟨⟩
    exact ⟨hsource hread hwrite, nofun⟩
  | case7 _ chunk source hne hread _ target hwrite =>
    -- the chunk is counted, and the callback fails
    intro h
    obtain ⟨hstop, halike⟩ := saveCheckpoint_eq_error h
    refine ⟨?_, fun heq => absurd heq hstop⟩
    rw [halike.target]
    exact hsource hread hwrite

theorem skipChunk_eq_ok {remaining remaining'}
    (h : skipChunk overflowChecks cfg s remaining = .ok (s', remaining')) :
    ∃ chunk, chunk ≠ [] ∧ chunk.length ≤ cfg.chunkSize ∧ s.Skipped s' chunk ∧
      chunk.length + remaining'.toNat = remaining.toNat := by
  revert h
  fun_cases skipChunk overflowChecks cfg s remaining <;> rintro ⟨⟩
  rename_i chunk source hne hread
  obtain ⟨hbytes, hlen, -⟩ := Source.read_eq_ok hread
  have hlt := remaining.toNat_lt
  have hofNat : (ofNat chunk.length).toNat = chunk.length := by
    rw [toNat_ofNat', Nat.mod_eq_of_lt (by omega)]
  have hle : ofNat chunk.length ≤ remaining := by
    rw [le_iff_toNat_le]
    omega
  refine ⟨chunk, hne, by omega, ⟨hbytes, rfl, rfl, rfl⟩, ?_⟩
  rw [UInt64.toNat_sub_of_le _ _ hle]
  omega

variable {remaining : UInt64}

theorem skipChunk_eq_error (h : skipChunk overflowChecks cfg s remaining = .error (stop, s')) :
    stop ≠ .finished ∧ s'.target = s.target ∧ s'.checkpoint = s.checkpoint := by
  revert h
  fun_cases skipChunk overflowChecks cfg s remaining <;> rintro ⟨⟩ <;> exact ⟨nofun, rfl, rfl⟩

/-! ## The loops -/

variable {fuel : Nat}

theorem skipLoop_eq_some (h : skipLoop overflowChecks cfg fuel s remaining = some (stop, s')) :
    (s'.target = s.target ∧ s'.checkpoint = s.checkpoint) ∧
      (stop = .finished → ∃ chunk, s.Skipped s' chunk ∧ chunk.length = remaining.toNat ∧
        (cfg.chunkSize = 0 → chunk = [])) := by
  induction fuel generalizing s remaining with
  | zero => cases h
  | succ fuel ih =>
    rw [skipLoop] at h
    split at h
    · rename_i hzero
      cases h
      exact ⟨⟨rfl, rfl⟩, fun _ => ⟨[], ⟨rfl, (append_nil _).symm, rfl, rfl⟩, by simp [hzero], fun _ => rfl⟩⟩
    · split at h
      · rename_i stop' hchunk
        cases h
        obtain ⟨hstop, htarget, hcheckpoint⟩ := skipChunk_eq_error hchunk
        exact ⟨⟨htarget, hcheckpoint⟩, fun heq => absurd heq hstop⟩
      · rename_i s₁ remaining₁ hchunk
        obtain ⟨chunk, hne, hsize, hskipped, hlen⟩ := skipChunk_eq_ok hchunk
        obtain ⟨⟨htarget, hcheckpoint⟩, hfinished⟩ := ih h
        refine ⟨⟨htarget.trans hskipped.target, hcheckpoint.trans hskipped.checkpoint⟩, fun heq => ?_⟩
        obtain ⟨rest, hrest, hrestLen, -⟩ := hfinished heq
        refine ⟨chunk ++ rest, hskipped.trans hrest, by rw [length_append]; omega, fun hzero => ?_⟩
        have hpos := length_pos_iff.mpr hne
        omega

theorem skipLoop_isSome (overflowChecks : Bool) (cfg : StreamingTransferConfig)
    (h : s.source.bytes.length < fuel) : (skipLoop overflowChecks cfg fuel s remaining).isSome := by
  induction fuel generalizing s remaining with
  | zero => omega
  | succ fuel ih =>
    rw [skipLoop]
    split
    · rfl
    split
    · rfl
    rename_i s₁ remaining₁ hchunk
    obtain ⟨chunk, hne, -, hskipped, -⟩ := skipChunk_eq_ok hchunk
    have hlen := congrArg length hskipped.source
    have hpos := length_pos_iff.mpr hne
    rw [length_append] at hlen
    exact ih (by omega)

theorem copyLoop_eq_some (h : copyLoop overflowChecks cfg fuel s = some (.finished, s')) :
    ∃ chunk, s.Moved s' chunk ∧ if cfg.chunkSize = 0 then chunk = [] else s'.source.bytes = [] := by
  induction fuel generalizing s with
  | zero => cases h
  | succ fuel ih =>
    rw [copyLoop] at h
    split at h
    · rename_i hchunk
      cases h
      obtain ⟨hmoved, hend⟩ := (copyChunk_eq_error hchunk).2 rfl
      refine ⟨[], hmoved, ?_⟩
      split
      · rfl
      · rename_i hsize
        exact hend.resolve_left hsize
    · rename_i s₁ hchunk
      obtain ⟨chunk, hne, hlen, hmoved⟩ := copyChunk_eq_ok hchunk
      obtain ⟨rest, hrest, hend⟩ := ih h
      have hpos := length_pos_iff.mpr hne
      rw [if_neg (by omega)] at hend
      refine ⟨_, hmoved.trans hrest, ?_⟩
      rwa [if_neg (by omega)]

theorem copyLoop_isSome (overflowChecks : Bool) (cfg : StreamingTransferConfig)
    (h : s.source.bytes.length < fuel) : (copyLoop overflowChecks cfg fuel s).isSome := by
  induction fuel generalizing s with
  | zero => omega
  | succ fuel ih =>
    rw [copyLoop]
    split
    · rfl
    rename_i s₁ hchunk
    obtain ⟨chunk, hne, -, hmoved⟩ := copyChunk_eq_ok hchunk
    have hlen := congrArg length hmoved.source
    have hpos := length_pos_iff.mpr hne
    rw [length_append] at hlen
    exact ih (by omega)

/-! ## The whole transfer -/

variable {sha256 : List UInt8 → List UInt8} {source : Source} {target : Target} {checkpoint : TransferCheckpoint}
  {callbacks : Option (List (Option IoError))} {r : TransferResult}

theorem streamTransfer_isSome :
    (streamTransfer overflowChecks cfg sha256 source target checkpoint callbacks).isSome := by
  unfold streamTransfer
  have hlt : source.bytes.length < source.bytes.length + 1 := Nat.lt_succ_self _
  have hskips : ∃ a, skipLoop overflowChecks cfg (source.bytes.length + 1)
      ⟨source, target, [], checkpoint, callbacks, 0⟩ checkpoint.offset = some a :=
    isSome_iff_exists.mp (skipLoop_isSome overflowChecks cfg hlt)
  obtain ⟨⟨stop, s⟩, hskip⟩ := hskips
  simp only [hskip, bind_eq_bind, bind_some]
  split
  · rename_i hstop
    obtain ⟨chunk, hskipped, -⟩ := (skipLoop_eq_some hskip).2 hstop
    have hbytes : source.bytes = chunk ++ s.source.bytes := hskipped.source
    have hlen : s.source.bytes.length < source.bytes.length + 1 := by
      rw [hbytes, length_append]
      omega
    obtain ⟨⟨stop', s'⟩, hcopy⟩ := isSome_iff_exists.mp (copyLoop_isSome overflowChecks cfg hlen)
    simp only [hcopy, bind_some]
    split <;> rfl
  · rfl

theorem finishTransfer_eq_ok {initial} (h : finishTransfer overflowChecks cfg sha256 initial s = .ok r) :
    r.computedDigest = digestOf sha256 s.hashed := by
  revert h
  fun_cases finishTransfer overflowChecks cfg sha256 initial s <;> rintro ⟨⟩
  rfl

theorem streamTransfer_eq_ok
    (h : streamTransfer overflowChecks cfg sha256 source target checkpoint callbacks = some (.ok r, s)) :
    ∃ skipped moved, source.bytes = skipped ++ (moved ++ s.source.bytes) ∧
      skipped.length = checkpoint.offset.toNat ∧ s.target.written = target.written ++ moved ∧
      s.checkpoint.offset = checkpoint.offset + UInt64.ofNat moved.length ∧
      s.checkpoint.totalSize = checkpoint.totalSize ∧ r.computedDigest = digestOf sha256 (skipped ++ moved) ∧
      if cfg.chunkSize = 0 then skipped ++ moved = [] else s.source.bytes = [] := by
  simp only [streamTransfer, bind_eq_bind, bind_eq_some_iff, Prod.exists] at h
  obtain ⟨stop, s₁, hskip, h⟩ := h
  split at h
  · rename_i hstop
    obtain ⟨skipped, hskipped, hlen, hzero⟩ := (skipLoop_eq_some hskip).2 hstop
    simp only [bind_eq_some_iff, Prod.exists] at h
    obtain ⟨stop', s₂, hcopy, h⟩ := h
    split at h
    · rename_i hstop'
      simp only [Option.pure_def, Option.some.injEq, Prod.mk.injEq] at h
      obtain ⟨hfinish, rfl⟩ := h
      subst hstop'
      obtain ⟨moved, hmoved, hend⟩ := copyLoop_eq_some hcopy
      refine ⟨skipped, moved, ?_, hlen, ?_, ?_, ?_, ?_, ?_⟩
      · rw [← hmoved.source]
        exact hskipped.source
      · rw [hmoved.written, hskipped.target]
      · rw [hmoved.offset, hskipped.checkpoint]
      · rw [hmoved.totalSize, hskipped.checkpoint]
      · rw [finishTransfer_eq_ok hfinish, hmoved.hashed, hskipped.hashed, nil_append]
      · split at hend
        · rename_i hsize
          rw [if_pos hsize, hzero hsize, hend, nil_append]
        · rename_i hsize
          rwa [if_neg hsize]
    · cases h
  · cases h

/-- The target got the source's bytes from the checkpoint's offset on, the checkpoint is at its total size, and the
digest is the whole source's. -/
structure TransferComplete (sha256 : List UInt8 → List UInt8) (source : Source) (target : Target)
    (checkpoint : TransferCheckpoint) (r : TransferResult) (s : Session) : Prop where
  written : s.target.written = target.written ++ source.bytes.drop checkpoint.offset.toNat
  offset : s.checkpoint.offset = checkpoint.totalSize
  isComplete : s.checkpoint.isComplete = true
  nothingBeyond : checkpoint.offset.toNat + s.target.written.length ≤
    checkpoint.totalSize.toNat + target.written.length
  digest : r.computedDigest = digestOf sha256 source.bytes

/-- A transfer that returns `Ok` is complete exactly when the source is as long as the total size, and the chunk
size is not zero or there was nothing to transfer. -/
theorem transferComplete_iff
    (h : streamTransfer overflowChecks cfg sha256 source target checkpoint callbacks = some (.ok r, s)) :
    TransferComplete sha256 source target checkpoint r s ↔
      source.bytes.length = checkpoint.totalSize.toNat ∧ (0 < cfg.chunkSize ∨ source.bytes = []) := by
  obtain ⟨skipped, moved, hbytes, hlen, hwritten, hoffset, htotal, hdigest, hend⟩ := streamTransfer_eq_ok h
  have hdrop : source.bytes.drop checkpoint.offset.toNat = moved ++ s.source.bytes := by
    rw [hbytes, ← hlen, drop_left]
  have htoNat : s.checkpoint.offset.toNat = (checkpoint.offset.toNat + moved.length) % 2 ^ 64 := by
    rw [hoffset, UInt64.toNat_add, UInt64.toNat_ofNat']
    omega
  have hlt := checkpoint.totalSize.toNat_lt
  have hsum := congrArg length hbytes
  simp only [length_append] at hsum
  constructor
  · intro hc
    -- everything that was left was moved, so the source is at its end
    have hrest : s.source.bytes = [] := by
      have hw := hc.written
      rwa [hwritten, hdrop, append_cancel_left_eq, self_eq_append_right] at hw
    have hbeyond := hc.nothingBeyond
    rw [hwritten, length_append] at hbeyond
    have heq := congrArg toNat hc.offset
    rw [htoNat, Nat.mod_eq_of_lt (by omega)] at heq
    rw [hrest, length_nil] at hsum
    refine ⟨by omega, ?_⟩
    split at hend
    · rename_i hsize
      refine .inr ?_
      rw [hbytes, hrest, append_nil, hend]
    · exact .inl (by omega)
  · rintro ⟨hsize, hchunk⟩
    have hrest : s.source.bytes = [] := by
      split at hend
      · rename_i hzero
        have hnil := hchunk.resolve_left (by omega)
        rw [hbytes] at hnil
        simp only [append_eq_nil_iff] at hnil
        exact hnil.2.2
      · exact hend
    rw [hrest, append_nil] at hbytes hdrop
    rw [hrest, length_nil] at hsum
    have heq : s.checkpoint.offset = checkpoint.totalSize := by
      apply UInt64.toNat_inj.mp
      rw [htoNat, Nat.mod_eq_of_lt (by omega)]
      omega
    refine ⟨by rw [hwritten, hdrop], heq, ?_, ?_, by rw [hdigest, hbytes]⟩
    · simp [TransferCheckpoint.isComplete, htotal, heq]
    · rw [hwritten, length_append]
      omega

/-! A source of three bytes against a checkpoint of ten. The digest is not
asked for. -/

def sha256Of123 (l : List UInt8) : List UInt8 :=
  if l = [1, 2, 3] then
    [3, 144, 88, 198, 242, 192, 203, 73, 44, 83, 59, 10, 77, 20, 239, 119, 204, 15, 120, 171, 204, 206, 213, 40, 125,
     132, 161, 162, 1, 28, 251, 129]
  else []

/-- The source ends early, and the transfer returns `Ok`. -/
theorem shortSource_returns_ok :
    ((streamTransfer true (.custom 2 1) sha256Of123 ⟨[1, 2, 3], []⟩ ⟨[], [], none⟩ (.new "s" "" 10) none).any
      fun (result, s) => result.isOk && !s.checkpoint.isComplete && s.checkpoint.offset = 3) = true := by
  decide +kernel

def checkpointOf123 : TransferCheckpoint :=
  .new "s" "sha256:039058c6f2c0cb492c533b0a4d14ef77cc0f78abccced5287d84a1a2011cfb81" 3

theorem wholeSource_complete : ∃ r s,
    streamTransfer true (.custom 2 1) sha256Of123 ⟨[1, 2, 3], []⟩ ⟨[], [], none⟩ checkpointOf123 none =
      some (.ok r, s) ∧ TransferComplete sha256Of123 ⟨[1, 2, 3], []⟩ ⟨[], [], none⟩ checkpointOf123 r s := by
  have hok : ((streamTransfer true (.custom 2 1) sha256Of123 ⟨[1, 2, 3], []⟩ ⟨[], [], none⟩ checkpointOf123
      none).any fun (result, _) => result.isOk) = true := by decide +kernel
  obtain ⟨⟨result, s⟩, hrun, hresult⟩ := (any_eq_true _ _).mp hok
  cases result with
  | error e => cases hresult
  | ok r => exact ⟨r, s, hrun, (transferComplete_iff hrun).mpr ⟨by decide, .inl (by decide)⟩⟩

/-! ## Resuming

A process may crash after any turn, and what its target has made durable by
then is some beginning of what it took: nothing is flushed before the loop
has ended. -/

section Resuming

variable (overflowChecks : Bool) (cfg : StreamingTransferConfig)

def handed (s : Session) : Option TransferCheckpoint :=
  match copyChunk overflowChecks cfg { s with callbacks := none } with
  | .error _ => none
  | .ok s' =>
    if s.callbacks.isSome ∧ isMultipleOf s'.checkpoint.chunksCompleted cfg.checkpointInterval then some s'.checkpoint
    else none

def copyTurns : Nat → Session → List TransferCheckpoint × Session
  | 0, s => ([], s)
  | n + 1, s =>
    match copyChunk overflowChecks cfg s with
    | .error (_, s') => ((handed overflowChecks cfg s).toList, s')
    | .ok s' =>
      let r := copyTurns n s'
      ((handed overflowChecks cfg s).toList ++ r.1, r.2)

def crashedTransfer (n : Nat) (source : Source) (target : Target) (checkpoint : TransferCheckpoint)
    (callbacks : Option (List (Option IoError))) : Option (List TransferCheckpoint × Session) :=
  match skipLoop overflowChecks cfg (source.bytes.length + 1) ⟨source, target, [], checkpoint, callbacks, 0⟩
    checkpoint.offset with
  | some (.finished, s) => some (copyTurns overflowChecks cfg n s)
  | _ => none

end Resuming

theorem source_of_handed {c} (h : handed overflowChecks cfg s = some c) : s.source.bytes ≠ [] := by
  unfold handed at h
  split at h
  · cases h
  rename_i hchunk
  obtain ⟨chunk, hne, -, hmoved⟩ := copyChunk_eq_ok hchunk
  intro hnil
  have hsource : s.source.bytes = _ := hmoved.source
  rw [hnil] at hsource
  exact hne (append_eq_nil_iff.mp hsource.symm).1

theorem copyTurns_spec (n : Nat) (s : Session) :
    (copyTurns overflowChecks cfg n s).2.target.written <+: s.target.written ++ s.source.bytes ∧
      ((copyTurns overflowChecks cfg n s).1 ≠ [] → s.source.bytes ≠ []) := by
  induction n generalizing s with
  | zero => exact ⟨prefix_append _ _, fun h => absurd rfl h⟩
  | succ n ih =>
    rw [copyTurns]
    split
    · rename_i hchunk
      refine ⟨(copyChunk_eq_error hchunk).1, fun h => ?_⟩
      cases hhanded : handed overflowChecks cfg s with
      | none => simp [hhanded] at h
      | some c => exact source_of_handed hhanded
    · rename_i s' hchunk
      obtain ⟨chunk, hne, -, hmoved⟩ := copyChunk_eq_ok hchunk
      obtain ⟨hwritten, -⟩ := ih s'
      refine ⟨?_, fun _ hnil => ?_⟩
      · rwa [hmoved.written, append_assoc, ← hmoved.source] at hwritten
      · rw [hmoved.source] at hnil
        exact hne (append_eq_nil_iff.mp hnil).1

/-- A transfer crashed having handed over the checkpoint `c`; one resumed from `c`, with what had been flushed cut
off there, returns `Ok`. It leaves the source's bytes just when what had been flushed reached to `c` and its chunk
size is not zero. -/
theorem resumed_exact_iff {n : Nat} {passed : List TransferCheckpoint} {cfg' : StreamingTransferConfig}
    {bytes flushed : List UInt8} {reads reads' : List ReadTurn} {target' : Target}
    {callbacks' : Option (List (Option IoError))} {c : TransferCheckpoint}
    (hcrash : crashedTransfer overflowChecks cfg n ⟨bytes, reads⟩ target checkpoint callbacks = some (passed, s))
    (hbefore : target.written = bytes.take checkpoint.offset.toNat) (hpassed : c ∈ passed)
    (hflushed : flushed <+: s.target.written) (hcut : target'.written = flushed.take c.offset.toNat)
    (hresume : streamTransfer overflowChecks cfg' sha256 ⟨bytes, reads'⟩ target' c callbacks' = some (.ok r, s')) :
    s'.target.written = bytes ↔ c.offset.toNat ≤ flushed.length ∧ 0 < cfg'.chunkSize := by
  have hcrashed : flushed <+: bytes ∧ bytes ≠ [] := by
    unfold crashedTransfer at hcrash
    split at hcrash
    · rename_i s₀ hskip
      obtain ⟨skipped, hskipped, hlen, -⟩ := (skipLoop_eq_some hskip).2 rfl
      have hspec := @copyTurns_spec overflowChecks cfg n s₀
      rw [some.inj hcrash] at hspec
      obtain ⟨hwritten, hsource⟩ := hspec
      have hbytes : bytes = skipped ++ s₀.source.bytes := hskipped.source
      have htake : bytes.take checkpoint.offset.toNat = skipped := by rw [hbytes, ← hlen, take_left]
      rw [hskipped.target, hbefore, htake, ← hbytes] at hwritten
      refine ⟨hflushed.trans hwritten, fun hnil => ?_⟩
      rw [hbytes] at hnil
      exact hsource (ne_nil_of_mem hpassed) (append_eq_nil_iff.mp hnil).2
    · cases hcrash
  obtain ⟨hbegins, hne⟩ := hcrashed
  obtain ⟨skipped, moved, hbytes, hlen, hwritten, -, -, -, hend⟩ := streamTransfer_eq_ok hresume
  rw [hcut] at hwritten
  dsimp only at hbytes
  by_cases hsize : cfg'.chunkSize = 0
  · rw [if_pos hsize, append_eq_nil_iff] at hend
    rw [hend.1, length_nil] at hlen
    simp [hwritten, hend.2, ← hlen, hsize, Ne.symm hne]
  · rw [if_neg hsize] at hend
    rw [hend, append_nil] at hbytes
    rw [hwritten, and_iff_left (by omega)]
    constructor
    · intro heq
      have hlength := congrArg length (heq.trans hbytes)
      simp only [length_append, length_take] at hlength
      omega
    · intro hle
      have htake : flushed.take c.offset.toNat = skipped := by
        rw [prefix_iff_eq_take.mp hbegins, take_take, Nat.min_eq_left hle, hbytes, ← hlen, take_left]
      rw [htake, hbytes]

def checkpointAt2 : TransferCheckpoint := { TransferCheckpoint.new "s" "" 4 with offset := 2, chunksCompleted := 1 }

/-- After two of four bytes, which are flushed. -/
theorem flushed_bytes_kept : ∃ s r s',
    crashedTransfer true (.custom 2 1) 1 ⟨[1, 2, 3, 4], []⟩ ⟨[], [], none⟩ (.new "s" "" 4) (some []) =
      some ([checkpointAt2], s) ∧ [1, 2] <+: s.target.written ∧
    streamTransfer true (.custom 2 1) (fun _ => []) ⟨[1, 2, 3, 4], []⟩ ⟨[1, 2], [], none⟩ checkpointAt2 none =
      some (.ok r, s') ∧ s'.target.written = [1, 2, 3, 4] := by
  obtain ⟨s, hcrash, hflushed⟩ : ∃ s, crashedTransfer true (.custom 2 1) 1 ⟨[1, 2, 3, 4], []⟩ ⟨[], [], none⟩
      (.new "s" "" 4) (some []) = some ([checkpointAt2], s) ∧ [1, 2] <+: s.target.written := ⟨_, rfl, [], rfl⟩
  obtain ⟨r, s', hresume⟩ : ∃ r s', streamTransfer true (.custom 2 1) (fun _ => []) ⟨[1, 2, 3, 4], []⟩
      ⟨[1, 2], [], none⟩ checkpointAt2 none = some (.ok r, s') := ⟨_, _, rfl⟩
  exact ⟨s, r, s', hcrash, hflushed, hresume,
    (resumed_exact_iff hcrash rfl mem_cons_self hflushed rfl hresume).mpr ⟨by decide, by decide⟩⟩

/-- A target that keeps two bytes to itself. The checkpoint after them is handed
over, and the transfer resumed there returns `Ok` without them. -/
theorem unflushed_bytes_lost :
    (crashedTransfer true (.custom 2 1) 1 ⟨[1, 2, 3, 4], []⟩ ⟨[], [], none⟩ (.new "s" "" 4) (some [])).map (·.1) =
      some [checkpointAt2] ∧
    (streamTransfer true (.custom 2 1) (fun _ => []) ⟨[1, 2, 3, 4], []⟩ ⟨[], [], none⟩ checkpointAt2 none).any
      (fun r => r.1.isOk && r.2.target.written = [3, 4]) = true := by
  decide +kernel

end PeatMesh
