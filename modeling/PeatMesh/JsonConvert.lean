/-
How a collection's documents are stored: `json_to_automerge` writes a JSON
object into an automerge document, `automerge_to_json` reads it back. A scalar
is put under its key unless it is there already; an array or an object is
written whole, into a new object.
-/
import PeatMesh.Json
import PeatMesh.OpSet

namespace PeatMesh

open OpSet Entries List Option

/-- automerge's `ScalarValue`. `F` are doubles, equal ones taken as one; a
double that is not among them is `none`. For JSON they are the finite ones. -/
inductive ScalarValue (F : Type)
  | bytes (b : List UInt8)
  | str (s : String)
  | int (i : Int64)
  | uint (u : UInt64)
  | f64 (f : Option F)
  | counter (c : Int64)
  | timestamp (t : Int64)
  | boolean (b : Bool)
  | unknown (typeCode : UInt8) (bytes : List UInt8)
  | null
  deriving DecidableEq, Repr

abbrev Automerge (F α : Type) [Ord α] := Doc String (ScalarValue F) α

/-! ## Numbers and scalars -/

section Numbers

variable {F : Type}

def Number.ofI64 (i : Int64) : Number F := if i < 0 then .negInt i else .posInt i.toUInt64

def Number.asI64 : Number F → Option Int64
  | .posInt n => if n ≤ 9223372036854775807 then some n.toInt64 else none
  | .negInt n => some n
  | .float _ => none

variable [Doubles F]

def Number.toScalar (n : Number F) : ScalarValue F :=
  match n.asI64 with
  | some i => .int i
  | none => .f64 (some n.asF64)

def scalarToJson : ScalarValue F → Json F
  | .null => .null
  | .boolean b => .bool b
  | .int i => .number (.ofI64 i)
  | .uint u => .number (.posInt u)
  | .f64 (some f) => .number (.float f)
  | .f64 none => .null
  | .str s => .string s
  | .timestamp t => .number (.ofI64 t)
  | .bytes _ | .counter _ | .unknown .. => .null

end Numbers

/-! ## Writing -/

section Writing

variable {F α : Type} [DecidableEq F] [Doubles F] [Ord α] [DecidableEq α]

mutual

def writeJsonValue (w : Winner String (ScalarValue F) α) (x : α) :
    Json F → ObjId α → String → Automerge F α → Except Error (Automerge F α)
  | .null, obj, key, d => d.put w x obj key .null
  | .bool b, obj, key, d => d.put w x obj key (.boolean b)
  | .number n, obj, key, d => d.put w x obj key n.toScalar
  | .string s, obj, key, d => d.put w x obj key (.str s)
  | .array items, obj, key, d => do
    let r ← d.putObject x obj key .list
    writeItems w x items r.2 0 r.1
  | .object entries, obj, key, d => do
    let r ← d.putObject x obj key .map
    writeEntries w x entries r.2 r.1

def writeJsonListItem (w : Winner String (ScalarValue F) α) (x : α) :
    Json F → ObjId α → Nat → Automerge F α → Except Error (Automerge F α)
  | .null, list, index, d => d.insert x list index .null
  | .bool b, list, index, d => d.insert x list index (.boolean b)
  | .number n, list, index, d => d.insert x list index n.toScalar
  | .string s, list, index, d => d.insert x list index (.str s)
  | .array items, list, index, d => do
    let r ← d.insertObject x list index .list
    writeItems w x items r.2 0 r.1
  | .object entries, list, index, d => do
    let r ← d.insertObject x list index .map
    writeEntries w x entries r.2 r.1

def writeItems (w : Winner String (ScalarValue F) α) (x : α) :
    List (Json F) → ObjId α → Nat → Automerge F α → Except Error (Automerge F α)
  | [], _, _, d => .ok d
  | item :: items, list, index, d => do
    let d ← writeJsonListItem w x item list index d
    writeItems w x items list (index + 1) d

def writeEntries (w : Winner String (ScalarValue F) α) (x : α) :
    List (String × Json F) → ObjId α → Automerge F α → Except Error (Automerge F α)
  | [], _, d => .ok d
  | (k, v) :: entries, obj, d => do
    let d ← writeJsonValue w x v obj k d
    writeEntries w x entries obj d

end

def deleteKeys (x : α) : List String → Automerge F α → Except Error (Automerge F α)
  | [], d => .ok d
  | k :: ks, d => do
    let d ← d.delete x .root k
    deleteKeys x ks d

inductive ConvertError
  /-- "Root value must be a JSON object" -/
  | notObject
  /-- "Automerge transaction failed: .." -/
  | transaction (e : Error)
  deriving DecidableEq, Repr

def jsonToAutomerge (w : Winner String (ScalarValue F) α) (x : α) (value : Json F)
    (existing : Option (Automerge F α)) : Except ConvertError (Automerge F α) :=
  match value with
  | .object map =>
    let doc := existing.getD .empty
    let stale := (keys doc.ops .root).filter fun k => (map.lookup k).isNone
    (writeEntries w x map .root doc >>= deleteKeys x stale).mapError .transaction
  | _ => .error .notObject

end Writing

/-! ## Reading -/

section Reading

variable {F α : Type} [DecidableEq α]

def readKeys {β : Type} (read : β → Option (Json F)) (get : String → Option β) :
    List String → List (String × Json F) → Option (List (String × Json F))
  | [], map => some map
  | k :: ks, map =>
    match get k with
    | none => readKeys read get ks map
    | some e =>
      match read e with
      | none => none
      | some j => readKeys read get ks (Entries.insert k j map)

mutual

def mapToJson (w : Winner String (ScalarValue F) α) (ops : List (Entry String (ScalarValue F) α)) :
    Nat → ObjId α → Option (Json F)
  | 0, _ => none
  | n + 1, obj => (readKeys (amValueToJson w ops n) (get w ops obj) (keys ops obj) []).map .object

def listToJson (w : Winner String (ScalarValue F) α) (ops : List (Entry String (ScalarValue F) α)) :
    Nat → ObjId α → Option (Json F)
  | 0, _ => none
  | n + 1, obj => ((elements ops obj).mapM (amValueToJson w ops n)).map .array

def amValueToJson (w : Winner String (ScalarValue F) α) (ops : List (Entry String (ScalarValue F) α)) :
    Nat → Entry String (ScalarValue F) α → Option (Json F)
  | 0, _ => none
  | n + 1, e =>
    match e.2.action with
    | .put s => some (scalarToJson s)
    | .make .map => mapToJson w ops n (.made e.1)
    | .make .list => listToJson w ops n (.made e.1)
    | .make _ => some .null
    | .delete => none

end

def automergeToJson [Ord α] (w : Winner String (ScalarValue F) α) (n : Nat) (d : Automerge F α) :
    Option (Json F) := mapToJson w d.ops n .root

/-- `automerge_to_json` reads `j`, given enough depth. -/
def Reads [Ord α] (w : Winner String (ScalarValue F) α) (d : Automerge F α) (j : Json F) : Prop :=
  ∃ n, ∀ m, n ≤ m → automergeToJson w m d = some j

end Reading

/-! ## What is read -/

section ReadFacts

variable {F α : Type} [DecidableEq α] {w : Winner String (ScalarValue F) α}
  {ops : List (Entry String (ScalarValue F) α)} {obj : ObjId α}

variable {β : Type} {ks : List String} {map found : List (String × Json F)}

theorem readKeys_eq_some {read} {get : String → Option β} (hm : Sorted map)
    (h : readKeys read get ks map = some found) :
    Sorted found ∧ ∀ k, found.lookup k =
      if k ∈ ks then ((get k).bind read).or (map.lookup k) else map.lookup k := by
  induction ks generalizing map with
  | nil =>
    obtain rfl := some.inj h
    exact ⟨hm, fun k => rfl⟩
  | cons q ks ih =>
    simp only [readKeys] at h
    split at h
    case h_1 hq =>
      obtain ⟨hs, hl⟩ := ih hm h
      refine ⟨hs, fun k => ?_⟩
      rw [hl]
      by_cases hk : k = q
      · subst hk
        simp [hq]
      · simp [hk]
    case h_2 e hq =>
      split at h
      case h_1 => cases h
      case h_2 j hj =>
        obtain ⟨hs, hl⟩ := ih (sorted_insert hm) h
        refine ⟨hs, fun k => ?_⟩
        rw [hl, lookup_insert hm]
        by_cases hk : k = q
        · subst hk
          simp [hq, hj]
        · simp [hk]

theorem readKeys_isSome {read} {get : String → Option β}
    (h : ∀ k ∈ ks, ∀ e, get k = some e → (read e).isSome) (map : List (String × Json F)) :
    (readKeys read get ks map).isSome := by
  induction ks generalizing map with
  | nil => rfl
  | cons q ks ih =>
    have rest := ih fun k hk => h k (mem_cons_of_mem _ hk)
    simp only [readKeys]
    split
    case h_1 => exact rest map
    case h_2 e hq =>
      obtain ⟨j, hj⟩ := isSome_iff_exists.1 (h q mem_cons_self e hq)
      rw [hj]
      exact rest _

theorem isSome_of_readKeys {read} {get : String → Option β}
    (h : readKeys read get ks map = some found) :
    ∀ k ∈ ks, ∀ e, get k = some e → (read e).isSome := by
  induction ks generalizing map with
  | nil => exact nofun
  | cons q ks ih =>
    intro k hk e he
    simp only [readKeys] at h
    rcases mem_cons.1 hk with rfl | hk
    · rw [he] at h
      cases hr : read e with
      | none => simp [hr] at h
      | some j => rfl
    · split at h
      · exact ih h k hk e he
      · split at h
        · cases h
        · exact ih h k hk e he

def ReadsAt (w : Winner String (ScalarValue F) α) (ops : List (Entry String (ScalarValue F) α)) (obj : ObjId α)
    (k : String) (n : Nat) (value : Option (Json F)) : Prop :=
  match get w ops obj k with
  | none => value = none
  | some e => ∃ j, amValueToJson w ops n e = some j ∧ value = some j

variable {k : String} {n : Nat} {v v' : Option (Json F)}

theorem ReadsAt.unique (h : ReadsAt w ops obj k n v) (h' : ReadsAt w ops obj k n v') : v = v' := by
  cases hg : get w ops obj k with
  | none =>
    rw [ReadsAt, hg] at h h'
    rw [h, h']
  | some e =>
    rw [ReadsAt, hg] at h h'
    obtain ⟨j, hj, hv⟩ := h
    obtain ⟨j', hj', hv'⟩ := h'
    rw [hv, hv', ← hj, ← hj']

theorem ReadsAt.succ {v} (h : ReadsAt w ops obj k n v)
    (hn : ∀ e j, amValueToJson w ops n e = some j → amValueToJson w ops (n + 1) e = some j) :
    ReadsAt w ops obj k (n + 1) v := by
  cases hg : OpSet.get w ops obj k with
  | none =>
    rw [ReadsAt, hg] at h ⊢
    exact h
  | some e =>
    rw [ReadsAt, hg] at h ⊢
    obtain ⟨j, hj, hv⟩ := h
    exact ⟨j, hn e j hj, hv⟩

variable {found : List (String × Json F)}

theorem mapToJson_eq_some :
    mapToJson w ops (n + 1) obj = some (.object found) ↔
      Sorted found ∧ ∀ k, ReadsAt w ops obj k n (found.lookup k) := by
  have absent : ∀ k, k ∉ keys ops obj → get w ops obj k = none := fun k hk =>
    get_eq_none.2 (by simpa [OpSet.mem_keys] using hk)
  have value : ∀ (found : List (String × Json F)),
      readKeys (amValueToJson w ops n) (get w ops obj) (keys ops obj) [] = some found →
      Sorted found ∧ ∀ k, ReadsAt w ops obj k n (found.lookup k) := by
    intro found h
    obtain ⟨hs, hl⟩ := readKeys_eq_some sorted_nil h
    refine ⟨hs, fun k => ?_⟩
    rw [hl]
    by_cases hk : k ∈ keys ops obj
    · rw [if_pos hk]
      simp only [ReadsAt]
      split
      case h_1 hg => simp [hg]
      case h_2 e hg =>
        obtain ⟨j, hj⟩ := isSome_iff_exists.1 (isSome_of_readKeys h k hk e hg)
        exact ⟨j, hj, by simp [hg, hj]⟩
    · rw [if_neg hk, ReadsAt, absent k hk]
      rfl
  rw [mapToJson]
  constructor
  · intro h
    obtain ⟨found', h', heq⟩ := map_eq_some_iff.1 h
    obtain rfl := Json.object.inj heq
    exact value _ h'
  · rintro ⟨hs, hr⟩
    have some_read : ∀ k ∈ keys ops obj, ∀ e, get w ops obj k = some e → (amValueToJson w ops n e).isSome := by
      intro k _ e he
      have hk := hr k
      rw [ReadsAt, he] at hk
      obtain ⟨j, hj, -⟩ := hk
      rw [hj]
      rfl
    obtain ⟨found', h'⟩ := isSome_iff_exists.1 (readKeys_isSome some_read [])
    obtain ⟨hs', hr'⟩ := value found' h'
    have same : found' = found := ext hs' hs fun k => (hr' k).unique (hr k)
    rw [h', same]
    rfl

theorem mapM_mono {read read'}
    (h : ∀ e j, read e = some j → read' e = some j) (l : List β) (js : List (Json F))
    (hl : l.mapM read = some js) : l.mapM read' = some js := by
  induction l generalizing js with
  | nil => exact hl
  | cons e l ih =>
    rw [mapM_cons] at hl ⊢
    obtain ⟨j, hj, hl⟩ := bind_eq_some_iff.1 hl
    obtain ⟨js', hjs, hl⟩ := bind_eq_some_iff.1 hl
    rw [h e j hj, ih js' hjs]
    exact hl

theorem amValueToJson_succ (n : Nat) : ∀ e j, amValueToJson w ops n e = some j →
    amValueToJson w ops (n + 1) e = some j := by
  induction n using Nat.strongRecOn with
  | ind n ih =>
    intro e j h
    match n, ih, h with
    | 0, _, h => cases h
    | 1, _, h =>
      rw [amValueToJson] at h ⊢
      cases ha : e.2.action with
      | put s => rwa [ha] at h
      | delete => rwa [ha] at h
      | make t =>
        rw [ha] at h
        cases t <;> first | exact h | cases h
    | n + 2, ih, h =>
      have step := ih n (by omega)
      rw [amValueToJson] at h ⊢
      cases ha : e.2.action with
      | put s => rwa [ha] at h
      | delete => rwa [ha] at h
      | make t =>
        rw [ha] at h
        cases t with
        | map =>
          obtain ⟨found, -, rfl⟩ := map_eq_some_iff.1 h
          obtain ⟨hs, hr⟩ := mapToJson_eq_some.1 h
          exact mapToJson_eq_some.2 ⟨hs, fun k => (hr k).succ step⟩
        | list =>
          obtain ⟨js, hjs, rfl⟩ := map_eq_some_iff.1 h
          exact map_eq_some_iff.2 ⟨js, mapM_mono step _ js hjs, rfl⟩
        | table => exact h
        | text => exact h

def KeyReads (w : Winner String (ScalarValue F) α) (ops : List (Entry String (ScalarValue F) α)) (obj : ObjId α)
    (k : String) (value : Option (Json F)) : Prop :=
  ∃ n, ∀ m, n ≤ m → ReadsAt w ops obj k m value

theorem keyReads_none (h : OpSet.get w ops obj k = none) : KeyReads w ops obj k none :=
  ⟨0, fun m _ => by rw [ReadsAt, h]⟩

theorem KeyReads.unique (h : KeyReads w ops obj k v) (h' : KeyReads w ops obj k v') : v = v' := by
  obtain ⟨n, hn⟩ := h
  obtain ⟨n', hn'⟩ := h'
  exact (hn (n + n') (Nat.le_add_right ..)).unique (hn' (n + n') (Nat.le_add_left ..))

theorem depth_succ {p q : Nat → Prop} (h : ∀ m, p m → q (m + 1)) (hp : ∃ n, ∀ m, n ≤ m → p m) :
    ∃ n, ∀ m, n ≤ m → q m := by
  obtain ⟨n, hn⟩ := hp
  refine ⟨n + 1, fun m hm => ?_⟩
  obtain ⟨m, rfl⟩ : ∃ m', m = m' + 1 := ⟨m - 1, by omega⟩
  exact h m (hn m (by omega))

theorem exists_depth {p : β → Nat → Prop} (l : List β)
    (h : ∀ b ∈ l, ∃ n, ∀ m, n ≤ m → p b m) : ∃ n, ∀ b ∈ l, ∀ m, n ≤ m → p b m := by
  induction l with
  | nil => exact ⟨0, nofun⟩
  | cons b l ih =>
    obtain ⟨n, hn⟩ := h b mem_cons_self
    obtain ⟨n', hn'⟩ := ih fun b hb => h b (mem_cons_of_mem _ hb)
    refine ⟨max n n', fun c hc m hm => ?_⟩
    rcases mem_cons.1 hc with rfl | hc
    · exact hn m (Nat.le_trans (Nat.le_max_left ..) hm)
    · exact hn' c hc m (Nat.le_trans (Nat.le_max_right ..) hm)

theorem mapReads_iff :
    (∃ n, ∀ m, n ≤ m → mapToJson w ops m obj = some (.object found)) ↔
      Sorted found ∧ ∀ k, KeyReads w ops obj k (found.lookup k) := by
  constructor
  · rintro ⟨n, hn⟩
    have step := fun m (hm : n ≤ m) => mapToJson_eq_some.1 (hn (m + 1) (Nat.le_succ_of_le hm))
    exact ⟨(step n (Nat.le_refl _)).1, fun k => ⟨n, fun m hm => (step m hm).2 k⟩⟩
  · rintro ⟨hs, hk⟩
    obtain ⟨n, hn⟩ := exists_depth (keys ops obj) fun k _ => hk k
    refine depth_succ (p := fun m => ∀ k ∈ keys ops obj, ReadsAt w ops obj k m (found.lookup k))
      (fun m hm => mapToJson_eq_some.2 ⟨hs, fun k => ?_⟩) ⟨n, fun m hm k hmem => hn k hmem m hm⟩
    by_cases hmem : k ∈ keys ops obj
    · exact hm k hmem
    -- A key without a value reads as nothing to any depth.
    have hg : get w ops obj k = none := get_eq_none.2 (by simpa [OpSet.mem_keys] using hmem)
    obtain ⟨n', hn'⟩ := hk k
    have h := hn' n' (Nat.le_refl _)
    rw [ReadsAt, hg] at h ⊢
    exact h

theorem reads_of_eq [Ord α] {d j} (h : automergeToJson w n d = some j) : Reads w d j := by
  refine ⟨n, fun m hm => ?_⟩
  induction hm with
  | refl => exact h
  | @step m _ ih =>
    cases m with
    | zero => cases ih
    | succ m =>
      obtain ⟨found, -, rfl⟩ := map_eq_some_iff.1 ih
      obtain ⟨hs, hr⟩ := mapToJson_eq_some.1 ih
      exact mapToJson_eq_some.2 ⟨hs, fun k => (hr k).succ (amValueToJson_succ m)⟩

end ReadFacts

end PeatMesh
