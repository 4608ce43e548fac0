/-
The query engine (`storage/query.rs`). Values of one kind are compared as
they are, a signed with an unsigned integer and either with a double through
doubles, and others not at all; equality is that of the values as they are
tagged. A double is a number here.
-/
import PeatMesh.Binary64
import PeatMesh.GarbageCollection
import PeatMesh.JsonConvert

namespace PeatMesh.QueryEngine

open OpSet Binary64 Option

instance : Doubles Double where
  ofU64 u := ofInt u.toNat (by simpa using Nat.le_of_lt u.toNat_lt)
  ofI64 i := ofInt i.toInt (by have := i.toInt_lt; have := i.le_toInt; omega)

/-! ## Values -/

/-- `Value`. A double that is not a number is `none`. -/
inductive Value
  | null
  | bool (b : Bool)
  | int (i : Int64)
  | uint (u : UInt64)
  | float (f : Option Double)
  | string (s : String)
  | timestamp (t : Int64)
  deriving DecidableEq

inductive Variant
  | null
  | bool
  | int
  | uint
  | float
  | string
  | timestamp
  deriving DecidableEq, Repr

namespace Value

def variant : Value → Variant
  | .null => .null
  | .bool _ => .bool
  | .int _ => .int
  | .uint _ => .uint
  | .float _ => .float
  | .string _ => .string
  | .timestamp _ => .timestamp

def toF64 : Value → Option Double
  | .int i => some (Doubles.ofI64 i)
  | .uint u => some (Doubles.ofU64 u)
  | .float f => f
  | _ => none

def cmpF64 (a b : Option Double) : Option Ordering :=
  match a, b with
  | some a, some b => some (compare a b)
  | _, _ => none

def partialCmp : Value → Value → Option Ordering
  | .null, .null => some .eq
  | .bool a, .bool b => some (compare a b)
  | .int a, .int b => some (compare a.toInt b.toInt)
  | .uint a, .uint b => some (compare a.toNat b.toNat)
  | .float a, .float b => cmpF64 a b
  | .string a, .string b => some (compare a b)
  | .timestamp a, .timestamp b => some (compare a.toInt b.toInt)
  | .int a, .uint b => cmpF64 (some (Doubles.ofI64 a)) (some (Doubles.ofU64 b))
  | .uint a, .int b => cmpF64 (some (Doubles.ofU64 a)) (some (Doubles.ofI64 b))
  | .int a, .float b => cmpF64 (some (Doubles.ofI64 a)) b
  | .float a, .int b => cmpF64 a (some (Doubles.ofI64 b))
  | .uint a, .float b => cmpF64 (some (Doubles.ofU64 a)) b
  | .float a, .uint b => cmpF64 a (some (Doubles.ofU64 b))
  | _, _ => none

def eq : Value → Value → Bool
  | .float a, .float b => cmpF64 a b = some .eq
  | a, b => a = b

end Value

/-! ## Fields -/

section Fields

variable {α : Type} [Ord α] [DecidableEq α]

def scalarToQueryValue : ScalarValue Double → Option Value
  | .null => some .null
  | .boolean b => some (.bool b)
  | .int i => some (.int i)
  | .uint u => some (.uint u)
  | .f64 f => some (.float f)
  | .str s => some (.string s)
  | .timestamp t => some (.timestamp t)
  | .bytes _ | .counter _ | .unknown .. => none

def automergeValueToQueryValue : Action (ScalarValue Double) → Option Value
  | .put scalar => scalarToQueryValue scalar
  | _ => none

def fieldParts (field : String) : List String := (field.toList.splitOn '.').map String.ofList

def extractFieldRecursive (w : Winner String (ScalarValue Double) α) (doc : Automerge Double α) :
    ObjId α → List String → Option Value
  | _, [] => none
  | obj, name :: remaining =>
    match OpSet.get w doc.ops obj name with
    | some e =>
      if remaining.isEmpty then automergeValueToQueryValue e.2.action
      else
        match e.2.action with
        | .make .map => extractFieldRecursive w doc (.made e.1) remaining
        | _ => none
    | none => none

def extractField (w : Winner String (ScalarValue Double) α) (doc : Automerge Double α) (field : String) :
    Option Value :=
  extractFieldRecursive w doc .root (fieldParts field)

/-! ## Filters -/

section Filters

variable (w : Winner String (ScalarValue Double) α) (field : String) (value : Value) (doc : Automerge Double α)

def eqFilter : Bool := (extractField w doc field).any (·.eq value)

def cmpFilter (p : Ordering → Bool) : Bool := ((extractField w doc field).bind (·.partialCmp value)).any p

def gtFilter : Bool := cmpFilter w field value doc (· = .gt)

def ltFilter : Bool := cmpFilter w field value doc (· = .lt)

def gteFilter : Bool := cmpFilter w field value doc (· ≠ .lt)

def lteFilter : Bool := cmpFilter w field value doc (· ≠ .gt)

end Filters

end Fields

/-! ## Queries -/

inductive SortOrder
  | asc
  | desc
  deriving DecidableEq, Repr

/-- `Query`, without its store. -/
structure Query (α : Type) [Ord α] where
  collectionName : String
  predicates : List (Automerge Double α → Bool)
  sortField : Option (String × SortOrder)
  limit : Option Nat
  offset : Nat
  docIdFilter : Option (List String)

/-- What `sort_by` requires of its comparison on what it sorts: a total
preorder. -/
structure TotalPreorder {β : Type} (cmp : β → β → Ordering) (l : List β) : Prop where
  refl : ∀ a ∈ l, cmp a a = .eq
  swap : ∀ a ∈ l, ∀ b ∈ l, cmp b a = (cmp a b).swap
  trans : ∀ a ∈ l, ∀ b ∈ l, ∀ c ∈ l, (cmp a b).isLE → (cmp b c).isLE → (cmp a c).isLE

/-- `sort_by`: it sorts by a total preorder; by another comparison it leaves some order or panics (`none`). -/
structure SortBy (β : Type) where
  sort : (β → β → Ordering) → List β → Option (List β)
  perm : ∀ {cmp l l'}, sort cmp l = some l' → l'.Perm l
  sorts : ∀ {cmp l}, TotalPreorder cmp l →
    ∃ l', sort cmp l = some l' ∧ l'.Pairwise fun a b => (cmp a b).isLE

def compareFields (order : SortOrder) (a b : Option Value) : Ordering :=
  let cmp : Ordering :=
    match a, b with
    | some a, some b => (a.partialCmp b).getD .eq
    | some _, none => .lt
    | none, some _ => .gt
    | none, none => .eq
  match order with
  | .asc => cmp
  | .desc => cmp.swap

namespace Query

variable {α : Type} [Ord α] [DecidableEq α] (w : Winner String (ScalarValue Double) α)

def new (collectionName : String) : Query α := ⟨collectionName, [], none, none, 0, none⟩

variable (q : Query α) (field : String) (value : Value)

/-- What each `where_*` does: one more predicate. -/
def filtered (predicate : Automerge Double α → Bool) : Query α := { q with predicates := q.predicates ++ [predicate] }

def whereEq : Query α := q.filtered (eqFilter w field value)

def whereGt : Query α := q.filtered (gtFilter w field value)

def whereLt : Query α := q.filtered (ltFilter w field value)

def whereGte : Query α := q.filtered (gteFilter w field value)

def whereLte : Query α := q.filtered (lteFilter w field value)

def orderBy (order : SortOrder) : Query α := { q with sortField := some (field, order) }

def compareDocs (order : SortOrder) (a b : String × Automerge Double α) : Ordering :=
  compareFields order (extractField w a.2 field) (extractField w b.2 field)

def matching (s : AutomergeStore (Automerge Double α)) : List (String × Automerge Double α) :=
  let start := q.collectionName ++ ":"
  let docId (key : String) : String := String.ofList (key.toList.drop start.length)
  (((s.scanPrefix start).filter fun e => q.docIdFilter.all (·.contains (docId e.1))).filter fun e =>
    q.predicates.all (· e.2)).map fun e => (docId e.1, e.2)

def page {β : Type} (q : Query α) (results : List β) : List β :=
  match q.limit with
  | some n => (results.drop q.offset).take n
  | none => results.drop q.offset

def execute (sorter : SortBy (String × Automerge Double α)) (q : Query α)
    (s : AutomergeStore (Automerge Double α)) : Option (List (String × Automerge Double α)) :=
  match q.sortField with
  | some (field, order) => (sorter.sort (compareDocs w field order) (q.matching s)).map q.page
  | none => some (q.page (q.matching s))

variable {w q field value} {s : AutomergeStore (Automerge Double α)}

omit [DecidableEq α] in
theorem matching_filtered {predicate} :
    (q.filtered predicate).matching s = (q.matching s).filter (predicate ·.2) := by
  simp [matching, filtered, List.filter_map, List.filter_filter, Function.comp_def, Bool.and_left_comm, Bool.and_comm]

/-- What a `where_*` finds is what its filter lets through. -/
theorem matching_where :
    (q.whereEq w field value).matching s = (q.matching s).filter (eqFilter w field value ·.2) ∧
    (q.whereGt w field value).matching s = (q.matching s).filter (gtFilter w field value ·.2) ∧
    (q.whereLt w field value).matching s = (q.matching s).filter (ltFilter w field value ·.2) ∧
    (q.whereGte w field value).matching s = (q.matching s).filter (gteFilter w field value ·.2) ∧
    (q.whereLte w field value).matching s = (q.matching s).filter (lteFilter w field value ·.2) :=
  ⟨matching_filtered, matching_filtered, matching_filtered, matching_filtered, matching_filtered⟩

end Query

/-! ## Equality and order -/

namespace Value

variable {a v : Value}

/-- Tagged differently, with one double. -/
def Confused (a b : Value) : Prop := a.variant ≠ b.variant ∧ ∃ f, a.toF64 = some f ∧ b.toF64 = some f

theorem cmpF64_eq_some_eq {a b} : cmpF64 a b = some .eq ↔ ∃ f, a = some f ∧ b = some f := by
  cases a with
  | none => simp [cmpF64]
  | some a =>
    cases b with
    | none => simp [cmpF64]
    | some b => simp [cmpF64, compare_eq_iff_eq, eq_comm (a := b)]

theorem partialCmp_eq_some_eq (h : v.variant ≠ .float) : a.partialCmp v = some .eq ↔ a = v ∨ a.Confused v := by
  cases v <;> cases a <;>
    simp [partialCmp, Confused, variant, toF64, cmpF64_eq_some_eq, Int64.toInt_inj, UInt64.toNat_inj] at h ⊢

theorem eq_iff (h : v.variant ≠ .float) : a.eq v ↔ a = v := by
  cases v <;> cases a <;> simp [eq, variant] at h ⊢

def isInteger : Value → Bool
  | .int _ | .uint _ => true
  | _ => false

theorem partialCmp_isSome_of_isInteger (ha : a.isInteger) (hv : v.isInteger) : (a.partialCmp v).isSome := by
  cases a <;> cases v <;> simp [isInteger] at ha hv <;> rfl

theorem any_bounds_iff {o : Option Ordering} : o.any (· ≠ .lt) ∧ o.any (· ≠ .gt) ↔ o = some .eq := by
  cases o with
  | none => simp
  | some o => cases o <;> simp

theorem not_confused_self : ¬ a.Confused a := fun h => h.1 rfl

end Value

section Agreement

variable {α : Type} [Ord α] [DecidableEq α]

section Facts

variable {w : Winner String (ScalarValue Double) α} {doc : Automerge Double α} {field : String} {v stored : Value}

theorem cmpFilter_of_stored (h : extractField w doc field = some stored) (p : Ordering → Bool) :
    cmpFilter w field v doc p = (stored.partialCmp v).any p := by
  simp [cmpFilter, h]

theorem eqFilter_of_stored (h : extractField w doc field = some stored) (hv : v.variant ≠ .float) :
    eqFilter w field v doc ↔ stored = v := by
  rw [eqFilter, h, any_some, Value.eq_iff hv]

theorem filters_of_confused (h : extractField w doc field = some stored) (hv : v.variant ≠ .float)
    (hconf : stored.Confused v) :
    (gteFilter w field v doc ∧ lteFilter w field v doc) ∧
      ¬ ltFilter w field v doc ∧ ¬ eqFilter w field v doc ∧ ¬ gtFilter w field v doc := by
  have hcmp := (Value.partialCmp_eq_some_eq hv).mpr (.inr hconf)
  have hne : ¬ eqFilter w field v doc := by
    rw [eqFilter_of_stored h hv]
    intro heq
    exact hconf.1 (congrArg Value.variant heq)
  simp [gteFilter, lteFilter, ltFilter, gtFilter, cmpFilter_of_stored h, hcmp, hne]

end Facts

/-- Equality is both bounds, and of two integers exactly one of less, equal and greater holds, exactly when the two
are not numbers that are tagged differently and have one double. -/
theorem filters_agree_iff (w : Winner String (ScalarValue Double) α) (doc : Automerge Double α) (field : String)
    (v : Value) (hv : v.variant ≠ .float) :
    ((eqFilter w field v doc ↔ gteFilter w field v doc ∧ lteFilter w field v doc) ∧
        ∀ stored, extractField w doc field = some stored → stored.isInteger → v.isInteger →
          (ltFilter w field v doc).toNat + (eqFilter w field v doc).toNat + (gtFilter w field v doc).toNat = 1) ↔
      ∀ stored, extractField w doc field = some stored → ¬ stored.Confused v := by
  refine ⟨fun ⟨hagree, _⟩ stored hstored hconf => ?_, fun hconf => ⟨?_, fun stored hstored hint hint' => ?_⟩⟩
  · obtain ⟨hbounds, -, hne, -⟩ := filters_of_confused hstored hv hconf
    exact hne (hagree.mpr hbounds)
  · cases hstored : extractField w doc field with
    | none => simp [eqFilter, gteFilter, lteFilter, cmpFilter, hstored]
    | some stored =>
      rw [gteFilter, lteFilter, cmpFilter_of_stored hstored, cmpFilter_of_stored hstored, Value.any_bounds_iff,
        eqFilter_of_stored hstored hv, Value.partialCmp_eq_some_eq hv, or_iff_left (hconf stored hstored)]
  · obtain ⟨o, ho⟩ := isSome_iff_exists.mp (Value.partialCmp_isSome_of_isInteger hint hint')
    have heq : eqFilter w field v doc = decide (o = .eq) := by
      rw [Bool.eq_iff_iff, decide_eq_true_eq, eqFilter_of_stored hstored hv, ← some.injEq o, ← ho,
        Value.partialCmp_eq_some_eq hv, or_iff_left (hconf stored hstored)]
    rw [ltFilter, gtFilter, cmpFilter_of_stored hstored, cmpFilter_of_stored hstored, ho, heq]
    cases o <;> rfl

end Agreement

variable (scalar : ScalarValue Double)

def oneField : Automerge Double Nat :=
  (Doc.put .latest 0 .root "n" scalar .empty).toOption.getD .empty

theorem extractField_oneField : extractField .latest (oneField scalar) "n" = scalarToQueryValue scalar := by
  rfl

theorem five_agrees :
    eqFilter .latest "n" (.int 5) (oneField (.int 5)) ↔
      gteFilter .latest "n" (.int 5) (oneField (.int 5)) ∧ lteFilter .latest "n" (.int 5) (oneField (.int 5)) := by
  refine ((filters_agree_iff .latest (oneField (.int 5)) "n" (.int 5) (by decide)).mpr fun stored hstored => ?_).1
  rw [extractField_oneField] at hstored
  cases hstored
  exact Value.not_confused_self

theorem confused_int_uint {i u} (h : roundInt i.toInt = roundInt u.toNat) :
    (Value.int i).Confused (.uint u) :=
  ⟨by simp [Value.variant], Doubles.ofI64 i, rfl, congrArg some (ofInt_eq_ofInt.mpr h.symm)⟩

/-- A signed five is neither less than an unsigned five nor equal to it nor
greater; and so is `2^53 + 1` by `2^53`. -/
theorem five_is_not_five :
    let five := oneField (.int 5)
    let odd := oneField (.int 9007199254740993)
    let u := Value.uint 5
    let even := Value.uint 9007199254740992
    ((gteFilter .latest "n" u five ∧ lteFilter .latest "n" u five) ∧
        ¬ ltFilter .latest "n" u five ∧ ¬ eqFilter .latest "n" u five ∧ ¬ gtFilter .latest "n" u five) ∧
      (gteFilter .latest "n" even odd ∧ lteFilter .latest "n" even odd) ∧
        ¬ ltFilter .latest "n" even odd ∧ ¬ eqFilter .latest "n" even odd ∧ ¬ gtFilter .latest "n" even odd :=
  ⟨filters_of_confused (extractField_oneField _) (by decide) (confused_int_uint (by decide)),
    filters_of_confused (extractField_oneField _) (by decide) (confused_int_uint (by decide))⟩

end PeatMesh.QueryEngine
