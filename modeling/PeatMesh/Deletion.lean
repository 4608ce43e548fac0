/-
Deletion markers (`qos/deletion.rs`): the tombstone record, the direction
it propagates in, the sync messages that carry it between nodes, and the
policies that say how a collection deletes.
-/
import Std.Data.ExtTreeMap
import Mathlib.Algebra.Group.Int.Defs
import Mathlib.Algebra.Group.Nat.Defs
import Mathlib.Data.Int.Order.Basic
import Mathlib.Data.List.TakeWhile

namespace PeatMesh

/-- `PropagationDirection`: where in the hierarchy a tombstone flows. -/
inductive PropagationDirection
  | bidirectional
  | upOnly
  | downOnly
  | systemWide
  deriving DecidableEq, Repr

def PropagationDirection.defaultForCollection (collection : String) : PropagationDirection :=
  if collection = "cells" ∨ collection = "contact_reports" then .upOnly
  else if collection = "commands" then .downOnly
  else .bidirectional

/-- `Tombstone`. `deletedAt` is the system time as nanoseconds from the
Unix epoch, negative before it. -/
structure Tombstone where
  documentId : String
  collection : String
  deletedAt : Int
  deletedBy : String
  lamport : UInt64
  reason : Option String
  deriving DecidableEq, Repr

def docKey (collection documentId : String) : String := collection ++ ":" ++ documentId

variable (t : Tombstone)

def Tombstone.key : String := docKey t.collection t.documentId

theorem Tombstone.key_def : t.key = docKey t.collection t.documentId := rfl

def Tombstone.serializes : Bool := 0 ≤ t.deletedAt

/-- A tombstone, and where it is to go. -/
structure TombstoneSyncMessage where
  tombstone : Tombstone
  direction : PropagationDirection
  deriving DecidableEq, Repr

def TombstoneSyncMessage.fromTombstone : TombstoneSyncMessage :=
  ⟨t, .defaultForCollection t.collection⟩

structure TombstoneBatch where
  tombstones : List TombstoneSyncMessage
  deriving DecidableEq, Repr

/-! ## Policies

Durations are in nanoseconds, as system times are. -/

def durationSince (now earlier : Int) : Option Nat := if earlier ≤ now then some (now - earlier).toNat else none

def Tombstone.isExpired (now : Int) (ttl : Nat) : Bool :=
  match durationSince now t.deletedAt with
  | some age => ttl ≤ age
  | none => false

inductive DeletionPolicy
  | implicitTtl (ttl : Nat) (supersessionKey : Option String)
  | tombstone (tombstoneTtl : Nat) (deleteWins : Bool)
  | softDelete (includeDeletedDefault : Bool)
  | immutable
  deriving DecidableEq, Repr

def DeletionPolicy.defaultForCollection (collection : String) : DeletionPolicy :=
  if collection = "beacons" ∨ collection = "platforms" then .implicitTtl (3600 * 10 ^ 9) (some "node_id")
  else if collection = "tracks" then .tombstone (3600 * 10 ^ 9) true
  else if collection = "nodes" ∨ collection = "cells" then .tombstone (86400 * 10 ^ 9) true
  else if collection = "alerts" then .tombstone (14400 * 10 ^ 9) false
  else .softDelete false

structure DeletionPolicyRegistry where
  overrides : Std.ExtTreeMap String DeletionPolicy

namespace DeletionPolicyRegistry

def new : DeletionPolicyRegistry := ⟨∅⟩

variable (r : DeletionPolicyRegistry)

def get (collection : String) : DeletionPolicy :=
  r.overrides[collection]?.getD (.defaultForCollection collection)

def expires (now : Int) (t : Tombstone) : Bool :=
  match r.get t.collection with
  | .tombstone ttl _ => t.isExpired now ttl
  | _ => false

end DeletionPolicyRegistry

/-! ## Document keys -/

def splitKey (key : String) : Option (String × String) :=
  match key.toList.dropWhile (· ≠ ':') with
  | [] => none
  | _ :: rest => some (String.ofList (key.toList.takeWhile (· ≠ ':')), String.ofList rest)

end PeatMesh
