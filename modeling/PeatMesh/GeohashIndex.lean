/-
The geohash index (`storage/geohash_index.rs`): the documents in each cell,
and the cell of each document, each under a lock of its own. Two moves of one
document may both list it before either says where it is.
-/
import PeatMesh.Runs
import PeatMesh.Store

namespace PeatMesh.Geohash

open Runs Option Function Std.ExtTreeSet

structure Index where
  cells : Table (Std.ExtTreeSet String)
  docLocations : Table String

namespace Index

variable (idx : Index) (docId geohash : String)

def takeOut : Index :=
  match idx.docLocations[docId]? with
  | none => idx
  | some old =>
    { docLocations := idx.docLocations.erase docId
      cells :=
        match idx.cells[old]? with
        | none => idx.cells
        | some cell =>
          if (cell.erase docId).isEmpty then idx.cells.erase old else idx.cells.insert old (cell.erase docId) }

def putIn : Index := { idx with cells := idx.cells.insert geohash ((idx.cells[geohash]?.getD ∅).insert docId) }

def locate : Index := { idx with docLocations := idx.docLocations.insert docId geohash }

/-- The document is in the cell. -/
def Listed : Prop := ∃ cell, idx.cells[geohash]? = some cell ∧ docId ∈ cell
  deriving Decidable

def NoEmpty : Prop :=
  ∀ (geohash : String) (cell : Std.ExtTreeSet String), idx.cells[geohash]? = some cell → cell.isEmpty = false

/-- What should hold whenever no call is under way. -/
structure Consistent : Prop where
  listed_iff (docId geohash : String) : idx.Listed docId geohash ↔ idx.docLocations[docId]? = some geohash
  one_cell (docId g g' : String) : idx.Listed docId g → idx.Listed docId g' → g = g'
  noEmpty : idx.NoEmpty

end Index

/-! ## Calls -/

inductive Call
  | insert (docId geohash : String)
  | remove (docId : String)
  | clear

/-- Where a thread is: in no call, or after so many sections of one. -/
inductive Pc
  | idle
  | takenOut (docId geohash : String)
  | listed (docId geohash : String)
  | cleared

def lockSection (_ : Nat) (idx : Index) : Pc → Option Call → Option (Index × Pc)
  | .idle, some (.insert docId geohash) => some (idx.takeOut docId, .takenOut docId geohash)
  | .idle, some (.remove docId) => some (idx.takeOut docId, .idle)
  | .idle, some .clear => some ({ idx with cells := ∅ }, .cleared)
  | .takenOut docId geohash, none => some (idx.putIn docId geohash, .listed docId geohash)
  | .listed docId geohash, none => some (idx.locate docId geohash, .idle)
  | .cleared, none => some ({ idx with docLocations := ∅ }, .idle)
  | _, _ => none

abbrev step := Pool.step lockSection

def start : Pool Index Pc := ⟨⟨∅, ∅⟩, fun _ => .idle⟩

def Pc.Moves (docId : String) : Pc → Prop
  | .takenOut d _ | .listed d _ => d = docId
  | _ => False

/-- No two moves of a document, and no move and `clear`, overlap where it matters. -/
def Apart (p : Pool Index Pc) (a : Nat × Option Call) : Prop :=
  match p.pc a.1, a.2 with
  | .idle, some (.insert docId _) => ∀ i, ¬ (p.pc i).Moves docId
  | .idle, some .clear => ∀ i docId geohash, p.pc i ≠ .listed docId geohash
  | .listed _ _, none => ∀ i, p.pc i ≠ .cleared
  | _, _ => True

/-! ## What sections keep -/

variable {idx : Index} {d d' g g' : String}

theorem getElem?_takeOut : (idx.takeOut d).docLocations[d']? = if d = d' then none else idx.docLocations[d']? := by
  unfold Index.takeOut
  split
  · next hnone =>
    split
    · next heq => rw [← heq, hnone]
    · rfl
  · exact Table.getElem?_erase

theorem cells_takeOut : (idx.takeOut d).cells[g]? =
    if idx.docLocations[d]? = some g then (idx.cells[g]?.map (·.erase d)).filter (!·.isEmpty) else idx.cells[g]? := by
  unfold Index.takeOut
  cases hloc : idx.docLocations[d]? with
  | none => simp
  | some old =>
    cases hcell : idx.cells[old]? with
    | none =>
      by_cases hg : old = g
      · subst hg
        simp [hcell]
      · simp [hg, hcell]
    | some cell =>
      by_cases hg : old = g
      · subst hg
        cases hempty : (cell.erase d).isEmpty <;> simp [hcell, hempty, Option.filter]
      · cases hempty : (cell.erase d).isEmpty <;> simp [hg, hempty, hcell, Table.getElem?_erase, Table.getElem?_insert]

theorem listed_takeOut :
    (idx.takeOut d).Listed d' g ↔ idx.Listed d' g ∧ ¬(d = d' ∧ idx.docLocations[d]? = some g) := by
  unfold Index.Listed
  rw [cells_takeOut]
  by_cases hloc : idx.docLocations[d]? = some g
  · cases hcell : idx.cells[g]? with
    | none => simp [hloc]
    | some cell =>
      simp only [hloc, if_true, map_some, filter_eq_some_iff, some.injEq, and_true]
      constructor
      · rintro ⟨_, ⟨rfl, -⟩, hmem⟩
        simp only [mem_erase, Std.compare_eq_iff_eq, ne_eq] at hmem
        exact ⟨⟨cell, rfl, hmem.2⟩, hmem.1⟩
      · rintro ⟨⟨_, rfl, hmem⟩, hne⟩
        have herase : d' ∈ cell.erase d := by simp [mem_erase, hne, hmem]
        refine ⟨_, ⟨rfl, ?_⟩, herase⟩
        rw [Bool.not_eq_true', isEmpty_eq_false_iff, eq_empty_iff_forall_not_mem]
        exact fun hno => hno d' herase
  · simp [hloc]

theorem docLocations_putIn : (idx.putIn d g).docLocations = idx.docLocations := rfl

theorem listed_putIn : (idx.putIn d g).Listed d' g' ↔ (d = d' ∧ g = g') ∨ idx.Listed d' g' := by
  unfold Index.Listed Index.putIn
  simp only [Table.getElem?_insert]
  by_cases hg : g = g'
  · subst hg
    cases hcell : idx.cells[g]? <;> simp
  · simp [hg]

theorem noEmpty_takeOut (h : idx.NoEmpty) : (idx.takeOut d).NoEmpty := by
  intro g cell hcell
  rw [cells_takeOut] at hcell
  split at hcell
  · simpa using (filter_eq_some_iff.mp hcell).2
  · exact h g cell hcell

theorem noEmpty_putIn (h : idx.NoEmpty) : (idx.putIn d g).NoEmpty := by
  intro g' cell hcell
  rw [Index.putIn, Table.getElem?_insert] at hcell
  split at hcell
  · cases hcell
    exact isEmpty_eq_false_iff.mpr (ne_empty_of_mem mem_insert_self)
  · exact h g' cell hcell

/-- What holds in any state: a document is listed where it is being moved to and,
unless a `clear` is half done, where it is located; and nowhere else. -/
structure Kept (p : Pool Index Pc) : Prop where
  pending (i : Nat) (d g : String) : p.pc i = .listed d g → p.shared.Listed d g
  listed (d g : String) : p.shared.Listed d g →
    (p.shared.docLocations[d]? = some g ∧ ∀ i, p.pc i ≠ .cleared) ∨ ∃ i, p.pc i = .listed d g
  located (d g : String) : (∀ i, p.pc i ≠ .cleared) → p.shared.docLocations[d]? = some g → p.shared.Listed d g
  moving (i : Nat) (d : String) : (p.pc i).Moves d → p.shared.docLocations[d]? = none
  alone (i j : Nat) (d : String) : (p.pc i).Moves d → (p.pc j).Moves d → i = j
  noEmpty : p.shared.NoEmpty

theorem Kept.step {p p' a} (h : Kept p) (hapart : Apart p a)
    (hstep : step p a = some p') : Kept p' := by
  obtain ⟨i, c⟩ := a
  obtain ⟨s, pc, hsec, rfl⟩ := Pool.step_eq_some.mp hstep
  obtain ⟨hpending, hlisted, hlocated, hmoving, halone, hempty⟩ := h
  unfold lockSection at hsec
  unfold Apart at hapart
  split at hsec <;> cases hsec <;> rename_i hpc <;> simp only [hpc] at hapart
  iterate 2
    refine ⟨?_, ?_, ?_, ?_, ?_, noEmpty_takeOut hempty⟩ <;> simp only [update_apply] <;>
      grind [Pc.Moves, listed_takeOut, getElem?_takeOut]
  · refine ⟨?_, ?_, ?_, ?_, ?_, by simp [Index.NoEmpty]⟩ <;> simp only [update_apply] <;>
      grind [Pc.Moves, Index.Listed]
  · refine ⟨?_, ?_, ?_, ?_, ?_, noEmpty_putIn hempty⟩ <;> simp only [update_apply, docLocations_putIn] <;>
      grind [Pc.Moves, listed_putIn]
  · refine ⟨?_, ?_, ?_, ?_, ?_, hempty⟩ <;> simp only [update_apply] <;>
      grind [Pc.Moves, Index.locate, Table.getElem?_insert, Index.Listed]
  · have hsame : ∀ d g, Index.Listed ⟨p.shared.cells, ∅⟩ d g ↔ p.shared.Listed d g := fun d g => Iff.rfl
    refine ⟨?_, ?_, ?_, ?_, ?_, hempty⟩ <;> simp only [update_apply, hsame] <;> grind [Pc.Moves]

/-- If moves are apart, then with no call under way a document is listed just where it is located, and no cell is
empty, whatever calls run in any interleaving. -/
theorem consistent_of_apart {l : List (Nat × Option Call)} {p : Pool Index Pc} (hrun : exec step start l = some p)
    (hapart : Along step Apart start l) (hidle : ∀ i, p.pc i = .idle) : p.shared.Consistent := by
  have h : Kept p := along_invariant (fun _ _ _ h hg hs => h.step hg hs)
    (by constructor <;> simp [start, Pc.Moves, Index.Listed, Index.NoEmpty]) hapart hrun
  have hlisted : ∀ d g, p.shared.Listed d g ↔ p.shared.docLocations[d]? = some g := fun d g =>
    ⟨fun hd => ((h.listed d g hd).resolve_right (by simp [hidle])).1, h.located d g (by simp [hidle])⟩
  refine ⟨hlisted, fun d g g' hg hg' => ?_, h.noEmpty⟩
  rw [hlisted] at hg hg'
  exact some.inj (hg.symm.trans hg')

/-- Two documents are moved into one cell, section by section in turn. -/
def movesInTurn : List (Nat × Option Call) :=
  [(0, some (.insert "d" "u33")), (1, some (.insert "e" "u33")), (0, none), (1, none), (0, none), (1, none)]

theorem apart_movesInTurn : Along step Apart start movesInTurn := by
  refine ⟨fun i => id, ?_⟩
  rintro _ ⟨⟩
  refine ⟨fun i => ?_, ?_⟩
  · rcases i with _ | i
    · exact (by decide : ¬"d" = "e")
    · exact id
  rintro _ ⟨⟩
  refine ⟨trivial, ?_⟩
  rintro _ ⟨⟩
  refine ⟨trivial, ?_⟩
  rintro _ ⟨⟩
  refine ⟨fun i => ?_, ?_⟩
  · rcases i with _ | _ | i <;> rintro ⟨⟩
  rintro _ ⟨⟩
  refine ⟨fun i => ?_, fun _ _ => trivial⟩
  rcases i with _ | _ | i <;> rintro ⟨⟩

theorem consistent_after_moves : ∃ p, exec step start movesInTurn = some p ∧ Along step Apart start movesInTurn ∧
    (∀ i, p.pc i = .idle) ∧ p.shared.Consistent := by
  refine ⟨_, rfl, apart_movesInTurn, fun i => ?_, consistent_of_apart rfl apart_movesInTurn fun i => ?_⟩
  · rcases i with _ | _ | i <;> rfl
  · rcases i with _ | _ | i <;> rfl

/-- Two moves of one document leave it in two cells; a `clear` inside a move, or at its end, leaves it located and
not listed, or listed and not located. -/
theorem interleaved_moves_differ :
    (∃ p, exec step start [(0, some (.insert "d" "u33")), (1, some (.insert "d" "u34")), (0, none), (1, none),
        (0, none), (1, none)] = some p ∧ (∀ i, p.pc i = .idle) ∧ p.shared.Listed "d" "u33" ∧
        p.shared.Listed "d" "u34" ∧ p.shared.docLocations["d"]? = some "u34") ∧
    (∃ p, exec step start [(0, some (.insert "d" "u33")), (0, none), (1, some .clear), (1, none), (0, none)] = some p ∧
        (∀ i, p.pc i = .idle) ∧ ¬ p.shared.Listed "d" "u33" ∧ p.shared.docLocations["d"]? = some "u33") ∧
    ∃ p, exec step start [(1, some .clear), (0, some (.insert "d" "u33")), (0, none), (0, none), (1, none)] = some p ∧
      (∀ i, p.pc i = .idle) ∧ p.shared.Listed "d" "u33" ∧ p.shared.docLocations["d"]? = none := by
  refine ⟨⟨_, rfl, fun i => ?_, ?_⟩, ⟨_, rfl, fun i => ?_, ?_⟩, ⟨_, rfl, fun i => ?_, ?_⟩⟩
  · rcases i with _ | _ | i <;> rfl
  · decide +kernel
  · rcases i with _ | _ | i <;> rfl
  · decide +kernel
  · rcases i with _ | _ | i <;> rfl
  · decide +kernel

end PeatMesh.Geohash
