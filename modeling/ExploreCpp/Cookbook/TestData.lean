import ExploreCpp.Flight.Store
import Mathlib.Data.List.Basic

/-! `FindTestDataFile` of `common.cc`: the walk from the current directory to the root.

The root is its own parent, so from an absolute path the walk has no end but the directory
it looks for (`returns_iff`): it does not come to the error behind the loop. -/
namespace ExploreCpp.Cookbook
open Flight (Status)

/-- `std::filesystem::path`, without a root name and up to redundant separators. -/
structure FsPath where
  rooted : Bool
  names : List (List Char)
deriving DecidableEq, Repr

namespace FsPath

def empty (p : FsPath) : Bool := !p.rooted && p.names.isEmpty

/-- `p / q`, which is `q` alone if that is absolute. -/
def append (p q : FsPath) : FsPath := if q.rooted then q else {p with names := p.names ++ q.names}

/-- A path without a relative part is its own parent. -/
def parentPath (p : FsPath) : FsPath := {p with names := p.names.dropLast}

def hasParentPath (p : FsPath) : Bool := !p.parentPath.empty

end FsPath

def testdata : FsPath := ⟨false, [['t', 'e', 's', 't', 'd', 'a', 't', 'a']]⟩

def notLocated : Status :=
  ⟨.invalid, "Could not locate testdata directory.  Tests must be run inside of the cookbook repo"⟩

section
variable (pathExists : FsPath → Bool) (testDataName : FsPath)

/-- The loop, for so many rounds. -/
def walk : Nat → FsPath → Option (Except Status FsPath)
  | 0, _ => none
  | fuel + 1, pathIter =>
    if pathIter.hasParentPath then
      let testDataDirPath := pathIter.append testdata
      if pathExists testDataDirPath then some (.ok (testDataDirPath.append testDataName))
      else walk fuel pathIter.parentPath
    else some (.error notLocated)

/-- From this current directory the result is returned. -/
def Returns (currentPath : FsPath) (result : Except Status FsPath) : Prop :=
  ∃ fuel, walk pathExists testDataName fuel currentPath = some result

/-- The directory so many names below the root. -/
def ancestor (currentPath : FsPath) (depth : Nat) : FsPath :=
  {currentPath with names := currentPath.names.take depth}

/-- The directory above the current one, or that one, that is nearest to have the test data. -/
structure Nearest (currentPath : FsPath) (depth : Nat) : Prop where
  above : depth ≤ currentPath.names.length
  found : pathExists ((ancestor currentPath depth).append testdata) = true
  nearest : ∀ other, depth < other → other ≤ currentPath.names.length →
    pathExists ((ancestor currentPath other).append testdata) = false

end

variable {pathExists : FsPath → Bool} {testDataName : FsPath} {currentPath : FsPath}

theorem hasParentPath_rooted (h : currentPath.rooted = true) : currentPath.hasParentPath = true := by
  simp [FsPath.hasParentPath, FsPath.parentPath, FsPath.empty, h]

theorem ancestor_length : ancestor currentPath currentPath.names.length = currentPath := by
  rw [ancestor, List.take_length]

theorem ancestor_parentPath {depth : Nat} (h : depth ≤ currentPath.names.length - 1) :
    ancestor currentPath.parentPath depth = ancestor currentPath depth := by
  have htake : currentPath.names.dropLast.take depth = currentPath.names.take depth := by
    rw [List.dropLast_eq_take, List.take_take, Nat.min_eq_left h]
  simp only [ancestor, FsPath.parentPath, htake]

/-- At the root the walk turns in place. -/
theorem walk_root (h : currentPath.rooted = true) (hroot : currentPath.names = [])
    (hnone : pathExists (currentPath.append testdata) = false) (fuel : Nat) :
    walk pathExists testDataName fuel currentPath = none := by
  have hparent : currentPath.parentPath = currentPath := by
    simp only [FsPath.parentPath, hroot, List.dropLast_nil]
    rw [← hroot]
  induction fuel with
  | zero => rfl
  | succ fuel ih => simp [walk, hasParentPath_rooted h, hnone, hparent, ih]

/-- Without test data in a directory the walk goes on in its parent. -/
theorem nearest_parentPath (hroot : currentPath.names ≠ [])
    (hnone : pathExists (currentPath.append testdata) = false) (depth : Nat) :
    Nearest pathExists currentPath.parentPath depth ↔ Nearest pathExists currentPath depth := by
  have hpos : 0 < currentPath.names.length := List.length_pos_iff.2 hroot
  have hlength : currentPath.parentPath.names.length = currentPath.names.length - 1 := List.length_dropLast
  constructor
  · intro h
    have habove : depth ≤ currentPath.names.length - 1 := hlength ▸ h.above
    refine ⟨by omega, ?_, fun other hlt hle => ?_⟩
    · rw [← ancestor_parentPath habove]
      exact h.found
    · by_cases hlast : other = currentPath.names.length
      · rw [hlast, ancestor_length]
        exact hnone
      · have hother : other ≤ currentPath.names.length - 1 := by omega
        rw [← ancestor_parentPath hother]
        exact h.nearest other hlt (by rw [hlength]; exact hother)
  · intro h
    have hne : depth ≠ currentPath.names.length := by
      intro he
      have hfound := h.found
      rw [he, ancestor_length, hnone] at hfound
      cases hfound
    have habove : depth ≤ currentPath.names.length - 1 := by
      have hle := h.above
      omega
    refine ⟨by rw [hlength]; exact habove, ?_, fun other hlt hle => ?_⟩
    · rw [ancestor_parentPath habove]
      exact h.found
    · rw [hlength] at hle
      rw [ancestor_parentPath hle]
      exact h.nearest other hlt (by omega)

theorem returns_here (h : currentPath.rooted = true) (hfound : pathExists (currentPath.append testdata) = true)
    (result : Except Status FsPath) :
    Returns pathExists testDataName currentPath result ↔
      result = .ok ((currentPath.append testdata).append testDataName) := by
  have hwalk : ∀ fuel, walk pathExists testDataName (fuel + 1) currentPath =
      some (.ok ((currentPath.append testdata).append testDataName)) := by
    intro fuel
    simp [walk, hasParentPath_rooted h, hfound]
  constructor
  · intro hr
    obtain ⟨fuel, hr⟩ := hr
    cases fuel with
    | zero => cases hr
    | succ fuel =>
      rw [hwalk] at hr
      exact (Option.some.inj hr).symm
  · intro he
    exact ⟨1, by rw [hwalk, he]⟩

theorem returns_parentPath (h : currentPath.rooted = true) (hnone : pathExists (currentPath.append testdata) = false)
    (result : Except Status FsPath) :
    Returns pathExists testDataName currentPath result ↔ Returns pathExists testDataName currentPath.parentPath result := by
  have hwalk : ∀ fuel, walk pathExists testDataName (fuel + 1) currentPath =
      walk pathExists testDataName fuel currentPath.parentPath := by
    intro fuel
    simp [walk, hasParentPath_rooted h, hnone]
  constructor
  · intro hr
    obtain ⟨fuel, hr⟩ := hr
    cases fuel with
    | zero => cases hr
    | succ fuel => exact ⟨fuel, by rw [← hwalk, hr]⟩
  · intro hr
    obtain ⟨fuel, hr⟩ := hr
    exact ⟨fuel + 1, by rw [hwalk, hr]⟩

/-- Where there is test data, none is nearer. -/
theorem nearest_here (hfound : pathExists (currentPath.append testdata) = true) (depth : Nat) :
    Nearest pathExists currentPath depth ↔ depth = currentPath.names.length := by
  constructor
  · intro hnearest
    by_contra hne
    have hlt : depth < currentPath.names.length := Nat.lt_of_le_of_ne hnearest.above hne
    have hnone := hnearest.nearest _ hlt (Nat.le_refl _)
    rw [ancestor_length, hfound] at hnone
    cases hnone
  · intro hd
    subst hd
    refine ⟨Nat.le_refl _, ?_, fun _ _ _ => by omega⟩
    rw [ancestor_length]
    exact hfound

/-- The root has only itself. -/
theorem not_nearest_root (hroot : currentPath.names = [])
    (hnone : pathExists (currentPath.append testdata) = false) (depth : Nat) :
    ¬ Nearest pathExists currentPath depth := by
  intro hnearest
  have hdepth : depth = currentPath.names.length := by
    have habove := hnearest.above
    rw [hroot] at habove ⊢
    exact Nat.le_zero.1 habove
  have hfound := hnearest.found
  rw [hdepth, ancestor_length, hnone] at hfound
  cases hfound

/-- **The nearest test data is found, or nothing is returned**: from an absolute path the walk
returns the name in the nearest directory above that has test data, and nothing else; where
there is none it does not end, and its error is never returned. -/
theorem returns_iff (h : currentPath.rooted = true) (result : Except Status FsPath) :
    Returns pathExists testDataName currentPath result ↔
      ∃ depth, Nearest pathExists currentPath depth ∧
        result = .ok (((ancestor currentPath depth).append testdata).append testDataName) := by
  obtain ⟨n, hn⟩ : ∃ n, currentPath.names.length = n := ⟨_, rfl⟩
  induction n generalizing currentPath with
  | zero =>
    have hroot : currentPath.names = [] := List.length_eq_zero_iff.1 hn
    cases hfound : pathExists (currentPath.append testdata) with
    | true => simp only [returns_here h hfound, nearest_here hfound, exists_eq_left, ancestor_length]
    | false =>
      constructor
      · intro hr
        obtain ⟨fuel, hr⟩ := hr
        rw [walk_root h hroot hfound] at hr
        cases hr
      · intro hd
        obtain ⟨depth, hnearest, -⟩ := hd
        exact absurd hnearest (not_nearest_root hroot hfound depth)
  | succ n ih =>
    have hroot : currentPath.names ≠ [] := by
      intro he
      rw [he] at hn
      cases hn
    cases hfound : pathExists (currentPath.append testdata) with
    | true => simp only [returns_here h hfound, nearest_here hfound, exists_eq_left, ancestor_length]
    | false =>
      have hlength : currentPath.parentPath.names.length = currentPath.names.length - 1 := List.length_dropLast
      have hrooted : currentPath.parentPath.rooted = true := h
      rw [returns_parentPath h hfound, ih hrooted (by omega)]
      -- the parent has the same directories above it, but for this one
      apply exists_congr
      intro depth
      rw [nearest_parentPath hroot hfound]
      apply and_congr_right
      intro hnearest
      have hparent := (nearest_parentPath hroot hfound depth).2 hnearest
      rw [ancestor_parentPath (hlength ▸ hparent.above)]

/-- Test data two directories up. -/
theorem returns_iff_up : Returns (fun p => p = (⟨true, [['c']]⟩ : FsPath).append testdata) ⟨false, [['a']]⟩
    ⟨true, [['c'], ['b'], ['d']]⟩ (.ok ⟨true, ['c'] :: testdata.names ++ [['a']]⟩) :=
  (returns_iff rfl _).2 ⟨1, ⟨by decide, by decide, fun other hlt hle => by
    have hcases : other = 2 ∨ other = 3 := by
      have hlength : other ≤ 3 := hle
      omega
    rcases hcases with rfl | rfl <;> decide⟩, rfl⟩

end ExploreCpp.Cookbook
