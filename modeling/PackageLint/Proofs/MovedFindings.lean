import Mathlib.Data.List.Perm.Basic
import PackageLint.Check.Context
import PackageLint.Check.Declarations
import PackageLint.Check.Target
import PackageLint.Proofs.Runs

/-!
# Findings about moved places

Two manifests may say the same at different places. A finding about the one is a finding about the
other once its place is moved, and with it the places that its arguments name: where a value is expected,
and where `browser` has one.

## Main definitions

* `Diagnostic.move` — a finding with its places moved
* `Location.Carries` — a move takes a place along with all that is below it

## Main results

* `Diagnostic.move_id` — where places stay, so do findings
* `Diagnostic.move_of_plain` — a finding without such arguments only changes its place
-/

namespace PackageLint

/-! ### Moving places -/

namespace Arg

/-- The strings among arguments, when all are strings. -/
def strings? : List Arg → Option (List String)
  | [] => some []
  | .str s :: rest => (strings? rest).map (s :: ·)
  | _ :: _ => none

/-- An argument that holds a place, with the place moved. -/
def move (m : Location → Location) : Arg → Arg
  | .arr items =>
    match strings? items with
    | some location => .strs (m location)
    | none => .arr items
  | arg => arg

theorem strings?_map_str (l : List String) : strings? (l.map .str) = some l := by
  induction l with
  | nil => rfl
  | cons s rest ih => rw [List.map_cons, strings?, ih, Option.map_some]

theorem eq_of_strings?_eq_some {items : List Arg} {l : List String} (h : strings? items = some l) :
    items = l.map .str := by
  induction items generalizing l with
  | nil =>
    obtain rfl := Option.some.inj h
    rfl
  | cons item rest ih =>
    cases item with
    | str s =>
      obtain ⟨others, hothers, rfl⟩ := Option.map_eq_some_iff.mp h
      rw [ih hothers, List.map_cons]
    | _ => exact absurd h (by simp [strings?])

@[simp] theorem move_strs (m : Location → Location) (l : List String) :
    (strs l).move m = strs (m l) := by
  rw [strs, move, strings?_map_str]

theorem move_id (arg : Arg) : arg.move id = arg := by
  cases arg with
  | arr items =>
    rw [move]
    cases h : strings? items with
    | none => rfl
    | some l => exact congrArg Arg.arr (eq_of_strings?_eq_some h).symm
  | _ => rfl

end Arg

namespace Diagnostic

variable {m : Location → Location}

/-- The arguments that hold places. -/
def placeArgs : List String := ["expect_path", "browser_path"]

/-- A finding with its places moved: its own and those in its arguments. -/
def move (m : Location → Location) (d : Diagnostic) : Diagnostic :=
  { d with
    location := m d.location
    args := d.args.map fun (name, arg) =>
      (name, if placeArgs.contains name then arg.move m else arg) }

theorem keepsSeverity_move (m : Location → Location) : Pass.KeepsSeverity (move m) := fun _ _ => rfl

/-- A finding whose arguments hold no place only changes its own. -/
theorem move_of_plain {d : Diagnostic} (h : (d.args.map Prod.fst).all (!placeArgs.contains ·)) :
    d.move m = { d with location := m d.location } := by
  have hargs : (d.args.map fun (name, arg) =>
      (name, if placeArgs.contains name then arg.move m else arg)) = d.args := by
    refine (List.map_congr_left fun entry hentry => ?_).trans (List.map_id _)
    have hname := List.all_eq_true.mp h entry.1 (List.mem_map_of_mem hentry)
    rw [Bool.not_eq_true'] at hname
    obtain ⟨name, arg⟩ := entry
    simp only [hname, Bool.false_eq_true, if_false, id]
  rw [move, hargs]

theorem move_id (d : Diagnostic) : d.move id = d := by
  have hargs : (d.args.map fun (name, arg) =>
      (name, if placeArgs.contains name then arg.move id else arg)) = d.args := by
    refine (List.map_congr_left fun entry _ => ?_).trans (List.map_id _)
    simp only [Arg.move_id, ite_self, id]
  rw [move, hargs, id]

theorem map_move_id (ds : List Diagnostic) : ds.map (move id) = ds := by
  rw [show move id = id from funext move_id, List.map_id]

end Diagnostic

/-! ### Places and what is below them -/

/-- A move takes a place along with all that is below it. -/
def Location.Carries (m : Location → Location) (location : Location) : Prop :=
  ∀ keys : List String, m (location ++ keys) = m location ++ keys

namespace Location.Carries

variable {m : Location → Location} {location : Location}

theorem id (location : Location) : Carries id location := fun _ => rfl

theorem below (h : Carries m location) (keys : List String) : Carries m (location ++ keys) := by
  intro others
  rw [List.append_assoc, h, h, List.append_assoc]

theorem concat (h : Carries m location) (key : String) :
    m (location ++ [key]) = m location ++ [key] := h [key]

end Location.Carries

end PackageLint
