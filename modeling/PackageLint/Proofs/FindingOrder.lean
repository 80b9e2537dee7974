import PackageLint.Pass.Run
import PackageLint.Proofs.TargetFindings

/-!
# The order of findings

Findings are sorted by code, place and severity. These make an order of texts, so any two findings can
be compared, and what compares equal has all three in common. The arguments take no part: findings that
differ in nothing else keep the order in which they came.

A sorted list is therefore the same for every order of the findings exactly when findings that compare
equal are equal. One direction is that a sorted list is determined by its members. The other is
stability: the findings that compare equal to a given one stand in the sorted list as they did before,
and any of them can be put first.

## Main definitions

* `Diagnostic.Ties` — two findings that the order does not tell apart
* `Diagnostic.TiesAgree` — the lists in which only equal findings tie

## Main results

* `Diagnostic.compare_eq_eq_iff` — what compares equal ties
* `Diagnostic.filter_sort` — sorting is stable
* `Diagnostic.sort_eq_iff_of_perm` — the lists that are sorted alike in every order
* `Context.ties_of_rejectsJsx` — findings that tie
* `Pass.sorted_alike_iff` — the logs and the results that are
-/

namespace PackageLint

/-! ### Names of codes and severities -/

namespace Code

theorem ofName?_name (code : Code) : ofName? code.name = some code := by
  cases code with
  | entry field rule => cases field <;> cases rule <;> rfl
  | _ => rfl

theorem name_injective : Function.Injective name := fun a b h =>
  Option.some.inj (by rw [← ofName?_name a, h, ofName?_name b])

end Code

theorem Severity.name_injective : Function.Injective Severity.name := by
  intro a b h
  cases a <;> cases b <;> first | rfl | exact absurd h (by decide)

namespace Diagnostic

/-! ### The order -/

theorem compareText_eq : compareText = (Ord.compare : String → String → Ordering) := rfl

/-- Places are ordered as lists of texts. -/
theorem compareLocation_eq (p q : Location) : compareLocation p q = Ord.compare p q := by
  induction p generalizing q with
  | nil => cases q <;> rfl
  | cons a p ih =>
    cases q with
    | nil => rfl
    | cons b q =>
      rw [compareLocation, ih]
      exact List.compareLex_cons_cons.symm

theorem compare_eq_compareLex :
    compare = compareLex (compareOn fun d : Diagnostic => d.code.name)
      (compareLex (compareOn fun d => d.location) (compareOn fun d => d.severity.name)) := by
  funext a b
  rw [compare, compareLocation_eq]
  rfl

instance : Std.TransCmp compare := by
  rw [compare_eq_compareLex]
  infer_instance

/-- Whether the order does not tell two findings apart. -/
def Ties (a b : Diagnostic) : Prop :=
  a.code = b.code ∧ a.location = b.location ∧ a.severity = b.severity

/-- Findings compare equal when they have their code, place and severity in common. -/
theorem compare_eq_eq_iff {a b : Diagnostic} : compare a b = .eq ↔ Ties a b := by
  rw [compare, compareLocation_eq, compareText_eq, Ordering.then_eq_eq, Ordering.then_eq_eq,
    Std.LawfulEqCmp.compare_eq_iff_eq, Std.LawfulEqCmp.compare_eq_iff_eq,
    Std.LawfulEqCmp.compare_eq_iff_eq, Code.name_injective.eq_iff, Severity.name_injective.eq_iff,
    Ties]

theorem isLE_trans (a b c : Diagnostic) (hab : (compare a b).isLE = true)
    (hbc : (compare b c).isLE = true) : (compare a c).isLE = true :=
  Std.TransCmp.isLE_trans hab hbc

theorem isLE_total (a b : Diagnostic) : ((compare a b).isLE || (compare b a).isLE) = true := by
  have hswap : compare b a = (compare a b).swap := Std.OrientedCmp.eq_swap
  rw [hswap]
  cases compare a b <;> rfl

/-! ### Sorted lists -/

variable {ds : List Diagnostic}

theorem sort_perm (ds : List Diagnostic) : (sort ds).Perm ds := List.mergeSort_perm _ _

theorem pairwise_sort (ds : List Diagnostic) :
    (sort ds).Pairwise fun a b => (compare a b).isLE = true :=
  List.pairwise_mergeSort isLE_trans isLE_total ds

/-- Sorting is stable: the findings that compare equal to one are left in their order. -/
theorem filter_sort (ds : List Diagnostic) (a : Diagnostic) :
    (sort ds).filter (fun d => (compare a d).isEq) = ds.filter fun d => (compare a d).isEq := by
  have hties : (ds.filter fun d => (compare a d).isEq).Pairwise fun b c =>
      (compare b c).isLE = true := by
    refine List.pairwise_of_forall_mem_list fun b hb c hc => ?_
    have hb : compare a b = .eq := by simpa using (List.mem_filter.mp hb).2
    have hc : compare a c = .eq := by simpa using (List.mem_filter.mp hc).2
    have hb : compare b a = .eq := Std.OrientedCmp.eq_comm.mp hb
    exact isLE_trans b a c (by rw [hb]; rfl) (by rw [hc]; rfl)
  have hsub := (List.sublist_mergeSort isLE_trans isLE_total hties List.filter_sublist).filter
    fun d => (compare a d).isEq
  simp only [List.filter_filter, Bool.and_self] at hsub
  exact (hsub.eq_of_length ((sort_perm ds).filter _).length_eq.symm).symm

/-- Whether only equal findings tie. -/
def TiesAgree (ds : List Diagnostic) : Prop := ∀ a ∈ ds, ∀ b ∈ ds, Ties a b → a = b

/-- Findings of which only equal ones tie are sorted alike in every order. -/
theorem TiesAgree.sort_eq (h : TiesAgree ds) {ds' : List Diagnostic} (hperm : ds'.Perm ds) :
    sort ds' = sort ds := by
  have hsorted := (sort_perm ds').trans (hperm.trans (sort_perm ds).symm)
  refine hsorted.eq_of_pairwise (fun a b ha hb hab hba => ?_) (pairwise_sort ds') (pairwise_sort ds)
  have ha := hperm.mem_iff.mp ((sort_perm ds').mem_iff.mp ha)
  have hb := (sort_perm ds).mem_iff.mp hb
  exact h a ha b hb (compare_eq_eq_iff.mp (Std.OrientedCmp.isLE_antisymm hab hba))

/-- In some order a finding comes before all others, and it stays before those that tie with it. -/
theorem exists_head?_filter_sort {a b : Diagnostic} (ha : a ∈ ds) (htie : Ties b a) :
    ∃ ds', ds'.Perm ds ∧ ((sort ds').filter fun d => (compare b d).isEq).head? = some a := by
  obtain ⟨front, back, rfl⟩ := List.append_of_mem ha
  refine ⟨a :: (front ++ back), List.perm_middle.symm, ?_⟩
  rw [filter_sort, List.filter_cons_of_pos (by rw [compare_eq_eq_iff.mpr htie]; rfl)]
  rfl

/-- Findings are sorted alike in every order exactly when only equal ones tie. -/
theorem sort_eq_iff_of_perm (ds : List Diagnostic) :
    (∀ ds', ds'.Perm ds → sort ds' = sort ds) ↔ TiesAgree ds := by
  refine ⟨fun h a ha b hb htie => ?_, fun h ds' hperm => h.sort_eq hperm⟩
  obtain ⟨first, hfirst, ha⟩ := exists_head?_filter_sort ha ⟨rfl, rfl, rfl⟩
  obtain ⟨second, hsecond, hb⟩ := exists_head?_filter_sort hb htie
  rw [h first hfirst] at ha
  rw [h second hsecond, ha] at hb
  exact Option.some.inj hb

end Diagnostic

/-! ### Findings that tie -/

/-- Checks make findings that tie: all files that are rejected at one place for their extension give
such findings, which only tell by their arguments what file they are about. -/
theorem Context.ties_of_rejectsJsx {tree : FileTree} {path other : String} {location : Location}
    {globbed globbed' : Option String} {a b : Diagnostic}
    (ha : a ∈ (rejectsJsx path location globbed).findings tree)
    (hb : b ∈ (rejectsJsx other location globbed').findings tree) : a.Ties b := by
  have hall {path : String} {globbed : Option String} {d : Diagnostic}
      (hd : d ∈ (rejectsJsx path location globbed).findings tree) :
      d.code = .fileInvalidJsxExtension ∧ d.location = location ∧ d.severity = .error := by
    rw [Check.findings, run_rejectsJsx, jsxFindings] at hd
    split at hd
    · simp at hd
    · obtain rfl := List.mem_singleton.mp hd
      exact ⟨rfl, rfl, rfl⟩
  obtain ⟨hcode, hlocation, hseverity⟩ := hall ha
  obtain ⟨hcode', hlocation', hseverity'⟩ := hall hb
  exact ⟨hcode.trans hcode'.symm, hlocation.trans hlocation'.symm, hseverity.trans hseverity'.symm⟩

namespace Pass

open Diagnostic

/-- A log is sorted alike with every log of the same findings, and a result with every result of the
same findings, exactly when no two different findings of it agree in code, place and severity. -/
theorem sorted_alike_iff (log : Log) (result : Result) :
    ((∀ other : Log, other.findings.Perm log.findings → other.sorted = log.sorted)
        ↔ TiesAgree log.findings)
      ∧ ((∀ other : Result, other.diagnostics.Perm result.diagnostics →
            sort other.diagnostics = sort result.diagnostics)
        ↔ TiesAgree result.diagnostics) := by
  constructor
  · rw [← sort_eq_iff_of_perm]
    exact ⟨fun h ds hperm => h { findings := ds } hperm, fun h other hperm => h _ hperm⟩
  · rw [← sort_eq_iff_of_perm]
    exact ⟨fun h ds hperm => h { result with diagnostics := ds } hperm,
      fun h other hperm => h _ hperm⟩

end Pass

end PackageLint
