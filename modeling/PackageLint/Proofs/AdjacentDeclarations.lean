import PackageLint.Proofs.DeclarationVerdicts
import PackageLint.Proofs.InnerReadings
import PackageLint.Proofs.NearestManifests

/-!
# The format of the declaration beside code

Where code has a declaration beside it, nothing looks at the format of that declaration. This is sound
because the two cannot differ: the ending of the declaration states a format just where that of the
code does, and otherwise the manifest above decides, which is one and the same as both lie in one
directory. The searches for it even ask the same questions in the same order, so they agree on any
file tree and whatever changes between two questions.

Platform files are the exception. Their format is stated by what comes before the platform ending,
which the declaration beside them does not take into account.

## Main definitions

* `Path.IsFront` — the part of a path up to a slash

## Main results

* `Path.exists_join_front` — what is put below a path keeps its name behind one and the same front
* `Path.ancestors_congr` — the directories above depend on the parent only
* `Source.adjacentDeclaration_append` — the declaration beside code, ending by ending
* `Declarations.adjacent_format_agrees` — it has the format of the code
-/

namespace PackageLint

/-- Checks that ask the same questions end with one value on every tree. -/
theorem Check.value_congr {α : Type} {tree : FileTree} {c c' : Check α} {a a' : α} (h : c = c')
    (hc : c.run tree = ⟨[], .ok a⟩) (hc' : c'.run tree = ⟨[], .ok a'⟩) : a = a' := by
  subst h
  simpa using hc.symm.trans hc'

/-! ### Fronts of paths -/

namespace Path

variable {front : List Char} {e e' : List Char}

/-- Whether a text is what comes before a name in a path: nothing, or something up to a slash. -/
def IsFront (front : List Char) : Prop := front = [] ∨ ∃ before, front = before ++ ['/']

theorem splitLast_spec (cs : List Char) :
    IsFront (splitLast cs).1 ∧ '/' ∉ (splitLast cs).2 := by
  induction cs with
  | nil => exact ⟨Or.inl rfl, List.not_mem_nil⟩
  | cons c rest ih =>
    obtain ⟨hfront, hname⟩ := ih
    simp only [splitLast]
    split
    next hname' =>
      simp only [Bool.and_eq_true, decide_eq_true_eq, bne_iff_ne, ne_eq] at hname'
      refine ⟨Or.inl rfl, ?_⟩
      simpa [hname, eq_comm] using hname'.2
    next hslash =>
      refine ⟨Or.inr ?_, hname⟩
      rcases hfront with hnil | ⟨before, hbefore⟩
      · obtain rfl : c = '/' := by simpa [hnil] using hslash
        exact ⟨[], by simp [hnil]⟩
      · exact ⟨c :: before, by simp [hbefore]⟩

/-- Every path is a front with a name behind it. -/
theorem exists_front (cs : List Char) : ∃ front name, cs = front ++ name ∧ IsFront front ∧ '/' ∉ name :=
  ⟨_, _, (splitLast_fst_append cs).symm, splitLast_spec cs⟩

theorem splitLast_front (hfront : IsFront front) (he : '/' ∉ e) : splitLast (front ++ e) = (front, e) := by
  rcases hfront with rfl | ⟨before, rfl⟩
  · exact splitLast_name he
  · rw [List.append_assoc, List.singleton_append, splitLast_append he]

theorem suffix_front_iff (hfront : IsFront front) (he : '/' ∉ e) {s : List Char} :
    e <:+ front ++ s ↔ e <:+ s := by
  rcases hfront with rfl | ⟨before, rfl⟩
  · rw [List.nil_append]
  · rw [List.append_assoc, List.singleton_append, Text.suffix_append_sep he]

/-- Paths with one front have one parent. -/
theorem parent_append (stem : String) {ending ending' : String} (h : '/' ∉ ending.toList)
    (h' : '/' ∉ ending'.toList) : parent (stem ++ ending) = parent (stem ++ ending') := by
  obtain ⟨front, name, hstem, hfront, hname⟩ := exists_front stem.toList
  have hsplit : ∀ {e : List Char}, '/' ∉ e →
      splitLast (stem.toList ++ e) = (front, name ++ e) := by
    intro e he
    rw [hstem, List.append_assoc, splitLast_front hfront (by simp [hname, he])]
  simp only [parent, parentChars, String.toList_append, hsplit h, hsplit h']

/-- The directories above a path depend on its parent only. -/
theorem ancestors_congr {path path' : String} (h : parent path = parent path') :
    ancestors path = ancestors path' := by
  rw [ancestors, h, ancestorsFrom_parent]
  rw [← h]
  exact length_parent_le path

theorem exists_front_ofSegments (k : Nat) (segments : List Segment) :
    ∃ stem, IsFront stem ∧ ∀ s, ofSegments k (segments ++ [s]) = stem ++ s := by
  by_cases hnil : segments = []
  · subst hnil
    refine ⟨List.replicate k '/', ?_, fun s => by simp [ofSegments, List.intercalate]⟩
    cases k with
    | zero => exact Or.inl rfl
    | succ k => exact Or.inr ⟨List.replicate k '/', List.replicate_succ'⟩
  · refine ⟨ofSegments k segments ++ ['/'], Or.inr ⟨_, rfl⟩, fun s => ?_⟩
    rw [ofSegments_concat hnil, List.append_assoc, List.singleton_append]

/-- A name behind a front is the last piece of what is put below a path. -/
theorem exists_pieces_front (hfront : IsFront front) :
    ∃ before, ∀ s, IsName s →
      Text.pieces '/' (Text.stripLeading '/' (front ++ s)) = before ++ [s] := by
  have hstrip : ∀ s, IsName s →
      Text.stripLeading '/' (front ++ s) = Text.stripLeading '/' front ++ s := by
    intro s hs
    have hself := stripLeading_name hs
    rw [Text.stripLeading] at hself
    rw [Text.stripLeading, List.dropWhile_append, hself]
    split
    next hnil => rw [Text.stripLeading, List.isEmpty_iff.mp hnil, List.nil_append]
    next => rfl
  have hrest : IsFront (Text.stripLeading '/' front) := by
    rcases hfront with rfl | ⟨before, rfl⟩
    · exact Or.inl rfl
    · rw [Text.stripLeading, List.dropWhile_append]
      split
      · exact Or.inl (by simp)
      · exact Or.inr ⟨_, rfl⟩
  rcases hrest with hnil | ⟨before, hbefore⟩
  · refine ⟨[], fun s hs => ?_⟩
    rw [hstrip s hs, hnil, List.nil_append, Text.pieces_of_not_mem hs.no_slash, List.nil_append]
  · refine ⟨Text.pieces '/' before, fun s hs => ?_⟩
    rw [hstrip s hs, hbefore, List.append_assoc, List.singleton_append, Text.pieces_append_sep,
      Text.pieces_of_not_mem hs.no_slash]

/-- Names that are put below a path behind one front end up behind one front. -/
theorem exists_join_front (base : String) (hfront : IsFront front) :
    ∃ stem, IsFront stem ∧ ∀ s, IsName s →
      (join base (String.ofList (front ++ s))).toList = stem ++ s := by
  obtain ⟨before, hpieces⟩ := exists_pieces_front hfront
  let stack := before.foldl (pushSegment (rootSlashes base.toList != 0))
    (normalSegments base.toList).reverse
  obtain ⟨stem, hstem, hall⟩ := exists_front_ofSegments (rootSlashes base.toList) stack.reverse
  refine ⟨stem, hstem, fun s hs => ?_⟩
  have hhead := head?_stripLeading '/' (front ++ s)
  have hlast : (front ++ s).getLast? ≠ some '/' := by
    rw [List.getLast?_append_of_ne_nil _ hs.ne_nil]
    exact getLast?_name hs
  have hsegments : normalSegments (appendPart base.toList (Text.stripLeading '/' (front ++ s)))
      = stack.reverse ++ [s] := by
    rw [normalSegments_appendPart _ hhead, hpieces s hs, List.foldl_append, List.foldl_cons,
      List.foldl_nil, pushSegment_name hs, List.reverse_cons]
  rw [toList_join, joinChars_eq, String.toList_ofList, if_neg hlast, ← hall s, ← hsegments,
    ← rootSlashes_appendPart _ hhead]
  rcases normalizeChars_eq (appendPart base.toList (Text.stripLeading '/' (front ++ s))) with
    ⟨-, hnil, -⟩ | ⟨-, heq⟩
  · simp [hsegments] at hnil
  · exact heq

/-- What is put below a path keeps all endings, and one ending may be exchanged before or after. -/
theorem exists_join_append (base stem : String) :
    ∃ stem', ∀ ending : String, IsName ending.toList →
      join base (stem ++ ending) = stem' ++ ending
        ∧ ∀ other : String, '/' ∉ other.toList →
            Text.hasEnd (stem' ++ ending) other = Text.hasEnd (stem ++ ending) other := by
  obtain ⟨front, name, hstem, hfront, hname⟩ := exists_front stem.toList
  obtain ⟨before, hbefore, hall⟩ := exists_join_front base hfront
  refine ⟨String.ofList (before ++ name), fun ending hending => ⟨?_, fun other hother => ?_⟩⟩
  · have hpart : stem ++ ending = String.ofList (front ++ (name ++ ending.toList)) := by
      rw [← String.toList_inj, String.toList_append, String.toList_ofList, hstem, List.append_assoc]
    rw [hpart, ← String.toList_inj, hall _ (hending.append hname), String.toList_append,
      String.toList_ofList, List.append_assoc]
  · rw [Bool.eq_iff_iff, Text.hasEnd, Text.hasEnd, List.isSuffixOf_iff_suffix,
      List.isSuffixOf_iff_suffix, String.toList_append, String.toList_append, String.toList_ofList,
      hstem, List.append_assoc, List.append_assoc, suffix_front_iff hbefore hother,
      suffix_front_iff hfront hother]

end Path

/-! ### The declaration beside code -/

namespace Source

/-- The endings of code that a type-checker reads, with those of the declarations beside it. -/
def typedEndings : List (String × String) :=
  [(".js", ".d.ts"), (".mjs", ".d.mts"), (".cjs", ".d.cts"), (".jsx", ".d.ts")]

theorem adjacentDeclaration_append {change : String × String} (h : change ∈ typedEndings)
    (stem : String) : adjacentDeclaration (stem ++ change.1) = stem ++ change.2 := by
  simp only [typedEndings, List.mem_cons, List.not_mem_nil, or_false] at h
  rcases h with rfl | rfl | rfl | rfl <;>
    simp [adjacentDeclaration, declarationEndings, changeEnding?, Text.hasEnd, List.isSuffixOf,
      List.isPrefixOf, Text.dropEnd_append]

theorem isName_typedEndings {change : String × String} (h : change ∈ typedEndings) :
    Path.IsName change.1.toList ∧ Path.IsName change.2.toList := by
  revert change
  decide

end Source

namespace Manifest

theorem inheritedFormat_congr {path path' : String} (h : Path.parent path = Path.parent path') :
    inheritedFormat path = inheritedFormat path' := by
  simp only [inheritedFormat, nearest, Path.ancestors_congr h]

/-- The declaration beside code has the format of the code, and the same questions are asked for
both. -/
theorem expectedDeclarationFormat_append {change : String × String}
    (h : change ∈ Source.typedEndings) {stem : String}
    (hplain : Text.hasEnd (stem ++ change.1) platformEnding = false) :
    expectedDeclarationFormat (stem ++ change.2) = expectedFormat (stem ++ change.1) := by
  obtain ⟨hold, hnew⟩ := Source.isName_typedEndings h
  have hparent : inheritedFormat (stem ++ change.2) = inheritedFormat (stem ++ change.1) :=
    inheritedFormat_congr (Path.parent_append stem hnew.no_slash hold.no_slash)
  rw [expectedFormat, Text.dropEnd_of_not_hasEnd hplain, expectedDeclarationFormat, hparent]
  simp only [Source.typedEndings, List.mem_cons, List.not_mem_nil, or_false] at h
  rcases h with rfl | rfl | rfl | rfl <;>
    simp [Text.hasEnd, List.isSuffixOf, List.isPrefixOf]

/-- Where the same questions are asked, any tree gives the same answer. -/
theorem format_eq_of_check_eq {path path' : String}
    (h : expectedDeclarationFormat path = expectedFormat path') (tree : FileTree) :
    tree.expectedDeclarationFormat path = tree.expectedFormat path' :=
  Check.value_congr h (run_expectedDeclarationFormat tree path) (run_expectedFormat tree path')

end Manifest

namespace Declarations

/-- Code with an ending that is no platform ending and the declaration beside it lie in one directory,
and any tree gives both one format. So where the declaration is there, the check of a target may leave
it at that: below any directory it is the declaration beside the code, and has the format of the code. -/
theorem adjacent_format_agrees {path : String}
    (hcode : Source.endsInOneOf [".js", ".mjs", ".cjs", ".jsx"] path = true)
    (hplain : Text.hasEnd path ".native.js" = false) :
    let beside := Source.adjacentDeclaration path
    Path.parent beside = Path.parent path
      ∧ Source.isDeclaration beside = true
      ∧ Manifest.expectedDeclarationFormat beside = Manifest.expectedFormat path
      ∧ (∀ tree : FileTree, tree.expectedDeclarationFormat beside = tree.expectedFormat path)
      ∧ ∀ (tree : FileTree) (ctx : Context) (condition : Condition) (location : Location)
          (shipped : String),
          ctx.within beside = Source.adjacentDeclaration (ctx.within path)
            ∧ tree.expectedDeclarationFormat (ctx.within beside)
                = tree.expectedFormat (ctx.within path)
            ∧ (tree.isThere (ctx.within beside) = true →
                (checkAdjacent ctx condition { target := path, location } shipped).run tree
                  = ⟨[], .ok ()⟩) := by
  intro beside
  obtain ⟨change, hchange, stem, rfl⟩ :
      ∃ change ∈ Source.typedEndings, ∃ stem, path = stem ++ change.1 := by
    obtain ⟨ending, hending, hend⟩ := List.any_eq_true.mp hcode
    have hmem : ending ∈ Source.typedEndings.map (·.1) := hending
    obtain ⟨change, hchange, rfl⟩ := List.mem_map.mp hmem
    exact ⟨change, hchange, Text.hasEnd_iff.mp hend⟩
  have hbeside : beside = stem ++ change.2 := Source.adjacentDeclaration_append hchange stem
  obtain ⟨hold, hnew⟩ := Source.isName_typedEndings hchange
  have hformat := Manifest.expectedDeclarationFormat_append hchange hplain
  rw [hbeside]
  refine ⟨Path.parent_append stem hnew.no_slash hold.no_slash, ?_, hformat,
    Manifest.format_eq_of_check_eq hformat, fun tree ctx condition location shipped => ?_⟩
  · have hall : ∀ change ∈ Source.typedEndings, change.2 ∈ [".d.ts", ".d.mts", ".d.cts"] := by
      decide
    refine List.any_eq_true.mpr ⟨change.2, hall change hchange, ?_⟩
    rw [Source.hasLineEnd, Text.hasEnd_append, Bool.true_or]
  · obtain ⟨stem', hjoin⟩ := Path.exists_join_append ctx.pkgDir stem
    obtain ⟨hcode', hends⟩ := hjoin change.1 hold
    have hbeside' : ctx.within (stem ++ change.2) = stem' ++ change.2 := (hjoin change.2 hnew).1
    have hplain' : Text.hasEnd (stem' ++ change.1) Manifest.platformEnding = false :=
      (hends _ (by decide)).trans hplain
    refine ⟨?_, ?_, fun hthere => ?_⟩
    · rw [hbeside', Context.within, hcode', Source.adjacentDeclaration_append hchange]
    · rw [hbeside', Context.within, hcode']
      exact Manifest.format_eq_of_check_eq
        (Manifest.expectedDeclarationFormat_append hchange hplain') tree
    · rw [checkAdjacent, Check.bind_eq, Check.run_isThere_bind, if_pos]
      · rfl
      · rwa [Source.adjacentDeclaration_append hchange]

/-- A file that is called like its ending has a declaration beside it like any other. -/
theorem hidden_script_agrees :
    Source.adjacentDeclaration "/p/.js" = "/p/.d.ts"
      ∧ ∀ tree : FileTree,
          tree.expectedDeclarationFormat (Source.adjacentDeclaration "/p/.js")
            = tree.expectedFormat "/p/.js" :=
  ⟨by decide, (adjacent_format_agrees (by decide) (by decide)).2.2.2.1⟩

-- What comes before the platform ending states a format here, and the declaration knows nothing of it.
example :
    let tree := MemoryTree.empty.toFileTree
    tree.expectedFormat "/a.mjs.native.js" = .esm
      ∧ tree.expectedDeclarationFormat (Source.adjacentDeclaration "/a.mjs.native.js") = .cjs := by
  decide +kernel

end Declarations

end PackageLint
