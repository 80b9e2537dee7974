import PackageLint.Proofs.DeclarationVerdicts

/-!
# What leaving out repetitions comes to

Requests that lead to one place with one mark are looked at once. Where code comes in two formats
the mark holds the condition, so that what is left out was found already. Elsewhere it does not, and
the first request that leads to a declaration speaks for all: what the others would find is not
looked for. A declaration that is reached both ways is looked at once for each, and gives rise to
the same finding twice when both agree.

## Main definitions

* `Declarations.Root.IsFirst` — no request before leads to the same place
* `Declarations.Paired` — a declaration has the format of the code it describes
* `Declarations.Unfit` — a declaration has another format than a condition by itself

## Main results

* `Declarations.check_keeps_findings` — what is found at last, compared to looking at every request
* `Declarations.nodup_findings_check`, `Declarations.found_twice_iff` — which findings are reported
  twice
* `Declarations.wrong_format_iff` — the declarations that are reported when all code is paired
-/

namespace PackageLint.Declarations

open ConditionTree (Resolved)

variable {tree : FileTree} {ctx : Context} {root : Root} {request other : Request}
  {found found' : Resolved} {d : Diagnostic}

/-! ### Requests with one identity -/

/-- The requests that are looked at before a request. -/
def Request.before (request : Request) : List Request := requests.takeWhile (· ≠ request)

/-- No request before leads to the place of this one, those aside where code comes in two
formats. -/
def Root.IsFirst (root : Root) (request : Request) : Prop :=
  ∀ earlier ∈ request.before, root.isDual earlier.environment = false →
    ∀ found ∈ root.types request, ∀ other ∈ root.types earlier, other.location ≠ found.location

theorem before_subset (request : Request) : request.before ⊆ requests := List.takeWhile_subset _

theorem mark_of_dual (h : root.isDual request.environment = true) :
    root.mark request = some request.condition := if_pos h

theorem mark_eq_none_iff : root.mark request = none ↔ root.isDual request.environment = false := by
  rw [Root.mark]
  cases root.isDual request.environment <;> simp

theorem isDual_of_mark {condition : Condition} (h : root.mark request = some condition) :
    root.isDual request.environment = true ∧ request.condition = condition := by
  rw [Root.mark] at h
  split at h
  next hdual => exact ⟨hdual, Option.some.inj h⟩
  next => exact absurd h (by simp)

theorem identity?_eq_iff (hrequest : request ∈ requests) (hother : other ∈ requests)
    (hfound : root.types request = some found) :
    root.identity? other = root.identity? request
      ↔ ∃ found', root.types other = some found' ∧ found'.location = found.location
          ∧ root.mark other = root.mark request := by
  rw [Root.identity?, Root.identity?, hfound, Option.map_some, Option.map_eq_some_iff]
  refine exists_congr fun found' => and_congr_right fun hfound' => ?_
  exact identity_eq_iff hother hrequest hfound' hfound

/-- A request is looked at exactly when no request before led to its place with its mark. -/
theorem mem_kept_iff_places (hrequest : request ∈ requests)
    (hfound : root.types request = some found) :
    request ∈ root.kept [] requests
      ↔ ∀ earlier ∈ request.before, ∀ found' ∈ root.types earlier,
          found'.location = found.location → root.mark earlier ≠ root.mark request := by
  have hidentity : root.identity? request = some (root.identity request found) := by
    rw [Root.identity?, hfound, Option.map_some]
  rw [Root.mem_kept_iff]
  constructor
  · rintro ⟨-, identity, hsome, -, hnone⟩ earlier hearlier found' hfound' hplace hmark
    refine hnone earlier hearlier ?_
    rw [← hsome]
    exact (identity?_eq_iff hrequest (before_subset request hearlier) hfound).mpr
      ⟨found', hfound', hplace, hmark⟩
  · intro hapart
    refine ⟨hrequest, _, hidentity, List.not_mem_nil, fun earlier hearlier hsame => ?_⟩
    obtain ⟨found', hfound', hplace, hmark⟩ :=
      (identity?_eq_iff hrequest (before_subset request hearlier) hfound).mp
        (hsame.trans hidentity.symm)
    exact hapart earlier hearlier found' hfound' hplace hmark

/-- Where code comes in one format, a request is looked at when it leads to its place for the first
time. -/
theorem mem_kept_iff_isFirst (hrequest : request ∈ requests)
    (hsingle : root.isDual request.environment = false) (hfound : root.types request = some found) :
    request ∈ root.kept [] requests ↔ root.IsFirst request := by
  have hmark : root.mark request = none := mark_eq_none_iff.mpr hsingle
  rw [mem_kept_iff_places hrequest hfound, hmark]
  constructor
  · intro hapart earlier hearlier hdual found₁ hfound₁ found₂ hfound₂ hplace
    obtain rfl : found = found₁ := Option.some.inj (hfound.symm.trans hfound₁)
    exact hapart earlier hearlier found₂ hfound₂ hplace (mark_eq_none_iff.mpr hdual)
  · intro hfirst earlier hearlier found' hfound' hplace hmark'
    exact hfirst earlier hearlier (mark_eq_none_iff.mp hmark') found hfound found' hfound' hplace

/-- A place has one target. -/
theorem types_eq_of_location (hd : root.tree.DistinctKeys)
    (hfound : root.types request = some found) (hfound' : root.types other = some found')
    (hplace : found'.location = found.location) : root.types other = root.types request := by
  obtain ⟨place, hlocation, hat⟩ := ConditionTree.at?_of_resolve hd hfound
  obtain ⟨place', hlocation', hat'⟩ := ConditionTree.at?_of_resolve hd hfound'
  obtain rfl : place' = place := by
    rw [hlocation, hlocation'] at hplace
    exact List.append_cancel_left hplace
  have htarget : found'.target = found.target := by simpa [hat] using hat'.symm
  obtain ⟨target, location⟩ := found
  obtain ⟨target', location'⟩ := found'
  rw [hfound, hfound', Option.some.injEq, Resolved.mk.injEq]
  exact ⟨htarget, hplace⟩

/-- Every request that leads somewhere leads to what some request that is looked at leads to, with
the same mark. -/
theorem exists_kept_alike (hd : root.tree.DistinctKeys) (hrequest : request ∈ requests)
    (hfound : root.types request = some found) :
    ∃ other ∈ root.kept [] requests, root.types other = root.types request
      ∧ root.mark other = root.mark request := by
  have hidentity : root.identity? request = some (root.identity request found) := by
    rw [Root.identity?, hfound, Option.map_some]
  obtain ⟨other, hkept, hother⟩ := Root.exists_kept hrequest hidentity List.not_mem_nil
  have hmem := (root.kept_sublist [] requests).subset hkept
  obtain ⟨found', hfound', hplace, hmark⟩ :=
    (identity?_eq_iff hrequest hmem hfound).mp (hother.trans hidentity.symm)
  exact ⟨other, hkept, types_eq_of_location hd hfound hfound' hplace, hmark⟩

/-- Where code comes in two formats, requests that are alike have the same verdict. -/
theorem verdict_of_dual (hdual : root.isDual request.environment = true)
    (htypes : root.types other = root.types request) (hmark : root.mark other = root.mark request) :
    verdict tree ctx root other = verdict tree ctx root request := by
  obtain ⟨hdual', hcondition⟩ := isDual_of_mark (hmark.trans (mark_of_dual hdual))
  refine verdict_congr htypes hcondition ?_
  rw [Root.described, Root.described, if_pos hdual, if_pos hdual']

/-- What is found about a request where code comes in two formats is found by one that is looked
at. -/
theorem exists_kept_verdict (hd : root.tree.DistinctKeys) (hrequest : request ∈ requests)
    (hdual : root.isDual request.environment = true) (h : verdict tree ctx root request = some d) :
    ∃ other ∈ root.kept [] requests, root.isDual other.environment = true
      ∧ verdict tree ctx root other = some d := by
  obtain ⟨found, hfound, -⟩ := location_of_verdict h
  obtain ⟨other, hkept, htypes, hmark⟩ := exists_kept_alike hd hrequest hfound
  refine ⟨other, hkept, (isDual_of_mark (hmark.trans (mark_of_dual hdual))).1, ?_⟩
  rw [verdict_of_dual hdual htypes hmark, h]

/-! ### What is kept -/

/-- What a request gives rise to is found by one that is looked at, where code comes in two formats
or the request leads to its place for the first time. -/
theorem exists_kept_of_looked (hd : root.tree.DistinctKeys) (hrequest : request ∈ requests)
    (hlooked : root.isDual request.environment = true ∨ root.IsFirst request)
    (h : verdict tree ctx root request = some d) :
    ∃ other ∈ root.kept [] requests, verdict tree ctx root other = some d := by
  cases hdual : root.isDual request.environment with
  | true =>
    obtain ⟨other, hkept, -, hother⟩ := exists_kept_verdict hd hrequest hdual h
    exact ⟨other, hkept, hother⟩
  | false =>
    obtain ⟨found, hfound, -⟩ := location_of_verdict h
    have hfirst : root.IsFirst request := hlooked.resolve_left (by simp [hdual])
    exact ⟨request, (mem_kept_iff_isFirst hrequest hdual hfound).mpr hfirst, h⟩

/-- Code without a declaration is found whatever the condition is. -/
theorem verdict_notExported (htypes : root.types other = root.types request)
    (h : verdict tree ctx root request = some d) (hcode : d.code = .typesNotExported) :
    ∃ d', verdict tree ctx root other = some d' ∧ d'.code = .typesNotExported
      ∧ d'.location = d.location := by
  obtain ⟨shipped, found, hshipped, hfound, hat⟩ := verdict_eq_some_iff.mp h
  obtain ⟨hthere, ⟨-, -, rfl⟩ | ⟨hcodeFile, hmissing, rfl⟩⟩ := findingAt_eq_some_iff.mp hat
  · exact absurd hcode (by simp [wrongFormat])
  · refine ⟨notExported other.condition found shipped
      (tree.expectedDeclarationFormat (ctx.within shipped)), ?_, rfl, rfl⟩
    refine verdict_eq_some_iff.mpr ⟨shipped, found, hshipped, htypes.trans hfound, ?_⟩
    exact findingAt_eq_some_iff.mpr ⟨hthere, Or.inr ⟨hcodeFile, hmissing, rfl⟩⟩

/-- Everything that the check of a root entry finds is found by looking at every request. What a
request gives rise to is found where code comes in two formats, and otherwise when the request leads
to its place for the first time. Code without a declaration is found at every place where it would
be. -/
theorem check_keeps_findings (tree : MemoryTree) (ctx : Context) (root : Root)
    (hd : root.tree.DistinctKeys) :
    let found := (check ctx root).findings tree.toFileTree
    let all := (checkEach ctx root requests).findings tree.toFileTree
    found ⊆ all
      ∧ (∀ request ∈ requests,
          root.isDual request.environment = true ∨ root.IsFirst request →
            (checkEach ctx root [request]).findings tree.toFileTree ⊆ found)
      ∧ ∀ d ∈ all, d.code = .typesNotExported →
          ∃ d' ∈ found, d'.code = .typesNotExported ∧ d'.location = d.location := by
  intro found all
  have hany := tree.takesAnyPath
  refine ⟨?_, ?_, ?_⟩
  · intro d hfound
    obtain ⟨request, hkept, hverdict⟩ := (mem_check hany).mp hfound
    have hrequest := (root.kept_sublist [] requests).subset hkept
    exact (mem_checkEach hany).mpr ⟨request, hrequest, hverdict⟩
  · intro request hrequest hlooked d hdue
    have hverdict := (mem_checkEach_single hany).mp hdue
    exact (mem_check hany).mpr (exists_kept_of_looked hd hrequest hlooked hverdict)
  · intro d hall hcode
    obtain ⟨request, hrequest, hverdict⟩ := (mem_checkEach hany).mp hall
    obtain ⟨target, htarget, -⟩ := location_of_verdict hverdict
    obtain ⟨other, hkept, htypes, -⟩ := exists_kept_alike hd hrequest htarget
    obtain ⟨d', hother, hcode', hplace⟩ := verdict_notExported htypes hverdict hcode
    exact ⟨d', (mem_check hany).mpr ⟨other, hkept, hother⟩, hcode', hplace⟩

/-- A declaration that is shared is found to be wrong for `import`, which leads to code of its
own. -/
theorem shared_declaration_found :
    (ConditionTree.map [("types", .leaf "./a.d.ts"), ("import", .leaf "./a.mjs"),
        ("require", .leaf "./a.cjs")]).DistinctKeys
      ∧ ∃ (tree : MemoryTree) (ctx : Context) (root : Root),
          root? (.map [("types", .leaf "./a.d.ts"), ("import", .leaf "./a.mjs"),
            ("require", .leaf "./a.cjs")]) ["exports"] = some root
          ∧ wrongFormat .import { target := "./a.d.ts", location := ["exports", "types"] } .cjs .esm
            ∈ (check ctx root).findings tree.toFileTree := by
  let exports : ConditionTree :=
    .map [("types", .leaf "./a.d.ts"), ("import", .leaf "./a.mjs"), ("require", .leaf "./a.cjs")]
  let tree : MemoryTree :=
    { files := [("/p/a.d.ts", ""), ("/p/a.mjs", ""), ("/p/a.cjs", "")] }
  let ctx : Context := { pkgDir := "/p", manifest := [("types", .str "./a.d.ts")], depth := 2 }
  let root : Root := { tree := exports, location := ["exports"] }
  have hd : exports.DistinctKeys := by
    simp [exports, ConditionTree.DistinctKeys, ConditionTree.EntriesDistinct, Assoc.keys]
  have hverdict : verdict tree.toFileTree ctx root ⟨none, .import⟩
      = some (wrongFormat .import { target := "./a.d.ts", location := ["exports", "types"] }
          .cjs .esm) :=
    verdict_wrongFormat (by decide) (by decide) (by decide) (by decide) (by decide)
      (by decide) (by decide)
  obtain ⟨-, hkeeps, -⟩ := check_keeps_findings tree ctx root hd
  refine ⟨hd, tree, ctx, root, rfl, hkeeps ⟨none, .import⟩ (by decide) (Or.inl (by decide)) ?_⟩
  exact (mem_checkEach_single tree.takesAnyPath).mpr hverdict

/-- A declaration for both conditions is held against one of them only, though it is wrong for the
other one too. -/
theorem shared_declaration_judged_once :
    ∃ (tree : MemoryTree) (ctx : Context) (root : Root),
      root? (.map [("types", .leaf "./a.d.ts"), ("default", .leaf "./a.mjs")]) ["exports"]
          = some root
        ∧ ∃ d ∈ (checkEach ctx root requests).findings tree.toFileTree,
            d ∉ (check ctx root).findings tree.toFileTree := by
  let tree : MemoryTree := { files := [("/p/a.d.ts", ""), ("/p/a.mjs", "")] }
  let ctx : Context := { pkgDir := "/p", manifest := [("types", .str "./a.d.ts")], depth := 2 }
  let root : Root :=
    { tree := .map [("types", .leaf "./a.d.ts"), ("default", .leaf "./a.mjs")]
      location := ["exports"] }
  let declaration : Resolved := { target := "./a.d.ts", location := ["exports", "types"] }
  have hverdict : verdict tree.toFileTree ctx root ⟨none, .require⟩
      = some (wrongFormat .require declaration .cjs .esm) :=
    verdict_wrongFormat (by decide) (by decide) (by decide) (by decide) (by decide)
      (by decide) (by decide)
  have hkept : root.kept [] requests = [⟨none, .import⟩] := by decide
  refine ⟨tree, ctx, root, rfl, wrongFormat .require declaration .cjs .esm, ?_, ?_⟩
  · exact (mem_checkEach tree.takesAnyPath).mpr ⟨_, by decide, hverdict⟩
  · rw [mem_check tree.takesAnyPath, hkept]
    rintro ⟨request, hrequest, hsame⟩
    obtain rfl := List.mem_singleton.mp hrequest
    exact absurd (condition_of_verdict hsame hverdict) (by decide)

/-! ### What is found twice -/

section Repetitions

variable {α β : Type} {f : α → Option β} {l : List α} {a b : α} {x : β}

/-- What occurs some times among the results of a list comes from as many of its items. -/
theorem exists_sublist_of_replicate {n : Nat} (h : (List.replicate n x).Sublist (l.filterMap f)) :
    ∃ l' : List α, l'.Sublist l ∧ l'.length = n ∧ ∀ a ∈ l', f a = some x := by
  obtain ⟨l', hsub, heq⟩ := List.sublist_filterMap_iff.mp h
  refine ⟨l'.filter fun a => (f a).isSome, List.filter_sublist.trans hsub, ?_, ?_⟩
  · rw [← List.countP_eq_length_filter, ← List.length_filterMap_eq_countP, ← heq,
      List.length_replicate]
  · intro a ha
    obtain ⟨hmem, hsome⟩ := List.mem_filter.mp ha
    obtain ⟨y, hy⟩ := Option.isSome_iff_exists.mp hsome
    have hmem' : y ∈ List.replicate n x := heq ▸ List.mem_filterMap.mpr ⟨a, hmem, hy⟩
    rw [hy, List.eq_of_mem_replicate hmem']

/-- Two items of a list come in one order or the other. -/
theorem pair_sublist (ha : a ∈ l) (hb : b ∈ l) (hne : a ≠ b) :
    [a, b].Sublist l ∨ [b, a].Sublist l := by
  obtain ⟨front, back, rfl⟩ := List.append_of_mem ha
  rcases List.mem_append.mp hb with hb | hb
  · exact Or.inr ((List.singleton_sublist.mpr hb).append
      (List.singleton_sublist.mpr List.mem_cons_self))
  · have hback : b ∈ back := (List.mem_cons.mp hb).resolve_left (Ne.symm hne)
    exact Or.inl ((List.cons_sublist_cons.mpr (List.singleton_sublist.mpr hback)).trans
      (List.sublist_append_right front _))

/-- Two items with the same result give it twice. -/
theorem pair_sublist_filterMap (ha : a ∈ l) (hb : b ∈ l) (hne : a ≠ b) (hfa : f a = some x)
    (hfb : f b = some x) : [x, x].Sublist (l.filterMap f) := by
  rcases pair_sublist ha hb hne with h | h
  · simpa [hfa, hfb] using h.filterMap f
  · simpa [hfa, hfb] using h.filterMap f

end Repetitions

/-- Of two requests that are looked at and give rise to one finding, one is made where code comes in
two formats, and the other is not. -/
theorem pairwise_dual_ne {asked : List Request} (hsub : asked.Sublist (root.kept [] requests))
    (h : ∀ request ∈ asked, verdict tree ctx root request = some d) :
    asked.Pairwise fun a b => root.isDual a.environment ≠ root.isDual b.environment := by
  have hrequests : asked ⊆ requests := (hsub.trans (root.kept_sublist [] requests)).subset
  refine (List.Pairwise.sublist hsub (root.pairwise_kept [] requests)).imp_of_mem ?_
  -- one finding is at one place and for one condition, so the marks tell its requests apart
  intro a b ha hb hidentity hdual
  obtain ⟨found, hfound, hplace⟩ := location_of_verdict (h a ha)
  obtain ⟨found', hfound', hplace'⟩ := location_of_verdict (h b hb)
  refine hidentity ((identity?_eq_iff (hrequests hb) (hrequests ha) hfound').mpr
    ⟨found, hfound, hplace.symm.trans hplace', ?_⟩)
  rw [Root.mark, Root.mark, hdual, condition_of_verdict (h a ha) (h b hb)]

/-- A finding that is reported twice comes from two requests that are looked at, one of them where
code comes in one format and one where it comes in two. -/
theorem exists_single_and_dual
    (h : [d, d].Sublist ((root.kept [] requests).filterMap (verdict tree ctx root))) :
    ∃ request ∈ root.kept [] requests, ∃ other ∈ root.kept [] requests,
      root.isDual request.environment = false ∧ root.isDual other.environment = true
        ∧ verdict tree ctx root request = some d ∧ verdict tree ctx root other = some d := by
  obtain ⟨asked, hsub, hlength, hverdict⟩ := exists_sublist_of_replicate (n := 2) h
  obtain ⟨a, b, rfl⟩ := List.length_eq_two.mp hlength
  have hdual : root.isDual a.environment ≠ root.isDual b.environment := by
    simpa using pairwise_dual_ne hsub hverdict
  have ha : a ∈ root.kept [] requests := hsub.subset (by simp)
  have hb : b ∈ root.kept [] requests := hsub.subset (by simp)
  have hfa := hverdict a (by simp)
  have hfb := hverdict b (by simp)
  cases hsingle : root.isDual a.environment with
  | false => exact ⟨a, ha, b, hb, hsingle, by simpa [hsingle] using hdual.symm, hfa, hfb⟩
  | true => exact ⟨b, hb, a, ha, by simpa [hsingle] using hdual.symm, hsingle, hfb, hfa⟩

theorem not_reported_thrice :
    ¬ [d, d, d].Sublist ((root.kept [] requests).filterMap (verdict tree ctx root)) := by
  intro h
  obtain ⟨asked, hsub, hlength, hverdict⟩ := exists_sublist_of_replicate (n := 3) h
  obtain ⟨a, b, c, rfl⟩ := List.length_eq_three.mp hlength
  have hdual := pairwise_dual_ne hsub hverdict
  simp only [List.pairwise_cons, List.mem_cons, List.not_mem_nil, or_false, forall_eq_or_imp,
    forall_eq] at hdual
  -- three requests cannot all differ in a Boolean
  cases ha : root.isDual a.environment <;> cases hb : root.isDual b.environment <;>
    cases hc : root.isDual c.environment <;> simp [ha, hb, hc] at hdual

/-- Nothing is reported twice where code comes in two formats in all environments or in none. -/
theorem nodup_findings_check (hany : tree.TakesAnyPath) {dual : Bool}
    (h : ∀ environment ∈ environments, root.isDual environment = dual) :
    ((check ctx root).findings tree).Nodup := by
  rw [findings_check hany, List.nodup_iff_sublist]
  intro d htwice
  obtain ⟨request, hrequest, other, hother, hsingle, hdual, -⟩ := exists_single_and_dual htwice
  have hsame : ∀ request ∈ root.kept [] requests, root.isDual request.environment = dual :=
    fun request hmem =>
      h _ (SameRoot.environment_mem ((root.kept_sublist [] requests).subset hmem))
  rw [hsame request hrequest] at hsingle
  rw [hsame other hother, hsingle] at hdual
  exact Bool.false_ne_true hdual

/-- A finding is reported twice exactly when two requests give rise to it: one that leads to its
place for the first time, where code comes in one format, and one where it comes in two. No finding
is reported more often. -/
theorem found_twice_iff (tree : MemoryTree) (ctx : Context) (root : Root)
    (hd : root.tree.DistinctKeys) (d : Diagnostic) :
    let found := (check ctx root).findings tree.toFileTree
    ([d, d].Sublist found ↔ ∃ request ∈ requests, ∃ other ∈ requests,
        root.isDual request.environment = false ∧ root.IsFirst request
          ∧ root.isDual other.environment = true
          ∧ d ∈ (checkEach ctx root [request]).findings tree.toFileTree
          ∧ d ∈ (checkEach ctx root [other]).findings tree.toFileTree)
      ∧ ¬ [d, d, d].Sublist found := by
  intro found
  have hany := tree.takesAnyPath
  have hfound : found = (root.kept [] requests).filterMap (verdict tree.toFileTree ctx root) :=
    findings_check hany ctx root
  have hkept := (root.kept_sublist [] requests).subset
  simp only [mem_checkEach_single hany, hfound]
  refine ⟨⟨?_, ?_⟩, not_reported_thrice⟩
  · intro htwice
    obtain ⟨request, hrequest, other, hother, hsingle, hdual, hverdict, hverdict'⟩ :=
      exists_single_and_dual htwice
    obtain ⟨target, htarget, -⟩ := location_of_verdict hverdict
    have hfirst := (mem_kept_iff_isFirst (hkept hrequest) hsingle htarget).mp hrequest
    exact ⟨request, hkept hrequest, other, hkept hother, hsingle, hfirst, hdual, hverdict,
      hverdict'⟩
  · rintro ⟨request, hrequest, other, hother, hsingle, hfirst, hdual, hverdict, hverdict'⟩
    obtain ⟨target, htarget, -⟩ := location_of_verdict hverdict
    have hmem := (mem_kept_iff_isFirst hrequest hsingle htarget).mpr hfirst
    obtain ⟨again, hagain, hdual', hverdict''⟩ := exists_kept_verdict hd hother hdual hverdict'
    refine pair_sublist_filterMap hmem hagain ?_ hverdict hverdict''
    rintro rfl
    simp [hsingle] at hdual'

/-- A declaration that `import` leads to both where code comes in one format and where it comes in
two is reported twice. -/
theorem shared_declaration_found_twice :
    (ConditionTree.map [("types", .leaf "./a.d.ts"),
        ("node", .map [("import", .leaf "./n.mjs"), ("require", .leaf "./n.cjs")]),
        ("default", .leaf "./d.mjs")]).DistinctKeys
      ∧ ∃ (tree : MemoryTree) (ctx : Context) (root : Root) (d : Diagnostic),
          root? (.map [("types", .leaf "./a.d.ts"),
            ("node", .map [("import", .leaf "./n.mjs"), ("require", .leaf "./n.cjs")]),
            ("default", .leaf "./d.mjs")]) ["exports"] = some root
          ∧ [d, d].Sublist ((check ctx root).findings tree.toFileTree) := by
  let exports : ConditionTree :=
    .map [("types", .leaf "./a.d.ts"),
      ("node", .map [("import", .leaf "./n.mjs"), ("require", .leaf "./n.cjs")]),
      ("default", .leaf "./d.mjs")]
  let tree : MemoryTree :=
    { files := [("/p/a.d.ts", ""), ("/p/n.mjs", ""), ("/p/n.cjs", ""), ("/p/d.mjs", "")] }
  let ctx : Context := { pkgDir := "/p", manifest := [("types", .str "./a.d.ts")], depth := 2 }
  let root : Root := { tree := exports, location := ["exports"] }
  let found : Resolved := { target := "./a.d.ts", location := ["exports", "types"] }
  have hd : exports.DistinctKeys := by
    simp [exports, ConditionTree.DistinctKeys, ConditionTree.EntriesDistinct, Assoc.keys]
  have hany := tree.takesAnyPath
  have hone : verdict tree.toFileTree ctx root ⟨none, .import⟩
      = some (wrongFormat .import found .cjs .esm) :=
    verdict_wrongFormat (by decide) (by decide) (by decide) (by decide) (by decide)
      (by decide) (by decide)
  have htwo : verdict tree.toFileTree ctx root ⟨some "node", .import⟩
      = some (wrongFormat .import found .cjs .esm) :=
    verdict_wrongFormat (by decide) (by decide) (by decide) (by decide) (by decide)
      (by decide) (by decide)
  have hfirst : root.IsFirst ⟨none, .import⟩ :=
    fun earlier hearlier => absurd hearlier List.not_mem_nil
  obtain ⟨htwice, -⟩ := found_twice_iff tree ctx root hd (wrongFormat .import found .cjs .esm)
  refine ⟨hd, tree, ctx, root, wrongFormat .import found .cjs .esm, rfl, htwice.mpr ?_⟩
  exact ⟨⟨none, .import⟩, by decide, ⟨some "node", .import⟩, by decide, by decide, hfirst,
    by decide, (mem_checkEach_single hany).mpr hone, (mem_checkEach_single hany).mpr htwo⟩

/-! ### Declarations that are paired with code -/

/-- A declaration is there and has the format of the code that it describes, which is there too. -/
structure Paired (tree : FileTree) (ctx : Context) (code found : Resolved) : Prop where
  code_there : tree.isThere (ctx.within code.target) = true
  found_there : tree.isThere (ctx.within found.target) = true
  isDeclaration : Source.isDeclaration found.target = true
  format_eq : tree.expectedDeclarationFormat (ctx.within found.target)
    = tree.expectedFormat (ctx.within code.target)

/-- A declaration is there and has another format than a condition by itself. -/
structure Unfit (tree : FileTree) (ctx : Context) (condition : Condition) (found : Resolved) :
    Prop where
  found_there : tree.isThere (ctx.within found.target) = true
  isDeclaration : Source.isDeclaration found.target = true
  format_ne : tree.expectedDeclarationFormat (ctx.within found.target) ≠ condition.format

/-- Code that is paired decides the format of its declaration. -/
theorem dueFormat_of_paired (hsingle : root.isDual request.environment = false) {code : Resolved}
    (hcode : root.code request.environment request.condition = some code)
    (h : Paired tree ctx code found) :
    dueFormat tree ctx root request = tree.expectedDeclarationFormat (ctx.within found.target) := by
  rw [dueFormat, Root.described, if_neg (by simp [hsingle]), hcode, codeFormat?, Option.filter_some,
    if_pos h.code_there, Option.map_some, Option.getD_some, h.format_eq]

/-- Without code the condition decides. -/
theorem dueFormat_of_no_code
    (hcode : root.code request.environment request.condition = none) :
    dueFormat tree ctx root request = request.condition.format := by
  rw [dueFormat, Root.described, hcode, ite_self]
  rfl

/-- Where code comes in one format and all code is paired with its declaration, a declaration of a
wrong format is reported exactly for the conditions that lead to no code, when the package ships a
declaration: the first time that it is led to, it is held against the format of the condition. -/
theorem wrong_format_iff (tree : MemoryTree) (ctx : Context) {root : Root}
    (hsingle : ∀ environment ∈ environments, root.isDual environment = false)
    (hpaired : ∀ request ∈ requests, ∀ code ∈ root.code request.environment request.condition,
      ∃ found ∈ root.types request, Paired tree.toFileTree ctx code found)
    {d : Diagnostic} (hcode : d.code = .exportsTypesInvalidFormat) :
    d ∈ (check ctx root).findings tree.toFileTree
      ↔ (shipped? tree.toFileTree ctx).isSome ∧ ∃ request ∈ requests, ∃ found ∈ root.types request,
          root.code request.environment request.condition = none ∧ root.IsFirst request
            ∧ Unfit tree.toFileTree ctx request.condition found
            ∧ d = wrongFormat request.condition found
                (tree.toFileTree.expectedDeclarationFormat (ctx.within found.target))
                request.condition.format := by
  have hsingle' : ∀ request ∈ requests, root.isDual request.environment = false :=
    fun request hrequest => hsingle _ (SameRoot.environment_mem hrequest)
  rw [mem_check tree.takesAnyPath]
  constructor
  · rintro ⟨request, hkept, hverdict⟩
    have hrequest := (root.kept_sublist [] requests).subset hkept
    obtain ⟨shipped, found, hshipped, hfound, hat⟩ := verdict_eq_some_iff.mp hverdict
    obtain ⟨hthere, ⟨hdeclaration, hne, hd⟩ | ⟨-, -, rfl⟩⟩ := findingAt_eq_some_iff.mp hat
    · have hnone : root.code request.environment request.condition = none := by
        refine Option.eq_none_iff_forall_ne_some.mpr fun code hsome => ?_
        obtain ⟨found', hfound', hpair⟩ := hpaired request hrequest code hsome
        obtain rfl : found = found' := Option.some.inj (hfound.symm.trans hfound')
        exact hne (dueFormat_of_paired (hsingle' request hrequest) hsome hpair).symm
      rw [dueFormat_of_no_code hnone] at hne hd
      refine ⟨by simp [hshipped], request, hrequest, found, hfound, hnone, ?_,
        ⟨hthere, hdeclaration, hne⟩, hd⟩
      exact (mem_kept_iff_isFirst hrequest (hsingle' request hrequest) hfound).mp hkept
    · exact absurd hcode (by simp [notExported])
  · rintro ⟨hships, request, hrequest, found, hfound, hnone, hfirst, hunfit, rfl⟩
    refine ⟨request,
      (mem_kept_iff_isFirst hrequest (hsingle' request hrequest) hfound).mpr hfirst, ?_⟩
    exact verdict_wrongFormat hships hfound hunfit.found_there hunfit.isDeclaration rfl
      (dueFormat_of_no_code hnone) hunfit.format_ne

/-- A declaration of CommonJS code is reported for `import`, though this leads to no code. -/
theorem declaration_reported_without_code :
    ∃ (tree : MemoryTree) (ctx : Context) (root : Root) (d : Diagnostic),
      root? (.map [("types", .leaf "./a.d.ts"), ("require", .leaf "./a.cjs")]) ["exports"]
          = some root
        ∧ (∀ environment ∈ environments, root.isDual environment = false)
        ∧ (∀ request ∈ requests, ∀ code ∈ root.code request.environment request.condition,
            ∃ found ∈ root.types request, Paired tree.toFileTree ctx code found)
        ∧ d.code = .exportsTypesInvalidFormat
        ∧ d ∈ (check ctx root).findings tree.toFileTree := by
  let tree : MemoryTree := { files := [("/p/a.d.ts", ""), ("/p/a.cjs", "")] }
  let ctx : Context := { pkgDir := "/p", manifest := [("types", .str "./a.d.ts")], depth := 2 }
  let root : Root :=
    { tree := .map [("types", .leaf "./a.d.ts"), ("require", .leaf "./a.cjs")]
      location := ["exports"] }
  let declaration : Resolved := { target := "./a.d.ts", location := ["exports", "types"] }
  let code : Resolved := { target := "./a.cjs", location := ["exports", "require"] }
  have hactual :
      tree.toFileTree.expectedDeclarationFormat (ctx.within declaration.target) = .cjs := by decide
  have hsingle : ∀ environment ∈ environments, root.isDual environment = false := by decide
  have hcode : ∀ request ∈ requests, ∀ code' ∈ root.code request.environment request.condition,
      code' = code ∧ root.types request = some declaration := by decide
  have hpair : Paired tree.toFileTree ctx code declaration :=
    ⟨by decide, by decide, by decide, by decide⟩
  have hpaired : ∀ request ∈ requests, ∀ code ∈ root.code request.environment request.condition,
      ∃ found ∈ root.types request, Paired tree.toFileTree ctx code found := by
    intro request hrequest code' hcode'
    obtain ⟨rfl, htypes⟩ := hcode request hrequest code' hcode'
    exact ⟨declaration, htypes, hpair⟩
  have hfirst : root.IsFirst ⟨none, .import⟩ :=
    fun earlier hearlier => absurd hearlier List.not_mem_nil
  have hunfit : Unfit tree.toFileTree ctx .import declaration :=
    ⟨by decide, by decide, by rw [hactual]; decide⟩
  refine ⟨tree, ctx, root, wrongFormat .import declaration .cjs .esm, rfl, hsingle, hpaired, rfl,
    ?_⟩
  refine (wrong_format_iff tree ctx hsingle hpaired rfl).mpr ⟨by decide, ⟨none, .import⟩, by decide,
    declaration, by decide, by decide, hfirst, hunfit, ?_⟩
  rw [hactual]
  rfl

/-- All code is paired with its declaration, and still a declaration is reported: `require` leads to
no code, but to a declaration of its own. -/
theorem unpaired_declaration_reported :
    ∃ (tree : MemoryTree) (ctx : Context) (root : Root),
      root? (.map [("types", .map [("import", .leaf "./a.d.mts"), ("default", .leaf "./b.d.mts")]),
          ("import", .leaf "./a.mjs")]) ["exports"] = some root
        ∧ (∀ environment ∈ environments, root.isDual environment = false)
        ∧ (∀ request ∈ requests, ∀ code ∈ root.code request.environment request.condition,
            ∃ found ∈ root.types request, Paired tree.toFileTree ctx code found)
        ∧ ∃ d ∈ (check ctx root).findings tree.toFileTree, d.code = .exportsTypesInvalidFormat := by
  let tree : MemoryTree :=
    { files := [("/p/a.d.mts", ""), ("/p/b.d.mts", ""), ("/p/a.mjs", "")] }
  let ctx : Context := { pkgDir := "/p", manifest := [("types", .str "./a.d.mts")], depth := 2 }
  let root : Root :=
    { tree := .map [("types", .map [("import", .leaf "./a.d.mts"), ("default", .leaf "./b.d.mts")]),
        ("import", .leaf "./a.mjs")]
      location := ["exports"] }
  let declaration : Resolved :=
    { target := "./a.d.mts", location := ["exports", "types", "import"] }
  let code : Resolved := { target := "./a.mjs", location := ["exports", "import"] }
  have hcode : ∀ request ∈ requests, ∀ code' ∈ root.code request.environment request.condition,
      code' = code ∧ root.types request = some declaration := by decide
  have hpair : Paired tree.toFileTree ctx code declaration :=
    ⟨by decide, by decide, by decide, by decide⟩
  let other : Resolved := { target := "./b.d.mts", location := ["exports", "types", "default"] }
  have hverdict : verdict tree.toFileTree ctx root ⟨none, .require⟩
      = some (wrongFormat .require other .esm .cjs) :=
    verdict_wrongFormat (by decide) (by decide) (by decide) (by decide) (by decide)
      (by decide) (by decide)
  refine ⟨tree, ctx, root, rfl, by decide, ?_, wrongFormat .require other .esm .cjs, ?_, rfl⟩
  · intro request hrequest code' hcode'
    obtain ⟨rfl, htypes⟩ := hcode request hrequest code' hcode'
    exact ⟨declaration, htypes, hpair⟩
  · exact (mem_check tree.takesAnyPath).mpr ⟨_, by decide, hverdict⟩

end PackageLint.Declarations
