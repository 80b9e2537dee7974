import PackageLint.Proofs.ExpectedFormats
import PackageLint.Proofs.Reads
import PackageLint.Proofs.RequestIdentity

/-!
# Verdicts on requests

On one tree, looking at what a request leads to comes to one finding at most. Which one depends on
the request alone, not on those before it. The check of a root entry reports these verdicts, in
order, for the requests that it does not take for repetitions.

## Main definitions

* `Declarations.verdict` — the finding that a request gives rise to
* `Declarations.Root.kept` — the requests that are not taken for repetitions
* `Declarations.checkEach` — the check of some requests, each by itself

## Main results

* `Declarations.findings_check`, `Declarations.findings_checkEach` — both checks report verdicts
* `Declarations.findingAt_eq_some_iff` — when what a request leads to gives rise to a finding
* `Declarations.Root.mem_kept_iff` — a request is kept when none before it has its identity
* `Declarations.Root.exists_kept` — every identity is kept once
-/

namespace PackageLint.Declarations

open ConditionTree (Resolved)

variable {tree : FileTree} {ctx : Context} {root : Root} {request other : Request}
  {shipped : String} {found found' : Resolved} {d : Diagnostic}

/-! ### Looking at one request -/

/-- The format of the code that a declaration describes, when that code is there. -/
def codeFormat? (tree : FileTree) (ctx : Context) (code : Option Resolved) : Option Format :=
  (code.filter fun code => tree.isThere (ctx.within code.target)).map
    fun code => tree.expectedFormat (ctx.within code.target)

/-- The code that the declaration for a request is held against. Where code comes in two formats
there is none, and the condition decides. -/
def Root.described (root : Root) (request : Request) : Option Resolved :=
  if root.isDual request.environment then none else root.code request.environment request.condition

/-- The format that the declaration for a request should have. -/
def dueFormat (tree : FileTree) (ctx : Context) (root : Root) (request : Request) : Format :=
  (codeFormat? tree ctx (root.described request)).getD request.condition.format

/-- What looking at the target of a request finds. -/
def findingAt (tree : FileTree) (ctx : Context) (root : Root) (shipped : String) (request : Request)
    (found : Resolved) : Option Diagnostic :=
  if tree.isThere (ctx.within found.target) then
    if Source.isDeclaration found.target then
      let actual := tree.expectedDeclarationFormat (ctx.within found.target)
      if actual = dueFormat tree ctx root request then none
      else some (wrongFormat request.condition found actual (dueFormat tree ctx root request))
    else if tree.isThere (ctx.within (Source.adjacentDeclaration found.target)) then none
    else
      some (notExported request.condition found shipped
        (tree.expectedDeclarationFormat (ctx.within shipped)))
  else none

/-- What looking at a target finds: a declaration that has another format than it should have, or
code that has no declaration beside it. -/
theorem findingAt_eq_some_iff :
    findingAt tree ctx root shipped request found = some d
      ↔ tree.isThere (ctx.within found.target) = true
        ∧ ((Source.isDeclaration found.target = true
            ∧ tree.expectedDeclarationFormat (ctx.within found.target)
                ≠ dueFormat tree ctx root request
            ∧ d = wrongFormat request.condition found
                (tree.expectedDeclarationFormat (ctx.within found.target))
                (dueFormat tree ctx root request))
          ∨ (Source.isDeclaration found.target = false
            ∧ tree.isThere (ctx.within (Source.adjacentDeclaration found.target)) = false
            ∧ d = notExported request.condition found shipped
                (tree.expectedDeclarationFormat (ctx.within shipped)))) := by
  rw [findingAt]
  cases tree.isThere (ctx.within found.target) <;>
    cases Source.isDeclaration found.target <;>
    simp [@eq_comm Diagnostic d]

theorem run_codeFormat (tree : FileTree) (ctx : Context) (code : Option Resolved) :
    (codeFormat ctx code).run tree = ⟨[], .ok (codeFormat? tree ctx code)⟩ := by
  cases code with
  | none => rfl
  | some code =>
    rw [codeFormat, codeFormat?, Check.bind_eq, Check.run_isThere_bind]
    cases hthere : tree.isThere (ctx.within code.target) with
    | false => simp [hthere]
    | true =>
      simp only [if_true, Check.bind_eq, Option.filter_some, hthere, Option.map_some]
      rw [Check.run_bind_of_quiet (Manifest.run_expectedFormat tree _)]
      rfl

theorem run_examine (tree : FileTree) (ctx : Context) (root : Root) (shipped : String)
    (request : Request) (found : Resolved) :
    (examine ctx root shipped request found).run tree
      = ⟨(findingAt tree ctx root shipped request found).toList, .ok ()⟩ := by
  rw [examine, findingAt, Check.bind_eq, Check.run_isThere_bind]
  split
  · split
    · change (checkFormat ctx request.condition found (root.described request)).run tree = _
      rw [checkFormat, Check.bind_eq,
        Check.run_bind_of_quiet (Manifest.run_expectedDeclarationFormat tree _), Check.bind_eq,
        Check.run_bind_of_quiet (run_codeFormat tree ctx _), ← dueFormat]
      simp only
      split <;> rfl
    · rw [checkAdjacent, Check.bind_eq, Check.run_isThere_bind]
      split
      · rfl
      · rw [Check.bind_eq,
          Check.run_bind_of_quiet (Manifest.run_expectedDeclarationFormat tree _)]
        rfl
  · rfl

/-! ### The declaration that a package ships -/

/-- The declaration that a package ships for its root entry, on a tree. -/
def shipped? (tree : FileTree) (ctx : Context) : Option String :=
  (givenString ctx "types").or <| (givenString ctx "typings").or <|
    (tree.text? (ctx.within indexDeclaration)).map fun _ => indexDeclaration

theorem run_shippedDeclaration (h : tree.TakesAnyPath) (ctx : Context) :
    (shippedDeclaration ctx).run tree = ⟨[], .ok (shipped? tree ctx)⟩ := by
  rw [shippedDeclaration, shipped?]
  cases givenString ctx "types" with
  | some types => rfl
  | none =>
    cases givenString ctx "typings" with
    | some typings => rfl
    | none =>
      simp only [Check.bind_eq, Option.none_or]
      rw [Check.run_bind_of_quiet (Context.run_readQuietly h _)]
      cases tree.text? (ctx.within indexDeclaration) <;> rfl

/-! ### Verdicts -/

/-- The finding that a request gives rise to. -/
def verdict (tree : FileTree) (ctx : Context) (root : Root) (request : Request) :
    Option Diagnostic :=
  (shipped? tree ctx).bind fun shipped =>
    (root.types request).bind (findingAt tree ctx root shipped request)

theorem verdict_eq_some_iff :
    verdict tree ctx root request = some d
      ↔ ∃ shipped found, shipped? tree ctx = some shipped ∧ root.types request = some found
          ∧ findingAt tree ctx root shipped request found = some d := by
  simp only [verdict, Option.bind_eq_some_iff]
  constructor
  · rintro ⟨shipped, hshipped, found, hfound, hd⟩
    exact ⟨shipped, found, hshipped, hfound, hd⟩
  · rintro ⟨shipped, found, hshipped, hfound, hd⟩
    exact ⟨shipped, hshipped, found, hfound, hd⟩

/-- The verdict on a declaration of a wrong format. -/
theorem verdict_wrongFormat {actual due : Format} (hships : (shipped? tree ctx).isSome)
    (hfound : root.types request = some found)
    (hthere : tree.isThere (ctx.within found.target) = true)
    (hdeclaration : Source.isDeclaration found.target = true)
    (hactual : tree.expectedDeclarationFormat (ctx.within found.target) = actual)
    (hdue : dueFormat tree ctx root request = due) (hne : actual ≠ due) :
    verdict tree ctx root request = some (wrongFormat request.condition found actual due) := by
  obtain ⟨shipped, hshipped⟩ := Option.isSome_iff_exists.mp hships
  refine verdict_eq_some_iff.mpr ⟨shipped, found, hshipped, hfound, ?_⟩
  subst hactual hdue
  exact findingAt_eq_some_iff.mpr ⟨hthere, Or.inl ⟨hdeclaration, hne, rfl⟩⟩

/-- A finding is at the place that its request leads to. -/
theorem location_of_verdict (h : verdict tree ctx root request = some d) :
    ∃ found, root.types request = some found ∧ d.location = found.location := by
  obtain ⟨shipped, found, -, hfound, hd⟩ := verdict_eq_some_iff.mp h
  refine ⟨found, hfound, ?_⟩
  obtain ⟨-, ⟨-, -, rfl⟩ | ⟨-, -, rfl⟩⟩ := findingAt_eq_some_iff.mp hd <;> rfl

theorem condition_of_wrongFormat {condition condition' : Condition}
    {actual actual' expected expected' : Format}
    (h : wrongFormat condition found actual expected
      = wrongFormat condition' found' actual' expected') :
    condition = condition' := by
  have hargs := congrArg Diagnostic.args h
  cases condition <;> cases condition' <;> first | rfl | simp [wrongFormat, Condition.key] at hargs

/-- One declaration can have the format of one condition only. -/
theorem condition_of_notExported {condition condition' : Condition} {actual : Format}
    (h : notExported condition found shipped actual
      = notExported condition' found' shipped actual) :
    condition = condition' := by
  have hargs := congrArg Diagnostic.args h
  cases condition <;> cases condition' <;> first
    | rfl
    | cases actual <;> simp [notExported, Condition.format, Format.declarationExtension] at hargs

/-- Requests that give rise to the same finding have the same condition. -/
theorem condition_of_verdict (h : verdict tree ctx root request = some d)
    (h' : verdict tree ctx root other = some d) : request.condition = other.condition := by
  obtain ⟨shipped, found, hshipped, -, hat⟩ := verdict_eq_some_iff.mp h
  obtain ⟨shipped', found', hshipped', -, hat'⟩ := verdict_eq_some_iff.mp h'
  obtain rfl : shipped = shipped' := Option.some.inj (hshipped.symm.trans hshipped')
  obtain ⟨-, hcase⟩ := findingAt_eq_some_iff.mp hat
  obtain ⟨-, hcase'⟩ := findingAt_eq_some_iff.mp hat'
  rcases hcase with ⟨-, -, hd⟩ | ⟨-, -, hd⟩ <;> rcases hcase' with ⟨-, -, hd'⟩ | ⟨-, -, hd'⟩
  · exact condition_of_wrongFormat (hd.symm.trans hd')
  · exact absurd (congrArg Diagnostic.code (hd.symm.trans hd')) (by simp [wrongFormat, notExported])
  · exact absurd (congrArg Diagnostic.code (hd.symm.trans hd')) (by simp [wrongFormat, notExported])
  · exact condition_of_notExported (hd.symm.trans hd')

/-- A verdict depends on what the request leads to, its condition, and the code it is held
against. -/
theorem verdict_congr (htypes : root.types request = root.types other)
    (hcondition : request.condition = other.condition)
    (hdescribed : root.described request = root.described other) :
    verdict tree ctx root request = verdict tree ctx root other := by
  have hdue : dueFormat tree ctx root request = dueFormat tree ctx root other := by
    rw [dueFormat, dueFormat, hdescribed, hcondition]
  have hat : (findingAt tree ctx root · request) = (findingAt tree ctx root · other) := by
    funext shipped found
    rw [findingAt, findingAt, hdue, hcondition]
  simp only [verdict, htypes, congrFun hat]

/-! ### The requests that are looked at -/

/-- The identity of what a request leads to. -/
def Root.identity? (root : Root) (request : Request) : Option String :=
  (root.types request).map (root.identity request)

/-- The requests that lead somewhere and whose identity was not seen before. -/
def Root.kept (root : Root) : List String → List Request → List Request
  | _, [] => []
  | seen, request :: rest =>
    match root.identity? request with
    | none => root.kept seen rest
    | some identity =>
      if identity ∈ seen then root.kept seen rest
      else request :: root.kept (identity :: seen) rest

namespace Root

theorem kept_of_none {seen : List String} {rest : List Request}
    (h : root.identity? request = none) :
    root.kept seen (request :: rest) = root.kept seen rest := by
  rw [kept, h]

theorem kept_of_seen {seen : List String} {rest : List Request} {identity : String}
    (h : root.identity? request = some identity) (hseen : identity ∈ seen) :
    root.kept seen (request :: rest) = root.kept seen rest := by
  simp only [kept, h, if_pos hseen]

theorem kept_of_new {seen : List String} {rest : List Request} {identity : String}
    (h : root.identity? request = some identity) (hnew : identity ∉ seen) :
    root.kept seen (request :: rest) = request :: root.kept (identity :: seen) rest := by
  simp only [kept, h, if_neg hnew]

theorem kept_sublist (root : Root) (seen : List String) (asked : List Request) :
    (root.kept seen asked).Sublist asked := by
  induction asked generalizing seen with
  | nil => exact .slnil
  | cons request rest ih =>
    cases h : root.identity? request with
    | none =>
      rw [kept_of_none h]
      exact (ih seen).cons _
    | some identity =>
      by_cases hseen : identity ∈ seen
      · rw [kept_of_seen h hseen]
        exact (ih seen).cons _
      · rw [kept_of_new h hseen]
        exact (ih _).cons_cons _

/-- A request is kept when it leads somewhere, and its identity was not seen and is not that of a
request before it. -/
theorem mem_kept_iff {seen : List String} {asked : List Request} :
    request ∈ root.kept seen asked
      ↔ request ∈ asked ∧ ∃ identity, root.identity? request = some identity ∧ identity ∉ seen
          ∧ ∀ earlier ∈ asked.takeWhile (· ≠ request), root.identity? earlier ≠ some identity := by
  induction asked generalizing seen with
  | nil => simp [kept]
  | cons head rest ih =>
    -- the head has none before it; for any other request the head is one of those before
    by_cases hhead : head = request
    · subst hhead
      cases h : root.identity? head with
      | none =>
        rw [kept_of_none h, ih]
        simp [h]
      | some identity =>
        by_cases hseen : identity ∈ seen
        · rw [kept_of_seen h hseen, ih]
          simp [h, hseen]
        · rw [kept_of_new h hseen]
          simp [hseen]
    · have htake : (head :: rest).takeWhile (· ≠ request)
          = head :: rest.takeWhile (· ≠ request) := by
        rw [List.takeWhile_cons, if_pos (by simpa using hhead)]
      have hmem : request ∈ head :: rest ↔ request ∈ rest := by simp [Ne.symm hhead]
      rw [htake, hmem]
      cases h : root.identity? head with
      | none =>
        rw [kept_of_none h, ih]
        simp [h]
      | some first =>
        by_cases hseen : first ∈ seen
        · rw [kept_of_seen h hseen, ih]
          have hne : ∀ identity, identity ∉ seen → first ≠ identity := by
            rintro identity hnew rfl
            exact hnew hseen
          simp only [List.forall_mem_cons, h, ne_eq, Option.some.injEq]
          exact and_congr_right fun _ => exists_congr fun identity => and_congr_right fun _ =>
            and_congr_right fun hnew => (and_iff_right (hne identity hnew)).symm
        · rw [kept_of_new h hseen, List.mem_cons, or_iff_right (Ne.symm hhead), ih]
          simp only [List.forall_mem_cons, h, ne_eq, Option.some.injEq]
          simp only [List.mem_cons, not_or]
          refine and_congr_right fun _ => exists_congr fun identity => and_congr_right fun _ => ?_
          rw [and_assoc, and_left_comm, eq_comm]

/-- Every identity that was not seen is that of a request that is kept. -/
theorem exists_kept {seen : List String} {asked : List Request} {identity : String}
    (hrequest : request ∈ asked) (h : root.identity? request = some identity)
    (hnew : identity ∉ seen) :
    ∃ other ∈ root.kept seen asked, root.identity? other = some identity := by
  induction asked generalizing seen with
  | nil => exact absurd hrequest List.not_mem_nil
  | cons head rest ih =>
    have hrest : root.identity? head ≠ some identity → request ∈ rest := by
      intro hne
      refine (List.mem_cons.mp hrequest).resolve_left ?_
      rintro rfl
      exact hne h
    cases hhead : root.identity? head with
    | none =>
      rw [kept_of_none hhead]
      exact ih (hrest (by simp [hhead])) hnew
    | some first =>
      by_cases hseen : first ∈ seen
      · rw [kept_of_seen hhead hseen]
        refine ih (hrest ?_) hnew
        rw [hhead]
        rintro ⟨⟩
        exact hnew hseen
      · rw [kept_of_new hhead hseen]
        by_cases hsame : first = identity
        · exact ⟨head, List.mem_cons_self, by rw [hhead, hsame]⟩
        · obtain ⟨other, hother, hidentity⟩ := ih (hrest (by simpa [hhead] using hsame))
            (List.not_mem_cons_of_ne_of_not_mem (Ne.symm hsame) hnew)
          exact ⟨other, List.mem_cons_of_mem _ hother, hidentity⟩

/-- No identity is kept twice. -/
theorem pairwise_kept (root : Root) (seen : List String) (asked : List Request) :
    (root.kept seen asked).Pairwise fun a b => root.identity? a ≠ root.identity? b := by
  induction asked generalizing seen with
  | nil => exact .nil
  | cons head rest ih =>
    cases h : root.identity? head with
    | none =>
      rw [kept_of_none h]
      exact ih seen
    | some identity =>
      by_cases hseen : identity ∈ seen
      · rw [kept_of_seen h hseen]
        exact ih seen
      · rw [kept_of_new h hseen]
        refine .cons ?_ (ih _)
        intro later hlater
        obtain ⟨-, identity', hidentity', hnew, -⟩ := mem_kept_iff.mp hlater
        rw [h, hidentity']
        rintro ⟨⟩
        exact hnew List.mem_cons_self

end Root

/-! ### Whole checks -/

/-- Some requests, each looked at by itself when the package ships declarations. -/
def checkEach (ctx : Context) (root : Root) (asked : List Request) : Check Unit := do
  match (← shippedDeclaration ctx) with
  | none => pure ()
  | some shipped => checkEvery ctx root shipped asked

theorem run_checkRequests (tree : FileTree) (ctx : Context) (root : Root) (shipped : String)
    (seen : List String) (asked : List Request) :
    (checkRequests ctx root shipped seen asked).run tree
      = ⟨(root.kept seen asked).filterMap fun request =>
          (root.types request).bind (findingAt tree ctx root shipped request), .ok ()⟩ := by
  induction asked generalizing seen with
  | nil => rfl
  | cons request rest ih =>
    rw [checkRequests]
    cases hfound : root.types request with
    | none =>
      rw [Root.kept_of_none (by rw [Root.identity?, hfound, Option.map_none])]
      exact ih seen
    | some found =>
      have hidentity : root.identity? request = some (root.identity request found) := by
        rw [Root.identity?, hfound, Option.map_some]
      simp only [List.contains_eq_mem, decide_eq_true_iff]
      split
      next hseen =>
        rw [Root.kept_of_seen hidentity hseen]
        exact ih seen
      next hnew =>
        rw [Root.kept_of_new hidentity hnew, Check.bind_eq, Check.run_bind_of_ok (run_examine ..),
          ih, List.filterMap_cons, hfound, Option.bind_some]
        cases findingAt tree ctx root shipped request found <;> rfl

theorem run_checkEvery (tree : FileTree) (ctx : Context) (root : Root) (shipped : String)
    (asked : List Request) :
    (checkEvery ctx root shipped asked).run tree
      = ⟨asked.filterMap fun request =>
          (root.types request).bind (findingAt tree ctx root shipped request), .ok ()⟩ := by
  induction asked with
  | nil => rfl
  | cons request rest ih =>
    rw [checkEvery, List.filterMap_cons]
    cases hfound : root.types request with
    | none => exact ih
    | some found =>
      simp only [Check.bind_eq, Option.bind_some]
      rw [Check.run_bind_of_ok (run_examine ..), ih]
      cases findingAt tree ctx root shipped request found <;> rfl

/-- The check of a root entry reports the verdicts on the requests that are kept. -/
theorem findings_check (h : tree.TakesAnyPath) (ctx : Context) (root : Root) :
    (check ctx root).findings tree
      = (root.kept [] requests).filterMap (verdict tree ctx root) := by
  rw [Check.findings, check, Check.bind_eq, Check.run_bind_of_quiet (run_shippedDeclaration h ctx)]
  unfold verdict
  cases shipped? tree ctx with
  | none => simp
  | some shipped => simp only [run_checkRequests, Option.bind_some]

/-- The check of each request by itself reports the verdicts on all of them. -/
theorem findings_checkEach (h : tree.TakesAnyPath) (ctx : Context) (root : Root)
    (asked : List Request) :
    (checkEach ctx root asked).findings tree = asked.filterMap (verdict tree ctx root) := by
  rw [Check.findings, checkEach, Check.bind_eq,
    Check.run_bind_of_quiet (run_shippedDeclaration h ctx)]
  unfold verdict
  cases shipped? tree ctx with
  | none => simp
  | some shipped => simp only [run_checkEvery, Option.bind_some]

theorem mem_check (h : tree.TakesAnyPath) :
    d ∈ (check ctx root).findings tree
      ↔ ∃ request ∈ root.kept [] requests, verdict tree ctx root request = some d := by
  rw [findings_check h, List.mem_filterMap]

theorem mem_checkEach (h : tree.TakesAnyPath) {asked : List Request} :
    d ∈ (checkEach ctx root asked).findings tree
      ↔ ∃ request ∈ asked, verdict tree ctx root request = some d := by
  rw [findings_checkEach h, List.mem_filterMap]

theorem mem_checkEach_single (h : tree.TakesAnyPath) :
    d ∈ (checkEach ctx root [request]).findings tree ↔ verdict tree ctx root request = some d := by
  rw [mem_checkEach h]
  simp

end PackageLint.Declarations
