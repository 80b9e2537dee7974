import PackageLint.Proofs.MirroredDeclarations
import PackageLint.Proofs.PathForms

/-!
# What tells requests apart

Requests are told apart by a text: the keys that lead to what they found, joined by dots, with the
condition behind them where code comes in two formats. One text could stand for several places,
since keys may hold dots, and a condition could be taken for the end of a key. Neither happens among
the requests for one root entry. Below it only conditions, `default` and the first index of an array
are walked through; none of these holds a dot, and none is another one with a condition behind it.

## Main definitions

* `Declarations.pathKeys` — the keys that a request walks through
* `Declarations.Root.mark` — the condition, where it tells requests apart

## Main results

* `ConditionTree.keys_of_resolve` — the keys below a tree that lead to what is resolved
* `Declarations.marked_place_eq_iff` — a place with a mark is told by its text
* `Declarations.identity_eq_iff` — one identity is one place and one mark
-/

namespace PackageLint

/-! ### Joined keys -/

namespace Text

/-- What is joined behind some keys has one text in front of it, whatever it is. -/
theorem exists_join_append (sep : String) (front : List String) :
    ∃ start, ∀ back, back ≠ [] → join sep (front ++ back) = start ++ join sep back := by
  induction front with
  | nil => exact ⟨"", fun back _ => by rw [List.nil_append, String.empty_append]⟩
  | cons s rest ih =>
    obtain ⟨start, hstart⟩ := ih
    refine ⟨s ++ sep ++ start, fun back hne => ?_⟩
    have hrest : rest ++ back ≠ [] := List.append_ne_nil_of_right_ne_nil rest hne
    rw [List.cons_append, Declarations.join_cons hrest, hstart back hne, ← String.append_assoc]

/-- A text behind joined keys belongs to the last key. -/
theorem join_concat_append (sep s last : String) (front : List String) :
    join sep (front ++ [last]) ++ s = join sep (front ++ [last ++ s]) := by
  obtain ⟨start, hstart⟩ := exists_join_append sep front
  rw [hstart _ (List.cons_ne_nil _ _), hstart _ (List.cons_ne_nil _ _), String.append_assoc]
  rfl

/-- Keys without dots are read back from what they are joined to. -/
theorem pieces_join {keys : List String} (h : ∀ key ∈ keys, '.' ∉ key.toList) (hne : keys ≠ []) :
    pieces '.' (join "." keys).toList = keys.map String.toList := by
  induction keys with
  | nil => exact absurd rfl hne
  | cons key rest ih =>
    obtain ⟨hkey, hrest⟩ := List.forall_mem_cons.mp h
    by_cases hend : rest = []
    · subst hend
      exact pieces_of_not_mem hkey
    · have htext : (join "." (key :: rest)).toList
          = key.toList ++ '.' :: (join "." rest).toList := by
        rw [Declarations.join_cons hend]
        simp
      rw [htext, pieces_append_sep, pieces_of_not_mem hkey, ih hrest hend]
      rfl

theorem join_injective {keys keys' : List String} (h : ∀ key ∈ keys, '.' ∉ key.toList)
    (h' : ∀ key ∈ keys', '.' ∉ key.toList) (hne : keys ≠ []) (hne' : keys' ≠ [])
    (heq : join "." keys = join "." keys') : keys = keys' := by
  have hpieces : keys.map String.toList = keys'.map String.toList := by
    rw [← pieces_join h hne, ← pieces_join h' hne', heq]
  exact List.map_injective_iff.mpr (fun _ _ => String.toList_inj.mp) hpieces

end Text

/-! ### Keys that are walked through -/

namespace ConditionTree

variable {conditions : List String} {location place : Location} {tree : ConditionTree}
  {found : Resolved} {target : String}

/-- An open way leads through conditions, `default` and first items only. -/
theorem IsOpen.subset (h : tree.IsOpen conditions place target) :
    place ⊆ "default" :: "0" :: conditions := by
  induction h with
  | leaf value => exact List.nil_subset _
  | first _ ih => exact List.cons_subset.mpr ⟨by simp, ih⟩
  | entry hholds _ _ ih => exact List.cons_subset.mpr ⟨by simpa using hholds.imp_right Or.inr, ih⟩

/-- An open way ends where it starts just in a leaf. -/
theorem IsOpen.eq_nil_iff (h : tree.IsOpen conditions place target) :
    place = [] ↔ ∃ value, tree = .leaf value := by
  cases h <;> simp

/-- What is resolved lies below conditions, `default` and first items, and at the tree itself when
that is a leaf. -/
theorem keys_of_resolve (h : resolve conditions location tree = some found) :
    ∃ keys, found.location = location ++ keys ∧ keys ⊆ "default" :: "0" :: conditions
      ∧ (keys = [] ↔ ∃ target, tree = .leaf target) := by
  obtain ⟨keys, hlocation, hopen⟩ := isOpen_of_resolve h
  exact ⟨keys, hlocation, hopen.subset, hopen.eq_nil_iff⟩

end ConditionTree

/-! ### Identities -/

namespace Declarations

/-- The keys that a request walks through. -/
def pathKeys : List String := "default" :: "0" :: knownConditions

/-- The condition of a request, where it tells the request apart from others. -/
def Root.mark (root : Root) (request : Request) : Option Condition :=
  if root.isDual request.environment then some request.condition else none

/-- The text of a mark. -/
def markText (mark : Option Condition) : String := mark.elim "" Condition.key

variable {root : Root} {request request' : Request} {found found' : ConditionTree.Resolved}

theorem identity_eq (root : Root) (request : Request) (found : ConditionTree.Resolved) :
    root.identity request found = Text.join "." found.location ++ markText (root.mark request) := by
  rw [Root.identity, Root.mark]
  split <;> rfl

theorem not_mem_pathKey {key : String} (h : key ∈ pathKeys) : '.' ∉ key.toList := by
  have hall : ∀ key ∈ pathKeys, '.' ∉ key.toList := by decide
  exact hall key h

theorem not_mem_markText (mark : Option Condition) : '.' ∉ (markText mark).toList := by
  rcases mark with - | - | - <;> decide

theorem markText_injective : Function.Injective markText := by
  rintro (- | - | -) (- | - | -) <;> decide

/-- A mark behind a key is told from the key. -/
theorem marked_injective {key key' : String} (hkey : key ∈ pathKeys) (hkey' : key' ∈ pathKeys)
    {mark mark' : Option Condition} (h : key ++ markText mark = key' ++ markText mark') :
    key = key' ∧ mark = mark' := by
  have hmarks : ∀ mark : Option Condition, mark ∈ [none, some .import, some .require] := by
    rintro (- | - | -) <;> decide
  have hall : ∀ key ∈ pathKeys, ∀ key' ∈ pathKeys,
      ∀ mark ∈ [none, some Condition.import, some .require],
      ∀ mark' ∈ [none, some Condition.import, some .require],
        key ++ markText mark = key' ++ markText mark' → key = key' ∧ mark = mark' := by
    decide
  exact hall key hkey key' hkey' mark (hmarks mark) mark' (hmarks mark') h

/-- Keys with a mark behind them are told apart by their text. -/
theorem marked_join_injective {keys keys' : List String} (h : keys ⊆ pathKeys)
    (h' : keys' ⊆ pathKeys) (hne : keys ≠ []) (hne' : keys' ≠ []) {mark mark' : Option Condition}
    (heq : Text.join "." keys ++ markText mark = Text.join "." keys' ++ markText mark') :
    keys = keys' ∧ mark = mark' := by
  have hdots : ∀ (front : List String) (last : String) (mark : Option Condition),
      front ++ [last] ⊆ pathKeys → ∀ key ∈ front ++ [last ++ markText mark], '.' ∉ key.toList := by
    intro front last mark hsub key hkey
    rcases List.mem_append.mp hkey with hkey | hkey
    · exact not_mem_pathKey (hsub (List.mem_append_left _ hkey))
    · rw [List.mem_singleton.mp hkey, String.toList_append, List.mem_append, not_or]
      exact ⟨not_mem_pathKey (hsub (by simp)), not_mem_markText mark⟩
  obtain ⟨front, last, rfl⟩ := (List.eq_nil_or_concat' keys).resolve_left hne
  obtain ⟨front', last', rfl⟩ := (List.eq_nil_or_concat' keys').resolve_left hne'
  rw [Text.join_concat_append, Text.join_concat_append] at heq
  have hkeys := Text.join_injective (hdots front last mark h) (hdots front' last' mark' h')
    (by simp) (by simp) heq
  obtain ⟨rfl, hlast⟩ := List.append_inj' hkeys rfl
  obtain ⟨rfl, rfl⟩ := marked_injective (h (by simp)) (h' (by simp)) (List.cons.inj hlast).1
  exact ⟨rfl, rfl⟩

/-- What a request found lies below the root entry, at the entry itself when that is a leaf. -/
theorem keys_of_types (hrequest : request ∈ requests) (hfound : root.types request = some found) :
    ∃ keys, found.location = root.location ++ keys ∧ keys ⊆ pathKeys
      ∧ (keys = [] ↔ ∃ target, root.tree = .leaf target) := by
  obtain ⟨keys, hlocation, hkeys, hleaf⟩ := ConditionTree.keys_of_resolve hfound
  refine ⟨keys, hlocation, fun key hkey => ?_, hleaf⟩
  have hconditions := conditions_subset hrequest
  rcases List.mem_cons.mp (hkeys hkey) with rfl | hkey
  · exact List.mem_cons_self
  · rcases List.mem_cons.mp hkey with rfl | hkey
    · exact List.mem_cons_of_mem _ List.mem_cons_self
    · exact List.mem_cons_of_mem _ (List.mem_cons_of_mem _ (hconditions hkey))

/-- Places with marks behind them are told apart by their text, whatever requests led to the places and
whatever the marks are. -/
theorem marked_place_eq_iff (hrequest : request ∈ requests) (hrequest' : request' ∈ requests)
    (hfound : root.types request = some found) (hfound' : root.types request' = some found')
    (mark mark' : Option Condition) :
    Text.join "." found.location ++ markText mark = Text.join "." found'.location ++ markText mark'
      ↔ found.location = found'.location ∧ mark = mark' := by
  obtain ⟨keys, hlocation, hkeys, hleaf⟩ := keys_of_types hrequest hfound
  obtain ⟨keys', hlocation', hkeys', hleaf'⟩ := keys_of_types hrequest' hfound'
  constructor
  · intro h
    rw [hlocation, hlocation'] at h ⊢
    by_cases hne : keys = []
    · -- the root entry is a leaf, so that both requests lead to its own place
      have hne' : keys' = [] := hleaf'.mpr (hleaf.mp hne)
      subst hne hne'
      exact ⟨rfl, markText_injective ((String.append_right_inj _).mp h)⟩
    · have hne' : keys' ≠ [] := fun hnil => hne (hleaf.mpr (hleaf'.mp hnil))
      obtain ⟨start, hstart⟩ := Text.exists_join_append "." root.location
      rw [hstart keys hne, hstart keys' hne', String.append_assoc, String.append_assoc,
        String.append_right_inj] at h
      obtain ⟨rfl, hmark⟩ := marked_join_injective hkeys hkeys' hne hne' h
      exact ⟨rfl, hmark⟩
  · rintro ⟨hplace, rfl⟩
    rw [hplace]

/-- The identities of two requests are the same exactly when both lead to one place, with the same
mark. -/
theorem identity_eq_iff (hrequest : request ∈ requests) (hrequest' : request' ∈ requests)
    (hfound : root.types request = some found) (hfound' : root.types request' = some found') :
    root.identity request found = root.identity request' found'
      ↔ found.location = found'.location ∧ root.mark request = root.mark request' := by
  rw [identity_eq, identity_eq]
  exact marked_place_eq_iff hrequest hrequest' hfound hfound' _ _

end Declarations

end PackageLint
