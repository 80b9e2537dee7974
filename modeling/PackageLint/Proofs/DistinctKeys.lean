import PackageLint.Json.Parser
import PackageLint.Proofs.Places

/-!
# Distinct keys

The reader keeps one value of a key that is given twice, so in a value that was read from a text the
keys of every object differ. This is what makes a place the place of one value only, and it is the
one thing about manifests that the theorems on passes need to know.

## Main definitions

* `Json.DistinctKeys`, `ConditionTree.DistinctKeys` — no object, or no map, gives a key twice

## Main results

* `Json.distinctKeys_parse` — what is read from a text has distinct keys
* `ConditionTree.distinctKeys_ofJson` — so has the tree of such a value
-/

namespace PackageLint

mutual

/-- Whether no object of a value gives a key twice. -/
def Json.DistinctKeys : Json → Prop
  | .arr items => Json.ItemsDistinct items
  | .obj fields => (Assoc.keys fields).Nodup ∧ Json.FieldsDistinct fields
  | _ => True

/-- Whether no object among items gives a key twice. -/
def Json.ItemsDistinct : List Json → Prop
  | [] => True
  | item :: rest => item.DistinctKeys ∧ Json.ItemsDistinct rest

/-- Whether no object among the values of fields gives a key twice. -/
def Json.FieldsDistinct : List (String × Json) → Prop
  | [] => True
  | (_, value) :: rest => value.DistinctKeys ∧ Json.FieldsDistinct rest

end

mutual

/-- Whether no map of a tree declares a key twice. -/
def ConditionTree.DistinctKeys : ConditionTree → Prop
  | .array items => ConditionTree.ItemsDistinct items
  | .map entries => (Assoc.keys entries).Nodup ∧ ConditionTree.EntriesDistinct entries
  | _ => True

/-- Whether no map among items declares a key twice. -/
def ConditionTree.ItemsDistinct : List ConditionTree → Prop
  | [] => True
  | tree :: rest => tree.DistinctKeys ∧ ConditionTree.ItemsDistinct rest

/-- Whether no map among entries declares a key twice. -/
def ConditionTree.EntriesDistinct : List (String × ConditionTree) → Prop
  | [] => True
  | (_, tree) :: rest => tree.DistinctKeys ∧ ConditionTree.EntriesDistinct rest

end

namespace Json

theorem itemsDistinct_iff {items : List Json} :
    ItemsDistinct items ↔ ∀ item ∈ items, item.DistinctKeys := by
  induction items with
  | nil => simp [ItemsDistinct]
  | cons item rest ih => simp [ItemsDistinct, ih]

theorem fieldsDistinct_iff {fields : List (String × Json)} :
    FieldsDistinct fields ↔ ∀ entry ∈ fields, entry.2.DistinctKeys := by
  induction fields with
  | nil => simp [FieldsDistinct]
  | cons entry rest ih =>
    obtain ⟨key, value⟩ := entry
    simp [FieldsDistinct, ih]

theorem DistinctKeys.get? {fields : Fields} {key : String} {value : Json}
    (h : (Json.obj fields).DistinctKeys) (hget : Assoc.get? key fields = some value) :
    value.DistinctKeys :=
  fieldsDistinct_iff.mp h.2 _ (Assoc.mem_of_get? hget)

theorem DistinctKeys.field {fields : Fields} (h : (Json.obj fields).DistinctKeys) (key : String) :
    (Json.field fields key).DistinctKeys := by
  rw [Json.field]
  cases hget : Assoc.get? key fields with
  | none => trivial
  | some value => exact h.get? hget

theorem DistinctKeys.put {fields : Fields} {value : Json} (h : (Json.obj fields).DistinctKeys)
    (hv : value.DistinctKeys) (key : String) : (Json.obj (Assoc.put key value fields)).DistinctKeys := by
  refine ⟨Assoc.nodup_keys_put h.1, fieldsDistinct_iff.mpr ?_⟩
  intro entry hentry
  rcases Assoc.mem_put hentry with rfl | hmem
  · exact hv
  · exact fieldsDistinct_iff.mp h.2 entry hmem

end Json

namespace ConditionTree

theorem entriesDistinct_iff {entries : List (String × ConditionTree)} :
    EntriesDistinct entries ↔ ∀ entry ∈ entries, entry.2.DistinctKeys := by
  induction entries with
  | nil => simp [EntriesDistinct]
  | cons entry rest ih =>
    obtain ⟨key, tree⟩ := entry
    simp [EntriesDistinct, ih]

mutual

theorem distinctKeys_ofJson : ∀ {value : Json}, value.DistinctKeys → (ofJson value).DistinctKeys
  | .arr _, h => itemsDistinct_ofItems h
  | .obj fields, h => by
    refine ⟨?_, entriesDistinct_ofFields h.2⟩
    rw [ofFields_eq_map, Assoc.keys, List.map_map]
    exact h.1
  | .null, _ | .bool _, _ | .int _, _ | .float _, _ | .str _, _ => trivial

theorem itemsDistinct_ofItems :
    ∀ {items : List Json}, Json.ItemsDistinct items → ItemsDistinct (ofItems items)
  | [], _ => trivial
  | _ :: _, h => ⟨distinctKeys_ofJson h.1, itemsDistinct_ofItems h.2⟩

theorem entriesDistinct_ofFields :
    ∀ {fields : List (String × Json)}, Json.FieldsDistinct fields →
      EntriesDistinct (ofFields fields)
  | [], _ => trivial
  | (_, _) :: _, h => ⟨distinctKeys_ofJson h.1, entriesDistinct_ofFields h.2⟩

end

end ConditionTree

/-! ### Reading gives distinct keys -/

namespace Json

theorem distinctKeys_word? {c c' : Cursor} {value : Json} (h : word? c = some (value, c')) :
    value.DistinctKeys := by
  obtain ⟨⟨text, found⟩, hmem, hfound⟩ := List.exists_of_findSome?_eq_some h
  obtain ⟨rest, -, heq⟩ := Option.map_eq_some_iff.mp hfound
  obtain rfl : found = value := (Prod.mk.inj heq).1
  simp only [List.mem_cons, Prod.mk.injEq, List.not_mem_nil, or_false] at hmem
  rcases hmem with ⟨-, rfl⟩ | ⟨-, rfl⟩ | ⟨-, rfl⟩ | ⟨-, rfl⟩ | ⟨-, rfl⟩ | ⟨-, rfl⟩ <;> trivial

theorem distinctKeys_numberFrom {start c c' : Cursor} {negative : Bool} {value : Json}
    (h : numberFrom start negative c = .ok (value, c')) : value.DistinctKeys := by
  simp only [numberFrom, Cursor.fail] at h
  split at h
  · simp at h
  · split at h
    · split at h
      · simp at h
      · obtain ⟨rfl, -⟩ : _ = value ∧ _ = c' := by simpa using h
        trivial
    · obtain ⟨rfl, -⟩ : _ = value ∧ _ = c' := by simpa using h
      trivial

theorem distinctKeys_scalar {c c' : Cursor} {value : Json} (h : scalar c = .ok (value, c')) :
    value.DistinctKeys := by
  rw [scalar] at h
  split at h
  next found hw =>
    obtain rfl : found = (value, c') := by simpa using h
    exact distinctKeys_word? hw
  next =>
    split at h
    · exact distinctKeys_numberFrom h
    · exact distinctKeys_numberFrom h

/-- The bind of readings that may fail, opened. -/
theorem except_bind_eq_ok {ε α β : Type} {x : Except ε α} {f : α → Except ε β} {b : β} :
    (x >>= f) = .ok b ↔ ∃ a, x = .ok a ∧ f a = .ok b := by
  cases x with
  | error e => simp [bind, Except.bind]
  | ok a => simp [bind, Except.bind]

theorem except_bind_eq_error {ε α β : Type} {x : Except ε α} {f : α → Except ε β} {e : ε} :
    (x >>= f) = .error e ↔ x = .error e ∨ ∃ a, x = .ok a ∧ f a = .error e := by
  cases x with
  | error e => simp [bind, Except.bind]
  | ok a => simp [bind, Except.bind]

/-- What the three readers give has distinct keys, when what they have gathered so far does. -/
theorem distinctKeys_readers (bound : Nat) :
    (∀ c value c', valueFrom bound c = .ok (value, c') → value.DistinctKeys)
      ∧ (∀ acc c value c', ItemsDistinct acc → itemsFrom bound acc c = .ok (value, c') →
          value.DistinctKeys)
      ∧ (∀ acc c value c', (Json.obj acc).DistinctKeys → fieldsFrom bound acc c = .ok (value, c') →
          value.DistinctKeys) := by
  induction bound with
  | zero =>
    refine ⟨?_, ?_, ?_⟩ <;> intros <;> simp_all [valueFrom, itemsFrom, fieldsFrom, Cursor.fail]
  | succ bound ih =>
    obtain ⟨ihValue, ihItems, ihFields⟩ := ih
    refine ⟨?_, ?_, ?_⟩
    · intro c value c' h
      rw [valueFrom] at h
      split at h
      · obtain ⟨⟨s, c₁⟩, -, hs⟩ := except_bind_eq_ok.mp h
        obtain ⟨rfl, -⟩ : _ = value ∧ _ = c' := by simpa [pure, Except.pure] using hs
        trivial
      · simp only at h
        split at h
        · obtain ⟨rfl, -⟩ : _ = value ∧ _ = c' := by simpa using h
          trivial
        · exact ihItems [] _ _ _ trivial h
      · simp only at h
        split at h
        · obtain ⟨rfl, -⟩ : _ = value ∧ _ = c' := by simpa using h
          exact ⟨List.nodup_nil, trivial⟩
        · exact ihFields [] _ _ _ ⟨List.nodup_nil, trivial⟩ h
      · exact distinctKeys_scalar h
    · intro acc c value c' hacc h
      rw [itemsFrom] at h
      obtain ⟨⟨item, c₁⟩, hitem, hrest⟩ := except_bind_eq_ok.mp h
      have hdistinct : ItemsDistinct (item :: acc) := ⟨ihValue _ _ _ hitem, hacc⟩
      simp only at hrest
      split at hrest
      · obtain ⟨rfl, -⟩ : _ = value ∧ _ = c' := by simpa [pure, Except.pure] using hrest
        rw [DistinctKeys, itemsDistinct_iff]
        intro entry hentry
        have hmem : entry ∈ (item :: acc).reverse := by simpa using hentry
        exact itemsDistinct_iff.mp hdistinct entry (List.mem_reverse.mp hmem)
      · exact ihItems _ _ _ _ hdistinct hrest
      · simp [Cursor.fail] at hrest
    · intro acc c value c' hacc h
      rw [fieldsFrom] at h
      obtain ⟨⟨name, c₁⟩, -, h⟩ := except_bind_eq_ok.mp h
      obtain ⟨⟨field, c₂⟩, hfield, hrest⟩ := except_bind_eq_ok.mp h
      have hdistinct := hacc.put (ihValue _ _ _ hfield) name
      simp only at hrest
      split at hrest
      · obtain ⟨rfl, -⟩ : _ = value ∧ _ = c' := by simpa [pure, Except.pure] using hrest
        exact hdistinct
      · exact ihFields _ _ _ _ hdistinct hrest
      · simp [Cursor.fail] at hrest

/-- What is read from a text gives no key twice. -/
theorem distinctKeys_parse {text : String} {value : Json} (h : parse text = .ok value) :
    value.DistinctKeys := by
  rw [parse] at h
  unfold parseChars at h
  split at h
  · simp at h
  · obtain ⟨⟨found, c⟩, hfound, hrest⟩ := except_bind_eq_ok.mp h
    simp only at hrest
    split at hrest
    · obtain rfl : found = value := by simpa [pure, Except.pure] using hrest
      exact (distinctKeys_readers _).1 _ _ _ hfound
    · simp [Cursor.fail] at hrest

end Json

end PackageLint
