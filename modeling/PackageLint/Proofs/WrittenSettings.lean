import PackageLint.Diagnostic.Severity
import PackageLint.Proofs.SameValues

/-!
# Settings as the command line writes them

The command line sets a level, which is the name of a severity, and a flag. Files that hold nothing else
are read as they were written, in whatever order the two were set. There are few such files, so that
each of them is simply read.

## Main definitions

* `Settings.Settable` — the entries that the command line can set
* `Settings.options` — the mapping of a level and a flag, as far as they are set

## Main results

* `Settings.kept_settable` — mappings with such entries are read as they were written
-/

namespace PackageLint.Settings

open Yaml (Mapping Scalar Token SameValues)

variable {m : Mapping}

/-- The entry of a level. -/
def levelEntry (severity : Severity) : Scalar × Yaml :=
  (.str "level", .scalar (.str severity.name))

/-- The entry of a flag. -/
def strictEntry (flag : Bool) : Scalar × Yaml := (.str "strict", .scalar (.bool flag))

/-- The entries that the command line can set. -/
inductive Settable : Scalar → Yaml → Prop
  | level (severity : Severity) : Settable (levelEntry severity).1 (levelEntry severity).2
  | strict (flag : Bool) : Settable (strictEntry flag).1 (strictEntry flag).2

/-- The mapping of a level and a flag, as far as they are set. -/
def options (severity? : Option Severity) (flag? : Option Bool) : Mapping :=
  (severity?.map levelEntry).toList ++ (flag?.map strictEntry).toList

/-- A mapping with such entries is one of options, or holds both in the other order. -/
theorem eq_options_or (hm : m.DistinctKeys) (h : ∀ entry ∈ m, Settable entry.1 entry.2) :
    (∃ severity? flag?, m = options severity? flag?)
      ∨ ∃ severity flag, m = [strictEntry flag, levelEntry severity] := by
  have hentry : ∀ entry ∈ m, (∃ severity, entry = levelEntry severity)
      ∨ ∃ flag, entry = strictEntry flag := by
    rintro ⟨key, value⟩ hmem
    cases h _ hmem with
    | level severity => exact Or.inl ⟨severity, rfl⟩
    | strict flag => exact Or.inr ⟨flag, rfl⟩
  rcases m with _ | ⟨first, _ | ⟨second, _ | ⟨third, rest⟩⟩⟩
  · exact Or.inl ⟨none, none, rfl⟩
  · rcases hentry first (by simp) with ⟨severity, rfl⟩ | ⟨flag, rfl⟩
    · exact Or.inl ⟨some severity, none, rfl⟩
    · exact Or.inl ⟨none, some flag, rfl⟩
  · rcases hentry first (by simp) with ⟨severity, rfl⟩ | ⟨flag, rfl⟩ <;>
      rcases hentry second (by simp) with ⟨severity', rfl⟩ | ⟨flag', rfl⟩
    · simp [Mapping.DistinctKeys, Mapping.keys, levelEntry] at hm
    · exact Or.inl ⟨some severity, some flag', rfl⟩
    · exact Or.inr ⟨severity', flag, rfl⟩
    · simp [Mapping.DistinctKeys, Mapping.keys, strictEntry] at hm
  -- of three entries two have one key
  · exfalso
    rcases hentry first (by simp) with ⟨severity, rfl⟩ | ⟨flag, rfl⟩ <;>
      rcases hentry second (by simp) with ⟨severity', rfl⟩ | ⟨flag', rfl⟩ <;>
      rcases hentry third (by simp) with ⟨severity'', rfl⟩ | ⟨flag'', rfl⟩ <;>
      simp [Mapping.DistinctKeys, Mapping.keys, levelEntry, strictEntry] at hm

/-! ### Writing -/

/-- What is written depends on the entries in their order. -/
theorem write_congr {m' : Mapping}
    (h : Yaml.sorted (Yaml.entriesInOrder m) = Yaml.sorted (Yaml.entriesInOrder m')) :
    Yaml.write m = Yaml.write m' := by
  simp only [Yaml.write, Yaml.Form.ofEntries, h]

/-- Two entries are written in the order of their keys. -/
theorem sorted_pair {k l : Scalar} (v w : Yaml) (hk : k.key.le? k.key = some true)
    (hl : l.key.le? l.key = some true) (hkl : k.key.le? l.key = some true)
    (hlk : l.key.le? k.key = some false) :
    Yaml.sorted [(k, v), (l, w)] = [(k, v), (l, w)]
      ∧ Yaml.sorted [(l, w), (k, v)] = [(k, v), (l, w)] := by
  constructor <;>
    simp [Yaml.sorted, Yaml.areComparable, List.mergeSort, hk, hl, hkl, hlk]

theorem sorted_options (severity : Severity) (flag : Bool) :
    Yaml.sorted (Yaml.entriesInOrder [levelEntry severity, strictEntry flag])
        = [levelEntry severity, strictEntry flag]
      ∧ Yaml.sorted (Yaml.entriesInOrder [strictEntry flag, levelEntry severity])
        = [levelEntry severity, strictEntry flag] :=
  sorted_pair _ _ (by decide) (by decide) (by decide) (by decide)

/-- The line of an entry. -/
def line (key word : String) : String := key ++ ": " ++ word ++ "\n"

/-- The text of a flag. -/
def flagWord (flag : Bool) : String := if flag then "true" else "false"

/-- The text of options. -/
def optionsText : Option Severity → Option Bool → String
  | none, none => "\x7b\x7d\n"
  | some severity, none => line "level" severity.name
  | none, some flag => line "strict" (flagWord flag)
  | some severity, some flag => line "level" severity.name ++ line "strict" (flagWord flag)

theorem write_options (severity? : Option Severity) (flag? : Option Bool) :
    Yaml.write (options severity? flag?) = optionsText severity? flag? := by
  match severity?, flag? with
  | none, none => decide +kernel
  | some severity, none => cases severity <;> decide +kernel
  | none, some flag => cases flag <;> decide +kernel
  | some severity, some flag =>
    change Yaml.write [levelEntry severity, strictEntry flag] = _
    rw [Yaml.write, Yaml.Form.ofEntries, (sorted_options severity flag).1]
    cases severity <;> cases flag <;> decide +kernel

/-! ### Reading -/

/-- The tokens of an entry. -/
def entryTokens (key word : String) : List Token :=
  [.key, .scalar key true, .value, .scalar word true]

/-- The tokens of options. -/
def optionsTokens : Option Severity → Option Bool → List Token
  | none, none => [.flowMappingStart, .flowMappingEnd, .streamEnd]
  | severity?, flag? =>
    .blockMappingStart
      :: (severity?.toList.flatMap (entryTokens "level" ·.name)
        ++ flag?.toList.flatMap (entryTokens "strict" <| flagWord ·))
      ++ [.blockEnd, .streamEnd]

theorem scan_options (severity? : Option Severity) (flag? : Option Bool) :
    Token.scan (optionsText severity? flag?) = .ok (optionsTokens severity? flag?) := by
  match severity?, flag? with
  | none, none => decide +kernel
  | some severity, none => cases severity <;> decide +kernel
  | none, some flag => cases flag <;> decide +kernel
  | some severity, some flag => cases severity <;> cases flag <;> decide +kernel

theorem read_options (severity? : Option Severity) (flag? : Option Bool) :
    Yaml.read (optionsText severity? flag?) = .ok (.map (options severity? flag?)) := by
  rw [Yaml.read, scan_options]
  match severity?, flag? with
  | none, none => rfl
  | some severity, none => cases severity <;> rfl
  | none, some flag => cases flag <;> rfl
  | some severity, some flag => cases severity <;> cases flag <;> rfl

theorem settable_of_mem_options {severity? : Option Severity} {flag? : Option Bool}
    {entry : Scalar × Yaml} (h : entry ∈ options severity? flag?) : Settable entry.1 entry.2 := by
  rcases List.mem_append.mp h with h | h
  · obtain ⟨severity, -, rfl⟩ := Option.map_eq_some_iff.mp (Option.mem_toList.mp h)
    exact .level severity
  · obtain ⟨flag, -, rfl⟩ := Option.map_eq_some_iff.mp (Option.mem_toList.mp h)
    exact .strict flag

/-- Mappings of what the command line can set are read as they were written. -/
theorem kept_settable : Yaml.Kept Settable := by
  intro m hm hentries
  rcases eq_options_or hm hentries with ⟨severity?, flag?, rfl⟩ | ⟨severity, flag, rfl⟩
  · refine ⟨options severity? flag?, ?_, fun _ => rfl, fun _ => settable_of_mem_options⟩
    rw [write_options, read_options]
  · refine ⟨options (some severity) (some flag), ?_, Yaml.same_map_iff.mpr fun key => .of_eq ?_,
      fun _ => settable_of_mem_options⟩
    · have hsorted := sorted_options severity flag
      rw [write_congr (hsorted.2.trans hsorted.1.symm)]
      exact (congrArg Yaml.read (write_options (some severity) (some flag))).trans (read_options _ _)
    · change Mapping.get? key [levelEntry severity, strictEntry flag]
        = Mapping.get? key [strictEntry flag, levelEntry severity]
      by_cases hlevel : Yaml.Key.str "level" = key.key
      · simp [Mapping.get?, levelEntry, strictEntry, ← hlevel]
      · by_cases hstrict : Yaml.Key.str "strict" = key.key <;>
          simp [Mapping.get?, levelEntry, strictEntry, hlevel, hstrict]

end PackageLint.Settings
