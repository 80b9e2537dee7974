/-!
# Codes of findings

Every finding has a stable code. Some rules hold of the `exports` and of the `imports` field alike; the
code of such a rule is scoped by the field.

## Main definitions

* `Code`: the codes.
* `Code.name`, `Code.ofName?`: codes and their stable names.
* `Code.scopedName`: the name that a rule's name has in one of the two fields.
-/

namespace PackageLint

/-- The fields that hold condition trees. -/
inductive EntryField where
  | exports
  | imports
  deriving DecidableEq, Repr, Inhabited

/-- The rules that hold of both fields. -/
inductive EntryRule where
  | moduleShouldPrecedeRequire
  | defaultShouldBeLast
  | moduleShouldBeEsm
  | valueInvalid
  | globNoMatchedFiles
  | globNoDeprecatedSubpathMapping
  | fallbackArrayUse
  deriving DecidableEq, Repr, Inhabited

/-- The stable identifier of a kind of finding. -/
inductive Code where
  | fileDoesNotExist
  | fileNotPublished
  | fileInvalidFormat
  | fileInvalidExplicitFormat
  | fileInvalidJsxExtension
  | fieldInvalidValueType
  | implicitIndexJsInvalidFormat
  | hasEsmMainButNoExports
  | hasModuleButNoExports
  | moduleShouldBeEsm
  | exportsMissingRootEntrypoint
  | exportsTypesShouldBeFirst
  | exportsValueConflictsWithBrowser
  | exportsTypesInvalidFormat
  | typesNotExported
  | importsKeyInvalid
  | entry (field : EntryField) (rule : EntryRule)
  | useExportsBrowser
  | useExportsOrImportsBrowser
  | binFileNotExecutable
  | useFiles
  | useLicense
  | useType
  | localDependency
  | deprecatedFieldJsnext
  | invalidRepositoryValue
  deriving DecidableEq, Repr, Inhabited

namespace EntryRule

/-- All rules. -/
def all : List EntryRule :=
  [.moduleShouldPrecedeRequire, .defaultShouldBeLast, .moduleShouldBeEsm, .valueInvalid,
   .globNoMatchedFiles, .globNoDeprecatedSubpathMapping, .fallbackArrayUse]

/-- The name of a rule, without the field. -/
def name : EntryRule → String
  | .moduleShouldPrecedeRequire => "MODULE_SHOULD_PRECEDE_REQUIRE"
  | .defaultShouldBeLast => "DEFAULT_SHOULD_BE_LAST"
  | .moduleShouldBeEsm => "MODULE_SHOULD_BE_ESM"
  | .valueInvalid => "VALUE_INVALID"
  | .globNoMatchedFiles => "GLOB_NO_MATCHED_FILES"
  | .globNoDeprecatedSubpathMapping => "GLOB_NO_DEPRECATED_SUBPATH_MAPPING"
  | .fallbackArrayUse => "FALLBACK_ARRAY_USE"

end EntryRule

/-- What the names of a field's codes begin with. -/
def EntryField.scope : EntryField → String
  | .exports => "EXPORTS_"
  | .imports => "IMPORTS_"

namespace Code

/-- The stable name of a code. -/
def name : Code → String
  | .fileDoesNotExist => "FILE_DOES_NOT_EXIST"
  | .fileNotPublished => "FILE_NOT_PUBLISHED"
  | .fileInvalidFormat => "FILE_INVALID_FORMAT"
  | .fileInvalidExplicitFormat => "FILE_INVALID_EXPLICIT_FORMAT"
  | .fileInvalidJsxExtension => "FILE_INVALID_JSX_EXTENSION"
  | .fieldInvalidValueType => "FIELD_INVALID_VALUE_TYPE"
  | .implicitIndexJsInvalidFormat => "IMPLICIT_INDEX_JS_INVALID_FORMAT"
  | .hasEsmMainButNoExports => "HAS_ESM_MAIN_BUT_NO_EXPORTS"
  | .hasModuleButNoExports => "HAS_MODULE_BUT_NO_EXPORTS"
  | .moduleShouldBeEsm => "MODULE_SHOULD_BE_ESM"
  | .exportsMissingRootEntrypoint => "EXPORTS_MISSING_ROOT_ENTRYPOINT"
  | .exportsTypesShouldBeFirst => "EXPORTS_TYPES_SHOULD_BE_FIRST"
  | .exportsValueConflictsWithBrowser => "EXPORTS_VALUE_CONFLICTS_WITH_BROWSER"
  | .exportsTypesInvalidFormat => "EXPORTS_TYPES_INVALID_FORMAT"
  | .typesNotExported => "TYPES_NOT_EXPORTED"
  | .importsKeyInvalid => "IMPORTS_KEY_INVALID"
  | .entry field rule => field.scope ++ rule.name
  | .useExportsBrowser => "USE_EXPORTS_BROWSER"
  | .useExportsOrImportsBrowser => "USE_EXPORTS_OR_IMPORTS_BROWSER"
  | .binFileNotExecutable => "BIN_FILE_NOT_EXECUTABLE"
  | .useFiles => "USE_FILES"
  | .useLicense => "USE_LICENSE"
  | .useType => "USE_TYPE"
  | .localDependency => "LOCAL_DEPENDENCY"
  | .deprecatedFieldJsnext => "DEPRECATED_FIELD_JSNEXT"
  | .invalidRepositoryValue => "INVALID_REPOSITORY_VALUE"

/-- All codes. -/
def all : List Code :=
  [.fileDoesNotExist, .fileNotPublished, .fileInvalidFormat, .fileInvalidExplicitFormat,
   .fileInvalidJsxExtension, .fieldInvalidValueType, .implicitIndexJsInvalidFormat,
   .hasEsmMainButNoExports, .hasModuleButNoExports, .moduleShouldBeEsm,
   .exportsMissingRootEntrypoint, .exportsTypesShouldBeFirst, .exportsValueConflictsWithBrowser,
   .exportsTypesInvalidFormat, .typesNotExported, .importsKeyInvalid, .useExportsBrowser,
   .useExportsOrImportsBrowser, .binFileNotExecutable, .useFiles, .useLicense, .useType,
   .localDependency, .deprecatedFieldJsnext, .invalidRepositoryValue]
  ++ EntryRule.all.map (.entry .exports) ++ EntryRule.all.map (.entry .imports)

/-- The code of a name. -/
def ofName? (name : String) : Option Code := all.find? fun c => c.name = name

/-- The name that a rule's name has in a field. -/
def scopedName (field : EntryField) (rule : String) : String := field.scope ++ rule

end Code

end PackageLint
