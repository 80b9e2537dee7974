import PackageLint.Diagnostic.Rendering

/-!
# Messages of findings

Every code has a template with places for named arguments. A missing argument is shown as a question
mark.

## Main definitions

* `Template`: texts and named places in turn.
* `Code.template`: the template of a code.
* `Diagnostic.message`: the message of a finding.
-/

namespace PackageLint

/-- A part of a template. -/
inductive TemplatePart where
  | text (text : String)
  | arg (name : String)
  deriving DecidableEq, Repr

/-- A message with places for named arguments. -/
abbrev Template := List TemplatePart

namespace Template

/-- A template with no places. -/
def plain (text : String) : Template := [.text text]

/-- The text of a part with the arguments put in. -/
def fillPart (args : Args) : TemplatePart → String
  | .text text => text
  | .arg name =>
    match Assoc.get? name args with
    | some value => if value.isNull then "?" else value.render name
    | none => "?"

/-- The text of a template with the arguments put in. -/
def fill (template : Template) (args : Args) : String :=
  Text.join "" (template.map (fillPart args))

end Template

namespace EntryRule

/-- The template of a rule of both fields. -/
def template : EntryRule → Template
  | .moduleShouldPrecedeRequire => .plain "`module` should come before `require`"
  | .defaultShouldBeLast => .plain "`default` should be the last condition"
  | .moduleShouldBeEsm => .plain "The `module` condition should point to ESM but the file is CJS"
  | .valueInvalid => [.text "Value must start with \"./\"; use ", .arg "suggest_value"]
  | .globNoMatchedFiles => .plain "Pattern does not match any files"
  | .globNoDeprecatedSubpathMapping =>
    [.text "Folder mappings are removed from Node.js; use ", .arg "expect_value", .text " at ",
     .arg "expect_path"]
  | .fallbackArrayUse => .plain "Fallback arrays are unreliable; use conditions instead"

end EntryRule

/-- The template of a code. -/
def Code.template : Code → Template
  | .fileDoesNotExist => .plain "File does not exist"
  | .fileNotPublished => .plain "File exists but is not published"
  | .fileInvalidFormat =>
    [.text "Written in ", .arg "actual_format", .text " but interpreted as ", .arg "expect_format",
     .text "; use the ", .arg "expect_extension", .text " extension or fix the `type` field"]
  | .fileInvalidExplicitFormat =>
    [.text "Ends with ", .arg "actual_extension", .text " but is written in ",
     .arg "actual_format", .text "; use ", .arg "expect_extension", .text " instead"]
  | .fileInvalidJsxExtension =>
    [.arg "actual_extension", .text " is not a valid extension; use .jsx instead"]
  | .fieldInvalidValueType =>
    [.text "Value is ", .arg "actual_type", .text " but should be one of ", .arg "expect_types"]
  | .implicitIndexJsInvalidFormat =>
    [.text "index.js is written in ", .arg "actual_format", .text " but interpreted as ",
     .arg "expect_format"]
  | .hasEsmMainButNoExports => .plain "ESM `main` without `exports`; consider adding `exports`"
  | .hasModuleButNoExports => .plain "`module` is bundler-only; consider adding `exports`"
  | .moduleShouldBeEsm => .plain "Should point to an ESM file but it is written in CJS"
  | .exportsMissingRootEntrypoint =>
    [.text "Missing the root \".\" entry point that ", .arg "main_fields", .text " provide"]
  | .exportsTypesShouldBeFirst => .plain "`types` should be the first condition"
  | .exportsValueConflictsWithBrowser =>
    [.text "Remapped by ", .arg "browser_path", .text " under the ",
     .arg "browserish_condition", .text " condition"]
  | .exportsTypesInvalidFormat =>
    [.text "Types for `", .arg "condition", .text "` are interpreted as ", .arg "actual_format",
     .text " but should be ", .arg "expect_format", .text "; use the ", .arg "expect_extension",
     .text " extension at ", .arg "expect_path"]
  | .typesNotExported =>
    [.text "No types exported; ", .arg "types_file_path",
     .text " is not reachable with this condition"]
  | .importsKeyInvalid => [.text "Keys must start with \"#\"; use ", .arg "suggest_key"]
  | .entry _ rule => rule.template
  | .useExportsBrowser => .plain "Prefer the `browser` condition in `exports`"
  | .useExportsOrImportsBrowser => .plain "Prefer `browser` conditions in `exports` or `imports`"
  | .binFileNotExecutable => .plain "Missing a `#!/usr/bin/env` shebang"
  | .useFiles => .plain "Tests or config files would be published; add a `files` field"
  | .useLicense => [.text "Has ", .arg "license_file_path", .text " but no `license` field"]
  | .useType => .plain "No `type` field; set it to \"module\" or \"commonjs\""
  | .localDependency => .plain "Local dependencies cannot be installed from the registry"
  | .deprecatedFieldJsnext => .plain "jsnext fields are deprecated; use `module` instead"
  | .invalidRepositoryValue => [.text "Invalid repository value (", .arg "type", .text ")"]

/-- The message of a finding. -/
def Diagnostic.message (d : Diagnostic) : String := d.code.template.fill d.args

end PackageLint
