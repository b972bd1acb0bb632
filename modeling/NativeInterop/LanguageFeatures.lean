import Mathlib.Data.List.Basic
import Mathlib.Tactic

/-!
# The catalog of language features

A descriptor carries the output of its demo, which is captured once per process by running
it.  The demos themselves are not modelled: a catalog is any list of descriptors with the
identifiers of the source, in the order in which `Build` concatenates them.
-/

namespace NativeInterop

structure FeatureDescriptor where
  id : String
  title : String
  version : String
  code : String
  expected : String
  deriving DecidableEq, Repr

namespace LanguageFeatures

def modernSyntaxDemos : List String :=
  ["null-conditional-assignment", "nameof-unbound-generics", "compound-assignment-operators",
    "threading-lock", "index-initializers", "partial-properties", "inline-arrays",
    "lambda-defaults", "alias-any-type", "required-members", "utf8-literals", "file-local-types",
    "record-structs", "string-handlers", "extended-property-patterns"]

def languageSyntaxDemos : List String :=
  ["collection-expressions", "list-patterns", "records-with", "primary-constructors",
    "field-keyword", "extension-members", "params-span", "generic-math", "switch-expression",
    "raw-strings"]

def classicSyntaxDemos : List String :=
  ["function-pointers", "init-target-typed-new", "logical-patterns", "indices-ranges",
    "async-streams", "null-coalescing", "default-interface-methods", "tuples-deconstruction",
    "local-functions", "out-var", "ref-returns", "async-await", "linq-query", "yield-iterators",
    "operator-overloading"]

def runtimeDemos : List String :=
  ["aes-gcm", "json-sourcegen", "regex-sourcegen", "tensor-cosine", "bigint", "brotli",
    "channels", "span-parse", "viz-fractal", "ping"]

def bclDemos : List String :=
  ["sha256-hmac", "searchvalues", "parallel-for", "simd-vector128", "frozen-collections",
    "priority-queue", "dateonly-timeonly"]

/-- The identifiers of `Build`. -/
def ids : List String :=
  modernSyntaxDemos ++ languageSyntaxDemos ++ classicSyntaxDemos ++ runtimeDemos ++ bclDemos

theorem nodup_ids : ids.Nodup := by decide

/-- The text of one feature in the showcase. -/
def block (feature : FeatureDescriptor) : String :=
  "▸ " ++ feature.title ++ "  (" ++ feature.version ++ ")\n" ++ feature.code ++ "\n=>  " ++
    feature.expected ++ "\n\n"

/-- `text.Split('\n')`. -/
def splitLines : List Char → List (List Char)
  | [] => [[]]
  | c :: rest =>
      if c = '\n' then [] :: splitLines rest
      else
        match splitLines rest with
        | [] => [[c]]
        | line :: lines => (c :: line) :: lines

/-- `FeatureShowcaseModel.GenerateAsync`: the lines of every block, whatever is asked. -/
def showcase (descriptors : List FeatureDescriptor) : List String :=
  descriptors.flatMap fun feature =>
    (splitLines (block feature).toList).map fun line => .ofList (line ++ ['\n'])

end LanguageFeatures

/-- `LanguageFeatureCatalog.Descriptors`, a text of some thousand lines. -/
structure LanguageFeatureCatalog where
  descriptors : List FeatureDescriptor
  ids_eq : descriptors.map FeatureDescriptor.id = LanguageFeatures.ids
  short : (LanguageFeatures.showcase descriptors).length < 2 ^ 31

namespace LanguageFeatureCatalog

theorem nodup_ids (catalog : LanguageFeatureCatalog) :
    (catalog.descriptors.map FeatureDescriptor.id).Nodup := by
  rw [catalog.ids_eq]
  exact LanguageFeatures.nodup_ids

/-- The identifiers alone. -/
def bare : LanguageFeatureCatalog where
  descriptors := LanguageFeatures.ids.map fun id => ⟨id, "", "", "", ""⟩
  ids_eq := by simp [List.map_map, Function.comp_def]
  short := by
    have hlines : ∀ id : String,
        ((LanguageFeatures.splitLines (LanguageFeatures.block ⟨id, "", "", "", ""⟩).toList).map
          fun line => String.ofList (line ++ ['\n'])).length = 5 := by
      intro id
      simp [LanguageFeatures.block, LanguageFeatures.splitLines]
    simp only [LanguageFeatures.showcase, List.flatMap_map, List.length_flatMap, hlines]
    decide

end LanguageFeatureCatalog

end NativeInterop
