import NativeInterop.ForemanAgent
import NativeInterop.JsonDocument
import Mathlib.Tactic

/-!
# The tools of the Foreman

What the grammar, the router and the handlers know of a tool: its name, its description and
its parameters.  Names are written into grammars and JSON texts as they are, so they consist
of letters, digits and underscores.
-/

namespace NativeInterop

namespace Agent

def isNameChar (c : Char) : Bool :=
  ('A' ≤ c && c ≤ 'Z') || ('a' ≤ c && c ≤ 'z') || ('0' ≤ c && c ≤ '9') || c = '_'

def identifierSafe (name : String) : Bool :=
  name.toList.all isNameChar

structure ToolParam where
  name : String
  safe : identifierSafe name = true
  deriving DecidableEq

structure ToolSpec where
  name : String
  description : String
  params : List ToolParam
  safe : identifierSafe name = true
  deriving DecidableEq

namespace ForemanTools

def getString (argsJson : List UInt16) (name : String) :
    Except JsonDocument.Fault String :=
  match JsonDocument.parse argsJson with
  | .error .jsonException => .ok ""
  | .error fault => .error fault
  | .ok root =>
      match root.tryGetProperty name with
      | some ⟨_, _, .string raw⟩ => JsonElement.getString raw
      | _ => .ok ""

def searchManuals : ToolSpec where
  name := "search_manuals"
  description := "search the maintenance manuals for a fault or procedure"
  params := [⟨"query", rfl⟩]
  safe := rfl

def runFeature : ToolSpec where
  name := "run_feature"
  description := "run a named C#/.NET feature demo and return its result"
  params := [⟨"id", rfl⟩]
  safe := rfl

def engineStats : ToolSpec where
  name := "engine_stats"
  description := "current runtime memory, GC, and thread stats"
  params := []
  safe := rfl

def build : List ToolSpec :=
  [searchManuals, runFeature, engineStats]

end ForemanTools

theorem utf16_eq (text : String) : utf16 text = Utf16.encode text.toList := rfl

/-! ## Safe names -/

theorem isNameChar_plain {c : Char} (hname : isNameChar c = true) :
    0x20 ≤ c.toNat ∧ c ≠ '"' ∧ c ≠ '\\' := by
  have hrange : (0x30 ≤ c.toNat ∧ c.toNat ≤ 0x5A) ∨ (0x5F ≤ c.toNat ∧ c.toNat ≤ 0x7A) := by
    simp only [isNameChar, Bool.or_eq_true, Bool.and_eq_true, decide_eq_true_eq, Char.le_def,
      UInt32.le_iff_toNat_le] at hname
    rcases hname with ((⟨hlow, hhigh⟩ | ⟨hlow, hhigh⟩) | ⟨hlow, hhigh⟩) | rfl
    · exact Or.inl ⟨le_trans (by decide) hlow, hhigh⟩
    · exact Or.inr ⟨le_trans (by decide) hlow, hhigh⟩
    · exact Or.inl ⟨hlow, le_trans hhigh (by decide)⟩
    · exact Or.inr (by decide)
  refine ⟨by omega, ?_, ?_⟩
  · rintro rfl
    revert hrange
    decide
  · rintro rfl
    revert hrange
    decide

theorem plain_of_identifierSafe {name : String} (hsafe : identifierSafe name = true) :
    JsonDocument.Plain name.toList := by
  intro c hmem
  exact isNameChar_plain (List.all_eq_true.mp hsafe c hmem)

end Agent

end NativeInterop
