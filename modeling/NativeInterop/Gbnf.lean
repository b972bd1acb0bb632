import Mathlib.Data.List.Basic
import Mathlib.Tactic

/-!
# Grammars in GBNF

Expressions over a type of rule names, their text, and what they derive from a list of
rules.  A name that is defined more than once derives what any of its rules does.  The text
of a sequence or an alternative has no parentheses of its own: alternatives stand at the top
of a rule or under a star.
-/

namespace NativeInterop

namespace Gbnf

inductive Expr (Name : Type) where
  | terminal (text : List Char)
  | rule (name : Name)
  | exclude (chars : List Char)
  | any
  | seq (first second : Expr Name)
  | alt (first second : Expr Name)
  | star (body : Expr Name)
  deriving DecidableEq, Repr

variable {Name : Type}

/-! ## The text of a grammar -/

def escapeTerminal (c : Char) : List Char :=
  if c = '"' ∨ c = '\\' then ['\\', c] else [c]

def escapeClass (c : Char) : List Char :=
  if c = ']' ∨ c = '\\' then ['\\', c] else [c]

def Expr.text (nameText : Name → List Char) : Expr Name → List Char
  | .terminal text => '"' :: (text.flatMap escapeTerminal ++ ['"'])
  | .rule name => nameText name
  | .exclude chars => ['[', '^'] ++ chars.flatMap escapeClass ++ [']']
  | .any => ['.']
  | .seq first second => first.text nameText ++ ' ' :: second.text nameText
  | .alt first second => first.text nameText ++ [' ', '|', ' '] ++ second.text nameText
  | .star body => '(' :: (body.text nameText ++ [')', '*'])

/-- One rule a line. -/
def text (nameText : Name → List Char) (rules : List (Name × Expr Name)) : List Char :=
  rules.flatMap fun rule =>
    nameText rule.1 ++ [' ', ':', ':', '=', ' '] ++ rule.2.text nameText ++ ['\n']

/-! ## Derivations -/

inductive Derives (rules : List (Name × Expr Name)) : Expr Name → List Char → Prop
  | terminal (text : List Char) : Derives rules (.terminal text) text
  | rule {name : Name} {body : Expr Name} {word : List Char} (hrule : (name, body) ∈ rules)
      (hbody : Derives rules body word) : Derives rules (.rule name) word
  | exclude {chars : List Char} {c : Char} (hother : c ∉ chars) :
      Derives rules (.exclude chars) [c]
  | any (c : Char) : Derives rules .any [c]
  | seq {first second : Expr Name} {left right : List Char} (hfirst : Derives rules first left)
      (hsecond : Derives rules second right) : Derives rules (.seq first second) (left ++ right)
  | altLeft {first second : Expr Name} {word : List Char} (hfirst : Derives rules first word) :
      Derives rules (.alt first second) word
  | altRight {first second : Expr Name} {word : List Char}
      (hsecond : Derives rules second word) : Derives rules (.alt first second) word
  | starNil {body : Expr Name} : Derives rules (.star body) []
  | starCons {body : Expr Name} {left right : List Char} (hbody : Derives rules body left)
      (hstar : Derives rules (.star body) right) : Derives rules (.star body) (left ++ right)

variable {rules : List (Name × Expr Name)} {word : List Char}

@[simp] theorem derives_terminal {text : List Char} :
    Derives rules (.terminal text) word ↔ word = text := by
  constructor
  · rintro ⟨⟩
    rfl
  · rintro rfl
    exact .terminal _

theorem derives_rule {name : Name} :
    Derives rules (.rule name) word ↔ ∃ body, (name, body) ∈ rules ∧ Derives rules body word := by
  constructor
  · rintro ⟨⟩
    next body hrule hbody => exact ⟨body, hrule, hbody⟩
  · rintro ⟨body, hrule, hbody⟩
    exact .rule hrule hbody

@[simp] theorem derives_exclude {chars : List Char} :
    Derives rules (.exclude chars) word ↔ ∃ c, c ∉ chars ∧ word = [c] := by
  constructor
  · rintro ⟨⟩
    next c hother => exact ⟨c, hother, rfl⟩
  · rintro ⟨c, hother, rfl⟩
    exact .exclude hother

@[simp] theorem derives_any : Derives rules .any word ↔ ∃ c, word = [c] := by
  constructor
  · rintro ⟨⟩
    next c => exact ⟨c, rfl⟩
  · rintro ⟨c, rfl⟩
    exact .any c

@[simp] theorem derives_seq {first second : Expr Name} :
    Derives rules (.seq first second) word ↔
      ∃ left right, word = left ++ right ∧ Derives rules first left ∧
        Derives rules second right := by
  constructor
  · rintro ⟨⟩
    next left right hfirst hsecond => exact ⟨left, right, rfl, hfirst, hsecond⟩
  · rintro ⟨left, right, rfl, hfirst, hsecond⟩
    exact .seq hfirst hsecond

@[simp] theorem derives_alt {first second : Expr Name} :
    Derives rules (.alt first second) word ↔
      Derives rules first word ∨ Derives rules second word := by
  constructor
  · rintro ⟨⟩
    · next hfirst => exact Or.inl hfirst
    · next hsecond => exact Or.inr hsecond
  · rintro (hfirst | hsecond)
    · exact .altLeft hfirst
    · exact .altRight hsecond

/-- What holds of the empty word and is kept by one more round holds of all rounds. -/
theorem derives_star_induction {body : Expr Name} {P : List Char → Prop} (hnil : P [])
    (hround : ∀ left right, Derives rules body left → P right → P (left ++ right))
    (hstar : Derives rules (.star body) word) : P word := by
  generalize hexpr : Expr.star body = expr at hstar
  induction hstar with
  | starNil => exact hnil
  | @starCons round left right hleft hright _ ih =>
      cases hexpr
      exact hround left right hleft (ih rfl)
  | _ => cases hexpr

/-! ## One of several -/

/-- The alternatives of a rule, in their order. -/
def Expr.alts : Expr Name → List (Expr Name) → Expr Name
  | first, [] => first
  | first, second :: more => .alt first (Expr.alts second more)

theorem derives_alts {first : Expr Name} {more : List (Expr Name)} :
    Derives rules (Expr.alts first more) word ↔
      ∃ expr ∈ first :: more, Derives rules expr word := by
  induction more generalizing first with
  | nil => simp [Expr.alts]
  | cons second more ih => simp [Expr.alts, ih]

end Gbnf

end NativeInterop
