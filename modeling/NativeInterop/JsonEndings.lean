import NativeInterop.JsonDocument
import Mathlib.Tactic

/-!
# Where a document ends

Every value that the reader of a JSON document takes ends in a quote, a bracket, a digit or
the last letter of a word.  Only white space may follow, so no document ends otherwise.
-/

namespace NativeInterop.JsonDocument

open Json (isSpace skipSpace readHex4 readNumber readDigits readTail readFraction readExponent
  readMagnitude)

/-- The characters that can end a value. -/
def closes (c : Char) : Bool :=
  c = '"' || c = '}' || c = ']' || c = 'e' || c = 'l' || c.isDigit

/-- What is left behind a character that can end a value. -/
def Ends (input rest : List Char) : Prop :=
  ∃ c, closes c = true ∧ (c :: rest) <:+ input

theorem Ends.of_suffix {input inner rest : List Char} (hends : Ends inner rest)
    (hsuffix : inner <:+ input) : Ends input rest := by
  obtain ⟨c, hcloses, hrest⟩ := hends
  exact ⟨c, hcloses, hrest.trans hsuffix⟩

theorem Ends.suffix {input rest : List Char} (hends : Ends input rest) : rest <:+ input := by
  obtain ⟨c, -, hrest⟩ := hends
  exact (List.suffix_cons c rest).trans hrest

theorem skipSpace_suffix (input : List Char) : skipSpace input <:+ input :=
  List.dropWhile_suffix _

theorem ends_of_skipSpace {input rest : List Char} {c : Char} (hcloses : closes c = true)
    (hskip : skipSpace input = c :: rest) : Ends input rest :=
  ⟨c, hcloses, hskip ▸ skipSpace_suffix input⟩

theorem suffix_of_skipSpace {input rest : List Char} {c : Char}
    (hskip : skipSpace input = c :: rest) : rest <:+ input :=
  (List.suffix_cons c rest).trans (hskip ▸ skipSpace_suffix input)

theorem readHex4_suffix {input rest : List Char} {n : ℕ}
    (hread : readHex4 input = some (n, rest)) : rest <:+ input := by
  unfold readHex4 at hread
  split at hread
  · simp only [Option.bind_eq_bind, Option.bind_eq_some_iff] at hread
    obtain ⟨_, _, _, _, _, _, _, _, heq⟩ := hread
    cases heq
    exact List.suffix_append [_, _, _, _] rest
  · cases hread

theorem readUnit_suffix {input unit rest : List Char} (hread : readUnit input = some (unit, rest)) :
    rest <:+ input := by
  rcases input with _ | ⟨c, behind⟩
  · cases hread
  by_cases hslash : c = '\\'
  · subst hslash
    rcases behind with _ | ⟨mark, behind⟩
    · simp [readUnit] at hread
    have hbehind : behind <:+ '\\' :: mark :: behind := List.suffix_append ['\\', mark] behind
    by_cases hunicode : mark = 'u'
    · subst hunicode
      rw [readUnit_unicode] at hread
      obtain ⟨⟨n, left⟩, hhex, heq⟩ := Option.map_eq_some_iff.mp hread
      obtain ⟨-, rfl⟩ := Prod.mk.inj heq
      exact (readHex4_suffix hhex).trans hbehind
    · rw [readUnit_escaped hunicode] at hread
      split_ifs at hread
      cases hread
      exact hbehind
  · rw [readUnit_plain hslash] at hread
    split_ifs at hread
    cases hread
    exact List.suffix_cons _ _

theorem readRaw_ends {fuel : ℕ} {input raw rest : List Char}
    (hread : readRaw fuel input = some (raw, rest)) : Ends input rest := by
  induction fuel generalizing input raw with
  | zero => cases hread
  | succ fuel ih =>
      rw [readRaw] at hread
      split_ifs at hread with hquote
      · cases hread
        obtain ⟨behind, rfl⟩ := List.head?_eq_some_iff.mp hquote
        exact ⟨'"', rfl, List.suffix_rfl⟩
      · simp only [Option.bind_eq_bind, Option.bind_eq_some_iff] at hread
        obtain ⟨⟨unit, behind⟩, hunit, ⟨tail, left⟩, htail, heq⟩ := hread
        cases heq
        exact (ih htail).of_suffix (readUnit_suffix hunit)

theorem readWord_ends (front : List Char) {input rest : List Char} {c : Char}
    {value read : JsonElement} (hcloses : closes c = true)
    (hread : readWord (front ++ [c]) value input = some (read, rest)) : Ends input rest := by
  rw [readWord] at hread
  split_ifs at hread with hfits
  obtain ⟨behind, rfl⟩ := hfits
  rw [List.drop_left] at hread
  cases hread
  exact ⟨c, hcloses, front, by simp⟩

/-- Digits, and not none, end in a digit. -/
theorem digits_ends {input : List Char} (hdigits : (readDigits input).1 ≠ []) :
    Ends input (readDigits input).2 := by
  have hsplit : (readDigits input).1 ++ (readDigits input).2 = input :=
    List.takeWhile_append_dropWhile
  have hlast := List.mem_takeWhile_imp (List.getLast_mem hdigits)
  refine ⟨(readDigits input).1.getLast hdigits, by simp [closes, hlast],
    (readDigits input).1.dropLast, ?_⟩
  rw [List.append_cons, List.dropLast_concat_getLast hdigits, hsplit]

theorem readTail_ends {mark input literal rest : List Char}
    (hread : readTail mark input = some (literal, rest)) : Ends input rest := by
  unfold readTail at hread
  split at hread
  · cases hread
  · next digits behind hne heq =>
      cases hread
      have hdigits : (readDigits input).1 ≠ [] := by
        rw [heq]
        exact hne
      have hends := digits_ends hdigits
      rw [heq] at hends
      exact hends

theorem readFraction_ends {input literal rest : List Char}
    (hread : readFraction input = some (literal, rest)) : rest = input ∨ Ends input rest := by
  unfold readFraction at hread
  split at hread
  · exact Or.inr ((readTail_ends hread).of_suffix (List.suffix_cons _ _))
  · cases hread
    exact Or.inl rfl

theorem readExponent_ends {input literal rest : List Char}
    (hread : readExponent input = some (literal, rest)) : rest = input ∨ Ends input rest := by
  unfold readExponent at hread
  split at hread
  · next e sign behind =>
      split_ifs at hread
      · exact Or.inr ((readTail_ends hread).of_suffix (List.suffix_append [e, sign] behind))
      · exact Or.inr ((readTail_ends hread).of_suffix (List.suffix_cons _ _))
      · cases hread
        exact Or.inl rfl
  · split_ifs at hread
    cases hread
    exact Or.inl rfl
  · cases hread
    exact Or.inl rfl

theorem readMagnitude_ends {input literal rest : List Char}
    (hread : readMagnitude input = some (literal, rest)) : Ends input rest := by
  unfold readMagnitude at hread
  simp only [Option.bind_eq_bind] at hread
  split_ifs at hread with hdigits
  rw [not_or] at hdigits
  simp only [Option.bind_eq_some_iff] at hread
  obtain ⟨⟨fraction, behind⟩, hfraction, ⟨exponent, left⟩, hexponent, heq⟩ := hread
  cases heq
  have hends := digits_ends hdigits.1
  have hends : Ends input behind := by
    rcases readFraction_ends hfraction with heq | hmore
    · exact heq ▸ hends
    · exact hmore.of_suffix hends.suffix
  rcases readExponent_ends hexponent with heq | hmore
  · exact heq ▸ hends
  · exact hmore.of_suffix hends.suffix

theorem readNumber_ends {input literal rest : List Char}
    (hread : readNumber input = some (literal, rest)) : Ends input rest := by
  unfold readNumber at hread
  split at hread
  · obtain ⟨⟨number, left⟩, hmagnitude, heq⟩ := Option.map_eq_some_iff.mp hread
    cases heq
    exact (readMagnitude_ends hmagnitude).of_suffix (List.suffix_cons _ _)
  · exact readMagnitude_ends hread

/-- Whatever is read, it is read up to a character that can end a value. -/
def EndsAt {α : Type} (read : ℕ → List Char → Option (α × List Char)) : Prop :=
  ∀ depth input value rest, read depth input = some (value, rest) → Ends input rest

theorem endsAt_readValue {fuel : ℕ} (hproperties : EndsAt (readProperties fuel))
    (hitems : EndsAt (readItems fuel)) : EndsAt (readValue (fuel + 1)) := by
  intro depth input value rest hread
  rw [readValue] at hread
  split at hread
  · next behind hskip =>
      obtain ⟨⟨raw, left⟩, hraw, heq⟩ := Option.map_eq_some_iff.mp hread
      cases heq
      exact (readRaw_ends hraw).of_suffix (suffix_of_skipSpace hskip)
  · next behind hskip =>
      split_ifs at hread
      split at hread
      · next left hclose =>
          cases hread
          exact (ends_of_skipSpace rfl hclose).of_suffix (suffix_of_skipSpace hskip)
      · obtain ⟨⟨properties, left⟩, hmore, heq⟩ := Option.map_eq_some_iff.mp hread
        cases heq
        exact ((hproperties _ _ _ _ hmore).of_suffix (skipSpace_suffix _)).of_suffix
          (suffix_of_skipSpace hskip)
  · next behind hskip =>
      split_ifs at hread
      split at hread
      · next left hclose =>
          cases hread
          exact (ends_of_skipSpace rfl hclose).of_suffix (suffix_of_skipSpace hskip)
      · obtain ⟨⟨items, left⟩, hmore, heq⟩ := Option.map_eq_some_iff.mp hread
        cases heq
        exact ((hitems _ _ _ _ hmore).of_suffix (skipSpace_suffix _)).of_suffix
          (suffix_of_skipSpace hskip)
  · next behind hskip =>
      exact (readWord_ends ['r', 'u'] rfl hread).of_suffix (suffix_of_skipSpace hskip)
  · next behind hskip =>
      exact (readWord_ends ['a', 'l', 's'] rfl hread).of_suffix (suffix_of_skipSpace hskip)
  · next behind hskip =>
      exact (readWord_ends ['u', 'l'] rfl hread).of_suffix (suffix_of_skipSpace hskip)
  · obtain ⟨⟨literal, left⟩, hnumber, heq⟩ := Option.map_eq_some_iff.mp hread
    cases heq
    exact (readNumber_ends hnumber).of_suffix (skipSpace_suffix _)

theorem endsAt_readProperties {fuel : ℕ} (hvalues : EndsAt (readValue fuel))
    (hproperties : EndsAt (readProperties fuel)) : EndsAt (readProperties (fuel + 1)) := by
  intro depth input properties rest hread
  rw [readProperties] at hread
  split at hread
  · next behind hskip =>
      simp only [Option.bind_eq_bind, Option.bind_eq_some_iff] at hread
      obtain ⟨⟨name, afterName⟩, hname, hread⟩ := hread
      have hnamed := (readRaw_ends hname).suffix.trans (suffix_of_skipSpace hskip)
      dsimp only at hread hnamed
      split at hread
      · next afterColon hcolon =>
          simp only [Option.bind_eq_some_iff] at hread
          obtain ⟨⟨value, afterValue⟩, hvalue, hmore⟩ := hread
          have hstart := (skipSpace_suffix afterColon).trans
            ((suffix_of_skipSpace hcolon).trans hnamed)
          have hread := (hvalues _ _ _ _ hvalue).suffix.trans hstart
          dsimp only at hmore hread
          split at hmore
          · next left hclose =>
              cases hmore
              exact (ends_of_skipSpace rfl hclose).of_suffix hread
          · next left hcomma =>
              simp only [Option.bind_eq_some_iff] at hmore
              obtain ⟨⟨others, last⟩, hothers, heq⟩ := hmore
              cases heq
              exact (hproperties _ _ _ _ hothers).of_suffix
                ((suffix_of_skipSpace hcomma).trans hread)
          · cases hmore
      · cases hread
  · cases hread

theorem endsAt_readItems {fuel : ℕ} (hvalues : EndsAt (readValue fuel))
    (hitems : EndsAt (readItems fuel)) : EndsAt (readItems (fuel + 1)) := by
  intro depth input items rest hread
  rw [readItems] at hread
  simp only [Option.bind_eq_bind, Option.bind_eq_some_iff] at hread
  obtain ⟨⟨value, afterValue⟩, hvalue, hmore⟩ := hread
  have hread := (hvalues _ _ _ _ hvalue).suffix
  dsimp only at hmore hread
  split at hmore
  · next left hclose =>
      cases hmore
      exact (ends_of_skipSpace rfl hclose).of_suffix hread
  · next left hcomma =>
      simp only [Option.bind_eq_some_iff] at hmore
      obtain ⟨⟨others, last⟩, hothers, heq⟩ := hmore
      cases heq
      exact (hitems _ _ _ _ hothers).of_suffix ((suffix_of_skipSpace hcomma).trans hread)
  · cases hmore

/-- The three readers call each other with less fuel. -/
theorem endsAt_readers (fuel : ℕ) :
    EndsAt (readValue fuel) ∧ EndsAt (readProperties fuel) ∧ EndsAt (readItems fuel) := by
  induction fuel with
  | zero => exact ⟨nofun, nofun, nofun⟩
  | succ fuel ih =>
      obtain ⟨hvalues, hproperties, hitems⟩ := ih
      exact ⟨endsAt_readValue hproperties hitems, endsAt_readProperties hvalues hproperties,
        endsAt_readItems hvalues hitems⟩

/-- No document ends in a character that ends no value. -/
theorem parseChars_concat {c : Char} (hcloses : closes c = false) (hspace : isSpace c = false)
    (front : List Char) : parseChars (front ++ [c]) = none := by
  rw [Option.eq_none_iff_forall_not_mem]
  intro root hroot
  simp only [parseChars, Option.bind_eq_bind, Option.mem_def, Option.bind_eq_some_iff] at hroot
  obtain ⟨⟨value, rest⟩, hread, hroot⟩ := hroot
  split_ifs at hroot with hrest
  obtain ⟨last, hlast, hsuffix⟩ := (endsAt_readers _).1 _ _ _ _ hread
  rcases List.eq_nil_or_concat rest with rfl | ⟨behind, other, rfl⟩
  · obtain ⟨before, heq⟩ := hsuffix
    obtain ⟨-, hsame⟩ := List.append_inj' heq rfl
    cases hsame
    rw [hcloses] at hlast
    cases hlast
  · obtain ⟨before, heq⟩ := hsuffix
    rw [List.concat_eq_append, ← List.cons_append, ← List.append_assoc] at heq
    obtain ⟨-, hsame⟩ := List.append_inj' heq rfl
    cases hsame
    rw [skipSpace, List.dropWhile_eq_nil_iff] at hrest
    have hother := hrest c (by simp)
    rw [hspace] at hother
    cases hother

end NativeInterop.JsonDocument
