import Mathlib.Data.List.Basic
import Mathlib.Tactic

/-!
# Splitting into words and greedy pieces

A text over any type of characters is split at white space and around punctuation, and a
word is cut into the longest pieces that a dictionary has.  This file is independent of any
particular tokenizer: it has the loops, what they compute, and how much of the words the ids
of the pieces tell.
-/

namespace NativeInterop

namespace WordPiece

inductive CharClass where
  | mark
  | white
  | punctuation
  | ordinary
  deriving DecidableEq, Repr

/-! ## Words -/

section Words

variable {α : Type*}

/-- The loop over a text: the word in progress and the words before it. -/
structure Scan (α : Type*) where
  word : List α := []
  words : List (List α) := []

def Scan.flush (scan : Scan α) : Scan α :=
  if scan.word.isEmpty then scan else ⟨[], scan.words ++ [scan.word]⟩

def Scan.next (classOf : α → CharClass) (scan : Scan α) (c : α) : Scan α :=
  match classOf c with
  | .mark => scan
  | .white => scan.flush
  | .punctuation => { scan.flush with words := scan.flush.words ++ [[c]] }
  | .ordinary => { scan with word := scan.word ++ [c] }

def basicTokenize (classOf : α → CharClass) (text : List α) : List (List α) :=
  (text.foldl (Scan.next classOf) {}).flush.words

def closed (word : List α) : List (List α) := if word.isEmpty then [] else [word]

/-- The words of a text behind an open word. -/
def split (classOf : α → CharClass) : List α → List α → List (List α)
  | word, [] => closed word
  | word, c :: text =>
      match classOf c with
      | .mark => split classOf word text
      | .white => closed word ++ split classOf [] text
      | .punctuation => closed word ++ [c] :: split classOf [] text
      | .ordinary => split classOf (word ++ [c]) text

theorem flush_words (scan : Scan α) : scan.flush.words = scan.words ++ closed scan.word := by
  unfold Scan.flush closed
  split_ifs <;> simp

theorem flush_word (scan : Scan α) : scan.flush.word = [] := by
  unfold Scan.flush
  split_ifs with hempty
  · exact List.isEmpty_iff.mp hempty
  · rfl

theorem words_foldl (classOf : α → CharClass) (scan : Scan α) (text : List α) :
    (text.foldl (Scan.next classOf) scan).flush.words =
      scan.words ++ split classOf scan.word text := by
  induction text generalizing scan with
  | nil => exact flush_words scan
  | cons c text ih =>
      rw [List.foldl_cons, ih, split]
      unfold Scan.next
      cases classOf c with
      | mark => rfl
      | white => rw [flush_words, flush_word, List.append_assoc]
      | punctuation =>
          simp only
          rw [flush_words, flush_word, List.append_assoc, List.append_assoc]
          rfl
      | ordinary => rfl

theorem basicTokenize_eq (classOf : α → CharClass) (text : List α) :
    basicTokenize classOf text = split classOf [] text :=
  words_foldl classOf {} text

theorem split_ne_nil {classOf : α → CharClass} {word text : List α} :
    ∀ w ∈ split classOf word text, w ≠ [] := by
  have hclosed : ∀ open_ : List α, ∀ w ∈ closed open_, w ≠ [] := by
    intro open_ w hw
    unfold closed at hw
    split_ifs at hw with hempty
    · cases hw
    · rw [List.mem_singleton.mp hw]
      simpa using hempty
  induction text generalizing word with
  | nil => exact hclosed word
  | cons c text ih =>
      intro w hw
      rw [split] at hw
      cases hclass : classOf c with
      | mark =>
          rw [hclass] at hw
          exact ih w hw
      | white =>
          rw [hclass] at hw
          rcases List.mem_append.mp hw with hfirst | hrest
          · exact hclosed word w hfirst
          · exact ih w hrest
      | punctuation =>
          rw [hclass] at hw
          rcases List.mem_append.mp hw with hfirst | hrest
          · exact hclosed word w hfirst
          · rcases List.mem_cons.mp hrest with rfl | hlater
            · exact List.cons_ne_nil c []
            · exact ih w hlater
      | ordinary =>
          rw [hclass] at hw
          exact ih w hw

def isKept (classOf : α → CharClass) (c : α) : Bool :=
  match classOf c with
  | .mark => false
  | .white => false
  | _ => true

theorem flatten_split (classOf : α → CharClass) (word text : List α) :
    (split classOf word text).flatten = word ++ text.filter (isKept classOf) := by
  have hclosed : ∀ open_ : List α, (closed open_).flatten = open_ := by
    intro open_
    unfold closed
    split_ifs with hempty
    · exact (List.isEmpty_iff.mp hempty).symm
    · simp
  induction text generalizing word with
  | nil => simp [split, hclosed]
  | cons c text ih =>
      rw [split, List.filter_cons]
      cases hclass : classOf c with
      | mark => simp [isKept, hclass, ih]
      | white => simp [isKept, hclass, ih, hclosed]
      | punctuation => simp [isKept, hclass, ih, hclosed]
      | ordinary => simp [isKept, hclass, ih]

/-- Equal words come from equal decisions about what stays. -/
theorem isKept_of_basicTokenize_eq {f g : α → CharClass} {text : List α}
    (hwords : basicTokenize f text = basicTokenize g text) :
    ∀ c ∈ text, isKept f c = isKept g c := by
  rw [basicTokenize_eq, basicTokenize_eq] at hwords
  have hflat := congrArg List.flatten hwords
  rw [flatten_split, flatten_split, List.nil_append, List.nil_append] at hflat
  intro c hc
  have hiff : c ∈ text.filter (isKept f) ↔ c ∈ text.filter (isKept g) := by rw [hflat]
  rw [List.mem_filter, List.mem_filter, and_iff_right hc, and_iff_right hc] at hiff
  exact Bool.eq_iff_iff.mpr hiff

theorem basicTokenize_congr {f g : α → CharClass} {text : List α}
    (hclass : ∀ c ∈ text, f c = g c) : basicTokenize f text = basicTokenize g text := by
  unfold basicTokenize
  have hfold : text.foldl (Scan.next f) {} = text.foldl (Scan.next g) {} := by
    apply List.foldl_ext
    intro scan c hc
    rw [Scan.next, Scan.next, hclass c hc]
  rw [hfold]

end Words

/-! ## A coarser classification

One loop takes some of the other's punctuation for ordinary characters.  It still finds the
same words where each of these characters stands alone. -/

section Coarse

variable {α : Type*} {f g : α → CharClass}

/-- `f` puts two characters into one word that `g` keeps apart. -/
def Glued (f g : α → CharClass) (a b : α) : Prop :=
  f a = .ordinary ∧ f b = .ordinary ∧ (g a = .punctuation ∨ g b = .punctuation)

def unmarked (f : α → CharClass) (text : List α) : List α :=
  text.filter fun c => f c ≠ .mark

def Apart (f g : α → CharClass) (text : List α) : Prop :=
  text.IsChain fun a b => ¬ Glued f g a b

theorem unmarked_cons_of_mark {c : α} (hc : f c = .mark) (text : List α) :
    unmarked f (c :: text) = unmarked f text := by
  simp [unmarked, hc]

theorem unmarked_cons {c : α} (hc : f c ≠ .mark) (text : List α) :
    unmarked f (c :: text) = c :: unmarked f text := by
  simp [unmarked, hc]

/-- Anything but an ordinary character keeps its neighbours apart. -/
theorem apart_cons {c : α} (hc : f c ≠ .ordinary) (text : List α) :
    Apart f g (c :: text) ↔ Apart f g text := by
  rw [Apart, List.isChain_cons]
  refine and_iff_right fun next _ hglued => hc hglued.1

theorem apart_cons_cons (a b : α) (text : List α) :
    Apart f g (a :: b :: text) ↔ ¬ Glued f g a b ∧ Apart f g (b :: text) :=
  List.isChain_cons_cons

theorem apart_behind {c : α} (hc : f c ≠ .ordinary) (before : Option α) (text : List α) :
    Apart f g (before.toList ++ c :: text) ↔ Apart f g text := by
  cases before with
  | none => exact apart_cons hc text
  | some last =>
      rw [Option.toList_some, List.singleton_append, apart_cons_cons, apart_cons hc text]
      exact and_iff_right fun hglued => hc hglued.2.1

/-- An open word stays at the front of the first word. -/
theorem exists_split_eq {word : List α} (hword : word ≠ []) (text : List α) :
    ∃ more rest, split f word text = (word ++ more) :: rest := by
  have hclosed : closed word = [word] := by simp [closed, hword]
  induction text generalizing word with
  | nil => exact ⟨[], [], by simp [split, hclosed]⟩
  | cons c text ih =>
      rw [split]
      cases f c with
      | mark => exact ih hword hclosed
      | white => exact ⟨[], split f [] text, by simp [hclosed]⟩
      | punctuation => exact ⟨[], [c] :: split f [] text, by simp [hclosed]⟩
      | ordinary =>
          have hlonger : word ++ [c] ≠ [] := by simp
          obtain ⟨more, rest, hsplit⟩ := ih hlonger (by simp [closed])
          exact ⟨c :: more, rest, by simp [hsplit]⟩

theorem split_ne_of_longer (word : List α) (c : α) (text : List α) (rest : List (List α)) :
    split f (word ++ [c]) text ≠ word :: rest := by
  have hlonger : word ++ [c] ≠ [] := by simp
  obtain ⟨more, others, hsplit⟩ := exists_split_eq hlonger text
  rw [hsplit]
  intro heq
  have hlength := congrArg List.length (List.cons.inj heq).1
  simp only [List.length_append, List.length_singleton] at hlength
  omega

/-- White space and punctuation end the open word and put out the same words in any loop. -/
theorem exists_split_separator {c : α} (hc : f c = .white ∨ f c = .punctuation) :
    ∃ out, ∀ h : α → CharClass, h c = f c → ∀ word text,
      split h word (c :: text) = closed word ++ (out ++ split h [] text) := by
  rcases hc with hwhite | hpunctuation
  · exact ⟨[], fun h hsame word text => by simp [split, hsame, hwhite]⟩
  · exact ⟨[[c]], fun h hsame word text => by simp [split, hsame, hpunctuation]⟩

theorem not_apart_of_glued {a b : α} (hglued : Glued f g a b) (text : List α) :
    ¬ Apart f g (a :: b :: text) := by
  rw [apart_cons_cons]
  exact fun hapart => hapart.1 hglued

/-- The two loops side by side over a text: with the same open word, whose last character
both take for an ordinary one, and with a character that `g` has put out already. -/
structure Compares (f g : α → CharClass) (text : List α) : Prop where
  aligned : ∀ word : List α, (∀ last ∈ word.getLast?, f last = .ordinary ∧ g last = .ordinary) →
    (split f word text = split g word text ↔
      Apart f g (word.getLast?.toList ++ unmarked f text))
  pending : ∀ d, f d = .ordinary → g d = .punctuation →
    (split f [d] text = [d] :: split g [] text ↔ Apart f g (d :: unmarked f text))

namespace Compares

theorem nil : Compares f g [] where
  aligned := by
    intro word hlast
    refine iff_of_true rfl ?_
    cases word.getLast? with
    | none => exact .nil
    | some last => exact .singleton last
  pending d _ _ := iff_of_true rfl (.singleton d)

variable {c : α} {text : List α}

theorem mark (h : Compares f g text) (hf : f c = .mark) (hg : g c = .mark) :
    Compares f g (c :: text) where
  aligned := by
    simp only [split, hf, hg, unmarked_cons_of_mark hf]
    exact h.aligned
  pending := by
    simp only [split, hf, hg, unmarked_cons_of_mark hf]
    exact h.pending

/-- Behind a separator both loops start afresh. -/
theorem separator (h : Compares f g text) (hc : f c = .white ∨ f c = .punctuation)
    (hsame : g c = f c) : Compares f g (c :: text) := by
  have hfresh : split f [] text = split g [] text ↔ Apart f g (unmarked f text) :=
    h.aligned [] nofun
  obtain ⟨out, hout⟩ := exists_split_separator hc
  have hordinary : f c ≠ .ordinary := by rcases hc with hc | hc <;> simp [hc]
  have hmark : f c ≠ .mark := by rcases hc with hc | hc <;> simp [hc]
  constructor
  · intro word _
    rw [unmarked_cons hmark, hout f rfl, hout g hsame, apart_behind hordinary,
      List.append_cancel_left_eq, List.append_cancel_left_eq, hfresh]
  · intro d _ _
    have hbehind : Apart f g (d :: c :: unmarked f text) ↔ Apart f g (unmarked f text) :=
      apart_behind hordinary (some d) _
    rw [unmarked_cons hmark, hout f rfl, hout g hsame, hbehind, ← hfresh]
    simp [closed]

theorem ordinary (h : Compares f g text) (hf : f c = .ordinary) (hg : g c = .ordinary) :
    Compares f g (c :: text) := by
  have hmark : f c ≠ .mark := by simp [hf]
  constructor
  · intro word hlast
    simp only [split, hf, hg, unmarked_cons hmark]
    rw [h.aligned (word ++ [c]) (by simp [hf, hg]), List.getLast?_concat]
    cases hword : word.getLast? with
    | none => rfl
    | some last =>
        obtain ⟨-, hglast⟩ := hlast last hword
        have hnot : ¬ Glued f g last c := by simp [Glued, hglast, hg]
        simp [apart_cons_cons, hnot]
  · intro d hfd hgd
    simp only [split, hf, hg, unmarked_cons hmark]
    exact iff_of_false (split_ne_of_longer [d] c text _)
      (not_apart_of_glued ⟨hfd, hf, .inl hgd⟩ _)

/-- A character that only `g` takes for punctuation. -/
theorem disputed (h : Compares f g text) (hf : f c = .ordinary) (hg : g c = .punctuation) :
    Compares f g (c :: text) := by
  have hmark : f c ≠ .mark := by simp [hf]
  constructor
  · intro word hlast
    simp only [split, hf, hg, unmarked_cons hmark]
    cases hword : word.getLast? with
    | none =>
        obtain rfl := List.getLast?_eq_none_iff.mp hword
        exact h.pending c hf hg
    | some last =>
        obtain ⟨hflast, -⟩ := hlast last hword
        have hne : word ≠ [] := by
          rintro rfl
          cases hword
        have hclosed : closed word = [word] := by simp [closed, hne]
        refine iff_of_false ?_ (not_apart_of_glued ⟨hflast, hf, .inr hg⟩ _)
        rw [hclosed]
        exact split_ne_of_longer word c text _
  · intro d hfd hgd
    simp only [split, hf, hg, unmarked_cons hmark]
    exact iff_of_false (split_ne_of_longer [d] c text _)
      (not_apart_of_glued ⟨hfd, hf, .inl hgd⟩ _)

end Compares

theorem compares_of_coarse {text : List α}
    (hclass : ∀ c ∈ text, f c = g c ∨ (f c = .ordinary ∧ g c = .punctuation)) :
    Compares f g text := by
  induction text with
  | nil => exact .nil
  | cons c text ih =>
      have htext := ih fun d hd => hclass d (List.mem_cons_of_mem c hd)
      rcases hclass c List.mem_cons_self with hsame | ⟨hf, hg⟩
      · cases hc : f c with
        | mark => exact htext.mark hc (hsame ▸ hc)
        | white => exact htext.separator (.inl hc) hsame.symm
        | punctuation => exact htext.separator (.inr hc) hsame.symm
        | ordinary => exact htext.ordinary hc (hsame ▸ hc)
      · exact htext.disputed hf hg

/-- The words of the two loops are the same exactly where both keep the same characters and
no two characters are glued. -/
theorem basicTokenize_eq_iff {text : List α} (hcoarse : ∀ c ∈ text, f c = g c ∨ f c = .ordinary) :
    basicTokenize f text = basicTokenize g text ↔
      (∀ c ∈ text, isKept f c = isKept g c) ∧ Apart f g (unmarked f text) := by
  have hiff : (∀ c ∈ text, isKept f c = isKept g c) →
      (basicTokenize f text = basicTokenize g text ↔ Apart f g (unmarked f text)) := by
    intro hkept
    have hclass : ∀ c ∈ text, f c = g c ∨ (f c = .ordinary ∧ g c = .punctuation) := by
      intro c hc
      rcases hcoarse c hc with hsame | hordinary
      · exact .inl hsame
      · have hstays : isKept g c = true := by
          rw [← hkept c hc]
          simp [isKept, hordinary]
        cases hg : g c with
        | mark => simp [isKept, hg] at hstays
        | white => simp [isKept, hg] at hstays
        | punctuation => exact .inr ⟨hordinary, rfl⟩
        | ordinary => exact .inl hordinary
    rw [basicTokenize_eq, basicTokenize_eq]
    exact (compares_of_coarse hclass).aligned [] nofun
  constructor
  · intro hwords
    have hkept := isKept_of_basicTokenize_eq hwords
    exact ⟨hkept, (hiff hkept).mp hwords⟩
  · rintro ⟨hkept, hapart⟩
    exact (hiff hkept).mpr hapart

end Coarse

/-! ## Pieces -/

section Pieces

variable {α : Type*}

/-- The inner loop: the end of the piece goes down from `n` characters to one. -/
def longest (find : List α → Option ℕ) (pre rest : List α) : ℕ → Option (ℕ × ℕ)
  | 0 => none
  | n + 1 =>
      match find (pre ++ rest.take (n + 1)) with
      | some id => some (id, n + 1)
      | none => longest find pre rest n

/-- The outer loop; a piece behind the first one is looked up behind `hashes`. -/
def greedy (find : List α → Option ℕ) (hashes : List α) :
    ℕ → List α → List α → Option (List ℕ)
  | 0, _, rest => if rest.isEmpty then some [] else none
  | fuel + 1, pre, rest =>
      if rest.isEmpty then some []
      else
        match longest find pre rest rest.length with
        | none => none
        | some (id, n) => (greedy find hashes fuel hashes (rest.drop n)).map (id :: ·)

/-- Each pass takes at least one character, so the length of the word is enough. -/
def wordPiece (find : List α → Option ℕ) (hashes : List α) (unk : ℕ) (word : List α) : List ℕ :=
  (greedy find hashes word.length [] word).getD [unk]

theorem longest_eq_none {find : List α → Option ℕ} {pre rest : List α} {n : ℕ} :
    longest find pre rest n = none ↔
      ∀ k, 0 < k → k ≤ n → find (pre ++ rest.take k) = none := by
  induction n with
  | zero => simp [longest]; omega
  | succ n ih =>
      rw [longest]
      cases hfind : find (pre ++ rest.take (n + 1)) with
      | some id =>
          constructor
          · exact nofun
          · intro hall
            rw [hall (n + 1) (by omega) le_rfl] at hfind
            cases hfind
      | none =>
          simp only [ih]
          constructor
          · intro hall k hpos hle
            rcases Nat.lt_or_ge n k with hlt | hge
            · rw [show k = n + 1 by omega]
              exact hfind
            · exact hall k hpos hge
          · intro hall k hpos hle
            exact hall k hpos (by omega)

theorem longest_eq_some {find : List α → Option ℕ} {pre rest : List α} {n id k : ℕ} :
    longest find pre rest n = some (id, k) ↔
      0 < k ∧ k ≤ n ∧ find (pre ++ rest.take k) = some id ∧
        ∀ j, k < j → j ≤ n → find (pre ++ rest.take j) = none := by
  induction n with
  | zero =>
      simp only [longest]
      constructor
      · exact nofun
      · omega
  | succ n ih =>
      rw [longest]
      cases hfind : find (pre ++ rest.take (n + 1)) with
      | some other =>
          simp only [Option.some.injEq, Prod.mk.injEq]
          constructor
          · rintro ⟨rfl, rfl⟩
            exact ⟨by omega, le_rfl, hfind, fun j hlt hle => by omega⟩
          · rintro ⟨hpos, hle, hid, hnone⟩
            rcases Nat.lt_or_ge k (n + 1) with hlt | hge
            · rw [hnone (n + 1) hlt le_rfl] at hfind
              cases hfind
            · have hsame : k = n + 1 := by omega
              rw [hsame, hfind] at hid
              exact ⟨Option.some.inj hid, hsame.symm⟩
      | none =>
          simp only [ih]
          constructor
          · rintro ⟨hpos, hle, hid, hnone⟩
            refine ⟨hpos, by omega, hid, ?_⟩
            intro j hlt hlast
            rcases Nat.lt_or_ge n j with hbeyond | hwithin
            · rw [show j = n + 1 by omega]
              exact hfind
            · exact hnone j hlt hwithin
          · rintro ⟨hpos, hle, hid, hnone⟩
            have hne : k ≠ n + 1 := by
              rintro rfl
              rw [hid] at hfind
              cases hfind
            exact ⟨hpos, by omega, hid, fun j hlt hlast => hnone j hlt (by omega)⟩

theorem take_ne_nil {rest : List α} {k : ℕ} (hpos : 0 < k) (hle : k ≤ rest.length) :
    rest.take k ≠ [] := by
  rw [ne_eq, List.take_eq_nil_iff, not_or, ← List.length_eq_zero_iff]
  omega

theorem longest_congr {find other : List α → Option ℕ} {pre rest : List α} {n : ℕ}
    (hsame : ∀ k, 0 < k → k ≤ n → find (pre ++ rest.take k) = other (pre ++ rest.take k)) :
    longest find pre rest n = longest other pre rest n := by
  induction n with
  | zero => rfl
  | succ n ih =>
      rw [longest, longest, hsame (n + 1) (by omega) le_rfl,
        ih fun k hpos hle => hsame k hpos (by omega)]

/-- Where a piece stands decides about its key. -/
def keyOf (hashes before piece : List α) : List α :=
  (if before.isEmpty then [] else hashes) ++ piece

theorem greedy_congr {find other : List α → Option ℕ} {hashes word : List α}
    (hsame : ∀ before piece after, word = before ++ (piece ++ after) → piece ≠ [] →
      find (keyOf hashes before piece) = other (keyOf hashes before piece)) (fuel : ℕ) :
    ∀ before rest, word = before ++ rest →
      greedy find hashes fuel (if before.isEmpty then [] else hashes) rest =
        greedy other hashes fuel (if before.isEmpty then [] else hashes) rest := by
  induction fuel with
  | zero => exact fun _ _ _ => rfl
  | succ fuel ih =>
      intro before rest hword
      have hlongest : longest find (if before.isEmpty then [] else hashes) rest rest.length =
          longest other (if before.isEmpty then [] else hashes) rest rest.length := by
        refine longest_congr fun k hpos hle => ?_
        refine hsame before (rest.take k) (rest.drop k) ?_ (take_ne_nil hpos hle)
        rw [List.take_append_drop, hword]
      rw [greedy, greedy, hlongest]
      cases hfound : longest other (if before.isEmpty then [] else hashes) rest rest.length with
      | none => rfl
      | some found =>
          obtain ⟨id, k⟩ := found
          obtain ⟨hpos, hle, -, -⟩ := longest_eq_some.mp hfound
          have hbehind : (before ++ rest.take k).isEmpty = false := by
            rw [List.isEmpty_eq_false_iff]
            exact List.append_ne_nil_of_right_ne_nil before (take_ne_nil hpos hle)
          have hnext := ih (before ++ rest.take k) (rest.drop k)
            (by rw [List.append_assoc, List.take_append_drop, hword])
          rw [hbehind] at hnext
          simp only [Bool.false_eq_true, if_false] at hnext
          simp only [hnext]

theorem wordPiece_congr {find other : List α → Option ℕ} {hashes word : List α} (unk : ℕ)
    (hsame : ∀ before piece after, word = before ++ (piece ++ after) → piece ≠ [] →
      find (keyOf hashes before piece) = other (keyOf hashes before piece)) :
    wordPiece find hashes unk word = wordPiece other hashes unk word := by
  have hgreedy := greedy_congr hsame word.length [] word rfl
  rw [wordPiece, wordPiece]
  exact congrArg (fun pieces => pieces.getD [unk]) hgreedy

/-- A word of the dictionary is one piece. -/
theorem wordPiece_of_find {find : List α → Option ℕ} {word : List α} {id : ℕ} (hashes : List α)
    (unk : ℕ) (hword : word ≠ []) (hfind : find word = some id) :
    wordPiece find hashes unk word = [id] := by
  have hpos := List.length_pos_iff.mpr hword
  have hlongest : longest find [] word word.length = some (id, word.length) := by
    rw [longest_eq_some]
    refine ⟨hpos, le_rfl, ?_, fun j hlt hle => by omega⟩
    rw [List.nil_append, List.take_length]
    exact hfind
  obtain ⟨n, hn⟩ := Nat.exists_eq_succ_of_ne_zero hpos.ne'
  have hnot : word.isEmpty = false := by simpa using hword
  have hend : greedy find hashes n hashes [] = some [] := by
    cases n <;> rfl
  rw [wordPiece, hn, greedy, hnot, hlongest]
  simp [hend]

end Pieces

/-! ## Dictionaries -/

section Dictionary

variable {κ : Type*}

/-- A dictionary that is filled by assigning to each line its number: `same` compares the
keys, and a later line counts. -/
def lookup (same : κ → κ → Bool) (lines : List κ) (key : κ) : Option ℕ :=
  lines.zipIdx.foldl (fun found entry => if same entry.1 key then some entry.2 else found) none

theorem lookup_append (same : κ → κ → Bool) (lines : List κ) (line key : κ) :
    lookup same (lines ++ [line]) key =
      if same line key then some lines.length else lookup same lines key := by
  simp [lookup, List.zipIdx_append]

theorem lookup_eq_some {same : κ → κ → Bool} {lines : List κ} {key : κ} {id : ℕ}
    (hfind : lookup same lines key = some id) :
    ∃ line, lines[id]? = some line ∧ same line key = true := by
  induction lines using List.reverseRecOn with
  | nil => cases hfind
  | append_singleton lines line ih =>
      rw [lookup_append] at hfind
      split_ifs at hfind with hsame
      · cases hfind
        exact ⟨line, by simp, hsame⟩
      · obtain ⟨other, hother, hkey⟩ := ih hfind
        refine ⟨other, ?_, hkey⟩
        rw [List.getElem?_append_left (List.getElem?_eq_some_iff.mp hother).1]
        exact hother

theorem exists_lookup {same : κ → κ → Bool} {lines : List κ} {key : κ}
    (hline : ∃ line ∈ lines, same line key = true) : ∃ id, lookup same lines key = some id := by
  induction lines using List.reverseRecOn with
  | nil => simp at hline
  | append_singleton lines line ih =>
      rw [lookup_append]
      split_ifs with hsame
      · exact ⟨_, rfl⟩
      · refine ih ?_
        obtain ⟨other, hmem, hkey⟩ := hline
        rcases List.mem_append.mp hmem with hold | hlast
        · exact ⟨other, hold, hkey⟩
        · rw [List.mem_singleton.mp hlast] at hkey
          exact absurd hkey hsame

theorem lookup_eq_none {same : κ → κ → Bool} {lines : List κ} {key : κ}
    (hline : ∀ line ∈ lines, same line key = false) : lookup same lines key = none := by
  cases hfind : lookup same lines key with
  | none => rfl
  | some id =>
      obtain ⟨line, hget, hsame⟩ := lookup_eq_some hfind
      rw [hline line (List.mem_of_getElem? hget)] at hsame
      cases hsame

theorem lookup_congr {ι : Type*} {same : κ → κ → Bool} {other : ι → ι → Bool} {key : κ}
    {otherKey : ι} {lines : List κ} {f : κ → ι}
    (hsame : ∀ line ∈ lines, other (f line) otherKey = same line key) :
    lookup other (lines.map f) otherKey = lookup same lines key := by
  induction lines using List.reverseRecOn with
  | nil => rfl
  | append_singleton lines line ih =>
      rw [List.map_append, List.map_cons, List.map_nil, lookup_append, lookup_append,
        hsame line (by simp), ih (fun before hmem => hsame before (List.mem_append_left _ hmem)),
        List.length_map]

/-- Keys that compare by equality are told by their numbers. -/
theorem eq_of_lookup_eq [DecidableEq κ] {lines : List κ} {a b : κ} {id : ℕ}
    (ha : lookup (fun line key => decide (line = key)) lines a = some id)
    (hb : lookup (fun line key => decide (line = key)) lines b = some id) : a = b := by
  obtain ⟨line, hline, hsame⟩ := lookup_eq_some ha
  obtain ⟨other, hother, hkey⟩ := lookup_eq_some hb
  cases hline.symm.trans hother
  exact (of_decide_eq_true hsame).symm.trans (of_decide_eq_true hkey)

end Dictionary

/-! ## The capped list of pieces -/

section Ids

/-- The loop over the pieces of one word, and whether it has reached the cap. -/
def addPieces (cap : ℕ) : List ℕ → List ℕ → List ℕ × Bool
  | pieces, [] => (pieces, false)
  | pieces, piece :: rest =>
      if cap ≤ pieces.length then (pieces, true) else addPieces cap (pieces ++ [piece]) rest

/-- The loop over the words, where the cap ends the inner loop only. -/
def collect (cap : ℕ) (pieces : List ℕ) (words : List (List ℕ)) : List ℕ :=
  words.foldl (fun pieces word => (addPieces cap pieces word).1) pieces

/-- The same, where the cap ends both loops. -/
def collectOuter (cap : ℕ) : List ℕ → List (List ℕ) → List ℕ
  | pieces, [] => pieces
  | pieces, word :: words =>
      match addPieces cap pieces word with
      | (pieces, true) => pieces
      | (pieces, false) => collectOuter cap pieces words

/-- The ids and the mask, both of length `maxLen`. -/
def padded (maxLen padId : ℕ) (pieces : List ℕ) : List ℕ × List ℕ :=
  ((List.range maxLen).map fun i => if i < pieces.length then pieces.getD i 0 else padId,
    (List.range maxLen).map fun i => if i < pieces.length then 1 else 0)

theorem addPieces_fst (cap : ℕ) (pieces word : List ℕ) :
    (addPieces cap pieces word).1 = pieces ++ word.take (cap - pieces.length) := by
  induction word generalizing pieces with
  | nil => simp [addPieces]
  | cons piece rest ih =>
      rw [addPieces]
      split_ifs with hcap
      · simp [Nat.sub_eq_zero_of_le hcap]
      · have hroom : cap - pieces.length = cap - (pieces ++ [piece]).length + 1 := by
          simp only [List.length_append, List.length_singleton]
          omega
        rw [ih, hroom, List.take_succ_cons, List.append_assoc]
        rfl

theorem cap_le_of_addPieces {cap : ℕ} {pieces word : List ℕ}
    (hbreak : (addPieces cap pieces word).2 = true) :
    cap ≤ (addPieces cap pieces word).1.length := by
  induction word generalizing pieces with
  | nil => cases hbreak
  | cons piece rest ih =>
      rw [addPieces] at hbreak ⊢
      split_ifs at hbreak ⊢ with hcap
      · exact hcap
      · exact ih hbreak

theorem collect_eq (cap : ℕ) (pieces : List ℕ) (words : List (List ℕ)) :
    collect cap pieces words = pieces ++ words.flatten.take (cap - pieces.length) := by
  induction words generalizing pieces with
  | nil => simp [collect]
  | cons word words ih =>
      have hstep : collect cap pieces (word :: words) =
          collect cap (addPieces cap pieces word).1 words := rfl
      rw [hstep, ih, addPieces_fst, List.flatten_cons, List.take_append, List.append_assoc]
      congr 2
      simp only [List.length_append, List.length_take]
      congr 1
      omega

/-- Words behind the cap add nothing, so it does not matter which loop is left. -/
theorem collectOuter_eq (cap : ℕ) (pieces : List ℕ) (words : List (List ℕ)) :
    collectOuter cap pieces words = collect cap pieces words := by
  induction words generalizing pieces with
  | nil => rfl
  | cons word words ih =>
      have hstep : collect cap pieces (word :: words) =
          collect cap (addPieces cap pieces word).1 words := rfl
      rw [hstep, collectOuter]
      split
      · next reached heq =>
          have hbreak : (addPieces cap pieces word).2 = true := by rw [heq]
          have hcap := cap_le_of_addPieces hbreak
          rw [heq] at hcap ⊢
          rw [collect_eq, Nat.sub_eq_zero_of_le hcap, List.take_zero, List.append_nil]
      · next reached heq =>
          rw [heq]
          exact ih reached

theorem padded_injective {maxLen padId otherPad : ℕ} {a b : List ℕ} (ha : a.length ≤ maxLen)
    (hb : b.length ≤ maxLen) (hsame : padded maxLen padId a = padded maxLen otherPad b) :
    a = b := by
  obtain ⟨hids, hmask⟩ := Prod.mk.inj hsame
  have hat : ∀ i, i < maxLen → (i < a.length ↔ i < b.length) := by
    intro i hi
    have hget := congrArg (fun row => row[i]?) hmask
    simp only [List.getElem?_map, List.getElem?_range hi, Option.map_some, Option.some.injEq]
      at hget
    by_cases hia : i < a.length
    · rw [if_pos hia] at hget
      by_cases hib : i < b.length
      · exact iff_of_true hia hib
      · rw [if_neg hib] at hget
        cases hget
    · rw [if_neg hia] at hget
      by_cases hib : i < b.length
      · rw [if_pos hib] at hget
        cases hget
      · exact iff_of_false hia hib
  have hlength : a.length = b.length := by
    have hab := hat a.length
    have hba := hat b.length
    omega
  refine List.ext_getElem hlength fun i hia hib => ?_
  have hi : i < maxLen := by omega
  have hget := congrArg (fun row => row[i]?) hids
  simp only [List.getElem?_map, List.getElem?_range hi, Option.map_some, if_pos hia, if_pos hib,
    Option.some.injEq] at hget
  simpa [hia, hib] using hget

end Ids

end WordPiece

end NativeInterop
