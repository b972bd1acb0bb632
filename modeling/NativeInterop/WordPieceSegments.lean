import NativeInterop.Loop
import NativeInterop.WordPiece
import Mathlib.Tactic

/-!
# Words cut into longest pieces

What the greedy scan of a word is for: the longest keys of a dictionary, one behind the other.
The scan as a loop over two positions ends on every word, and it ends with these pieces, or
with the unknown piece exactly where it comes to a position at which no key matches.
-/

namespace NativeInterop

namespace WordPiece

section Segments

variable {α : Type*}

/-- The longest key at the position behind `before`, where `rest` is left of the word. -/
structure LongestMatch (find : List α → Option ℕ) (hashes before rest piece : List α) (id : ℕ) :
    Prop where
  ne_nil : piece ≠ []
  front : piece <+: rest
  found : find (keyOf hashes before piece) = some id
  longer : ∀ other, other <+: rest → piece.length < other.length →
    find (keyOf hashes before other) = none

def NoMatch (find : List α → Option ℕ) (hashes before rest : List α) : Prop :=
  ∀ piece, piece ≠ [] → piece <+: rest → find (keyOf hashes before piece) = none

/-- Behind `before`, longest pieces with their ids are taken from the text up to `rest`. -/
inductive Cuts (find : List α → Option ℕ) (hashes : List α) :
    List α → List α → List (List α × ℕ) → List α → Prop where
  | done (before rest : List α) : Cuts find hashes before rest [] rest
  | piece {before piece text rest : List α} {id : ℕ} {taken : List (List α × ℕ)}
      (hlongest : LongestMatch find hashes before (piece ++ text) piece id)
      (hbehind : Cuts find hashes (before ++ piece) text taken rest) :
      Cuts find hashes before (piece ++ text) ((piece, id) :: taken) rest

def textOf (taken : List (List α × ℕ)) : List α := (taken.map Prod.fst).flatten

/-- The ids are those of longest pieces that make up the word. -/
def Segments (find : List α → Option ℕ) (hashes word : List α) (ids : List ℕ) : Prop :=
  ∃ taken, Cuts find hashes [] word taken [] ∧ textOf taken = word ∧ taken.map Prod.snd = ids

/-- Taking longest pieces comes to a position inside the word at which no key matches. -/
def Stuck (find : List α → Option ℕ) (hashes word : List α) : Prop :=
  ∃ taken rest, Cuts find hashes [] word taken rest ∧ rest ≠ [] ∧
    NoMatch find hashes (textOf taken) rest

variable {find : List α → Option ℕ} {hashes before text rest : List α}
  {taken : List (List α × ℕ)}

theorem Cuts.text_eq (hcuts : Cuts find hashes before text taken rest) :
    text = textOf taken ++ rest := by
  induction hcuts with
  | done before rest => rfl
  | piece hlongest hbehind ih =>
      rename_i piece text rest id taken
      have htext : textOf ((piece, id) :: taken) = piece ++ textOf taken := rfl
      rw [htext, List.append_assoc, ← ih]

/-- What is looked up first behind `before`. -/
def preOf (hashes before : List α) : List α := if before.isEmpty then [] else hashes

theorem preOf_append {piece : List α} (hpiece : piece ≠ []) :
    preOf hashes (before ++ piece) = hashes := by
  have hne : (before ++ piece).isEmpty = false := by
    rw [List.isEmpty_eq_false_iff]
    exact List.append_ne_nil_of_right_ne_nil before hpiece
  simp [preOf, hne]

theorem longest_eq_none_iff :
    longest find (preOf hashes before) rest rest.length = none ↔
      NoMatch find hashes before rest := by
  rw [longest_eq_none]
  constructor
  · intro hnone piece hne hpiece
    have hkey := hnone piece.length (List.length_pos_iff.mpr hne) hpiece.length_le
    rwa [← List.prefix_iff_eq_take.mp hpiece] at hkey
  · intro hnone k hpos hle
    exact hnone (rest.take k) (take_ne_nil hpos hle) (List.take_prefix k rest)

theorem longestMatch_of_longest {id k : ℕ}
    (hfound : longest find (preOf hashes before) rest rest.length = some (id, k)) :
    LongestMatch find hashes before rest (rest.take k) id := by
  obtain ⟨hpos, hle, hid, hlonger⟩ := longest_eq_some.mp hfound
  constructor
  · exact take_ne_nil hpos hle
  · exact List.take_prefix k rest
  · exact hid
  · intro other hpiece hlength
    rw [List.length_take_of_le hle] at hlength
    have hkey := hlonger other.length hlength hpiece.length_le
    rwa [← List.prefix_iff_eq_take.mp hpiece] at hkey

theorem longest_of_longestMatch {piece : List α} {id : ℕ}
    (hmatch : LongestMatch find hashes before rest piece id) :
    longest find (preOf hashes before) rest rest.length = some (id, piece.length) := by
  have htake := List.prefix_iff_eq_take.mp hmatch.front
  rw [longest_eq_some]
  refine ⟨List.length_pos_iff.mpr hmatch.ne_nil, hmatch.front.length_le, ?_, ?_⟩
  · rw [← htake]
    exact hmatch.found
  · intro j hlt hle
    refine hmatch.longer (rest.take j) (List.take_prefix j rest) ?_
    rw [List.length_take_of_le hle]
    exact hlt

theorem greedy_nil (fuel : ℕ) (pre : List α) : greedy find hashes fuel pre [] = some [] := by
  cases fuel <;> rfl

theorem greedy_of_noMatch (hnone : NoMatch find hashes before rest) (hrest : rest ≠ [])
    (fuel : ℕ) : greedy find hashes fuel (preOf hashes before) rest = none := by
  cases fuel with
  | zero => simp [greedy, hrest]
  | succ fuel => simp [greedy, hrest, longest_eq_none_iff.mpr hnone]

/-- With a unit of fuel per character the scan takes the pieces of a cut. -/
theorem greedy_of_cuts (hcuts : Cuts find hashes before text taken rest) :
    ∀ fuel, text.length ≤ fuel → ∃ left, greedy find hashes fuel (preOf hashes before) text =
      (greedy find hashes left (preOf hashes (before ++ textOf taken)) rest).map
        (taken.map Prod.snd ++ ·) := by
  induction hcuts with
  | done before rest =>
      intro fuel _
      exact ⟨fuel, by simp [textOf]⟩
  | @piece before piece text rest id taken hlongest hbehind ih =>
      intro fuel hfuel
      have hpos := List.length_pos_iff.mpr hlongest.ne_nil
      rw [List.length_append] at hfuel
      obtain ⟨fuel, rfl⟩ := Nat.exists_eq_add_one_of_ne_zero (by omega : fuel ≠ 0)
      obtain ⟨left, hleft⟩ := ih fuel (by omega)
      have hne : (piece ++ text).isEmpty = false := by simp [hlongest.ne_nil]
      have htext : before ++ textOf ((piece, id) :: taken) = before ++ piece ++ textOf taken := by
        simp [textOf]
      rw [preOf_append hlongest.ne_nil] at hleft
      use left
      rw [greedy, hne, longest_of_longestMatch hlongest, htext]
      simp only [Bool.false_eq_true, if_false, List.drop_left, hleft, Option.map_map]
      rfl

/-- The scan ends in one of two ways. -/
theorem exists_cuts (find : List α → Option ℕ) (hashes : List α) (n : ℕ) :
    ∀ before text : List α, text.length ≤ n → ∃ taken rest,
      Cuts find hashes before text taken rest ∧
        (rest = [] ∨ (rest ≠ [] ∧ NoMatch find hashes (before ++ textOf taken) rest)) := by
  induction n with
  | zero =>
      intro before text hlength
      have htext : text = [] := List.length_eq_zero_iff.mp (by omega)
      exact ⟨[], text, .done before text, .inl htext⟩
  | succ n ih =>
      intro before text hlength
      cases hfound : longest find (preOf hashes before) text text.length with
      | none =>
          have hnone := longest_eq_none_iff.mp hfound
          refine ⟨[], text, .done before text, ?_⟩
          rcases eq_or_ne text [] with hempty | hne
          · exact .inl hempty
          · exact .inr ⟨hne, by simpa [textOf] using hnone⟩
      | some found =>
          obtain ⟨id, k⟩ := found
          obtain ⟨hpos, hle, -, -⟩ := longest_eq_some.mp hfound
          have hmatch := longestMatch_of_longest hfound
          have hshorter : (text.drop k).length ≤ n := by
            rw [List.length_drop]
            omega
          obtain ⟨taken, rest, hcuts, hend⟩ := ih (before ++ text.take k) (text.drop k) hshorter
          have hall : Cuts find hashes before (text.take k ++ text.drop k)
              ((text.take k, id) :: taken) rest :=
            .piece (by rwa [List.take_append_drop]) hcuts
          rw [List.take_append_drop] at hall
          refine ⟨(text.take k, id) :: taken, rest, hall, ?_⟩
          simpa [textOf] using hend

theorem greedy_of_segments {word : List α} {ids : List ℕ} (hcut : Segments find hashes word ids)
    {fuel : ℕ} (hfuel : word.length ≤ fuel) : greedy find hashes fuel [] word = some ids := by
  obtain ⟨taken, hcuts, -, rfl⟩ := hcut
  obtain ⟨left, hleft⟩ := greedy_of_cuts hcuts fuel hfuel
  rw [greedy_nil, Option.map_some, List.append_nil] at hleft
  exact hleft

theorem greedy_of_stuck {word : List α} (hstuck : Stuck find hashes word)
    {fuel : ℕ} (hfuel : word.length ≤ fuel) : greedy find hashes fuel [] word = none := by
  obtain ⟨taken, rest, hcuts, hne, hnone⟩ := hstuck
  obtain ⟨left, hleft⟩ := greedy_of_cuts hcuts fuel hfuel
  rw [List.nil_append, greedy_of_noMatch hnone hne, Option.map_none] at hleft
  exact hleft

theorem segments_or_stuck (find : List α → Option ℕ) (hashes word : List α) :
    (∃ ids, Segments find hashes word ids) ∨ Stuck find hashes word := by
  obtain ⟨taken, rest, hcuts, hend⟩ := exists_cuts find hashes word.length [] word le_rfl
  rcases hend with rfl | ⟨hne, hnone⟩
  · have htext := hcuts.text_eq
    rw [List.append_nil] at htext
    exact .inl ⟨taken.map Prod.snd, taken, hcuts, htext.symm, rfl⟩
  · exact .inr ⟨taken, rest, hcuts, hne, hnone⟩

/-- The two ends of the scan. -/
theorem wordPiece_spec (find : List α → Option ℕ) (hashes : List α) (unk : ℕ) (word : List α) :
    (Stuck find hashes word ∧ wordPiece find hashes unk word = [unk]) ∨
      (¬ Stuck find hashes word ∧
        Segments find hashes word (wordPiece find hashes unk word)) := by
  rcases segments_or_stuck find hashes word with ⟨ids, hcut⟩ | hstuck
  · have hsome := greedy_of_segments hcut le_rfl
    refine .inr ⟨?_, ?_⟩
    · intro hstuck
      rw [greedy_of_stuck hstuck le_rfl] at hsome
      cases hsome
    · rw [wordPiece, hsome]
      exact hcut
  · have hnone := greedy_of_stuck hstuck le_rfl
    refine .inl ⟨hstuck, ?_⟩
    rw [wordPiece, hnone]
    rfl

/-- Each id of a cut is that of a part of the text. -/
theorem Cuts.exists_part (hcuts : Cuts find hashes before text taken rest) :
    ∀ entry ∈ taken, ∃ front behind, text = front ++ (entry.1 ++ behind) ∧
      find (keyOf hashes (before ++ front) entry.1) = some entry.2 := by
  induction hcuts with
  | done before rest => exact nofun
  | @piece before piece text rest id taken hlongest hbehind ih =>
      intro entry hentry
      rcases List.mem_cons.mp hentry with rfl | hlater
      · exact ⟨[], text, rfl, by simpa using hlongest.found⟩
      · obtain ⟨front, behind, htext, hfind⟩ := ih entry hlater
        refine ⟨piece ++ front, behind, by rw [htext, List.append_assoc], ?_⟩
        rwa [← List.append_assoc]

theorem exists_part_of_mem_wordPiece {unk id : ℕ} {word : List α}
    (hid : id ∈ wordPiece find hashes unk word) :
    id = unk ∨ ∃ front piece behind, word = front ++ (piece ++ behind) ∧
      find (keyOf hashes front piece) = some id := by
  rcases wordPiece_spec find hashes unk word with ⟨-, hunk⟩ | ⟨-, taken, hcuts, -, hids⟩
  · rw [hunk] at hid
    exact .inl (List.mem_singleton.mp hid)
  · rw [← hids] at hid
    obtain ⟨entry, hentry, rfl⟩ := List.mem_map.mp hid
    obtain ⟨front, behind, hword, hfind⟩ := hcuts.exists_part entry hentry
    exact .inr ⟨front, entry.1, behind, hword, hfind⟩

end Segments

/-! ## Punctuation in words -/

section Words

variable {α : Type*} {classOf : α → CharClass}

/-- Punctuation stands alone in every word behind an open word without it. -/
theorem eq_singleton_of_mem_split {c : α} (hc : classOf c = .punctuation) {word text : List α}
    (hword : c ∉ word) : ∀ w ∈ split classOf word text, c ∈ w → w = [c] := by
  have hclosed : ∀ open_ : List α, c ∉ open_ → ∀ w ∈ closed open_, c ∉ w := by
    intro open_ hopen w hw
    unfold closed at hw
    split_ifs at hw
    · cases hw
    · rwa [List.mem_singleton.mp hw]
  induction text generalizing word with
  | nil => exact fun w hw hcw => absurd hcw (hclosed word hword w hw)
  | cons d text ih =>
      intro w hw hcw
      rw [split] at hw
      cases hd : classOf d with
      | mark =>
          rw [hd] at hw
          exact ih hword w hw hcw
      | white =>
          rw [hd] at hw
          rcases List.mem_append.mp hw with hfirst | hrest
          · exact absurd hcw (hclosed word hword w hfirst)
          · exact ih List.not_mem_nil w hrest hcw
      | punctuation =>
          rw [hd] at hw
          rcases List.mem_append.mp hw with hfirst | hrest
          · exact absurd hcw (hclosed word hword w hfirst)
          · rcases List.mem_cons.mp hrest with rfl | hlater
            · rw [List.mem_singleton.mp hcw]
            · exact ih List.not_mem_nil w hlater hcw
      | ordinary =>
          rw [hd] at hw
          have hne : c ≠ d := by
            rintro rfl
            rw [hc] at hd
            cases hd
          exact ih (by simp [hword, hne]) w hw hcw

end Words

/-! ## The scan as a loop over two positions -/

section Positions

variable {α : Type*}

structure ScanState where
  start : ℕ
  stop : ℕ
  output : List ℕ
  deriving DecidableEq, Repr

/-- One look at the dictionary, or the way out of the loop. -/
def scanPass (find : List α → Option ℕ) (hashes : List α) (unk : ℕ) (word : List α)
    (s : ScanState) : ScanState ⊕ List ℕ :=
  if word.length ≤ s.start then .inr s.output
  else if s.start < s.stop then
    match find ((if 0 < s.start then hashes else []) ++ (word.take s.stop).drop s.start) with
    | some id => .inl ⟨s.stop, word.length, s.output ++ [id]⟩
    | none => .inl { s with stop := s.stop - 1 }
  else .inr [unk]

/-- A key found moves the start, a key missed moves the end back. -/
def scanRank (length : ℕ) (s : ScanState) : ℕ := (length - s.start) * (length + 2) + s.stop

theorem scanPass_lowers (find : List α → Option ℕ) (hashes : List α) (unk : ℕ) (word : List α)
    (s next : ScanState) (hpass : scanPass find hashes unk word s = .inl next) :
    scanRank word.length next < scanRank word.length s := by
  rw [scanPass] at hpass
  by_cases hend : word.length ≤ s.start
  · rw [if_pos hend] at hpass
    cases hpass
  rw [if_neg hend] at hpass
  by_cases hleft : s.start < s.stop
  swap
  · rw [if_neg hleft] at hpass
    cases hpass
  rw [if_pos hleft] at hpass
  split at hpass
  · cases hpass
    have hshorter : word.length - s.stop + 1 ≤ word.length - s.start := by omega
    have hmul := Nat.mul_le_mul_right (word.length + 2) hshorter
    rw [Nat.add_mul] at hmul
    simp only [scanRank]
    omega
  · cases hpass
    simp only [scanRank]
    omega

def scanLoop (find : List α → Option ℕ) (hashes : List α) (unk : ℕ) (word : List α) :
    Loop ScanState (List ℕ) where
  pass := scanPass find hashes unk word
  rank := scanRank word.length
  lowers := scanPass_lowers find hashes unk word

variable (find : List α → Option ℕ) (hashes : List α) (unk : ℕ) {word : List α}

theorem preOf_take {start : ℕ} (hstart : start < word.length) :
    preOf hashes (word.take start) = if 0 < start then hashes else [] := by
  cases start with
  | zero => simp [preOf]
  | succ start =>
      have hne : word ≠ [] := by
        rintro rfl
        simp at hstart
      simp [preOf, hne]

/-- The inner loop is the search for the longest key. -/
theorem run_scanLoop_inner {start : ℕ} (hstart : start < word.length) (output : List ℕ) (n : ℕ) :
    (scanLoop find hashes unk word).run ⟨start, start + n, output⟩ =
      match longest find (preOf hashes (word.take start)) (word.drop start) n with
      | none => [unk]
      | some (id, k) => (scanLoop find hashes unk word).run
          ⟨start + k, word.length, output ++ [id]⟩ := by
  have hinside : ¬ word.length ≤ start := by omega
  induction n with
  | zero =>
      rw [longest]
      apply Loop.run_of_inr
      simp [scanLoop, scanPass, hinside]
  | succ n ih =>
      have hpiece : (word.take (start + (n + 1))).drop start = (word.drop start).take (n + 1) := by
        rw [List.drop_take]
        congr 1
        omega
      rw [longest, preOf_take hashes hstart]
      cases hfind : find ((if 0 < start then hashes else []) ++ (word.drop start).take (n + 1)) with
      | some id =>
          apply Loop.run_of_inl
          simp [scanLoop, scanPass, hinside, hpiece, hfind]
      | none =>
          rw [preOf_take hashes hstart] at ih
          simp only
          rw [← ih]
          apply Loop.run_of_inl
          simp [scanLoop, scanPass, hinside, hpiece, hfind]

theorem run_scanLoop_end {start : ℕ} (hend : word.length ≤ start) (output : List ℕ) :
    (scanLoop find hashes unk word).run ⟨start, word.length, output⟩ = output := by
  apply Loop.run_of_inr
  simp [scanLoop, scanPass, hend]

theorem run_scanLoop_outer (word : List α) (fuel : ℕ) : ∀ start output,
    word.length - start ≤ fuel →
    (scanLoop find hashes unk word).run ⟨start, word.length, output⟩ =
      match greedy find hashes fuel (preOf hashes (word.take start)) (word.drop start) with
      | none => [unk]
      | some ids => output ++ ids := by
  induction fuel with
  | zero =>
      intro start output hfuel
      rw [run_scanLoop_end find hashes unk (by omega), List.drop_eq_nil_of_le (by omega),
        greedy_nil]
      simp
  | succ fuel ih =>
      intro start output hfuel
      rcases Nat.lt_or_ge start word.length with hstart | hend
      · have hstop : start + (word.length - start) = word.length := by omega
        have hinner := run_scanLoop_inner find hashes unk hstart output
          (word.length - start)
        rw [hstop] at hinner
        have hne : (word.drop start).isEmpty = false := by simpa using hstart
        rw [hinner, greedy, hne, List.length_drop]
        cases hfound : longest find (preOf hashes (word.take start)) (word.drop start)
            (word.length - start) with
        | none => simp
        | some found =>
            obtain ⟨id, k⟩ := found
            obtain ⟨hpos, hle, -, -⟩ := longest_eq_some.mp hfound
            have hbehind : preOf hashes (word.take (start + k)) = hashes := by
              rw [List.take_add]
              exact preOf_append (take_ne_nil hpos (by rwa [List.length_drop]))
            simp only [Bool.false_eq_true, if_false]
            rw [ih (start + k) (output ++ [id]) (by omega), hbehind, List.drop_drop]
            cases greedy find hashes fuel hashes (word.drop (start + k)) with
            | none => rfl
            | some ids => simp
      · rw [run_scanLoop_end find hashes unk hend, List.drop_eq_nil_of_le hend, greedy_nil]
        simp

theorem run_scanLoop (find : List α → Option ℕ) (hashes : List α) (unk : ℕ) (word : List α) :
    (scanLoop find hashes unk word).run ⟨0, word.length, []⟩ =
      wordPiece find hashes unk word := by
  have houter := run_scanLoop_outer find hashes unk word word.length 0 [] (by omega)
  have hpre : preOf hashes (word.take 0) = [] := rfl
  rw [houter, hpre, List.drop_zero, wordPiece]
  cases greedy find hashes word.length [] word with
  | none => rfl
  | some ids => rfl

/-- From the front of the word the loop goes round finitely often and leaves with the pieces. -/
theorem scanLoop_ends (find : List α → Option ℕ) (hashes : List α) (unk : ℕ) (word : List α) :
    ∃ last, (scanLoop find hashes unk word).Reaches ⟨0, word.length, []⟩ last ∧
      scanPass find hashes unk word last = .inr (wordPiece find hashes unk word) := by
  have hexit := (scanLoop find hashes unk word).exists_exit (I := fun _ => True)
    (fun _ _ _ _ => trivial) (s := ⟨0, word.length, []⟩) trivial
  rw [run_scanLoop] at hexit
  obtain ⟨last, -, hreaches, hpass⟩ := hexit
  exact ⟨last, hreaches, hpass⟩

end Positions

end WordPiece

end NativeInterop
