import NativeInterop.Json

/-!
# Composing JSON texts

What a piece of text has to do so that the reader takes it for a value wherever it stands, and
how arrays and objects of such pieces are made.  This file is independent of any particular
document.
-/

namespace NativeInterop

namespace Json

/-- What stands behind a value: nothing, or a mark of the array or object around it. -/
def Ends (rest : List Char) : Prop :=
  rest = [] ∨ ∃ c tail, rest = c :: tail ∧ (c = ',' ∨ c = ']' ∨ c = '}')

/-- The reader takes the text for the value, wherever the value ends. -/
structure Writes (text : List Char) (value : Json) : Prop where
  front : ∃ c tail, text = c :: tail ∧ isSpace c = false ∧ c ≠ ']'
  reads : ∀ fuel rest, text.length < fuel → Ends rest →
    readValue fuel (text ++ rest) = some (value, rest)

/-- Pieces with commas between them and a closing mark. -/
def writeList (close : Char) : List (List Char) → List Char
  | [] => [close]
  | [piece] => piece ++ [close]
  | piece :: pieces => piece ++ ',' :: writeList close pieces

def writeArray (items : List (List Char)) : List Char :=
  '[' :: writeList ']' items

def writeField (escape : Char → List Char) (field : String × List Char) : List Char :=
  quote escape field.1 ++ ':' :: field.2

def writeRecord (escape : Char → List Char) (fields : List (String × List Char)) : List Char :=
  '{' :: writeList '}' (fields.map (writeField escape))

def Field (field : String × List Char) (member : String × Json) : Prop :=
  field.1 = member.1 ∧ Writes field.2 member.2

variable {escape : Char → List Char} {text : List Char} {value : Json}

theorem ends_cons {c : Char} (hc : c = ',' ∨ c = ']' ∨ c = '}') (rest : List Char) :
    Ends (c :: rest) :=
  .inr ⟨c, rest, rfl, hc⟩

theorem Writes.parse (hwrites : Writes text value) : parse text = some value := by
  apply parse_of_readValue
  have hread := hwrites.reads (text.length + 1) [] (Nat.lt_succ_self _) (.inl rfl)
  rwa [List.append_nil] at hread

theorem writes_quote (hescape : Escaping escape) (text : String) :
    Writes (quote escape text) (.string text) where
  front := ⟨'"', _, rfl, rfl, by decide⟩
  reads := by
    intro fuel rest hfuel _
    obtain ⟨fuel, rfl⟩ : ∃ k, fuel = k + 1 := ⟨fuel - 1, by omega⟩
    have hread := readString_quote hescape text rest
    have hsplit : quote escape text ++ rest =
        '"' :: (text.toList.flatMap escape ++ '"' :: rest) := by
      simp [quote]
    rw [hsplit, readValue, skipSpace_cons _ (by decide)]
    simp only [hread, Option.map_some, String.ofList_toList]

/-- A text that is a number and nothing else. -/
def IsNumber (text : List Char) : Prop := readNumber text = some (text, [])

theorem isDigit_of_readMagnitude {input literal left : List Char}
    (hread : readMagnitude input = some (literal, left)) :
    ∃ c tail, input = c :: tail ∧ c.isDigit = true := by
  cases input with
  | nil => cases hread
  | cons c tail =>
      refine ⟨c, tail, rfl, ?_⟩
      by_contra hc
      have hnone : (readDigits (c :: tail)).1 = [] := by simp [readDigits, hc]
      simp only [readMagnitude, hnone, true_or, if_true] at hread
      cases hread

/-- A number begins with a digit or a minus sign. -/
theorem IsNumber.cons {text : List Char} (hnumber : IsNumber text) :
    ∃ c tail, text = c :: tail ∧ (c = '-' ∨ c.isDigit = true) := by
  match text, hnumber with
  | [], hnumber => cases hnumber
  | c :: tail, hnumber =>
      refine ⟨c, tail, rfl, ?_⟩
      by_cases hc : c = '-'
      · exact .inl hc
      · rw [IsNumber, readNumber.eq_2 _ fun _ heq => hc (List.cons.inj heq).1] at hnumber
        obtain ⟨d, more, heq, hd⟩ := isDigit_of_readMagnitude hnumber
        cases heq
        exact .inr hd

theorem readItems_writeList {item : List Char} {items : List (List Char)} {values : List Json}
    (hfirst : Writes item value) (hitems : List.Forall₂ Writes items values) (rest : List Char)
    {fuel : ℕ} (hfuel : (writeList ']' (item :: items)).length < fuel) :
    readItems fuel (writeList ']' (item :: items) ++ rest) = some (value :: values, rest) := by
  induction hitems generalizing item value fuel with
  | nil =>
      obtain ⟨fuel, rfl⟩ : ∃ k, fuel = k + 1 := ⟨fuel - 1, by omega⟩
      simp only [writeList, List.length_append, List.length_singleton] at hfuel
      have hread := hfirst.reads fuel (']' :: rest) (by omega) (ends_cons (by decide) rest)
      rw [writeList, List.append_assoc, List.singleton_append, readItems, hread]
      simp [skipSpace_cons _ (show isSpace ']' = false by decide)]
  | @cons second _ items _ hsecond hitems ih =>
      obtain ⟨fuel, rfl⟩ : ∃ k, fuel = k + 1 := ⟨fuel - 1, by omega⟩
      simp only [writeList, List.length_append, List.length_cons] at hfuel
      have hread := hfirst.reads fuel (',' :: (writeList ']' (second :: items) ++ rest))
        (by omega) (ends_cons (by decide) _)
      have hmore := ih hsecond (show (writeList ']' (second :: items)).length < fuel by omega)
      rw [writeList, List.append_assoc, List.cons_append, readItems, hread]
      · simp [skipSpace_cons _ (show isSpace ',' = false by decide), hmore]
      · exact List.cons_ne_nil second items

theorem writes_array {items : List (List Char)} {values : List Json}
    (hitems : List.Forall₂ Writes items values) : Writes (writeArray items) (.array values) where
  front := ⟨'[', _, rfl, rfl, by decide⟩
  reads := by
    intro fuel rest hfuel _
    obtain ⟨fuel, rfl⟩ : ∃ k, fuel = k + 1 := ⟨fuel - 1, by omega⟩
    rw [writeArray, List.length_cons] at hfuel
    rw [writeArray, List.cons_append, readValue, skipSpace_cons _ (by decide)]
    cases hitems with
    | nil => simp [writeList, skipSpace_cons _ (show isSpace ']' = false by decide)]
    | @cons item _ items _ hfirst hitems =>
        have hread := readItems_writeList hfirst hitems rest (show _ < fuel by omega)
        obtain ⟨c, tail, hcons, hspace, hbracket⟩ : ∃ c tail,
            writeList ']' (item :: items) = c :: tail ∧ isSpace c = false ∧ c ≠ ']' := by
          obtain ⟨c, tail, rfl, hfront⟩ := hfirst.front
          cases items <;> exact ⟨c, _, rfl, hfront⟩
        rw [hcons, List.cons_append] at hread ⊢
        simp only [skipSpace_cons _ hspace]
        split
        · next heq => exact absurd (List.cons.inj heq).1 hbracket
        · rw [hread]
          rfl

/-! ## Objects -/

theorem writeField_append (escape : Char → List Char) (field : String × List Char)
    (rest : List Char) :
    writeField escape field ++ rest =
      '"' :: (field.1.toList.flatMap escape ++ '"' :: ':' :: (field.2 ++ rest)) := by
  simp [writeField, quote]

theorem readMembers_writeList (hescape : Escaping escape) {field : String × List Char}
    {member : String × Json} {fields : List (String × List Char)}
    {members : List (String × Json)} (hfirst : Field field member)
    (hfields : List.Forall₂ Field fields members) (rest : List Char) {fuel : ℕ}
    (hfuel : (writeList '}' ((field :: fields).map (writeField escape))).length < fuel) :
    readMembers fuel (writeList '}' ((field :: fields).map (writeField escape)) ++ rest) =
      some (member :: members, rest) := by
  induction hfields generalizing field member fuel with
  | nil =>
      obtain ⟨fuel, rfl⟩ : ∃ k, fuel = k + 1 := ⟨fuel - 1, by omega⟩
      simp only [List.map_cons, List.map_nil, writeList, writeField, List.length_append,
        List.length_cons] at hfuel
      have hread := hfirst.2.reads fuel ('}' :: rest) (by omega) (ends_cons (by decide) rest)
      rw [List.map_singleton, writeList, List.append_assoc, List.singleton_append,
        writeField_append, readMembers, skipSpace_cons _ (by decide)]
      simp only [readString_quote hescape]
      simp [skipSpace_cons _ (show isSpace ':' = false by decide), hread,
        skipSpace_cons _ (show isSpace '}' = false by decide), hfirst.1]
  | @cons second _ fields _ hsecond hfields ih =>
      obtain ⟨fuel, rfl⟩ : ∃ k, fuel = k + 1 := ⟨fuel - 1, by omega⟩
      have hsplit : writeList '}' ((field :: second :: fields).map (writeField escape)) =
          writeField escape field ++
            ',' :: writeList '}' ((second :: fields).map (writeField escape)) := by
        simp [writeList]
      rw [hsplit, List.length_append, List.length_cons] at hfuel
      have hlength : field.2.length ≤ (writeField escape field).length := by
        simp only [writeField, List.length_append, List.length_cons]
        omega
      have hread := hfirst.2.reads fuel
        (',' :: (writeList '}' ((second :: fields).map (writeField escape)) ++ rest)) (by omega)
        (ends_cons (by decide) _)
      have hmore := ih hsecond (show _ < fuel by omega)
      rw [hsplit, List.append_assoc, List.cons_append, writeField_append, readMembers,
        skipSpace_cons _ (by decide)]
      simp only [readString_quote hescape]
      simp only [List.map_cons] at hread hmore ⊢
      simp [skipSpace_cons _ (show isSpace ':' = false by decide), hread,
        skipSpace_cons _ (show isSpace ',' = false by decide), hmore, hfirst.1]

theorem writes_record (hescape : Escaping escape) {fields : List (String × List Char)}
    {members : List (String × Json)} (hfields : List.Forall₂ Field fields members) :
    Writes (writeRecord escape fields) (.object members) where
  front := ⟨'{', _, rfl, rfl, by decide⟩
  reads := by
    intro fuel rest hfuel _
    obtain ⟨fuel, rfl⟩ : ∃ k, fuel = k + 1 := ⟨fuel - 1, by omega⟩
    rw [writeRecord, List.length_cons] at hfuel
    rw [writeRecord, List.cons_append, readValue, skipSpace_cons _ (by decide)]
    cases hfields with
    | nil => simp [writeList, skipSpace_cons _ (show isSpace '}' = false by decide)]
    | @cons field _ fields _ hfirst hfields =>
        have hread := readMembers_writeList hescape hfirst hfields rest
          (show _ < fuel by omega)
        obtain ⟨tail, htail⟩ : ∃ tail,
            writeList '}' ((field :: fields).map (writeField escape)) = '"' :: tail := by
          cases fields <;> exact ⟨_, rfl⟩
        rw [htail, List.cons_append] at hread ⊢
        simp only [skipSpace_cons _ (show isSpace '"' = false by decide)]
        exact congrArg (Option.map fun read => (object read.1, read.2)) hread

/-! ## The characters of a text -/

theorem mem_quote {c : Char} {text : String} (hc : c ∈ quote escape text) :
    c = '"' ∨ ∃ d, c ∈ escape d := by
  simp only [quote, List.mem_cons, List.mem_append, List.mem_flatMap, List.not_mem_nil,
    or_false] at hc
  rcases hc with rfl | ⟨d, -, hd⟩ | rfl
  · exact .inl rfl
  · exact .inr ⟨d, hd⟩
  · exact .inl rfl

theorem mem_writeList {c close : Char} {pieces : List (List Char)}
    (hc : c ∈ writeList close pieces) : c = ',' ∨ c = close ∨ ∃ piece ∈ pieces, c ∈ piece := by
  induction pieces with
  | nil => exact .inr (.inl (List.mem_singleton.mp hc))
  | cons piece pieces ih =>
      have hpiece : c ∈ piece → ∃ other ∈ piece :: pieces, c ∈ other := fun hmem =>
        ⟨piece, List.mem_cons_self, hmem⟩
      cases pieces with
      | nil =>
          rcases List.mem_append.mp hc with hmem | hmem
          · exact .inr (.inr (hpiece hmem))
          · exact .inr (.inl (List.mem_singleton.mp hmem))
      | cons second pieces =>
          rcases List.mem_append.mp hc with hmem | hmem
          · exact .inr (.inr (hpiece hmem))
          · rcases List.mem_cons.mp hmem with hcomma | hmore
            · exact .inl hcomma
            · rcases ih hmore with hcomma | hclose | ⟨other, hother, hmem⟩
              · exact .inl hcomma
              · exact .inr (.inl hclose)
              · exact .inr (.inr ⟨other, List.mem_cons_of_mem piece hother, hmem⟩)

end Json

end NativeInterop
