import NativeInterop.Loop
import Mathlib.Tactic

/-!
# The llama.cpp shim

`dni_llama_generate` clears the context, tokenizes the prompt, builds a sampler chain and
decodes one batch after the other, handing the piece of every sampled token to a
callback.  llama.cpp itself is a parameter: what each of its functions returns, and what
it leaves behind in the context and in the sampler.
-/

namespace NativeInterop

namespace LlamaShim

/-- What the shim uses of llama.cpp.  `tokenize` returns its code and the buffer of the
given size it has filled, `tokenToPiece` its code and the bytes it has written. -/
structure LlamaCpp (Ctx Smpl Token Temp : Type) where
  memoryClear : Ctx → Ctx
  tokenize : List UInt8 → ℕ → ℤ × List Token
  initGrammar : List UInt8 → Option Smpl
  chain : Option Smpl → Temp → Smpl
  decode : Ctx → List Token → ℤ × Ctx
  sample : Smpl → Ctx → Token × Smpl
  isEog : Token → Bool
  tokenToPiece : Token → ℤ × List UInt8

variable {Ctx Smpl Token Temp : Type}

/-- What the native call has done: the pieces it has handed to the callback, and the code
it returns. -/
structure NativeResult where
  pieces : List (List UInt8)
  code : ℤ
  deriving DecidableEq, Repr

/-- The variables of the decoding loop, and the pieces so far. -/
structure Decoding (Ctx Smpl Token : Type) where
  ctx : Ctx
  smpl : Smpl
  batch : List Token
  decoded : ℕ
  pieces : List (List UInt8)

/-- One pass of `while (decoded < max_tokens)`. -/
def pass (llama : LlamaCpp Ctx Smpl Token Temp) (maxTokens : ℤ)
    (s : Decoding Ctx Smpl Token) : Decoding Ctx Smpl Token ⊕ NativeResult :=
  if s.decoded < maxTokens then
    let decoded := llama.decode s.ctx s.batch
    if decoded.1 ≠ 0 then .inr ⟨s.pieces, -3⟩
    else
      let sampled := llama.sample s.smpl decoded.2
      if llama.isEog sampled.1 then .inr ⟨s.pieces, 0⟩
      else
        let piece := llama.tokenToPiece sampled.1
        if piece.1 < 0 then .inr ⟨s.pieces, -4⟩
        else .inl
          { ctx := decoded.2
            smpl := sampled.2
            batch := [sampled.1]
            decoded := s.decoded + 1
            pieces := s.pieces ++ [piece.2.take piece.1.toNat] }
  else .inr ⟨s.pieces, 0⟩

/-- The five ways a pass can go. -/
inductive Passes (llama : LlamaCpp Ctx Smpl Token Temp) (maxTokens : ℤ)
    (s : Decoding Ctx Smpl Token) : Decoding Ctx Smpl Token ⊕ NativeResult → Prop
  | limit (hlimit : maxTokens ≤ s.decoded) : Passes llama maxTokens s (.inr ⟨s.pieces, 0⟩)
  | undecoded (hbelow : s.decoded < maxTokens) (hdecode : (llama.decode s.ctx s.batch).1 ≠ 0) :
      Passes llama maxTokens s (.inr ⟨s.pieces, -3⟩)
  | eog (hbelow : s.decoded < maxTokens) (hdecode : (llama.decode s.ctx s.batch).1 = 0)
      (heog : llama.isEog (llama.sample s.smpl (llama.decode s.ctx s.batch).2).1 = true) :
      Passes llama maxTokens s (.inr ⟨s.pieces, 0⟩)
  | unpieced (hbelow : s.decoded < maxTokens) (hdecode : (llama.decode s.ctx s.batch).1 = 0)
      (heog : llama.isEog (llama.sample s.smpl (llama.decode s.ctx s.batch).2).1 = false)
      (hpiece :
        (llama.tokenToPiece (llama.sample s.smpl (llama.decode s.ctx s.batch).2).1).1 < 0) :
      Passes llama maxTokens s (.inr ⟨s.pieces, -4⟩)
  | piece (hbelow : s.decoded < maxTokens) (hdecode : (llama.decode s.ctx s.batch).1 = 0)
      (heog : llama.isEog (llama.sample s.smpl (llama.decode s.ctx s.batch).2).1 = false)
      (hpiece :
        0 ≤ (llama.tokenToPiece (llama.sample s.smpl (llama.decode s.ctx s.batch).2).1).1)
      (pieces : List (List UInt8)) :
      Passes llama maxTokens s (.inl
        { ctx := (llama.decode s.ctx s.batch).2
          smpl := (llama.sample s.smpl (llama.decode s.ctx s.batch).2).2
          batch := [(llama.sample s.smpl (llama.decode s.ctx s.batch).2).1]
          decoded := s.decoded + 1
          pieces := pieces })

theorem passes (llama : LlamaCpp Ctx Smpl Token Temp) (maxTokens : ℤ)
    (s : Decoding Ctx Smpl Token) : Passes llama maxTokens s (pass llama maxTokens s) := by
  unfold pass
  dsimp only
  split_ifs with hbelow hdecode heog hpiece
  · exact .undecoded hbelow hdecode
  · exact .eog hbelow (not_not.mp hdecode) heog
  · exact .unpieced hbelow (not_not.mp hdecode) (Bool.eq_false_of_not_eq_true heog) hpiece
  · exact .piece hbelow (not_not.mp hdecode) (Bool.eq_false_of_not_eq_true heog)
      (not_lt.mp hpiece) _
  · exact .limit (not_lt.mp hbelow)

def loop (llama : LlamaCpp Ctx Smpl Token Temp) (maxTokens : ℤ) :
    Loop (Decoding Ctx Smpl Token) NativeResult where
  pass := pass llama maxTokens
  rank s := (maxTokens - s.decoded).toNat
  lowers := by
    intro s next hpass
    have hcase := passes llama maxTokens s
    rw [hpass] at hcase
    cases hcase with
    | piece hbelow hdecode heog hpiece pieces =>
        simp only [Nat.cast_add, Nat.cast_one]
        omega

/-- The first call of `llama_tokenize` has no buffer and returns the size of the one it
needs, negated. -/
def promptSize (llama : LlamaCpp Ctx Smpl Token Temp) (prompt : List UInt8) : ℕ :=
  (-(llama.tokenize prompt 0).1).toNat

/-- The grammar stage: absent, or else as llama.cpp makes it of the grammar. -/
def grammarStage (llama : LlamaCpp Ctx Smpl Token Temp) :
    Option (List UInt8) → Option (Option Smpl)
  | none => some none
  | some [] => some none
  | some (byte :: rest) => (llama.initGrammar (byte :: rest)).map some

/-- `dni_llama_generate` on C strings; the handle 0 and an absent prompt are null. -/
def generate (llama : LlamaCpp Ctx Smpl Token Temp) (handle : ℕ) (ctx : Ctx)
    (prompt : Option (List UInt8)) (maxTokens : ℤ) (temp : Temp)
    (grammar : Option (List UInt8)) : NativeResult :=
  match prompt with
  | none => ⟨[], -1⟩
  | some prompt =>
      if handle = 0 then ⟨[], -1⟩
      else
        let tokens := llama.tokenize prompt (promptSize llama prompt)
        if tokens.1 < 0 then ⟨[], -2⟩
        else
          match grammarStage llama grammar with
          | none => ⟨[], -5⟩
          | some stage =>
              (loop llama maxTokens).run
                { ctx := llama.memoryClear ctx
                  smpl := llama.chain stage temp
                  batch := tokens.2
                  decoded := 0
                  pieces := [] }

/-! ## When a generation succeeds -/

/-- From here llama.cpp gets to the end of a generation: of so many more tokens, none
fails to be decoded or lacks a piece before one of them ends it. -/
inductive Completes (llama : LlamaCpp Ctx Smpl Token Temp) :
    Ctx → Smpl → List Token → ℕ → Prop
  | limit {ctx : Ctx} {smpl : Smpl} {batch : List Token} : Completes llama ctx smpl batch 0
  | eog {ctx : Ctx} {smpl : Smpl} {batch : List Token} {left : ℕ}
      (hdecode : (llama.decode ctx batch).1 = 0)
      (heog : llama.isEog (llama.sample smpl (llama.decode ctx batch).2).1 = true) :
      Completes llama ctx smpl batch (left + 1)
  | piece {ctx : Ctx} {smpl : Smpl} {batch : List Token} {left : ℕ}
      (hdecode : (llama.decode ctx batch).1 = 0)
      (hpiece : 0 ≤ (llama.tokenToPiece (llama.sample smpl (llama.decode ctx batch).2).1).1)
      (hrest : Completes llama (llama.decode ctx batch).2
        (llama.sample smpl (llama.decode ctx batch).2).2
        [(llama.sample smpl (llama.decode ctx batch).2).1] left) :
      Completes llama ctx smpl batch (left + 1)

/-- llama.cpp tokenizes the prompt, takes the grammar if there is one, and completes. -/
def Succeeds (llama : LlamaCpp Ctx Smpl Token Temp) (ctx : Ctx) (prompt : List UInt8)
    (maxTokens : ℤ) (temp : Temp) (grammar : Option (List UInt8)) : Prop :=
  0 ≤ (llama.tokenize prompt (promptSize llama prompt)).1 ∧
    ∃ stage, grammarStage llama grammar = some stage ∧
      Completes llama (llama.memoryClear ctx) (llama.chain stage temp)
        (llama.tokenize prompt (promptSize llama prompt)).2 maxTokens.toNat

theorem left_succ {maxTokens : ℤ} {decoded : ℕ} (hbelow : decoded < maxTokens) :
    (maxTokens - decoded).toNat = (maxTokens - (decoded + 1 : ℕ)).toNat + 1 := by
  omega

theorem run_code_eq_zero_iff (llama : LlamaCpp Ctx Smpl Token Temp) (maxTokens : ℤ)
    (s : Decoding Ctx Smpl Token) :
    ((loop llama maxTokens).run s).code = 0 ↔
      Completes llama s.ctx s.smpl s.batch (maxTokens - s.decoded).toNat := by
  induction s using Loop.run.induct (loop llama maxTokens) with
  | case1 s next hpass ih =>
      have hcase := passes llama maxTokens s
      rw [show pass llama maxTokens s = .inl next from hpass] at hcase
      rw [Loop.run_of_inl _ hpass, ih]
      cases hcase with
      | piece hbelow hdecode heog hpiece pieces =>
          rw [left_succ hbelow]
          constructor
          · exact .piece hdecode hpiece
          · intro hcompletes
            cases hcompletes with
            | eog _ hends => simp [hends] at heog
            | piece _ _ hrest => exact hrest
  | case2 s result hpass =>
      have hcase := passes llama maxTokens s
      rw [show pass llama maxTokens s = .inr result from hpass] at hcase
      rw [Loop.run_of_inr _ hpass]
      cases hcase with
      | limit hlimit =>
          rw [show (maxTokens - s.decoded).toNat = 0 by omega]
          simp [Completes.limit]
      | undecoded hbelow hdecode =>
          rw [left_succ hbelow]
          refine iff_of_false (by norm_num) ?_
          rintro (_ | ⟨hdecoded, _⟩ | ⟨hdecoded, _⟩) <;> exact hdecode hdecoded
      | eog hbelow hdecode heog =>
          rw [left_succ hbelow]
          exact iff_of_true rfl (.eog hdecode heog)
      | unpieced hbelow hdecode heog hpiece =>
          rw [left_succ hbelow]
          refine iff_of_false (by norm_num) ?_
          rintro (_ | ⟨_, hends⟩ | ⟨_, hpieced⟩)
          · simp [hends] at heog
          · exact absurd hpiece (not_lt.mpr hpieced)

/-- The code is never positive. -/
theorem run_code_nonpos (llama : LlamaCpp Ctx Smpl Token Temp) (maxTokens : ℤ)
    (s : Decoding Ctx Smpl Token) : ((loop llama maxTokens).run s).code ≤ 0 := by
  refine (loop llama maxTokens).run_invariant (I := fun _ => True)
    (Q := fun result => result.code ≤ 0) (fun _ _ _ _ => trivial) ?_ trivial
  intro last result _ hpass
  have hcase := passes llama maxTokens last
  rw [show pass llama maxTokens last = .inr result from hpass] at hcase
  cases hcase <;> norm_num

/-- A call on a live handle returns zero exactly if llama.cpp succeeds. -/
theorem generate_code_eq_zero_iff (llama : LlamaCpp Ctx Smpl Token Temp) {handle : ℕ}
    (hhandle : handle ≠ 0) (ctx : Ctx) (prompt : List UInt8) (maxTokens : ℤ) (temp : Temp)
    (grammar : Option (List UInt8)) :
    (generate llama handle ctx (some prompt) maxTokens temp grammar).code = 0 ↔
      Succeeds llama ctx prompt maxTokens temp grammar := by
  unfold generate Succeeds
  dsimp only
  rw [if_neg hhandle]
  split_ifs with htokens
  · simp [not_le.mpr htokens]
  · split
    · next hstage => simp [hstage]
    · next stage hstage =>
        rw [run_code_eq_zero_iff]
        simp [hstage, not_lt.mp htokens]

theorem generate_code_nonpos (llama : LlamaCpp Ctx Smpl Token Temp) (handle : ℕ) (ctx : Ctx)
    (prompt : Option (List UInt8)) (maxTokens : ℤ) (temp : Temp)
    (grammar : Option (List UInt8)) :
    (generate llama handle ctx prompt maxTokens temp grammar).code ≤ 0 := by
  unfold generate
  split
  · decide
  · dsimp only
    split_ifs
    · decide
    · decide
    · split
      · decide
      · exact run_code_nonpos llama maxTokens _

end LlamaShim

end NativeInterop
