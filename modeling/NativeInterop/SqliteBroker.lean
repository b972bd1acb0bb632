import NativeInterop.InferenceSession
import Mathlib.Tactic

/-!
# The SQLite broker

The broker runs a request and inserts each token as a row of `response_tokens`, whose
primary key is the request with the index; the host reads the rows of its request in
the order of their index.  The index is a signed column, so the order is the order of
insertion only as long as the index does not wrap.

SQLite stores a text without an embedded NUL as it is, and promises nothing about
others: what a text column gives back is a parameter here.
-/

namespace NativeInterop

namespace SqliteBroker

inductive RequestStatus where
  | pending
  | running
  | done
  | error
  | canceled
  deriving DecidableEq, Repr

structure TokenRow where
  requestId : ℤ
  idx : ℤ
  text : String
  isFinal : ℤ
  deriving DecidableEq, Repr

/-- `InsertToken`, or nothing where the primary key is taken. -/
def insertToken (rows : List TokenRow) (requestId : ℤ) (token : InferenceToken) :
    Option (List TokenRow) :=
  if rows.any fun row => row.requestId = requestId ∧ row.idx = token.index.toInt then none
  else some (rows ++ [⟨requestId, token.index.toInt, token.text, token.isFinal.toNat⟩])

/-- The loop of `ProcessNextPendingAsync`; a violated key ends it. -/
def insertTokens (requestId : ℤ) :
    List TokenRow → List InferenceToken → List TokenRow × Bool
  | rows, [] => (rows, true)
  | rows, token :: tokens =>
      match insertToken rows requestId token with
      | none => (rows, false)
      | some rows => insertTokens requestId rows tokens

/-- A claimed request to its end: the rows of its answer and its status. -/
def processPending (rows : List TokenRow) (requestId : ℤ) (generation : Generation) :
    List TokenRow × RequestStatus :=
  match insertTokens requestId rows (InferenceOrchestrator.run generation) with
  | (rows, inserted) => (rows, if inserted ∧ ¬ generation.faults then .done else .error)

/-- `SELECT * FROM response_tokens WHERE request_id = ? ORDER BY idx`. -/
def selectTokens (rows : List TokenRow) (requestId : ℤ) : List TokenRow :=
  (rows.filter fun row => row.requestId = requestId).mergeSort fun a b => a.idx ≤ b.idx

/-- A row as the host takes it, with what the text column gives back. -/
def TokenRow.token (column : String → String) (row : TokenRow) : InferenceToken :=
  ⟨BitVec.ofInt 32 row.idx, column row.text, row.isFinal ≠ 0⟩

def readTokens (column : String → String) (rows : List TokenRow) (requestId : ℤ) :
    List InferenceToken :=
  (selectTokens rows requestId).map (TokenRow.token column)

/-! ## The rows of an answer -/

def rowOf (requestId : ℤ) (token : InferenceToken) : TokenRow :=
  ⟨requestId, token.index.toInt, token.text, token.isFinal.toNat⟩

theorem rowOf_token {column : String → String} {token : InferenceToken}
    (hcolumn : column token.text = token.text) (requestId : ℤ) :
    (rowOf requestId token).token column = token := by
  obtain ⟨index, text, isFinal⟩ := token
  cases isFinal <;> simp_all [TokenRow.token, rowOf]

theorem insertTokens_distinct {requestId : ℤ} {rows : List TokenRow}
    {tokens : List InferenceToken}
    (hfree : ∀ row ∈ rows, row.requestId = requestId →
      ∀ token ∈ tokens, row.idx ≠ token.index.toInt)
    (hdistinct : tokens.Pairwise fun a b => a.index.toInt < b.index.toInt) :
    insertTokens requestId rows tokens = (rows ++ tokens.map (rowOf requestId), true) := by
  induction tokens generalizing rows with
  | nil => simp [insertTokens]
  | cons token tokens ih =>
      obtain ⟨hfirst, hrest⟩ := List.pairwise_cons.mp hdistinct
      have hinsert : insertToken rows requestId token = some (rows ++ [rowOf requestId token]) := by
        have hnone : ¬ rows.any (fun row =>
            row.requestId = requestId ∧ row.idx = token.index.toInt) = true := by
          simp only [List.any_eq_true, decide_eq_true_eq]
          rintro ⟨row, hrow, hid, hidx⟩
          exact hfree row hrow hid token List.mem_cons_self hidx
        rw [insertToken, if_neg hnone]
        rfl
      have hstill : ∀ row ∈ rows ++ [rowOf requestId token], row.requestId = requestId →
          ∀ other ∈ tokens, row.idx ≠ other.index.toInt := by
        intro row hrow hid other hother
        rcases List.mem_append.mp hrow with hold | hnew
        · exact hfree row hold hid other (List.mem_cons_of_mem token hother)
        · rw [List.mem_singleton.mp hnew]
          exact ne_of_lt (hfirst other hother)
      simp [insertTokens, hinsert, ih hstill hrest]

theorem mem_insertTokens {requestId : ℤ} {rows : List TokenRow} {tokens : List InferenceToken}
    {row : TokenRow} (hrow : row ∈ (insertTokens requestId rows tokens).1) :
    row ∈ rows ∨ ∃ token, row = rowOf requestId token := by
  induction tokens generalizing rows with
  | nil => exact Or.inl hrow
  | cons token tokens ih =>
      simp only [insertTokens] at hrow
      split at hrow
      · exact Or.inl hrow
      · next next hinsert =>
          unfold insertToken at hinsert
          split_ifs at hinsert
          cases hinsert
          rcases ih hrow with hmem | hnew
          · rcases List.mem_append.mp hmem with hold | hlast
            · exact Or.inl hold
            · exact Or.inr ⟨token, List.mem_singleton.mp hlast⟩
          · exact Or.inr hnew

theorem pairwise_selectTokens (rows : List TokenRow) (requestId : ℤ) :
    (selectTokens rows requestId).Pairwise fun a b => a.idx ≤ b.idx := by
  have htotal : ∀ a b : TokenRow, (decide (a.idx ≤ b.idx) || decide (b.idx ≤ a.idx)) = true := by
    intro a b
    rcases le_total a.idx b.idx with hle | hle <;> simp [hle]
  have htrans : ∀ a b c : TokenRow, decide (a.idx ≤ b.idx) = true →
      decide (b.idx ≤ c.idx) = true → decide (a.idx ≤ c.idx) = true := by
    intro a b c
    simpa using le_trans
  refine (List.pairwise_mergeSort htrans htotal _).imp ?_
  intro a b
  exact of_decide_eq_true

theorem selectTokens_append {requestId : ℤ} {rows : List TokenRow}
    {tokens : List InferenceToken} (hfresh : ∀ row ∈ rows, row.requestId ≠ requestId)
    (hsorted : tokens.Pairwise fun a b => a.index.toInt < b.index.toInt) :
    selectTokens (rows ++ tokens.map (rowOf requestId)) requestId =
      tokens.map (rowOf requestId) := by
  have hold : (rows.filter fun row => decide (row.requestId = requestId)) = [] := by
    simpa [List.filter_eq_nil_iff] using hfresh
  have hnew : ((tokens.map (rowOf requestId)).filter
      fun row => decide (row.requestId = requestId)) = tokens.map (rowOf requestId) := by
    simp [List.filter_eq_self, rowOf]
  rw [selectTokens, List.filter_append, hold, hnew, List.nil_append]
  apply List.mergeSort_of_pairwise
  rw [List.pairwise_map]
  exact hsorted.imp fun hlt => decide_eq_true (le_of_lt hlt)

/-! ## The index -/

open InferenceOrchestrator

theorem toInt_ofNat_of_lt {i : ℕ} (hi : i < 2 ^ 31) : (BitVec.ofNat 32 i).toInt = i := by
  rw [BitVec.toInt_eq_toNat_of_lt (by simp; omega)]
  simp
  omega

theorem pairwise_stream {fragments : List String} (hcount : fragments.length < 2 ^ 31) :
    (stream fragments).Pairwise fun a b => a.index.toInt < b.index.toInt := by
  rw [List.pairwise_iff_getElem]
  intro i j hi hj hij
  have hlength := length_stream fragments
  rw [index_of_getElem?_stream (List.getElem?_eq_getElem hi),
    index_of_getElem?_stream (List.getElem?_eq_getElem hj),
    toInt_ofNat_of_lt (by omega), toInt_ofNat_of_lt (by omega)]
  exact_mod_cast hij

/-- An answer of 2^31 fragments or more has a token with a negative index. -/
theorem not_pairwise_stream {fragments : List String} (hcount : 2 ^ 31 ≤ fragments.length) :
    ¬ (stream fragments).Pairwise fun a b => a.index.toInt ≤ b.index.toInt := by
  intro hsorted
  have hlength := length_stream fragments
  have hfirst : 0 < (stream fragments).length := by omega
  have hlate : 2 ^ 31 < (stream fragments).length := by omega
  have hle := List.pairwise_iff_getElem.mp hsorted 0 (2 ^ 31) hfirst hlate (by decide)
  rw [index_of_getElem?_stream (List.getElem?_eq_getElem hfirst),
    index_of_getElem?_stream (List.getElem?_eq_getElem hlate)] at hle
  exact absurd hle (by decide)

/-- The host reads the answer back exactly when its index has not wrapped. -/
theorem readTokens_iff {column : String → String}
    (hcolumn : ∀ text : String, '\x00' ∉ text.toList → column text = text)
    {rows : List TokenRow} {requestId : ℤ}
    (hfresh : ∀ row ∈ rows, row.requestId ≠ requestId) {fragments : List String}
    (htext : ∀ fragment ∈ fragments, '\x00' ∉ fragment.toList) :
    readTokens column (processPending rows requestId ⟨fragments, false⟩).1 requestId =
        run ⟨fragments, false⟩ ↔ fragments.length < 2 ^ 31 := by
  have hrun : run ⟨fragments, false⟩ = stream fragments := by
    rw [run_eq]
    rfl
  have hrows : (processPending rows requestId ⟨fragments, false⟩).1 =
      (insertTokens requestId rows (stream fragments)).1 := by
    rw [processPending, hrun]
  have htokens : ∀ token ∈ stream fragments, '\x00' ∉ token.text.toList := by
    intro token hmem
    rcases List.mem_append.mp hmem with htoken | hlast
    · obtain ⟨i, hi, rfl⟩ := List.mem_mapIdx.mp htoken
      exact htext _ (List.getElem_mem hi)
    · rw [List.mem_singleton.mp hlast]
      simp [InferenceToken.final]
  rw [hrows, hrun]
  constructor
  · intro hread
    by_contra hcount
    apply not_pairwise_stream (Nat.not_lt.mp hcount)
    rw [← hread, readTokens, List.pairwise_map]
    refine (pairwise_selectTokens _ requestId).imp_of_mem ?_
    intro a b ha hb hle
    have hkeep : ∀ row ∈ selectTokens (insertTokens requestId rows (stream fragments)).1
        requestId, (row.token column).index.toInt = row.idx := by
      intro row hrow
      rw [selectTokens, List.mem_mergeSort, List.mem_filter] at hrow
      rcases mem_insertTokens hrow.1 with hold | ⟨token, rfl⟩
      · exact absurd (of_decide_eq_true hrow.2) (hfresh row hold)
      · simp [TokenRow.token, rowOf]
    rw [hkeep a ha, hkeep b hb]
    exact hle
  · intro hcount
    have hsorted := pairwise_stream hcount
    rw [insertTokens_distinct (fun row hrow hid => absurd hid (hfresh row hrow)) hsorted,
      readTokens, selectTokens_append hfresh hsorted, List.map_map]
    have hback : ∀ token ∈ stream fragments,
        (TokenRow.token column ∘ rowOf requestId) token = token := fun token hmem =>
      rowOf_token (hcolumn _ (htokens token hmem)) requestId
    rw [List.map_congr_left hback, List.map_id']

end SqliteBroker

end NativeInterop
