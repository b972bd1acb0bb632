import Mathlib.Data.List.Basic
import Mathlib.Data.PNat.Basic
import Mathlib.Tactic

/-!
# The compute benchmarks

Two multiplications of square matrices, one number at a time and a vector at a time, over any
type with an addition and a multiplication: nothing is assumed of them, since rounding keeps
none of the laws.  Reads and writes outside an array throw.  Both compute the same sums in the
same order.
-/

namespace NativeInterop

namespace Benchmarks

variable {F : Type*} [Add F] [Mul F] [Zero F]

/-! ## The loops -/

def store (c : List F) (i : ℕ) (x : F) : Option (List F) :=
  if i < c.length then some (c.set i x) else none

def loadVector (width : ℕ) (a : List F) (i : ℕ) : Option (List F) :=
  if i + width ≤ a.length then some ((a.drop i).take width) else none

def copyTo (v c : List F) (i : ℕ) : Option (List F) :=
  if i + v.length ≤ c.length then some (c.take i ++ v ++ c.drop (i + v.length)) else none

/-- `c[(i * n) + j] += aik * b[(k * n) + j]`. -/
def scalarPass (b : List F) (n i k : ℕ) (aik : F) (j : ℕ) (c : List F) : Option (List F) := do
  let x ← (c)[i * n + j]?
  let y ← b[k * n + j]?
  store c (i * n + j) (x + aik * y)

def scalarLoop (b : List F) (n i k : ℕ) (aik : F) (j : ℕ) (c : List F) : Option (List F) :=
  if j < n then do
    let c ← scalarPass b n i k aik j c
    scalarLoop b n i k aik (j + 1) c
  else some c
termination_by n - j

def vectorPass (width : ℕ) (b : List F) (n i k : ℕ) (aik : F) (j : ℕ) (c : List F) :
    Option (List F) := do
  let bv ← loadVector width b (k * n + j)
  let cv ← loadVector width c (i * n + j)
  copyTo (List.zipWith (· + ·) cv (bv.map (aik * ·))) c (i * n + j)

/-- The blocks that fit, and then what is left of the row. -/
def vectorLoop (width : ℕ+) (b : List F) (n i k : ℕ) (aik : F) (j : ℕ) (c : List F) :
    Option (List F) :=
  if j + width ≤ n then do
    let c ← vectorPass width b n i k aik j c
    vectorLoop width b n i k aik (j + width) c
  else scalarLoop b n i k aik j c
termination_by n - j
decreasing_by
  have hpos := width.pos
  omega

/-- The two outer loops, over a cleared array. -/
def rowLoops (row : ℕ → ℕ → F → List F → Option (List F)) (a c : List F) (n : ℕ) :
    Option (List F) :=
  (List.range n).foldlM (fun c i =>
    (List.range n).foldlM (fun c k => do
      let aik ← a[i * n + k]?
      row i k aik c) c) (List.replicate c.length 0)

def matmulScalar (a b c : List F) (n : ℕ) : Option (List F) :=
  rowLoops (fun i k aik => scalarLoop b n i k aik 0) a c n

def matmulSimd (width : ℕ+) (a b c : List F) (n : ℕ) : Option (List F) :=
  rowLoops (fun i k aik => vectorLoop width b n i k aik 0) a c n

/-! ## What is computed -/

/-- The sum of the first `m` products of an entry, in the order of the loops. -/
def entry (a b : List F) (n i j m : ℕ) : F :=
  (List.range m).foldl (fun acc k => acc + (a[i * n + k]?).getD 0 * (b[k * n + j]?).getD 0) 0

def product (a b : List F) (n : ℕ) : List F :=
  (List.range (n * n)).map fun t => entry a b n (t / n) (t % n) n

/-- How many products entry `t` has when the loops stand at `i`, `k` and `j`. -/
def finished (n i k j t : ℕ) : ℕ :=
  if t / n < i then n
  else if t / n = i then (if t % n < j then k + 1 else k)
  else 0

def partialProduct (a b : List F) (n i k j : ℕ) : List F :=
  (List.range (n * n)).map fun t => entry a b n (t / n) (t % n) (finished n i k j t)

section Passes

variable {a b : List F} {n i k j : ℕ}

theorem entry_succ (m : ℕ) :
    entry a b n i j (m + 1) =
      entry a b n i j m + (a[i * n + m]?).getD 0 * (b[m * n + j]?).getD 0 := by
  rw [entry, List.range_succ, List.foldl_append]
  rfl

theorem index_lt (hi : i < n) (hj : j < n) : i * n + j < n * n := by
  calc i * n + j < i * n + n := by omega
    _ = (i + 1) * n := by ring
    _ ≤ n * n := Nat.mul_le_mul_right n hi

theorem index_div (hj : j < n) : (i * n + j) / n = i := by
  rw [mul_comm, Nat.mul_add_div (by omega), Nat.div_eq_of_lt hj, add_zero]

theorem index_mod (hj : j < n) : (i * n + j) % n = j := by
  rw [mul_comm, Nat.mul_add_mod, Nat.mod_eq_of_lt hj]

theorem length_partialProduct : (partialProduct a b n i k j).length = n * n := by
  rw [partialProduct, List.length_map, List.length_range]

theorem getElem?_partialProduct (t : ℕ) :
    (partialProduct a b n i k j)[t]? =
      if t < n * n then some (entry a b n (t / n) (t % n) (finished n i k j t)) else none := by
  rw [partialProduct, List.getElem?_map]
  split_ifs with ht
  · rw [List.getElem?_range ht, Option.map_some]
  · rw [List.getElem?_eq_none (by rw [List.length_range]; omega), Option.map_none]

/-- The row is through with one `k`. -/
theorem partialProduct_row : partialProduct a b n i k n = partialProduct a b n i (k + 1) 0 := by
  apply List.ext_getElem?
  intro t
  simp only [getElem?_partialProduct]
  split_ifs with ht
  · have hn : 0 < n := by
      by_contra hzero
      simp [Nat.eq_zero_of_not_pos hzero] at ht
    simp [finished, Nat.mod_lt t hn]
  · rfl

/-- All products of a row are there. -/
theorem partialProduct_next : partialProduct a b n i n 0 = partialProduct a b n (i + 1) 0 0 := by
  apply List.ext_getElem?
  intro t
  have hfinished : finished n i n 0 t = finished n (i + 1) 0 0 t := by
    unfold finished
    split_ifs <;> omega
  rw [getElem?_partialProduct, getElem?_partialProduct, hfinished]

theorem between_iff {m t : ℕ} (hm : m ≤ n) :
    i * n + j ≤ t ∧ t < i * n + m ↔ t / n = i ∧ j ≤ t % n ∧ t % n < m := by
  have hsplit := Nat.div_add_mod t n
  constructor
  · rintro ⟨hlow, hhigh⟩
    have hrow : t / n = i := by
      apply Nat.div_eq_of_lt_le
      · omega
      · rw [Nat.succ_mul]
        omega
    rw [hrow, mul_comm] at hsplit
    omega
  · rintro ⟨hrow, hlow, hhigh⟩
    rw [hrow, mul_comm] at hsplit
    omega

/-- Moving on from `j` to `m` in row `i` changes the entries between them. -/
theorem finished_between {m : ℕ} (hm : m ≤ n) (hj : j ≤ m) (t : ℕ) :
    finished n i k m t =
      if i * n + j ≤ t ∧ t < i * n + m then k + 1 else finished n i k j t := by
  simp only [between_iff hm]
  unfold finished
  split_ifs <;> omega

/-- The entry at `t` of a block from `j` to `m`, one product further. -/
theorem getElem?_moved {m t : ℕ} (hm : m ≤ n) (hj : j ≤ m) (hi : i < n) :
    (partialProduct a b n i k m)[t]? =
      if i * n + j ≤ t ∧ t < i * n + m then
        some (entry a b n i (t - i * n) k +
          (a[i * n + k]?).getD 0 * (b[k * n + (t - i * n)]?).getD 0)
      else (partialProduct a b n i k j)[t]? := by
  rw [getElem?_partialProduct, getElem?_partialProduct, finished_between hm hj]
  by_cases hbetween : i * n + j ≤ t ∧ t < i * n + m
  · obtain ⟨hrow, -, -⟩ := (between_iff hm).mp hbetween
    have hsplit := Nat.div_add_mod t n
    have hcolumn : t % n = t - i * n := by
      rw [hrow, mul_comm] at hsplit
      omega
    have ht : t < n * n := by
      have hlast := @index_lt n i (t - i * n) hi (by omega)
      omega
    rw [if_pos hbetween, if_pos hbetween, if_pos ht, hrow, hcolumn, entry_succ]
  · rw [if_neg hbetween, if_neg hbetween]

/-- What the passes need to know of the arrays. -/
theorem getElem?_entry (hi : i < n) {q : ℕ} (hq : j ≤ q) (hlast : q < n) :
    (partialProduct a b n i k j)[i * n + q]? = some (entry a b n i q k) := by
  have hbelow : ¬ q < j := by omega
  rw [getElem?_partialProduct, if_pos (index_lt hi hlast), index_div hlast, index_mod hlast,
    finished, index_div hlast, index_mod hlast, if_neg (lt_irrefl i), if_pos rfl, if_neg hbelow]

theorem scalarPass_eq (hb : b.length = n * n) (hi : i < n) (hj : j < n) (hk : k < n) {aik : F}
    (haik : a[i * n + k]? = some aik) :
    scalarPass b n i k aik j (partialProduct a b n i k j) =
      some (partialProduct a b n i k (j + 1)) := by
  obtain ⟨y, hy⟩ : ∃ y, b[k * n + j]? = some y :=
    ⟨_, List.getElem?_eq_getElem (hb ▸ index_lt hk hj)⟩
  have hstore : i * n + j < (partialProduct a b n i k j).length := by
    rw [length_partialProduct]
    exact index_lt hi hj
  rw [scalarPass, getElem?_entry hi le_rfl hj, hy]
  simp only [Option.bind_eq_bind, Option.bind_some, store, if_pos hstore, Option.some.injEq]
  apply List.ext_getElem?
  intro t
  rw [getElem?_moved hj (Nat.le_succ j) hi, List.getElem?_set]
  by_cases ht : i * n + j = t
  · subst ht
    rw [if_pos rfl, if_pos hstore, if_pos (by omega), Nat.add_sub_cancel_left, haik, hy]
    rfl
  · rw [if_neg ht, if_neg (by omega)]

theorem scalarLoop_eq (hb : b.length = n * n) (hi : i < n) (hk : k < n) {aik : F}
    (haik : a[i * n + k]? = some aik) (hj : j ≤ n) :
    scalarLoop b n i k aik j (partialProduct a b n i k j) =
      some (partialProduct a b n i k n) := by
  induction hleft : n - j generalizing j with
  | zero =>
      have hend : j = n := by omega
      rw [scalarLoop, if_neg (by omega), hend]
  | succ left ih =>
      have hlt : j < n := by omega
      rw [scalarLoop, if_pos hlt, scalarPass_eq hb hi hlt hk haik]
      exact ih (by omega) (by omega)

omit [Add F] [Mul F] [Zero F] in
theorem getElem?_overwritten {v w : List F} {p : ℕ} (hfits : p + v.length ≤ w.length) (t : ℕ) :
    (w.take p ++ v ++ w.drop (p + v.length))[t]? =
      if p ≤ t ∧ t < p + v.length then v[t - p]? else w[t]? := by
  have hfront : (w.take p).length = p := by
    rw [List.length_take]
    omega
  by_cases hbefore : t < p
  · rw [if_neg (by omega), List.append_assoc, List.getElem?_append_left (by omega),
      List.getElem?_take_of_lt hbefore]
  · rw [List.append_assoc, List.getElem?_append_right (by omega), hfront]
    by_cases hwithin : t < p + v.length
    · rw [if_pos ⟨by omega, hwithin⟩, List.getElem?_append_left (by omega)]
    · rw [if_neg (by omega), List.getElem?_append_right (by omega), List.getElem?_drop]
      congr 1
      omega

theorem vectorPass_eq (hb : b.length = n * n) (hi : i < n) (hk : k < n) {width : ℕ}
    (hwidth : 0 < width) (hj : j + width ≤ n) {aik : F} (haik : a[i * n + k]? = some aik) :
    vectorPass width b n i k aik j (partialProduct a b n i k j) =
      some (partialProduct a b n i k (j + width)) := by
  have hlast : ∀ r, r < n → r * n + j + width ≤ n * n := by
    intro r hr
    have hbound := @index_lt n r (j + width - 1) hr (by omega)
    omega
  have hfrom : k * n + j + width ≤ b.length := hb ▸ hlast k hk
  have hinto : i * n + j + width ≤ (partialProduct a b n i k j).length := by
    rw [length_partialProduct]
    exact hlast i hi
  set c := partialProduct a b n i k j with hc
  set sums := List.zipWith (· + ·) ((c.drop (i * n + j)).take width)
    (((b.drop (k * n + j)).take width).map (aik * ·)) with hsums
  have hlength : sums.length = width := by
    simp only [hsums, List.length_zipWith, List.length_map, List.length_take, List.length_drop]
    omega
  have hfits : i * n + j + sums.length ≤ c.length := by rwa [hlength]
  rw [vectorPass, loadVector, if_pos hfrom, loadVector, if_pos hinto]
  simp only [Option.bind_eq_bind, Option.bind_some]
  rw [← hsums, copyTo, if_pos hfits, Option.some.injEq]
  apply List.ext_getElem?
  intro t
  rw [getElem?_overwritten hfits, getElem?_moved hj (Nat.le_add_right j width) hi, hlength,
    ← add_assoc]
  by_cases ht : i * n + j ≤ t ∧ t < i * n + j + width
  · obtain ⟨q, rfl⟩ : ∃ q, t = i * n + j + q := ⟨t - (i * n + j), by omega⟩
    have hq : q < width := by omega
    obtain ⟨y, hy⟩ : ∃ y, b[k * n + j + q]? = some y :=
      ⟨_, List.getElem?_eq_getElem (by omega)⟩
    have hentry : (c)[i * n + j + q]? = some (entry a b n i (j + q) k) := by
      rw [hc, add_assoc]
      exact getElem?_entry hi (Nat.le_add_right j q) (by omega)
    have hcolumn : i * n + j + q - i * n = j + q := by omega
    rw [if_pos ht, if_pos ht, hsums, Nat.add_sub_cancel_left, List.getElem?_zipWith,
      List.getElem?_map, List.getElem?_take_of_lt hq, List.getElem?_take_of_lt hq,
      List.getElem?_drop, List.getElem?_drop, hentry, hy, hcolumn, ← add_assoc, hy, haik]
    rfl
  · rw [if_neg ht, if_neg ht]

theorem vectorLoop_eq (hb : b.length = n * n) (hi : i < n) (hk : k < n) (width : ℕ+) {aik : F}
    (haik : a[i * n + k]? = some aik) (hj : j ≤ n) :
    vectorLoop width b n i k aik j (partialProduct a b n i k j) =
      some (partialProduct a b n i k n) := by
  have hpos := width.pos
  induction hleft : n - j using Nat.strongRecOn generalizing j with
  | ind left ih =>
      rw [vectorLoop]
      split_ifs with hfits
      · rw [vectorPass_eq hb hi hk hpos hfits haik]
        exact ih (n - (j + width)) (by omega) hfits rfl
      · exact scalarLoop_eq hb hi hk haik hj

/-- The outer loops, with rows that each make one step of the sums. -/
theorem rowLoops_eq {c : List F} {row : ℕ → ℕ → F → List F → Option (List F)}
    (ha : a.length = n * n) (hc : c.length = n * n)
    (hrow : ∀ i k aik, i < n → k < n → a[i * n + k]? = some aik →
      row i k aik (partialProduct a b n i k 0) = some (partialProduct a b n i k n)) :
    rowLoops row a c n = some (product a b n) := by
  have hinner : ∀ i < n, ∀ m ≤ n, (List.range m).foldlM (fun c k => do
      let aik ← a[i * n + k]?
      row i k aik c) (partialProduct a b n i 0 0) = some (partialProduct a b n i m 0) := by
    intro i hi m
    induction m with
    | zero => exact fun _ => rfl
    | succ m ih =>
        intro hm
        obtain ⟨aik, haik⟩ : ∃ aik, a[i * n + m]? = some aik :=
          ⟨_, List.getElem?_eq_getElem (ha ▸ index_lt hi hm)⟩
        rw [List.range_succ, List.foldlM_append, ih (by omega)]
        simp [haik, hrow i m aik hi hm haik, partialProduct_row]
  have houter : ∀ m ≤ n, (List.range m).foldlM (fun c i =>
      (List.range n).foldlM (fun c k => do
        let aik ← a[i * n + k]?
        row i k aik c) c) (partialProduct a b n 0 0 0) = some (partialProduct a b n m 0 0) := by
    intro m
    induction m with
    | zero => exact fun _ => rfl
    | succ m ih =>
        intro hm
        have hone := hinner m hm n le_rfl
        rw [partialProduct_next] at hone
        rw [List.range_succ, List.foldlM_append, ih (by omega)]
        simpa using hone
  have hstart : List.replicate c.length (0 : F) = partialProduct a b n 0 0 0 := by
    apply List.ext_getElem?
    intro t
    rw [getElem?_partialProduct, List.getElem?_replicate, hc]
    simp [finished, entry]
  have hend : partialProduct a b n n 0 0 = product a b n := by
    rw [partialProduct, product]
    apply List.map_congr_left
    intro t ht
    rw [List.mem_range] at ht
    have hrow : t / n < n := Nat.div_lt_of_lt_mul ht
    rw [finished, if_pos hrow]
  rw [rowLoops, hstart, houter n le_rfl, hend]

end Passes

/-- Whatever the vector width and whatever was in the result, both multiplications stay inside
the arrays and leave the same numbers. -/
theorem matmulSimd_eq (width : ℕ+) (a b c : List F) (n : ℕ) (ha : a.length = n * n)
    (hb : b.length = n * n) (hc : c.length = n * n) :
    matmulSimd width a b c n = some (product a b n) ∧
      matmulScalar a b c n = some (product a b n) := by
  constructor
  · exact rowLoops_eq ha hc fun i k aik hi hk haik =>
      vectorLoop_eq hb hi hk width haik (Nat.zero_le n)
  · exact rowLoops_eq ha hc fun i k aik hi hk haik =>
      scalarLoop_eq hb hi hk haik (Nat.zero_le n)

theorem matmulSimd_three :
    matmulSimd 2 [1, 2, 3, 4, 5, 6, 7, 8, 9] [1, 0, 2, 0, 1, 0, 3, 0, 1] (List.replicate 9 7) 3 =
        some (product [1, 2, 3, 4, 5, 6, 7, 8, 9] [1, 0, 2, 0, 1, 0, 3, 0, (1 : ℕ)] 3) ∧
      matmulScalar [1, 2, 3, 4, 5, 6, 7, 8, 9] [1, 0, 2, 0, 1, 0, 3, 0, 1] (List.replicate 9 7) 3 =
        some (product [1, 2, 3, 4, 5, 6, 7, 8, 9] [1, 0, 2, 0, 1, 0, 3, 0, (1 : ℕ)] 3) :=
  matmulSimd_eq 2 _ _ _ 3 rfl rfl rfl

end Benchmarks

end NativeInterop
