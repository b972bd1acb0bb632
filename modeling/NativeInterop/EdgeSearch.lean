import NativeInterop.EdgeIndex
import NativeInterop.Ranking
import Mathlib.Order.WithBot

/-!
# Searching the index

Both apps score every chunk against the embedded query, drop what is below the floor, and keep
the best few.  One filters by the chosen facets before it ranks, the other filters what has been
kept; one has a stable sort, the other any sort.  A score is `⊥` where the float is no number,
which no floor lets through.  The engine ranks its corpora in the same way, without a floor.
-/

namespace NativeInterop

namespace EdgeSearch

open Frontmatter (Text)
open EdgeIndex (EdgeChunk IndexRow chunkOf rows write write_eq loadKotlin loadKotlin_records)
open Ranking

structure EdgeHit (Score : Type*) where
  chunk : EdgeChunk
  score : WithBot Score

section Search

variable {Score : Type*} [LinearOrder Score] (score : List UInt32 → WithBot Score)

/-- Nothing is chosen, or one of the values is. -/
def passes (active values : List String) : Bool :=
  active.isEmpty || values.any fun value => active.contains value

def passesFacets (errorCodes tools : List String) (chunk : EdgeChunk) : Bool :=
  passes errorCodes chunk.errorCodes && passes tools chunk.toolsRequired

def hitOf (chunk : EdgeChunk) : EdgeHit Score := ⟨chunk, score chunk.embedding⟩

def aboveFloor (minScore : Score) (hit : EdgeHit Score) : Bool := minScore ≤ hit.score

/-- `EdgeSearchEngine.search` with the query embedded. -/
def searchKotlin (minScore : Score) (topK : ℕ) (errorCodes tools : List String)
    (chunks : List EdgeChunk) : List (EdgeHit Score) :=
  (sortedByDescending EdgeHit.score
    ((((chunks.filter fun c => passes errorCodes c.errorCodes).filter fun c =>
      passes tools c.toolsRequired).map (hitOf score)).filter (aboveFloor minScore))).take topK

/-- The hits that its view model shows. -/
def run (activeErrorCodes activeTools : List String) (raw : List (EdgeHit Score)) :
    List (EdgeHit Score) :=
  raw.filter fun hit => passesFacets activeErrorCodes activeTools hit.chunk

variable {score} {minScore : Score} {topK : ℕ} {errorCodes tools : List String}
  {chunks : List EdgeChunk} {raw : List (EdgeHit Score)}

/-- The chunks that may be shown, with their scores. -/
def candidates (score : List UInt32 → WithBot Score) (minScore : Score)
    (errorCodes tools : List String) (chunks : List EdgeChunk) : List (EdgeHit Score) :=
  ((chunks.map (hitOf score)).filter (aboveFloor minScore)).filter fun hit =>
    passesFacets errorCodes tools hit.chunk

theorem candidates_nil :
    candidates score minScore [] [] chunks =
      (chunks.map (hitOf score)).filter (aboveFloor minScore) :=
  List.filter_eq_self.mpr fun _ _ => rfl

theorem searchKotlin_eq (score : List UInt32 → WithBot Score) (minScore : Score) (topK : ℕ)
    (errorCodes tools : List String) (chunks : List EdgeChunk) :
    searchKotlin score minScore topK errorCodes tools chunks =
      (sortedByDescending EdgeHit.score
        (candidates score minScore errorCodes tools chunks)).take topK := by
  rw [searchKotlin, candidates]
  simp only [List.filter_map, List.filter_filter]
  congr 4
  funext c
  simp only [passesFacets, hitOf, Function.comp_apply]
  rw [Bool.and_comm, Bool.and_comm (passes errorCodes _), Bool.and_assoc, Bool.and_comm]

def leak : EdgeChunk where
  chunkId := "#0"
  documentId := ""
  sectionTitle := "Leak"
  contentText := "Close it."
  errorCodes := []
  toolsRequired := []
  embedding := [1]

def lengthScore (embedding : List UInt32) : WithBot ℕ := ((embedding.length : ℕ) : WithBot ℕ)

end Search

/-! ## The fixture of the publisher -/

section Fixture

variable {Score Cosine : Type*} [LinearOrder Score] [LinearOrder Cosine]

/-- The row that the publisher ranks first for its sample query; none where `First` throws. -/
def topRow (cosine : List UInt32 → WithBot Cosine) (rows : List IndexRow) : Option IndexRow :=
  (sortedByDescending (fun row => cosine row.embedding) rows).head?

/-- The first hit of the app is the row of the fixture, if that is above the floor, whenever
the scoring of the app orders the rows as that of the publisher does. -/
theorem search_top (encode : Text → List UInt32) (documents : List Text)
    (chunks : List EdgeChunk) (cosine : List UInt32 → WithBot Cosine)
    (score : List UInt32 → WithBot Score) (minScore : Score) (topK : ℕ)
    (hcommitted : (write (rows encode documents)).committed = true)
    (hload : loadKotlin (write (rows encode documents)).table = some chunks)
    (horder : ∀ first ∈ rows encode documents, ∀ second ∈ rows encode documents,
      cosine first.embedding ≤ cosine second.embedding ↔
        score first.embedding ≤ score second.embedding)
    (htop : 0 < topK) :
    (searchKotlin score minScore topK [] [] chunks).head? =
      ((topRow cosine (rows encode documents)).filter fun row =>
        ↑minScore ≤ score row.embedding).map fun row => hitOf score (chunkOf row) := by
  have hpublished : chunks = (rows encode documents).map chunkOf := by
    rw [write_eq] at hcommitted hload
    split_ifs at hcommitted hload
    rw [loadKotlin_records, Option.some.injEq] at hload
    exact hload.symm
  have hsorted := (isRanked_sortedByDescending (fun row => score row.embedding)
    (rows encode documents)).sorted
  rw [searchKotlin_eq, candidates_nil, hpublished, List.map_map, sortedByDescending_filter,
    sortedByDescending_map, List.head?_take, if_neg (by omega), List.filter_map, List.head?_map,
    topRow, sortedByDescending_congr horder]
  exact congrArg (Option.map _) (head?_filter_le hsorted (minScore : WithBot Score))

theorem search_top_leak :
    (searchKotlin lengthScore 1 20 [] [] [leak]).head? =
      ((topRow lengthScore (rows (fun _ => [1]) [Frontmatter.units "## Leak\nClose it."])).filter
        fun row => ((1 : ℕ) : WithBot ℕ) ≤ lengthScore row.embedding).map fun row =>
          hitOf lengthScore (chunkOf row) :=
  search_top _ _ _ _ _ 1 20 (by decide +kernel) (by decide +kernel) (fun _ _ _ _ => Iff.rfl)
    (by decide)

end Fixture

end EdgeSearch

end NativeInterop
