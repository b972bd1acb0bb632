import NativeInterop.LanguageFeatures
import Mathlib.Tactic

/-!
# The encrypted feature table

The SQLCipher transport answers from a table that outlives the process and the build that
wrote it.  The first call of a process brings it up to date with one upsert for each
descriptor of the catalog; the table is then read back without an `ORDER BY`.

A table is the list of its rows in the order of their rowids; a new row takes the largest
rowid.
-/

namespace NativeInterop

namespace FeatureSqlite

/-- `INSERT ... ON CONFLICT(id) DO UPDATE`: the row keeps its place. -/
def upsert (table : List FeatureDescriptor) (descriptor : FeatureDescriptor) :
    List FeatureDescriptor :=
  if descriptor.id ∈ table.map FeatureDescriptor.id then
    table.map fun row => if row.id = descriptor.id then descriptor else row
  else table ++ [descriptor]

def seed (catalog : LanguageFeatureCatalog) (table : List FeatureDescriptor) :
    List FeatureDescriptor :=
  catalog.descriptors.foldl upsert table

/-- A process: whether `_conn` is set, and the table on disk. -/
structure State where
  connected : Bool
  table : List FeatureDescriptor
  deriving DecidableEq, Repr

def ensureConnection (catalog : LanguageFeatureCatalog) (s : State) : State :=
  if s.connected then s else ⟨true, seed catalog s.table⟩

/-- `ReadDescriptors`. -/
def readDescriptors (s : State) : List FeatureDescriptor := s.table

/-- `dni_sqlite_features`. -/
def features (catalog : LanguageFeatureCatalog) (s : State) : List FeatureDescriptor × State :=
  (readDescriptors (ensureConnection catalog s), ensureConnection catalog s)

/-! ## What seeding leaves -/

theorem map_id_upsert (table : List FeatureDescriptor) (descriptor : FeatureDescriptor) :
    table.map FeatureDescriptor.id <+: (upsert table descriptor).map FeatureDescriptor.id := by
  unfold upsert
  split_ifs
  · have hsame : (table.map fun row => if row.id = descriptor.id then descriptor else row).map
        FeatureDescriptor.id = table.map FeatureDescriptor.id := by
      rw [List.map_map]
      apply List.map_congr_left
      intro row _
      simp only [Function.comp_apply]
      split_ifs with heq
      · exact heq.symm
      · rfl
    rw [hsame]
  · rw [List.map_append]
    exact List.prefix_append _ _

/-- No row is taken out of its place. -/
theorem map_id_foldl_upsert (descriptors table : List FeatureDescriptor) :
    table.map FeatureDescriptor.id <+:
      (descriptors.foldl upsert table).map FeatureDescriptor.id := by
  induction descriptors generalizing table with
  | nil => exact List.prefix_rfl
  | cons descriptor descriptors ih =>
      exact (map_id_upsert table descriptor).trans (ih (upsert table descriptor))

theorem map_replace_of_notMem {rows : List FeatureDescriptor} {descriptor : FeatureDescriptor}
    (hnew : descriptor.id ∉ rows.map FeatureDescriptor.id) :
    (rows.map fun row => if row.id = descriptor.id then descriptor else row) = rows := by
  have hkeep : ∀ row ∈ rows, (if row.id = descriptor.id then descriptor else row) = row := by
    intro row hrow
    exact if_neg fun heq => hnew (List.mem_map.mpr ⟨row, hrow, heq⟩)
  rw [List.map_congr_left hkeep, List.map_id']

/-- Behind rows that are up to date, a table whose identifiers begin the catalog becomes the
catalog. -/
theorem foldl_upsert_of_prefix (descriptors : List FeatureDescriptor) :
    ∀ (front rows : List FeatureDescriptor),
      ((front ++ descriptors).map FeatureDescriptor.id).Nodup →
      rows.map FeatureDescriptor.id <+: descriptors.map FeatureDescriptor.id →
      descriptors.foldl upsert (front ++ rows) = front ++ descriptors := by
  induction descriptors with
  | nil =>
      intro front rows _ hbegins
      have hrows : rows = [] := by simpa using hbegins
      simp [hrows]
  | cons descriptor descriptors ih =>
      intro front rows hnodup hbegins
      have hnext : ((front ++ [descriptor] ++ descriptors).map FeatureDescriptor.id).Nodup := by
        simpa using hnodup
      rw [List.map_append, List.map_cons] at hnodup
      have hfront : descriptor.id ∉ front.map FeatureDescriptor.id := fun hmem =>
        (List.disjoint_of_nodup_append hnodup) hmem List.mem_cons_self
      have hbehind : descriptor.id ∉ descriptors.map FeatureDescriptor.id :=
        (List.nodup_cons.mp (List.Nodup.of_append_right hnodup)).1
      rw [List.foldl_cons]
      cases rows with
      | nil =>
          have hinsert : upsert (front ++ []) descriptor = front ++ [descriptor] ++ [] := by
            rw [List.append_nil, List.append_nil, upsert, if_neg hfront]
          rw [hinsert, ih (front ++ [descriptor]) [] hnext (List.nil_prefix), List.append_assoc]
          rfl
      | cons row rows =>
          rw [List.map_cons, List.map_cons, List.cons_prefix_cons] at hbegins
          obtain ⟨hid, hrest⟩ := hbegins
          have hrows : descriptor.id ∉ rows.map FeatureDescriptor.id := fun hmem =>
            hbehind (hrest.subset hmem)
          have hupdate : upsert (front ++ row :: rows) descriptor =
              front ++ [descriptor] ++ rows := by
            have hmem : descriptor.id ∈ (front ++ row :: rows).map FeatureDescriptor.id := by
              simp [hid]
            rw [upsert, if_pos hmem, List.map_append, List.map_cons,
              map_replace_of_notMem hfront, map_replace_of_notMem hrows, if_pos hid,
              List.append_assoc]
            rfl
          rw [hupdate, ih (front ++ [descriptor]) rows hnext hrest, List.append_assoc]
          rfl

theorem seed_eq_iff (catalog : LanguageFeatureCatalog) (table : List FeatureDescriptor) :
    seed catalog table = catalog.descriptors ↔
      table.map FeatureDescriptor.id <+: LanguageFeatures.ids := by
  rw [← catalog.ids_eq]
  constructor
  · intro hseed
    have hplaces := map_id_foldl_upsert catalog.descriptors table
    rw [show catalog.descriptors.foldl upsert table = catalog.descriptors from hseed] at hplaces
    exact hplaces
  · intro hfront
    exact foldl_upsert_of_prefix catalog.descriptors [] table catalog.nodup_ids hfront

/-! ## Every call of a process -/

theorem features_first (catalog : LanguageFeatureCatalog) (table : List FeatureDescriptor) :
    (features catalog ⟨false, table⟩).1 = seed catalog table := rfl

theorem iterate_ensureConnection (catalog : LanguageFeatureCatalog)
    (table : List FeatureDescriptor) (calls : ℕ) :
    ensureConnection catalog ((ensureConnection catalog)^[calls] ⟨false, table⟩) =
      ⟨true, seed catalog table⟩ := by
  induction calls with
  | zero => rfl
  | succ calls ih =>
      rw [Function.iterate_succ_apply', ih]
      rfl

/-- Whatever the table held when the process started and however many calls have been made,
the SQLCipher transport answers with the catalog exactly when the identifiers it held begin
the identifiers of the catalog. -/
theorem features_eq_iff (catalog : LanguageFeatureCatalog) (table : List FeatureDescriptor)
    (calls : ℕ) :
    (features catalog ((ensureConnection catalog)^[calls] ⟨false, table⟩)).1 =
        catalog.descriptors ↔
      table.map FeatureDescriptor.id <+: LanguageFeatures.ids := by
  rw [features, iterate_ensureConnection]
  exact seed_eq_iff catalog table

/-- A row of an earlier build whose feature is gone. -/
def retired : FeatureDescriptor where
  id := "retired-feature"
  title := "Retired"
  version := "C# 1"
  code := ""
  expected := ""

theorem features_ne_of_retired :
    (features .bare ⟨false, [retired]⟩).1 ≠ LanguageFeatureCatalog.bare.descriptors := by
  rw [features_first, ne_eq, seed_eq_iff]
  decide

end FeatureSqlite

end NativeInterop
