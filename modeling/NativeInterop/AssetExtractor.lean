import NativeInterop.LittleEndian
import NativeInterop.Machine
import Mathlib.Tactic

/-!
# The extraction of the bundled assets

`AssetExtractor.ensure` copies the assets of the APK into a directory, for libraries that open
them by path, and passes over the files that are there and not empty.  The directory outlives
the call, the process and the version of the app.

One step of the model is one look at a file, one write, one end of a copy, an exception or the
death of the process.
-/

namespace NativeInterop

namespace AssetExtractor

/-- `assets.open` and `assets.list` of one version of the app. -/
structure Apk where
  openAsset : String → Option Bytes
  manuals : Option (List String)

def dir : String := "dni-assets"

def rootFiles : List String := ["model.onnx", "vocab.txt", "corpus.txt", "edge-index.db"]

/-- The files in the order of their extraction, by their names below the directory. -/
def Apk.names (apk : Apk) : List String :=
  rootFiles ++ (apk.manuals.getD []).map fun manual => "manuals/" ++ manual

def Apk.asset (apk : Apk) (name : String) : Option Bytes :=
  apk.openAsset (dir ++ "/" ++ name)

/-- A call looks at the files that are left, or copies what is left of one. -/
inductive Phase where
  | idle
  | checking (names : List String)
  | copying (name : String) (rest : Bytes) (names : List String)
  deriving DecidableEq, Repr

/-- `returned` tells whether the last call has returned normally. -/
structure State where
  apk : Apk
  files : String → Option Bytes
  phase : Phase := .idle
  returned : Bool := false

inductive Action where
  | install (apk : Apk)
  | ensure
  | check
  | write (n : ℕ)
  | close
  | finish
  | fail
  | kill

/-- `dest.exists() && dest.length() > 0L`. -/
def nonEmpty (file : Option Bytes) : Bool := file.any fun bytes => 0 < bytes.length

/-- The call is over without having returned. -/
def stop (s : State) : State := { s with phase := .idle, returned := false }

/-- The head of `copyIfMissing`, up to the output stream, which empties the file. -/
def copyIfMissing (s : State) (name : String) (names : List String) : State :=
  if nonEmpty (s.files name) then { s with phase := .checking names }
  else
    match s.apk.asset name with
    | none => stop s
    | some bytes =>
        { s with
          files := Function.update s.files name (some [])
          phase := .copying name bytes names }

def write (s : State) (n : ℕ) (name : String) (rest : Bytes) (names : List String) : State :=
  { s with
    files := Function.update s.files name ((s.files name).map fun file => file ++ rest.take n)
    phase := .copying name (rest.drop n) names }

def step (s : State) (action : Action) : Option State :=
  match action, s.phase with
  | .install apk, .idle => some { s with apk := apk }
  | .ensure, .idle => some { s with phase := .checking s.apk.names, returned := false }
  | .check, .checking (name :: names) => some (copyIfMissing s name names)
  | .finish, .checking [] => some { s with phase := .idle, returned := true }
  | .write n, .copying name rest names =>
      if 0 < n ∧ n ≤ rest.length then some (write s n name rest names) else none
  | .close, .copying _ [] names => some { s with phase := .checking names }
  | .fail, .checking _ => some (stop s)
  | .fail, .copying _ _ _ => some (stop s)
  | .kill, _ => some (stop s)
  | _, _ => none

def machine : Machine State Action where
  step := step

/-- The first start of the app. -/
def fresh (apk : Apk) : State where
  apk := apk
  files := fun _ => none

/-- Every extracted file is the bundled asset. -/
def Repaired (s : State) : Prop :=
  ∀ name ∈ s.apk.names, s.files name = s.apk.asset name

/-- No file that would be passed over is anything else. -/
def Intact (apk : Apk) (files : String → Option Bytes) : Prop :=
  ∀ name ∈ apk.names, nonEmpty (files name) = true → files name = apk.asset name

/-- The actions of one call that is not killed. -/
def withinCall : Action → Bool
  | .install _ => false
  | .ensure => false
  | .kill => false
  | _ => true

/-! ## One call -/

/-- A name is done when its file was passed over or has been copied. -/
def Done (before s : State) (name : String) : Prop :=
  (nonEmpty (before.files name) = true ∧ s.files name = before.files name) ∨
    s.files name = s.apk.asset name

def PhaseHolds (before s : State) : Phase → Prop
  | .checking names =>
      (∀ name, s.files name = before.files name ∨ s.files name = s.apk.asset name) ∧
        ∃ done, s.apk.names = done ++ names ∧ ∀ name ∈ done, Done before s name
  | .copying name rest names =>
      nonEmpty (before.files name) = false ∧ (∀ other, other ≠ name →
        s.files other = before.files other ∨ s.files other = s.apk.asset other) ∧
      (∃ file, s.files name = some file ∧ s.apk.asset name = some (file ++ rest)) ∧
      ∃ done, s.apk.names = done ++ name :: names ∧
        ∀ other ∈ done, other ≠ name → Done before s other
  | .idle => s.returned = true → ∀ name ∈ s.apk.names, Done before s name

/-- A call that has begun in a state `before`. -/
structure Extracting (before s : State) : Prop where
  apk : s.apk = before.apk
  kept : ∀ name, nonEmpty (before.files name) = true → s.files name = before.files name
  holds : PhaseHolds before s s.phase

section Call

variable {before s next t : State} {actions : List Action}

theorem Extracting.stop (hextracting : Extracting before s) :
    Extracting before (stop s) where
  apk := hextracting.apk
  kept := hextracting.kept
  holds := fun hreturned => Bool.noConfusion hreturned

theorem Extracting.check (hextracting : Extracting before s) {name : String}
    {names : List String} (hphase : s.phase = .checking (name :: names)) :
    Extracting before (copyIfMissing s name names) := by
  have hholds := hextracting.holds
  rw [hphase] at hholds
  obtain ⟨hsettled, done, hnames, hdone⟩ := hholds
  unfold copyIfMissing
  split_ifs with hthere
  · refine ⟨hextracting.apk, hextracting.kept, hsettled, done ++ [name], ?_, ?_⟩
    · simpa using hnames
    · intro other hother
      rcases List.mem_append.mp hother with hbefore | hnew
      · exact hdone other hbefore
      · rw [List.mem_singleton.mp hnew]
        rcases hsettled name with hsame | hasset
        · exact .inl ⟨hsame ▸ hthere, hsame⟩
        · exact .inr hasset
  · cases hasset : s.apk.asset name with
    | none => exact hextracting.stop
    | some bytes =>
        -- a file that was not empty is not the one being copied
        have hempty : nonEmpty (before.files name) = false := by
          rw [← Bool.not_eq_true]
          intro hbefore
          rw [hextracting.kept name hbefore] at hthere
          exact hthere hbefore
        refine ⟨hextracting.apk, ?_, hempty, ?_, ?_, done, hnames, ?_⟩
        · intro other hbefore
          have hne : other ≠ name := by
            rintro rfl
            rw [hempty] at hbefore
            cases hbefore
          exact (Function.update_of_ne hne _ _).trans (hextracting.kept other hbefore)
        · intro other hne
          simp only [Function.update_of_ne hne]
          exact hsettled other
        · exact ⟨[], Function.update_self _ _ _, hasset⟩
        · intro other hother hne
          have hsame : Function.update s.files name (some []) other = s.files other :=
            Function.update_of_ne hne _ _
          rcases hdone other hother with ⟨hfull, hkept⟩ | hright
          · exact .inl ⟨hfull, hsame.trans hkept⟩
          · exact .inr (hsame.trans hright)

theorem Extracting.write (hextracting : Extracting before s) {name : String} {rest : Bytes}
    {names : List String} (hphase : s.phase = .copying name rest names) (n : ℕ) :
    Extracting before (write s n name rest names) := by
  have hholds := hextracting.holds
  rw [hphase] at hholds
  obtain ⟨hempty, hsettled, ⟨file, hfile, hasset⟩, done, hnames, hdone⟩ := hholds
  have hother : ∀ other, other ≠ name → (AssetExtractor.write s n name rest names).files other =
      s.files other := fun other hne => Function.update_of_ne hne _ _
  refine ⟨hextracting.apk, ?_, hempty, ?_, ⟨file ++ rest.take n, ?_, ?_⟩, done, hnames, ?_⟩
  · intro other hbefore
    have hne : other ≠ name := by
      rintro rfl
      rw [hempty] at hbefore
      cases hbefore
    exact (hother other hne).trans (hextracting.kept other hbefore)
  · intro other hne
    rw [hother other hne]
    exact hsettled other hne
  · simp [AssetExtractor.write, hfile]
  · rw [List.append_assoc, List.take_append_drop]
    exact hasset
  · intro other hmem hne
    rcases hdone other hmem hne with ⟨hfull, hkept⟩ | hright
    · exact .inl ⟨hfull, (hother other hne).trans hkept⟩
    · exact .inr ((hother other hne).trans hright)

theorem Extracting.close (hextracting : Extracting before s) {name : String}
    {names : List String} (hphase : s.phase = .copying name [] names) :
    Extracting before { s with phase := .checking names } := by
  have hholds := hextracting.holds
  rw [hphase] at hholds
  obtain ⟨-, hsettled, ⟨file, hfile, hasset⟩, done, hnames, hdone⟩ := hholds
  have hright : s.files name = s.apk.asset name := by
    rw [hfile, hasset, List.append_nil]
  refine ⟨hextracting.apk, hextracting.kept, ?_, done ++ [name], ?_, ?_⟩
  · intro other
    by_cases hne : other = name
    · exact .inr (hne ▸ hright)
    · exact hsettled other hne
  · simpa using hnames
  · intro other hmem
    by_cases hne : other = name
    · exact .inr (hne ▸ hright)
    · rcases List.mem_append.mp hmem with hbefore | hnew
      · exact hdone other hbefore hne
      · exact absurd (List.mem_singleton.mp hnew) hne

theorem Extracting.step {action : Action} (hextracting : Extracting before s)
    (hwithin : withinCall action = true) (hstep : machine.step s action = some next) :
    Extracting before next := by
  simp only [machine, AssetExtractor.step] at hstep
  split at hstep
  · cases hwithin
  · cases hwithin
  · next hphase =>
      cases hstep
      exact hextracting.check hphase
  · next hphase =>
      cases hstep
      have hholds := hextracting.holds
      rw [hphase] at hholds
      obtain ⟨-, done, hnames, hdone⟩ := hholds
      rw [List.append_nil] at hnames
      exact ⟨hextracting.apk, hextracting.kept, fun _ name hname => hdone name (hnames ▸ hname)⟩
  · next hphase =>
      obtain ⟨-, hsome⟩ := Option.ite_none_right_eq_some.mp hstep
      cases hsome
      exact hextracting.write hphase _
  · next hphase =>
      cases hstep
      exact hextracting.close hphase
  · cases hstep
    exact hextracting.stop
  · cases hstep
    exact hextracting.stop
  · cases hwithin
  · cases hstep

theorem extracting_of_run (hrun : machine.run s (.ensure :: actions) = some t)
    (hidle : s.phase = .idle) (hwithin : ∀ a ∈ actions, withinCall a = true) :
    Extracting s t := by
  have hinit : Extracting s { s with phase := .checking s.apk.names, returned := false } :=
    ⟨rfl, fun _ _ => rfl, fun _ => .inl rfl, [], rfl, fun _ hmem => absurd hmem List.not_mem_nil⟩
  obtain ⟨first, hstep, hrest⟩ := (machine.run_cons_eq_some).mp hrun
  simp only [machine, AssetExtractor.step, hidle, Option.some.injEq] at hstep
  subst hstep
  exact machine.run_invariant (fun _ _ _ hextracting hwithin hstep =>
    hextracting.step hwithin hstep) hinit (machine.runMeets_of_forall hwithin _) hrest

/-- A call that returns has repaired the files exactly if none that it passed over was wrong. -/
theorem Extracting.repaired_idle_iff (hextracting : Extracting before t) (hidle : t.phase = .idle)
    (hreturned : t.returned = true) : Repaired t ↔ Intact before.apk before.files := by
  have hholds := hextracting.holds
  rw [hidle] at hholds
  have hdone := hholds hreturned
  constructor
  · intro hrepaired name hname hfull
    have hright := hrepaired name (hextracting.apk ▸ hname)
    rw [← hextracting.kept name hfull, hright, hextracting.apk]
  · intro hintact name hname
    rcases hdone name hname with ⟨hfull, hkept⟩ | hright
    · rw [hkept, hextracting.apk]
      exact hintact name (hextracting.apk ▸ hname) hfull
    · exact hright

end Call

/-! ## What earlier runs leave -/

/-- A call is not broken off inside of a file, and a new version bundles what is there. -/
def Careful (s : State) : Action → Prop
  | .kill | .fail =>
      match s.phase with
      | .copying name rest _ => rest = [] ∨ s.files name = some []
      | _ => True
  | .install apk => Intact apk s.files
  | _ => True

/-- Between the calls no file is wrong, and within one only the file that is being copied. -/
def Sound (s : State) : Prop :=
  match s.phase with
  | .copying name rest _ =>
      (∀ other ∈ s.apk.names, other ≠ name → nonEmpty (s.files other) = true →
        s.files other = s.apk.asset other) ∧
      ∃ file, s.files name = some file ∧ s.apk.asset name = some (file ++ rest)
  | _ => Intact s.apk s.files

section Runs

variable {s next : State}

theorem sound_of_intact (hphase : ∀ name rest names, s.phase ≠ .copying name rest names)
    (hintact : Intact s.apk s.files) : Sound s := by
  unfold Sound
  split
  · next hcopying => exact absurd hcopying (hphase _ _ _)
  · exact hintact

theorem Sound.intact (hsound : Sound s)
    (hphase : ∀ name rest names, s.phase ≠ .copying name rest names) :
    Intact s.apk s.files := by
  unfold Sound at hsound
  split at hsound
  · next hcopying => exact absurd hcopying (hphase _ _ _)
  · exact hsound

/-- The file in progress is right where nothing is left of it, and passed over by no call where
it is empty. -/
theorem Sound.stop (hsound : Sound s) (hcareful : Careful s .kill) : Sound (stop s) := by
  cases hphase : s.phase with
  | idle => exact hsound.intact fun _ _ _ hcopying => by simp [hphase] at hcopying
  | checking names => exact hsound.intact fun _ _ _ hcopying => by simp [hphase] at hcopying
  | copying name rest names =>
      simp only [Sound, hphase] at hsound
      simp only [Careful, hphase] at hcareful
      obtain ⟨hothers, file, hfile, hasset⟩ := hsound
      change Intact s.apk s.files
      intro other hother hfull
      by_cases hne : other = name
      · subst hne
        rcases hcareful with rfl | hempty
        · rw [hfile, hasset, List.append_nil]
        · rw [hempty] at hfull
          cases hfull
      · exact hothers other hother hne hfull

theorem Sound.check (hsound : Sound s) {name : String} {names : List String}
    (hphase : s.phase = .checking (name :: names)) : Sound (copyIfMissing s name names) := by
  have hintact := hsound.intact fun _ _ _ hcopying => by simp [hphase] at hcopying
  unfold copyIfMissing
  split_ifs with hthere
  · exact hintact
  · cases hasset : s.apk.asset name with
    | none => exact hintact
    | some bytes =>
        refine ⟨?_, [], Function.update_self _ _ _, hasset⟩
        intro other hother hne
        simp only [Function.update_of_ne hne]
        exact hintact other hother

theorem Sound.write (hsound : Sound s) {name : String} {rest : Bytes} {names : List String}
    (hphase : s.phase = .copying name rest names) (n : ℕ) :
    Sound (write s n name rest names) := by
  simp only [Sound, hphase] at hsound
  obtain ⟨hothers, file, hfile, hasset⟩ := hsound
  refine ⟨?_, file ++ rest.take n, by simp [AssetExtractor.write, hfile], ?_⟩
  · intro other hother hne
    have hsame : (AssetExtractor.write s n name rest names).files other = s.files other :=
      Function.update_of_ne hne _ _
    rw [hsame]
    exact hothers other hother hne
  · rw [List.append_assoc, List.take_append_drop]
    exact hasset

theorem Sound.step {action : Action} (hsound : Sound s) (hcareful : Careful s action)
    (hstep : machine.step s action = some next) : Sound next := by
  simp only [machine, AssetExtractor.step] at hstep
  split at hstep
  · next hphase =>
      cases hstep
      exact sound_of_intact (fun _ _ _ hcopying => by simp [hphase] at hcopying) hcareful
  · next hphase =>
      cases hstep
      exact hsound.intact fun _ _ _ hcopying => by simp [hphase] at hcopying
  · next hphase =>
      cases hstep
      exact hsound.check hphase
  · next hphase =>
      cases hstep
      exact hsound.intact fun _ _ _ hcopying => by simp [hphase] at hcopying
  · next hphase =>
      obtain ⟨-, hsome⟩ := Option.ite_none_right_eq_some.mp hstep
      cases hsome
      exact hsound.write hphase _
  · next hphase =>
      cases hstep
      have hcareful : Careful s .kill := by
        simp only [Careful, hphase]
        exact .inl trivial
      exact hsound.stop hcareful
  · cases hstep
    exact hsound.stop hcareful
  · cases hstep
    exact hsound.stop hcareful
  · cases hstep
    exact hsound.stop hcareful
  · cases hstep

end Runs

/-- A call that returns has repaired the files exactly if before it no file that is not empty
differs from the bundled asset; that is so behind every run whose interruptions fall between
the files and whose versions bundle the same. -/
theorem repaired_iff (apk : Apk) {earlier : List Action} {s : State}
    (hearlier : machine.run (fresh apk) earlier = some s) (hidle : s.phase = .idle) :
    (∀ actions t, machine.run s (.ensure :: actions) = some t →
      (∀ a ∈ actions, withinCall a = true) → t.phase = .idle → t.returned = true →
      (Repaired t ↔ Intact s.apk s.files)) ∧
    (machine.RunMeets Careful (fresh apk) earlier → Intact s.apk s.files) := by
  constructor
  · intro actions t hrun hwithin hended hreturned
    exact (extracting_of_run hrun hidle hwithin).repaired_idle_iff hended hreturned
  · intro hcareful
    have hfresh : Sound (fresh apk) := fun _ _ hfull => Bool.noConfusion hfull
    have hsound := machine.run_invariant (fun _ _ _ hsound hcareful hstep =>
      hsound.step hcareful hstep) hfresh hcareful hearlier
    exact hsound.intact fun _ _ _ hcopying => by simp [hidle] at hcopying

/-- Every root file has these bytes, and there are no manuals. -/
def Apk.uniform (bytes : Bytes) : Apk where
  openAsset := fun _ => some bytes
  manuals := none

/-- A call from its start to its end over four missing files of two bytes. -/
def wholeCall : List Action :=
  (List.replicate 4 [.check, .write 2, .close]).flatten ++ [.finish]

theorem repaired_fresh :
    ∃ t, machine.run (fresh (.uniform [1, 2])) (.ensure :: wholeCall) = some t ∧ Repaired t := by
  obtain ⟨t, hrun, hended, hreturned⟩ : ∃ t,
      machine.run (fresh (.uniform [1, 2])) (.ensure :: wholeCall) = some t ∧
        t.phase = .idle ∧ t.returned = true := ⟨_, rfl, rfl, rfl⟩
  have hwithin : ∀ a ∈ wholeCall, withinCall a = true := by
    simp [wholeCall, withinCall]
  obtain ⟨hiff, hcareful⟩ := repaired_iff (.uniform [1, 2]) (rfl : machine.run _ [] = some _) rfl
  exact ⟨t, hrun, (hiff wholeCall t hrun hwithin hended hreturned).mpr (hcareful trivial)⟩

/-- A call that finds one file there and not empty. -/
def laterCall : List Action :=
  .check :: (List.replicate 3 [.check, .write 2, .close]).flatten ++ [.finish]

/-- The process dies behind the first byte, or a new version bundles other bytes: no later call
looks at the file again. -/
theorem not_repaired :
    (∃ s t, machine.run (fresh (.uniform [1, 2])) [.ensure, .check, .write 1, .kill] = some s ∧
      machine.run s (.ensure :: laterCall) = some t ∧ t.returned = true ∧ ¬ Repaired t) ∧
    ∃ s t, machine.run (fresh (.uniform [1, 2])) (.ensure :: wholeCall ++
        [.install (.uniform [3, 4])]) = some s ∧
      machine.run s [.ensure, .check, .check, .check, .check, .finish] = some t ∧
        t.returned = true ∧ ¬ Repaired t := by
  constructor
  · refine ⟨_, _, rfl, rfl, rfl, fun hrepaired => ?_⟩
    have hmodel := hrepaired "model.onnx" List.mem_cons_self
    revert hmodel
    decide
  · refine ⟨_, _, rfl, rfl, rfl, fun hrepaired => ?_⟩
    have hmodel := hrepaired "model.onnx" List.mem_cons_self
    revert hmodel
    decide

end AssetExtractor

end NativeInterop
