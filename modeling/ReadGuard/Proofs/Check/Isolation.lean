import ReadGuard.Check.Batch
import ReadGuard.Proofs.Check.TaintPass

namespace ReadGuard

namespace Files

variable (files : Files) (path : String)

/-- Reading at a path ends the work: the path has a null character, or the file is not UTF-8. -/
def Breaks : Prop :=
  hasNull path = true ∨ ∃ bytes, files.read path = .ok bytes ∧ ¬ bytes.IsValidUTF8

def dump? : Option (Except LoadError SourceUnit) :=
  match files.text path with
  | .ok text => some (SourceUnit.ofText path text)
  | .error (.fault cause) => some (.error ⟨.unreadable path cause, {}⟩)
  | .error (.breakdown _) => none

def unitAt? : Option SourceUnit :=
  match files.dump? path with
  | some (.ok unit) => some unit
  | _ => none

def errorAt? : Option LoadError :=
  match files.dump? path with
  | some (.error error) => some error
  | _ => none

theorem decode?_eq_none_iff (bytes : ByteArray) :
    Text.decode? bytes = none ↔ ¬ bytes.IsValidUTF8 := by
  unfold Text.decode? String.fromUTF8?
  by_cases h : bytes.IsValidUTF8 <;> simp [h]

theorem dump?_eq_none_iff : files.dump? path = none ↔ files.Breaks path := by
  unfold dump? Files.text Breaks
  by_cases hn : hasNull path = true
  · simp [hn]
  · cases hf : files.read path with
    | error cause => simp [hn]
    | ok bytes =>
      have hd := decode?_eq_none_iff bytes
      cases ht : Text.decode? bytes <;> simp_all

instance : Decidable (files.Breaks path) :=
  decidable_of_iff ((files.dump? path).isNone = true) (by
    rw [Option.isNone_iff_eq_none, dump?_eq_none_iff])

theorem errorAt?_isSome_iff (h : ¬ files.Breaks path) :
    (files.errorAt? path).isSome = true ↔ files.unitAt? path = none := by
  rw [← dump?_eq_none_iff] at h
  unfold errorAt? unitAt?
  cases hd : files.dump? path with
  | none => exact absurd hd h
  | some outcome => cases outcome <;> simp

end Files

namespace Policy

variable (p : Policy) (files : Files)

/-- What becomes of a dump is what can be loaded at its path, checked. -/
theorem checkPath_cases (path : String) :
    (∃ unit, files.dump? path = some (.ok unit) ∧
      ∃ types, p.checkPath files path = ⟨path, types, .checked unit (p.check unit)⟩) ∨
    (∃ error, files.dump? path = some (.error error) ∧
      ∃ types, p.checkPath files path = ⟨path, types, .failed error⟩) ∨
    (files.dump? path = none ∧ ∃ cause, p.checkPath files path = ⟨path, [], .broken cause⟩) := by
  unfold checkPath Files.dump?
  cases files.text path with
  | error failure =>
    cases failure with
    | fault cause => exact .inr (.inl ⟨_, rfl, _, rfl⟩)
    | breakdown cause => exact .inr (.inr ⟨rfl, _, rfl⟩)
  | ok text =>
    simp only [checkText, SourceUnit.ofText]
    generalize Load.runIn path (Load.unitOfText text) = loaded
    obtain ⟨outcome, state⟩ := loaded
    cases outcome with
    | ok unit => exact .inl ⟨unit, rfl, _, rfl⟩
    | error error => exact .inr (.inl ⟨error, rfl, _, rfl⟩)

theorem checkPath_broken_iff (path : String) :
    (p.checkPath files path).breakdown?.isSome = true ↔ files.Breaks path := by
  rw [← files.dump?_eq_none_iff]
  obtain ⟨unit, hd, types, he⟩ | ⟨_, hd, _, he⟩ | ⟨hd, _, he⟩ := p.checkPath_cases files path
  · have hnone : (DumpReport.mk path types (.checked unit (p.check unit))).breakdown? = none := by
      rw [check_eq]
      split <;> rfl
    simp [hd, he, hnone]
  · simp [hd, he, DumpReport.breakdown?]
  · simp [hd, he, DumpReport.breakdown?]

theorem checkPath_unit (path : String) : (p.checkPath files path).unit? =
    (files.unitAt? path).map fun unit => (unit, p.check unit) := by
  obtain ⟨_, hd, _, he⟩ | ⟨_, hd, _, he⟩ | ⟨hd, _, he⟩ := p.checkPath_cases files path <;>
    simp [hd, he, DumpReport.unit?, Files.unitAt?]

theorem checkPath_error (path : String) : (p.checkPath files path).error? =
    (files.errorAt? path).map fun error => (path, error) := by
  obtain ⟨_, hd, _, he⟩ | ⟨_, hd, _, he⟩ | ⟨hd, _, he⟩ := p.checkPath_cases files path <;>
    simp [hd, he, DumpReport.error?, Files.errorAt?]

/-- Without a breakdown, every path gets its report. -/
theorem checkPaths_reports {paths : List String} (h : ∀ path ∈ paths, ¬ files.Breaks path) :
    (p.checkPaths files paths).reports = paths.map (p.checkPath files) := by
  induction paths with
  | nil => rfl
  | cons path rest ih =>
    have hp : ¬ (p.checkPath files path).breakdown?.isSome = true := by
      rw [checkPath_broken_iff]
      exact h path List.mem_cons_self
    have hrest := ih fun q hq => h q (List.mem_cons_of_mem _ hq)
    simp only [checkPaths, if_neg hp, hrest, List.map_cons]

theorem checkPaths_breakdown (paths : List String) :
    (p.checkPaths files paths).breakdown? = none ↔ ∀ path ∈ paths, ¬ files.Breaks path := by
  induction paths with
  | nil => simp [checkPaths, Batch.breakdown?]
  | cons path rest ih =>
    simp only [checkPaths, List.forall_mem_cons, ← ih, ← p.checkPath_broken_iff files path]
    cases hb : (p.checkPath files path).breakdown? <;> simp [Batch.breakdown?, hb]

/-- The work on several dumps comes to its end unless a path or the bytes of a file end it. Then the
verdicts are those on the dumps that can be loaded, in order, and the errors are those of the other
paths, in order. -/
theorem checkPaths_drops_failed (paths : List String) :
    ((p.checkPaths files paths).breakdown? = none ↔ ∀ path ∈ paths, ¬ files.Breaks path) ∧
      ((∀ path ∈ paths, ¬ files.Breaks path) →
        (p.checkPaths files paths).units =
            (paths.filterMap files.unitAt?).map (fun unit => (unit, p.check unit)) ∧
          (p.checkPaths files paths).errors = paths.filterMap (fun path =>
            (files.errorAt? path).map fun error => (path, error)) ∧
          ∀ path ∈ paths, ((files.errorAt? path).isSome = true ↔ files.unitAt? path = none)) := by
  refine ⟨p.checkPaths_breakdown files paths, fun h => ⟨?_, ?_, ?_⟩⟩
  · rw [Batch.units, p.checkPaths_reports files h, List.filterMap_map, List.map_filterMap]
    congr 1
    funext path
    exact p.checkPath_unit files path
  · rw [Batch.errors, p.checkPaths_reports files h, List.filterMap_map]
    congr 1
    funext path
    exact p.checkPath_error files path
  · exact fun path hp => files.errorAt?_isSome_iff path (h path hp)

def someDumps : Files where
  isFile path := ["reader.sexp", "cut.sexp", "bytes.sexp"].contains path
  read
    | "reader.sexp" => .ok "(unit reader)".toUTF8
    | "cut.sexp" => .ok "(unit".toUTF8
    | "bytes.sexp" => .ok ⟨#[255]⟩
    | path => .error (.missing path)

theorem checkPaths_drops_failed_cut :
    (∀ path ∈ ["cut.sexp", "reader.sexp", "none.sexp"], ¬ someDumps.Breaks path) ∧
      (checkPaths {} someDumps ["cut.sexp", "reader.sexp", "none.sexp"]).units.map (·.1.name) =
        ["reader"] ∧
      (checkPaths {} someDumps ["cut.sexp", "reader.sexp", "none.sexp"]).errors.map (·.1) =
        ["cut.sexp", "none.sexp"] := by
  have h : ∀ path ∈ ["cut.sexp", "reader.sexp", "none.sexp"], ¬ someDumps.Breaks path := by
    decide +kernel
  obtain ⟨hunits, herrors, -⟩ := (checkPaths_drops_failed {} someDumps _).2 h
  refine ⟨h, ?_, ?_⟩
  · rw [hunits]
    decide +kernel
  · rw [herrors]
    decide +kernel

/-- Bytes that are not UTF-8 end the work on a dump after them that can be loaded. -/
theorem checkPaths_ends_at_undecodable :
    (someDumps.unitAt? "reader.sexp").isSome = true ∧
      (checkPaths {} someDumps ["bytes.sexp", "reader.sexp"]).breakdown? =
        some (.reading .undecodable) ∧
      (checkPaths {} someDumps ["bytes.sexp", "reader.sexp"]).units.length = 0 ∧
      (checkPaths {} someDumps ["bytes.sexp", "reader.sexp"]).errors.length = 0 := by
  decide +kernel

end Policy

end ReadGuard
