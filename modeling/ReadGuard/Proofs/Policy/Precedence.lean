import ReadGuard.Proofs.Check.Isolation
import ReadGuard.Proofs.Policy.Settings

namespace ReadGuard

def Given.Blank : Given → Prop
  | .text s => ∀ c ∈ s.toList, Text.isMargin c = true
  | .other _ => True

theorem Files.text_eq_breakdown_iff (files : Files) (path : String) :
    (∃ cause, files.text path = .error (.breakdown cause)) ↔ files.Breaks path := by
  rw [← dump?_eq_none_iff, dump?]
  cases files.text path with
  | ok text => simp
  | error failure => cases failure <;> simp

namespace Policy

theorem nameOf_cases (setting : String) (value : Given) :
    (value.Blank ∧ ∃ e, nameOf setting value = .error e) ∨
      (¬ value.Blank ∧ ∃ name, value = .text name ∧ nameOf setting value = .ok name) := by
  cases value with
  | other shown => exact .inl ⟨trivial, _, rfl⟩
  | text name =>
    have hblank : Text.isEmptyText name = true ↔ (Given.text name).Blank := List.all_eq_true
    by_cases h : Text.isEmptyText name = true
    · exact .inl ⟨hblank.mp h, _, if_pos h⟩
    · exact .inr ⟨fun hb => h (hblank.mpr hb), name, rfl, if_neg h⟩

variable (p : Policy) (o : Overrides)

def nameAfter (n : PolicyName) : Given := (n.given o).getD (.text (n.of p))

theorem override_eq : p.override o = (do
    let reader ← nameOf "reader_unit" (p.nameAfter o .reader)
    let data ← nameOf "data_unit" (p.nameAfter o .data)
    let typeName ← nameOf "type_name" (p.nameAfter o .type)
    return {
      reader, data, typeName
      writer := o.writer <|> p.writer
      strict := o.strict.getD p.strict
      suppressed := (p.suppressed ++ o.suppressed.getD []).eraseDups }) := rfl

structure Overridden (p' : Policy) : Prop where
  names : ∀ n, p.nameAfter o n = .text (n.of p')
  writer : p'.writer = o.writer.or p.writer
  strict : p'.strict = o.strict.getD p.strict
  suppressed : ∀ rule, rule ∈ p'.suppressed ↔ rule ∈ p.suppressed ∨ rule ∈ o.suppressed.getD []

/-- A source is refused if and only if it leaves a name blank. -/
theorem override_cases :
    ((∃ n, (p.nameAfter o n).Blank) ∧ ∃ e, p.override o = .error e) ∨
      ((∀ n, ¬ (p.nameAfter o n).Blank) ∧ ∃ p', p.override o = .ok p' ∧ p.Overridden o p') := by
  rw [override_eq]
  obtain ⟨hblank, e, he⟩ | ⟨hr, reader, hreader, he⟩ :=
    nameOf_cases "reader_unit" (p.nameAfter o .reader)
  · exact .inl ⟨⟨_, hblank⟩, e, by rw [he]; rfl⟩
  obtain ⟨hblank, e, he'⟩ | ⟨hd, data, hdata, he'⟩ :=
    nameOf_cases "data_unit" (p.nameAfter o .data)
  · exact .inl ⟨⟨_, hblank⟩, e, by rw [he, he']; rfl⟩
  obtain ⟨hblank, e, he''⟩ | ⟨ht, typeName, htype, he''⟩ :=
    nameOf_cases "type_name" (p.nameAfter o .type)
  · exact .inl ⟨⟨_, hblank⟩, e, by rw [he, he', he'']; rfl⟩
  rw [he, he', he'']
  refine .inr ⟨fun n => ?_, _, rfl, fun n => ?_, ?_, rfl, fun rule => ?_⟩
  · cases n <;> assumption
  · cases n <;> assumption
  · exact Option.orElse_eq_or
  · rw [List.mem_eraseDups, List.mem_append]

end Policy

namespace PolicySources

open PolicySetting

variable (s : PolicySources) (files : Files)

def path? : Option String := s.file.filter fun path => !path.isEmpty

def Gives (settings : List PolicySetting) : Prop :=
  match s.path? with
  | none => settings = []
  | some path => ∃ text, files.text path = .ok text ∧ ofText? text = some settings

def Unreadable : Prop :=
  ∃ path cause, s.path? = some path ∧ files.text path = .error (.fault cause)

def Malformed : Prop :=
  ∃ path text, s.path? = some path ∧ files.text path = .ok text ∧ ofText? text = none

def Breaks : Prop := ∃ path, s.path? = some path ∧ files.Breaks path

section Stages

variable (settings : List PolicySetting) (n : PolicyName)

def nameInFile : String := (last (name? n) settings).getD (n.of {})

def nameInEnvironment : String :=
  (Policy.nonEmpty? s.env n.variableName).getD (nameInFile settings n)

def nameInOptions : Given := (n.given s.options).getD (.text (s.nameInEnvironment settings n))

/-- Some name is blank after the file, after the environment or after the options. -/
def LeavesBlank : Prop :=
  ∃ n, (Given.text (nameInFile settings n)).Blank ∨
    (Given.text (s.nameInEnvironment settings n)).Blank ∨ (s.nameInOptions settings n).Blank

/-- The policy after the file. In the file the last entry for a setting counts. -/
structure InFile (p : Policy) : Prop where
  names : ∀ n, n.of p = nameInFile settings n
  writer : p.writer = last writer? settings
  strict : p.strict = (last strict? settings).getD false
  suppressed : ∀ rule, rule ∈ p.suppressed ↔ rule ∈ (last suppressed? settings).getD []

structure InEnvironment (p : Policy) : Prop where
  names : ∀ n, n.of p = s.nameInEnvironment settings n
  writer : p.writer = (Policy.nonEmpty? s.env "RWSEP_WRITER").or (last writer? settings)
  strict : p.strict = (last strict? settings).getD false
  suppressed : ∀ rule, rule ∈ p.suppressed ↔ rule ∈ (last suppressed? settings).getD []

/-- The policy of all sources: the options go before the environment, the environment before the
file, and in the file the last entry counts. Rules are suppressed by the file and by the options. -/
structure Merged (p : Policy) : Prop where
  names : ∀ n, s.nameInOptions settings n = .text (n.of p)
  writer : p.writer = s.options.writer.or
    ((Policy.nonEmpty? s.env "RWSEP_WRITER").or (last writer? settings))
  strict : p.strict = s.options.strict.getD ((last strict? settings).getD false)
  suppressed : ∀ rule, rule ∈ p.suppressed ↔
    rule ∈ (last suppressed? settings).getD [] ∨ rule ∈ s.options.suppressed.getD []

theorem nameAfter_file :
    Policy.nameAfter {} (settings.foldl Overrides.put {}) n = .text (nameInFile settings n) := by
  rw [Policy.nameAfter, given_foldl_put, Option.getD_map, nameInFile]

theorem nameAfter_environment {p : Policy} (h : n.of p = nameInFile settings n) :
    p.nameAfter (Policy.settingsOf s.env) n = .text (s.nameInEnvironment settings n) := by
  have hgiven : n.given (Policy.settingsOf s.env) =
      (Policy.nonEmpty? s.env n.variableName).map .text := by cases n <;> rfl
  rw [Policy.nameAfter, hgiven, h, Option.getD_map, nameInEnvironment]

end Stages

variable {s files} {settings : List PolicySetting} {path : String}

theorem fileStage_eq (h : s.path? = some path) : s.fileStage files =
    match files.text path with
    | .ok text => (Policy.withText {} path text).mapError .error
    | .error (.fault cause) => .error (.error (.unreadable path cause))
    | .error (.breakdown cause) => .error (.breakdown cause) := by
  unfold path? at h
  unfold fileStage fileText
  rw [h]
  dsimp only
  cases files.text path with
  | ok text => rfl
  | error failure => cases failure <;> rfl

theorem resolve_of_fileStage {failure : PolicyFailure} (h : s.fileStage files = .error failure) :
    s.resolve files = .error failure := by
  unfold resolve environmentStage
  rw [h]
  rfl

theorem Unreadable.resolve_eq (h : s.Unreadable files) :
    ∃ e, s.resolve files = .error (.error e) := by
  obtain ⟨path, cause, hpath, htext⟩ := h
  refine ⟨.unreadable path cause, resolve_of_fileStage ?_⟩
  rw [fileStage_eq hpath, htext]

theorem Malformed.resolve_eq (h : s.Malformed files) :
    ∃ e, s.resolve files = .error (.error e) := by
  obtain ⟨path, text, hpath, htext, hnone⟩ := h
  obtain ⟨_, hsome, -⟩ | ⟨-, e, he⟩ := Policy.entriesOf_cases path text
  · cases hnone.symm.trans hsome
  · refine ⟨e, resolve_of_fileStage ?_⟩
    simp only [fileStage_eq hpath, htext, Policy.withText, he]
    rfl

theorem Breaks.resolve_eq (h : s.Breaks files) :
    ∃ cause, s.resolve files = .error (.breakdown cause) := by
  obtain ⟨path, hpath, hbreaks⟩ := h
  obtain ⟨cause, htext⟩ := (files.text_eq_breakdown_iff path).mpr hbreaks
  refine ⟨cause, resolve_of_fileStage ?_⟩
  rw [fileStage_eq hpath, htext]

/-- The settings of a file stand in for the defaults. Without a file there is nothing to stand in. -/
theorem Gives.fileStage_eq (h : s.Gives files settings) : s.fileStage files =
    (Policy.override {} (settings.foldl Overrides.put {})).mapError .error := by
  unfold Gives at h
  split at h
  case h_1 hpath =>
    unfold fileStage fileText
    rw [show s.file.filter _ = none from hpath, h]
    rfl
  case h_2 path hpath =>
    obtain ⟨text, htext, hs⟩ := h
    obtain ⟨_, hs', he⟩ | ⟨hs', -⟩ := Policy.entriesOf_cases path text
    · cases hs.symm.trans hs'
      simp only [PolicySources.fileStage_eq hpath, htext, Policy.withText, he]
      rfl
    · cases hs.symm.trans hs'

theorem Gives.fileStage_cases (h : s.Gives files settings) :
    ((∃ n, (Given.text (nameInFile settings n)).Blank) ∧
      ∃ e, s.fileStage files = .error (.error e)) ∨
    ((∀ n, ¬ (Given.text (nameInFile settings n)).Blank) ∧
      ∃ p, s.fileStage files = .ok p ∧ InFile settings p) := by
  have hcases := Policy.override_cases {} (settings.foldl Overrides.put {})
  simp only [nameAfter_file] at hcases
  obtain ⟨hblank, e, he⟩ | ⟨hnone, p, he, hp⟩ := hcases
  · exact .inl ⟨hblank, e, by rw [h.fileStage_eq, he]; rfl⟩
  · obtain ⟨hwriter, hstrict, hsuppressed⟩ := foldl_put_others settings
    refine .inr ⟨hnone, p, by rw [h.fileStage_eq, he]; rfl, fun n => ?_, ?_, ?_, fun rule => ?_⟩
    · have hn := hp.names n
      rw [nameAfter_file, Given.text.injEq] at hn
      exact hn.symm
    · rw [hp.writer, hwriter, Option.or_none]
    · rw [hp.strict, hstrict]
    · simp [hp.suppressed, hsuppressed]

theorem Gives.environmentStage_cases (h : s.Gives files settings) :
    ((∃ n, (Given.text (nameInFile settings n)).Blank ∨
        (Given.text (s.nameInEnvironment settings n)).Blank) ∧
      ∃ e, s.environmentStage files = .error (.error e)) ∨
    ((∀ n, ¬ (Given.text (nameInFile settings n)).Blank ∧
        ¬ (Given.text (s.nameInEnvironment settings n)).Blank) ∧
      ∃ p, s.environmentStage files = .ok p ∧ s.InEnvironment settings p) := by
  unfold environmentStage
  obtain ⟨⟨n, hblank⟩, e, he⟩ | ⟨hfile, p, he, hp⟩ := h.fileStage_cases
  · exact .inl ⟨⟨n, .inl hblank⟩, e, by rw [he]; rfl⟩
  have hafter := fun n => nameAfter_environment s settings n (hp.names n)
  have hstage : (s.fileStage files >>= fun p => (p.withEnvironment s.env).mapError .error) =
      (p.override (Policy.settingsOf s.env)).mapError .error := by
    rw [he]
    rfl
  obtain ⟨⟨n, hblank⟩, e, he'⟩ | ⟨hnone, p', he', hp'⟩ :=
    p.override_cases (Policy.settingsOf s.env)
  · rw [hafter] at hblank
    exact .inl ⟨⟨n, .inr hblank⟩, e, by rw [hstage, he']; rfl⟩
  · refine .inr ⟨fun n => ⟨hfile n, hafter n ▸ hnone n⟩, p', by rw [hstage, he']; rfl,
      fun n => ?_, ?_, ?_, fun rule => ?_⟩
    · have hn := hp'.names n
      rw [hafter, Given.text.injEq] at hn
      exact hn.symm
    · rw [hp'.writer, hp.writer]
      rfl
    · rw [hp'.strict, hp.strict]
      rfl
    · simp [hp'.suppressed, hp.suppressed, Policy.settingsOf]

/-- With the settings of the file there is a policy of all sources if and only if no stage leaves a
name blank. -/
theorem Gives.resolve_cases (h : s.Gives files settings) :
    (s.LeavesBlank settings ∧ ∃ e, s.resolve files = .error (.error e)) ∨
      (¬ s.LeavesBlank settings ∧ ∃ p, s.resolve files = .ok p ∧ s.Merged settings p) := by
  unfold resolve
  obtain ⟨⟨n, hblank⟩, e, he⟩ | ⟨hnone, p, he, hp⟩ := h.environmentStage_cases
  · refine .inl ⟨⟨n, ?_⟩, e, by rw [he]; rfl⟩
    exact hblank.imp_right .inl
  have hafter : ∀ n, p.nameAfter s.options n = s.nameInOptions settings n := by
    intro n
    rw [Policy.nameAfter, hp.names, nameInOptions]
  have hstage : (s.environmentStage files >>= fun p => (p.override s.options).mapError .error) =
      (p.override s.options).mapError PolicyFailure.error := by
    rw [he]
    rfl
  obtain ⟨⟨n, hblank⟩, e, he'⟩ | ⟨hnone', p', he', hp'⟩ := p.override_cases s.options
  · rw [hafter] at hblank
    exact .inl ⟨⟨n, .inr (.inr hblank)⟩, e, by rw [hstage, he']; rfl⟩
  · refine .inr ⟨?_, p', by rw [hstage, he']; rfl, fun n => ?_, ?_, ?_, fun rule => ?_⟩
    · rintro ⟨n, hn | hn | hn⟩
      · exact (hnone n).1 hn
      · exact (hnone n).2 hn
      · exact hnone' n (by rwa [hafter])
    · rw [← hafter, hp'.names]
    · rw [hp'.writer, hp.writer]
    · rw [hp'.strict, hp.strict]
    · rw [hp'.suppressed, hp.suppressed]

variable (s files)

/-- A policy file gives its settings, cannot be opened, is not a policy or ends the work. -/
theorem file_cases :
    (∃ settings, s.Gives files settings) ∨ s.Unreadable files ∨ s.Malformed files ∨
      s.Breaks files := by
  unfold Gives
  cases hpath : s.path? with
  | none => exact .inl ⟨[], rfl⟩
  | some path =>
    cases htext : files.text path with
    | ok text =>
      cases hs : ofText? text with
      | none => exact .inr (.inr (.inl ⟨path, text, hpath, htext, hs⟩))
      | some settings => exact .inl ⟨settings, text, htext, hs⟩
    | error failure =>
      cases failure with
      | fault cause => exact .inr (.inl ⟨path, cause, hpath, htext⟩)
      | breakdown cause =>
        have hbreaks := (files.text_eq_breakdown_iff path).mp ⟨cause, htext⟩
        exact .inr (.inr (.inr ⟨path, hpath, hbreaks⟩))

theorem resolve_cases :
    match s.resolve files with
    | .ok p => ∃ settings, s.Gives files settings ∧ s.Merged settings p
    | .error (.error _) => s.Unreadable files ∨ s.Malformed files ∨
        ∃ settings, s.Gives files settings ∧ s.LeavesBlank settings
    | .error (.breakdown _) => s.Breaks files := by
  obtain ⟨settings, h⟩ | h | h | h := s.file_cases files
  · obtain ⟨hblank, e, he⟩ | ⟨-, p, he, hp⟩ := h.resolve_cases
    · rw [he]
      exact .inr (.inr ⟨settings, h, hblank⟩)
    · rw [he]
      exact ⟨settings, h, hp⟩
  · obtain ⟨e, he⟩ := h.resolve_eq
    rw [he]
    exact .inl h
  · obtain ⟨e, he⟩ := h.resolve_eq
    rw [he]
    exact .inr (.inl h)
  · obtain ⟨cause, he⟩ := h.resolve_eq
    rw [he]
    exact h

/-- A policy has each setting from the strongest source that gives it. There is an error if and only
if the file cannot be opened or is not a policy, or some name is blank after one of the stages, even
if a stronger source gives another one; and the work ends if and only if it ends in reading the
file. -/
theorem resolve_by_precedence :
    (∀ p, s.resolve files = .ok p → ∃ settings, s.Gives files settings ∧ s.Merged settings p) ∧
      ((∃ e, s.resolve files = .error (.error e)) ↔
        s.Unreadable files ∨ s.Malformed files ∨
          ∃ settings, s.Gives files settings ∧ s.LeavesBlank settings) ∧
      ((∃ cause, s.resolve files = .error (.breakdown cause)) ↔ s.Breaks files) := by
  have hcases := s.resolve_cases files
  refine ⟨fun p hp => ?_, ⟨?_, ?_⟩, ?_, fun h => h.resolve_eq⟩
  · rwa [hp] at hcases
  · rintro ⟨e, he⟩
    rwa [he] at hcases
  · rintro (h | h | ⟨settings, h, hblank⟩)
    · exact h.resolve_eq
    · exact h.resolve_eq
    · exact (h.resolve_cases.resolve_right fun hr => hr.1 hblank).2
  · rintro ⟨cause, he⟩
    rwa [he] at hcases

/-- A file that is not UTF-8 ends the work: it is no error of the policy. -/
theorem resolve_ends_at_undecodable :
    PolicySources.resolve { file := some "rwsep.sexp" }
        { isFile := fun _ => true, read := fun _ => .ok ⟨#[255]⟩ } =
      .error (.breakdown .undecodable) := by
  have hnull : hasNull "rwsep.sexp" = false := by decide +kernel
  have hdecode : Text.decode? ⟨#[255]⟩ = none := by decide +kernel
  apply resolve_of_fileStage
  rw [fileStage_eq rfl]
  simp [Files.text, hnull, hdecode]

end PolicySources

end ReadGuard
