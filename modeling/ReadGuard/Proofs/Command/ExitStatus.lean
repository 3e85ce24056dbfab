import ReadGuard.Command.Run
import ReadGuard.FileTree
import ReadGuard.Proofs.Check.Isolation
import ReadGuard.Proofs.Command.Saving
import ReadGuard.Proofs.Issue.Emission

namespace ReadGuard

variable {σ : Type} {st st' st'' : σ}

namespace Command

variable {sys : System (StateM σ)}

namespace Script

def Performs (sys : System (StateM σ)) : List Effect → σ → σ → Prop
  | [], st, st' => st = st'
  | effect :: rest, st, st'' =>
    ∃ st', (perform sys effect).run st = (.ok (), st') ∧ Performs sys rest st' st''

theorem performs_append {effects rest : List Effect} :
    Performs sys (effects ++ rest) st st'' ↔
      ∃ st', Performs sys effects st st' ∧ Performs sys rest st' st'' := by
  induction effects generalizing st with
  | nil =>
    constructor
    · intro h
      exact ⟨st, rfl, h⟩
    · rintro ⟨st', rfl, h⟩
      exact h
  | cons effect effects ih =>
    constructor
    · rintro ⟨st₁, hfirst, hrest⟩
      obtain ⟨st₂, hs, hr⟩ := ih.mp hrest
      exact ⟨st₂, ⟨st₁, hfirst, hs⟩, hr⟩
    · rintro ⟨st₂, ⟨st₁, hfirst, hs⟩, hr⟩
      exact ⟨st₁, hfirst, ih.mpr ⟨st₂, hs, hr⟩⟩

theorem performs_log {line : LogLine} {rest : List Effect} :
    Performs sys (.log line :: rest) st st' ↔ Performs sys rest st st' := by
  constructor
  · rintro ⟨st₁, hlog, h⟩
    cases hlog
    exact h
  · exact fun h => ⟨st, rfl, h⟩

theorem performs_logs (lines : List LogLine) {rest : List Effect} :
    Performs sys (lines.map .log ++ rest) st st' ↔ Performs sys rest st st' := by
  induction lines with
  | nil => rfl
  | cons line lines ih => exact performs_log.trans ih

/-- The level of the log is nothing to the system. -/
theorem performs_atLevel (s : Script) (level : LogLevel) :
    Performs sys (s.atLevel level).effects st st' ↔ Performs sys s.effects st st' := by
  simp only [atLevel]
  induction s.effects generalizing st with
  | nil => rfl
  | cons effect effects ih =>
    cases effect with
    | log line =>
      simp only [List.filter_cons, performs_log]
      split
      · rw [performs_log, ih]
      · exact ih
    | _ => exact exists_congr fun st₁ => and_congr_right fun _ => ih

theorem exit_playFrom (a : Aftermath) (exit : Exit) (effects : List Effect) (code : Nat) :
    (playFrom sys a exit effects st).1.exit = .status code ↔
      exit = .status code ∧ ∃ st', Performs sys effects st st' := by
  induction effects generalizing a st with
  | nil =>
    constructor
    · intro h
      exact ⟨h, st, rfl⟩
    · rintro ⟨h, -⟩
      exact h
  | cons effect effects ih =>
    cases hp : (perform sys effect).run st with
    | mk answer st₁ =>
      rw [playFrom, stateM_bind_apply hp]
      cases answer with
      | error cause =>
        constructor
        · intro h
          cases h
        · rintro ⟨-, st', st₂, hok, -⟩
          cases hp.symm.trans hok
      | ok =>
        refine (ih _).trans (and_congr_right fun _ => exists_congr fun st' => ?_)
        constructor
        · intro h
          exact ⟨st₁, hp, h⟩
        · rintro ⟨st₂, hok, h⟩
          cases hp.symm.trans hok
          exact h

/-- A script comes to its own end if the system does all that it asks, and in no other case. -/
theorem exit_play (s : Script) (code : Nat) :
    (s.play sys st).1.exit = .status code ↔
      s.exit = .status code ∧ ∃ st', Performs sys s.effects st st' :=
  exit_playFrom _ _ _ _

theorem exit_play_after (s : Script) (effects : List Effect) (code : Nat) :
    ((s.after effects).play sys st).1.exit = .status code ↔
      ∃ st', Performs sys effects st st' ∧ (s.play sys st').1.exit = .status code := by
  simp only [exit_play, after, performs_append]
  constructor
  · rintro ⟨hexit, st'', st', hfirst, hrest⟩
    exact ⟨st', hfirst, hexit, st'', hrest⟩
  · rintro ⟨st', hfirst, hexit, st'', hrest⟩
    exact ⟨hexit, st'', st', hfirst, hrest⟩

end Script

/-- A text goes where the issues are to go, which leaves a state. -/
inductive Output.Takes (home : String → Option String) (sys : System (StateM σ)) (st : σ)
    (text : String) : Output → σ → Prop
  | standard {st' : σ} (hw : sys.print text st = (.ok (), st')) :
      Takes home sys st text .standard st'
  | file {path : String} {place target : Path} {st₁ st' : σ}
      (hp : writable home path = .ok place) (hn : hasNull place.text = false)
      (hr : sys.resolve place st = (.ok target, st₁))
      (hw : sys.Saves target text st₁ st') : Takes home sys st text (.file path) st'

theorem writable_ne_status {home : String → Option String} {path : String} {exit : Exit}
    (h : writable home path = .error exit) (code : Nat) : exit ≠ .status code := by
  simp only [writable] at h
  split at h
  · simp at h
  · cases h
    split <;> simp

namespace Options

variable (o : Options) (home : String → Option String) (p : Policy)

def drawn (b : Batch) : String := "\n".intercalate (graphs b) ++ "\n"

/-- The call graphs go where they are to go, if they are to be drawn. -/
def Draws (sys : System (StateM σ)) (st : σ) (b : Batch) : Prop :=
  ∀ path, o.callGraph = some path → path.isEmpty = false →
    ∃ place st', writable home path = .ok place ∧ sys.Saves place (drawn b) st st'

/-- There is a format, and the issues and then the call graphs can be put out. -/
def Delivers (sys : System (StateM σ)) (st : σ) (b : Batch) : Prop :=
  ∃ format st', o.format = some format ∧
    o.output.Takes home sys st (format.lines (unsuppressed p.suppressed b.issues)) st' ∧
    o.Draws home sys st' b

/-- A run on dumps that are all there, and are all text, comes down to the report on them. -/
theorem exit_run {args : List String} {o : Options} {env : Environment} {p : Policy}
    {files : Files} (users : Users) (ho : ofArguments args = .ok o)
    (hp : o.policy env files = .ok p)
    (hd : ∀ path ∈ o.dumps, files.isFile path = true ∧ ¬ files.Breaks path) (code : Nat) :
    ((run args env users files).play sys st).1.exit = .status code ↔
      ((o.report (homeOf users env) p (p.checkPaths files o.dumps)).play sys st).1.exit =
        .status code := by
  have hmissing : o.dumps.filter (fun path => !files.isFile path) = [] := by
    rw [List.filter_eq_nil_iff]
    intro path hpath
    simp [(hd path hpath).1]
  have hbreak : (p.checkPaths files o.dumps).breakdown? = none :=
    (p.checkPaths_breakdown files o.dumps).mpr fun path hpath => (hd path hpath).2
  have hcheck : o.check (homeOf users env) p files =
      (o.report (homeOf users env) p (p.checkPaths files o.dumps)).after
        (opening p :: ((p.checkPaths files o.dumps).log p).map .log) := by
    simp [check, hmissing, hbreak]
  have hrun : run args env users files = ((o.check (homeOf users env) p files).after
      (((o.sources env).log files).map .log)).atLevel o.level := by
    simp [run, ho, script, hp]
  rw [hrun, hcheck]
  simp only [Script.exit_play, Script.performs_atLevel]
  refine and_congr_right fun _ => exists_congr fun st' => ?_
  exact (Script.performs_logs _).trans
    (Script.performs_logs (⟨.info, "rwsep", _⟩ :: (p.checkPaths files o.dumps).log p))

/-- The issues go to the standard output or to a file, or they go nowhere and the run ends. -/
theorem delivery_cases (sys : System (StateM σ)) :
    (∃ deliver, o.delivery home = .ok deliver ∧ ∀ text st st',
      o.output.Takes home sys st text st' ↔
        (Script.perform sys (deliver text)).run st = (.ok (), st')) ∨
    (∃ exit, o.delivery home = .error exit ∧ (∀ code, exit ≠ .status code) ∧
      ∀ text st st', ¬ o.output.Takes home sys st text st') := by
  cases ho : o.output with
  | standard =>
    refine .inl ⟨.print, by simp [delivery, ho], fun text st st' => ?_⟩
    rw [Script.perform, System.ask_run_eq_ok]
    constructor
    · rintro ⟨hw⟩
      exact hw
    · exact .standard
  | unnamed => exact .inr ⟨_, by simp [delivery, ho]; rfl, by simp, nofun⟩
  | file path =>
    cases hp : writable home path with
    | error exit =>
      refine .inr ⟨exit, by simp [delivery, ho, hp], writable_ne_status hp, ?_⟩
      intro text st st' ht
      cases ht with
      | file hp' hn hr hw => simp [hp] at hp'
    | ok place =>
      by_cases hn : hasNull place.text = true
      · refine .inr ⟨_, by simp [delivery, ho, hp, hn]; rfl, by simp, ?_⟩
        intro text st st' ht
        cases ht with
        | file hp' hn' hr hw =>
          cases hp.symm.trans hp'
          simp [hn] at hn'
      · refine .inl ⟨.writeAt place, by simp [delivery, ho, hp, hn], fun text st st' => ?_⟩
        simp only [Script.perform, bind_run_eq_ok, System.ask_run_eq_ok, System.save_run_eq_ok]
        constructor
        · intro ht
          cases ht with
          | file hp' hn' hr hw =>
            cases hp.symm.trans hp'
            exact ⟨_, _, hr, hw⟩
        · rintro ⟨target, st₁, hr, hw⟩
          exact .file hp (Bool.eq_false_iff.mpr hn) hr hw

theorem performs_skipping (b : Batch) (st : σ) : Script.Performs sys (skipping b) st st := by
  unfold skipping
  induction b.errors with
  | nil => rfl
  | cons e errors ih => exact Script.performs_log.mpr ih

/-- After the report a run ends with its status, unless the call graphs cannot be put out. -/
theorem exit_finish (b : Batch) (code code' : Nat) :
    ((o.finish home b (.status code)).play sys st).1.exit = .status code' ↔
      o.Draws home sys st b ∧ code' = code := by
  have hasked : ∀ path, o.callGraph.filter (fun path => !path.isEmpty) = some path ↔
      o.callGraph = some path ∧ path.isEmpty = false := by simp [Option.filter_eq_some_iff]
  rw [Script.exit_play]
  cases hg : o.callGraph.filter fun path => !path.isEmpty with
  | none =>
    have hdraws : o.Draws home sys st b := by
      intro path hpath hne
      cases hg.symm.trans ((hasked path).mpr ⟨hpath, hne⟩)
    simp only [finish, hg]
    have hskips : ∃ st', Script.Performs sys (skipping b) st st' := ⟨st, performs_skipping b st⟩
    simp [hskips, hdraws, eq_comm]
  | some path =>
    obtain ⟨hpath, hne⟩ := (hasked path).mp hg
    cases hw : writable home path with
    | error exit =>
      simp only [finish, hg, hw]
      constructor
      · exact fun h => absurd h.1 (writable_ne_status hw _)
      · rintro ⟨hdraws, -⟩
        obtain ⟨place, st', hp, -⟩ := hdraws path hpath hne
        cases hw.symm.trans hp
    | ok place =>
      simp only [finish, hg, hw, Exit.status.injEq]
      rw [and_comm, eq_comm]
      refine and_congr_left fun _ => ⟨?_, ?_⟩
      · rintro ⟨st'', st', hsave, -⟩ path' hpath' -
        cases hpath.symm.trans hpath'
        exact ⟨place, st', hw, System.save_run_eq_ok.mp hsave⟩
      · intro hdraws
        obtain ⟨place', st', hp, hsave⟩ := hdraws path hpath hne
        cases hw.symm.trans hp
        exact ⟨st', st', System.save_run_eq_ok.mpr hsave,
          Script.performs_log.mpr (performs_skipping b st')⟩

/-- The report ends with the status of the unsuppressed issues exactly if all can be put out. -/
theorem exit_report (b : Batch) (code : Nat) :
    ((o.report home p b).play sys st).1.exit = .status code ↔
      o.Delivers home p sys st b ∧
        code = if unsuppressed p.suppressed b.issues = [] then 0 else 1 := by
  obtain ⟨deliver, hd, htakes⟩ | ⟨exit, hd, hexit, htakes⟩ := o.delivery_cases home sys
  · cases hformat : o.format with
    | none =>
      have hr : o.report home p b = ⟨[deliver ""], .lacking .format⟩ := by
        simp [report, hd, hformat]
      simp [hr, Script.exit_play, Delivers, hformat]
    | some format =>
      have houtput := (Reporter.reports_emitAll { format, suppressed := p.suppressed }
        b.issues).output
      have hreported := Reporter.reported_emitAll format p.suppressed b.issues
      generalize hs : ({ format, suppressed := p.suppressed } : Reporter).emitAll b.issues = r
        at houtput hreported
      rw [String.empty_append] at houtput
      have hr : o.report home p b =
          (o.finish home b (.status (if r.reported = 0 then 0 else 1))).after
            [deliver r.output, say .info r.summary] := by
        simp only [report, hd, hformat, hs]
      have hcode : (if r.reported = 0 then 0 else 1) =
          if unsuppressed p.suppressed b.issues = [] then 0 else 1 := by
        simp [hreported]
      have hdelivers : o.Delivers home p sys st b ↔ ∃ st',
          Script.Performs sys [deliver r.output, say .info r.summary] st st' ∧
            o.Draws home sys st' b := by
        simp only [Delivers, hformat, Option.some.injEq, exists_and_left, exists_eq_left', htakes,
          houtput]
        refine exists_congr fun st' => and_congr_left fun _ => ?_
        constructor
        · intro h
          exact ⟨st', h, Script.performs_log.mpr rfl⟩
        · rintro ⟨st₁, h, hlog⟩
          obtain rfl : st₁ = st' := Script.performs_log.mp hlog
          exact h
      rw [hr, Script.exit_play_after, hdelivers, hcode]
      simp only [exit_finish, ← and_assoc, exists_and_right]
  · have hr : o.report home p b = ⟨[], exit⟩ := by simp [report, hd]
    have hnot : ¬ o.Delivers home p sys st b := by
      rintro ⟨format, st', hf, ht, -⟩
      exact htakes _ _ _ ht
    simp [hr, Script.exit_play, hexit, hnot]

end Options

/-- What is written, what is counted and the status of a run follow from the issues of the rules
that are not suppressed. Whatever the system around it does, a run on dumps that are there and are
text ends with a status if the system puts out all that it is given, and in no other case. -/
theorem output_and_status_of_unsuppressed (sys : System (StateM σ)) (st : σ) (args : List String)
    (env : Environment) (users : Users) (files : Files) :
    (∀ (format : Format) (suppressed : List String) (issues : List Issue),
      let r : Reporter := { format, suppressed }
      let kept := unsuppressed suppressed issues
      (r.emitAll issues).output = String.join (kept.map fun i => format.line i ++ "\n") ∧
        r.emittedCount issues = kept.length ∧
        (r.emitAll issues).reported = kept.length ∧
        (r.emitAll issues).dropped + kept.length = issues.length ∧
        ∀ rule, (r.emitAll issues).counts rule = kept.countP fun i => i.rule.id == rule.id) ∧
    ∀ (o : Options) (p : Policy),
      Options.ofArguments args = .ok o → o.policy env files = .ok p →
      (∀ path ∈ o.dumps, files.isFile path = true ∧ ¬ files.Breaks path) →
      ∀ code, ((run args env users files).play sys st).1.exit = .status code ↔
        o.Delivers (homeOf users env) p sys st (p.checkPaths files o.dumps) ∧
          code = if unsuppressed p.suppressed (p.checkPaths files o.dumps).issues = [] then 0
            else 1 := by
  constructor
  · intro format suppressed issues r kept
    have h := r.reports_emitAll issues
    refine ⟨?_, r.emittedCount_eq issues, Reporter.reported_emitAll format suppressed issues, ?_,
      ?_⟩
    · rw [h.output, String.empty_append]
      rfl
    · rw [h.dropped, Nat.zero_add]
    · intro rule
      rw [h.counts, Nat.zero_add]
      rfl
  · intro o p ho hp hd code
    rw [Options.exit_run users ho hp hd, Options.exit_report]

def resetterTree : FileTree :=
  .ofPaths
    [("reader.sexp", ("(unit reader (file f (func g (block " ++
        "(incdec (sel (ident d :type data.BigStruct) n) ++)))))").toUTF8),
      ("empty.sexp", "(unit reader)".toUTF8), ("graphs/old.dot", "".toUTF8)]

theorem output_and_status_of_unsuppressed_resetter :
    resetterTree.contents.isFile "reader.sexp" = true ∧
      ¬ resetterTree.contents.Breaks "reader.sexp" ∧
      ((run ["reader.sexp"] (fun _ => none) {} resetterTree.contents).play FileTree.system
        { tree := resetterTree }).1.exit = .status 1 := by
  have hd : ∀ path ∈ ["reader.sexp"], resetterTree.contents.isFile path = true ∧
      ¬ resetterTree.contents.Breaks path := by decide +kernel
  have hi : (({} : Policy).checkPaths resetterTree.contents ["reader.sexp"]).issues.length = 1 := by
    decide +kernel
  obtain ⟨i, hi⟩ := List.length_eq_one_iff.mp hi
  refine ⟨(hd _ List.mem_cons_self).1, (hd _ List.mem_cons_self).2, ?_⟩
  apply ((output_and_status_of_unsuppressed FileTree.system { tree := resetterTree } _
    (fun _ => none) {} resetterTree.contents).2 { dumps := ["reader.sexp"] } {} rfl rfl hd 1).mpr
  refine ⟨⟨.text, _, rfl, .standard rfl, nofun⟩, ?_⟩
  rw [hi]
  rfl

/-- Call graphs that are to go to a directory end a run that has no issue to report, though the
arguments, the policy and the dump are in order. -/
theorem run_ends_at_directory_for_graphs :
    Options.ofArguments ["--callgraph-dot", "graphs", "empty.sexp"] =
        .ok { dumps := ["empty.sexp"], callGraph := some "graphs" } ∧
      ({ dumps := ["empty.sexp"], callGraph := some "graphs" } : Options).policy (fun _ => none)
        resetterTree.contents = .ok {} ∧
      resetterTree.contents.isFile "empty.sexp" = true ∧
      ¬ resetterTree.contents.Breaks "empty.sexp" ∧
      unsuppressed [] (({} : Policy).checkPaths resetterTree.contents ["empty.sexp"]).issues = [] ∧
      ((run ["--callgraph-dot", "graphs", "empty.sexp"] (fun _ => none) {}
        resetterTree.contents).play FileTree.system { tree := resetterTree }).1.exit =
          .unwritten (.fault (.isDirectory "graphs")) :=
  ⟨rfl, rfl, by decide +kernel, by decide +kernel, by decide +kernel, by decide +kernel⟩

end Command

end ReadGuard
