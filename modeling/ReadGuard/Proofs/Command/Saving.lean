import ReadGuard.System

namespace ReadGuard

variable {σ : Type} {st st' st'' : σ}

theorem stateM_bind_apply {α β : Type} {x : StateM σ α} {a : α} (h : x st = (a, st'))
    (f : α → StateM σ β) : (x >>= f) st = f a st' := by
  change f (x st).1 (x st).2 = f a st'
  rw [h]

theorem bind_run_eq_ok {ε α β : Type} {x : ExceptT ε (StateM σ) α}
    {f : α → ExceptT ε (StateM σ) β} {b : β} :
    (x >>= f).run st = (.ok b, st'') ↔
      ∃ a st', x.run st = (.ok a, st') ∧ (f a).run st' = (.ok b, st'') := by
  cases hx : x.run st with
  | mk answer st₁ =>
    rw [ExceptT.run_bind, stateM_bind_apply hx]
    constructor
    · intro h
      cases answer with
      | ok a => exact ⟨a, st₁, rfl, h⟩
      | error cause => cases h
    · rintro ⟨a, st', he, h⟩
      cases he
      exact h

namespace System

theorem ask_run_eq_ok {α : Type} {x : StateM σ (Except FileFault α)} {a : α} :
    (ask x).run st = (.ok a, st') ↔ x st = (.ok a, st') := by
  change ((x st).1.mapError _, (x st).2) = _ ↔ _
  obtain ⟨answer, st₁⟩ := x st
  cases answer <;> constructor <;> intro h <;> cases h <;> rfl

theorem lift_bind_run {ε α β : Type} {x : StateM σ α} {a : α} (h : x st = (a, st'))
    (f : α → ExceptT ε (StateM σ) β) : (ExceptT.lift x >>= f).run st = (f a).run st' := by
  rw [ExceptT.run_bind]
  change (f (x st).1).run (x st).2 = (f a).run st'
  rw [h]

/-- A directory is made, or it cannot be made but is there. -/
inductive Makes (sys : System (StateM σ)) (p : Path) (st : σ) : σ → Prop
  | made {st' : σ} (h : sys.makeDirectory p.text st = (.ok (), st')) : Makes sys p st st'
  | present {fault : FileFault} {st₁ st' : σ} (h : sys.makeDirectory p.text st = (.error fault, st₁))
      (hf : fault.isMissing = false) (hd : sys.isDirectory p.text st₁ = (.ok true, st')) :
      Makes sys p st st'

/-- A directory is made with those above it, from the first one up that is not missing another. The
names on its path are given from the last to the first. -/
inductive MakesAll (sys : System (StateM σ)) (root : String) : List String → σ → σ → Prop
  | single {names : List String} {st st' : σ} (h : sys.Makes ⟨root, names.reverse⟩ st st') :
      MakesAll sys root names st st'
  | above {name : String} {rest : List String} {fault : FileFault} {st st₁ st₂ st' : σ}
      (h : sys.makeDirectory (Path.mk root (name :: rest).reverse).text st = (.error fault, st₁))
      (hf : fault.isMissing = true) (hr : MakesAll sys root rest st₁ st₂)
      (hm : sys.Makes ⟨root, (name :: rest).reverse⟩ st₂ st') :
      MakesAll sys root (name :: rest) st st'

/-- A file is written, once there is a directory for it. -/
structure Saves (sys : System (StateM σ)) (p : Path) (text : String) (st st' : σ) : Prop where
  noNull : hasNull p.text = false ∧ hasNull p.parent.text = false
  written : ∃ st₁, sys.MakesAll p.root p.parent.names.reverse st st₁ ∧
    sys.writeFile p.text text.toUTF8 st₁ = (.ok (), st')

variable {sys : System (StateM σ)}

theorem ensure_run_eq_ok {p : Path} {above : FileFault → ExceptT WriteFailure (StateM σ) Unit} :
    (sys.ensure p above).run st = (.ok (), st') ↔
      sys.Makes p st st' ∨ ∃ fault st₁, sys.makeDirectory p.text st = (.error fault, st₁) ∧
        fault.isMissing = true ∧ (above fault).run st₁ = (.ok (), st') := by
  cases hm : sys.makeDirectory p.text st with
  | mk answer st₁ =>
    rw [ensure, lift_bind_run hm]
    cases answer with
    | ok =>
      constructor
      · intro h
        cases h
        exact .inl (.made hm)
      · rintro ((h | h) | ⟨_, _, h, _⟩)
        · cases hm.symm.trans h
          rfl
        · cases hm.symm.trans h
        · cases h
    | error fault =>
      dsimp only
      by_cases hf : fault.isMissing = true
      · rw [if_pos hf]
        constructor
        · intro h
          exact .inr ⟨fault, st₁, rfl, hf, h⟩
        · rintro ((h | ⟨h, hn⟩) | ⟨_, _, h, _, hr⟩)
          · cases hm.symm.trans h
          · cases hm.symm.trans h
            simp [hf] at hn
          · cases h
            exact hr
      · rw [if_neg hf, bind_run_eq_ok]
        simp only [ask_run_eq_ok]
        constructor
        · rintro ⟨there, st₂, hd, h⟩
          cases there with
          | true =>
            cases h
            exact .inl (.present hm (by simpa using hf) hd)
          | false => cases h
        · rintro ((h | ⟨h, -, hd⟩) | ⟨_, _, h, ht, -⟩)
          · cases hm.symm.trans h
          · cases hm.symm.trans h
            exact ⟨true, _, hd, rfl⟩
          · cases h
            exact absurd ht hf

theorem ensure_throw_run_eq_ok {p : Path} :
    (sys.ensure p fun fault => throw (.fault fault)).run st = (.ok (), st') ↔
      sys.Makes p st st' := by
  rw [ensure_run_eq_ok]
  constructor
  · rintro (h | ⟨_, _, _, _, h⟩)
    · exact h
    · cases h
  · exact .inl

theorem ensureAll_run_eq_ok {root : String} {names : List String} :
    (sys.ensureAll root names).run st = (.ok (), st') ↔ sys.MakesAll root names st st' := by
  induction names generalizing st st' with
  | nil =>
    rw [ensureAll, ensure_throw_run_eq_ok]
    constructor
    · intro h
      exact .single h
    · rintro ⟨h⟩
      exact h
  | cons name rest ih =>
    rw [ensureAll, ensure_run_eq_ok]
    constructor
    · rintro (h | ⟨fault, st₁, h, hf, hr⟩)
      · exact .single h
      · obtain ⟨u, st₂, hrest, hm⟩ := bind_run_eq_ok.mp hr
        exact .above h hf (ih.mp hrest) (ensure_throw_run_eq_ok.mp hm)
    · intro h
      cases h with
      | single h => exact .inl h
      | above h hf hr hm =>
        exact .inr ⟨_, _, h, hf,
          bind_run_eq_ok.mpr ⟨(), _, ih.mpr hr, ensure_throw_run_eq_ok.mpr hm⟩⟩

theorem save_run_eq_ok {p : Path} {text : String} :
    (sys.save p text).run st = (.ok (), st') ↔ sys.Saves p text st st' := by
  unfold save
  by_cases hparent : hasNull p.parent.text = true
  · rw [if_pos hparent]
    constructor
    · intro h
      cases h
    · rintro ⟨⟨-, hn⟩, -⟩
      simp [hparent] at hn
  · rw [if_neg hparent, bind_run_eq_ok]
    by_cases hself : hasNull p.text = true
    · simp only [if_pos hself]
      constructor
      · rintro ⟨u, st₁, -, h⟩
        cases h
      · rintro ⟨⟨hn, -⟩, -⟩
        simp [hself] at hn
    · simp only [if_neg hself, ask_run_eq_ok]
      constructor
      · rintro ⟨u, st₁, hm, hw⟩
        exact ⟨⟨by simpa using hself, by simpa using hparent⟩, st₁, ensureAll_run_eq_ok.mp hm, hw⟩
      · rintro ⟨-, st₁, hm, hw⟩
        exact ⟨(), st₁, ensureAll_run_eq_ok.mpr hm, hw⟩

end System

end ReadGuard
