import ReadGuard.Policy.Sources

namespace ReadGuard

inductive PolicyName
  | reader
  | data
  | type
deriving DecidableEq

namespace PolicyName

def of (p : Policy) : PolicyName → String
  | .reader => p.reader
  | .data => p.data
  | .type => p.typeName

def given (o : Overrides) : PolicyName → Option Given
  | .reader => o.reader
  | .data => o.data
  | .type => o.typeName

def variableName : PolicyName → String
  | .reader => "RWSEP_READER"
  | .data => "RWSEP_DATA"
  | .type => "RWSEP_STRUCT"

end PolicyName

def Sexp.word? : Sexp → Option String
  | .str s => some s
  | .sym s => some s
  | _ => none

inductive PolicySetting
  | name (n : PolicyName) (value : String)
  | writer (value : String)
  | strict (on : Bool)
  | suppress (rules : List String)

namespace PolicySetting

def flag? (word : String) : Option Bool :=
  if word ∈ ["t", "true", "yes", "1"] then some true
  else if word ∈ ["nil", "false", "no", "0"] then some false
  else none

def oneWord? : List Sexp → Option String
  | [value] => value.word?
  | _ => none

/-- The setting of an entry that is in order. A flag may be left out, and nothing after it counts. -/
def ofForm? : Sexp → Option PolicySetting
  | .list (.sym "reader" :: values) => (oneWord? values).map (.name .reader)
  | .list (.sym "data" :: values) => (oneWord? values).map (.name .data)
  | .list (.sym "struct" :: values) => (oneWord? values).map (.name .type)
  | .list (.sym "writer" :: values) => (oneWord? values).map .writer
  | .list [.sym "strict"] => some (.strict true)
  | .list (.sym "strict" :: value :: _) =>
    (value.word?.bind fun word => flag? (Text.lower word)).map .strict
  | .list (.sym "suppress" :: values) => (values.mapM Sexp.word?).map .suppress
  | _ => none

def ofText? (text : String) : Option (List PolicySetting) :=
  match Sexp.read text with
  | .ok (.list (.sym "rwsep" :: entries)) => entries.mapM ofForm?
  | _ => none

def name? (n : PolicyName) : PolicySetting → Option String
  | .name m value => if m = n then some value else none
  | _ => none

def writer? : PolicySetting → Option String
  | .writer value => some value
  | _ => none

def strict? : PolicySetting → Option Bool
  | .strict on => some on
  | _ => none

def suppressed? : PolicySetting → Option (List String)
  | .suppress rules => some rules
  | _ => none

def last {α : Type} (pick : PolicySetting → Option α) (settings : List PolicySetting) : Option α :=
  (settings.filterMap pick).getLast?

end PolicySetting

def Overrides.put (o : Overrides) : PolicySetting → Overrides
  | .name .reader value => { o with reader := some (.text value) }
  | .name .data value => { o with data := some (.text value) }
  | .name .type value => { o with typeName := some (.text value) }
  | .writer value => { o with writer := some value }
  | .strict on => { o with strict := some on }
  | .suppress rules => { o with suppressed := some rules }

section Except

variable {ε α β : Type}

theorem toOption_bind (x : Except ε α) (f : α → Except ε β) :
    (x >>= f).toOption = x.toOption.bind fun a => (f a).toOption := by
  cases x <;> rfl

theorem toOption_mapM (f : α → Except ε β) (xs : List α) :
    (xs.mapM f).toOption = xs.mapM fun x => (f x).toOption := by
  induction xs with
  | nil => rfl
  | cons x xs ih =>
    rw [List.mapM_cons, List.mapM_cons, toOption_bind]
    simp only [toOption_bind, ih]
    rfl

end Except

namespace Policy

open PolicySetting

variable (file key : String)

theorem settingText_toOption (value : Sexp) :
    (settingText file key value).toOption = value.word? := by
  cases value <;> rfl

theorem settingFlag_toOption (value : Sexp) : (settingFlag file key value).toOption =
    value.word?.bind fun word => flag? (Text.lower word) := by
  rw [settingFlag, toOption_bind, settingText_toOption]
  congr 1
  funext word
  simp only [flag?, List.contains_iff_mem]
  by_cases hon : Text.lower word ∈ ["t", "true", "yes", "1"]
  · rw [if_pos hon, if_pos hon]
    rfl
  · rw [if_neg hon, if_neg hon]
    by_cases hoff : Text.lower word ∈ ["nil", "false", "no", "0"]
    · rw [if_pos hoff, if_pos hoff]
      rfl
    · rw [if_neg hoff, if_neg hoff]
      rfl

theorem settingName_toOption (values : List Sexp) :
    (settingName file key values).toOption = oneWord? values := by
  rcases values with _ | ⟨value, _ | ⟨_, _⟩⟩
  · rfl
  · exact settingText_toOption file key value
  · rfl

/-- An entry is taken over if and only if it is in order. -/
theorem addEntry_toOption (o : Overrides) (entry : Sexp) :
    (addEntry file o entry).toOption = (ofForm? entry).map o.put := by
  unfold addEntry
  split
  case h_1 key values =>
    split
    case h_1 | h_2 | h_3 | h_4 =>
      rw [toOption_bind, settingName_toOption]
      change _ = ((oneWord? values).map _).map o.put
      cases oneWord? values <;> rfl
    case h_5 =>
      cases values with
      | nil => rfl
      | cons value rest =>
        change Except.toOption (_ >>= _) = Option.map o.put (Option.map _ _)
        rw [toOption_bind, settingFlag_toOption]
        cases value.word?.bind fun word => flag? (Text.lower word) <;> rfl
    case h_6 =>
      rw [toOption_bind, toOption_mapM]
      simp only [settingText_toOption]
      change _ = ((values.mapM Sexp.word?).map _).map o.put
      cases values.mapM Sexp.word? <;> rfl
    case h_7 =>
      unfold ofForm?
      split <;> simp_all [Except.toOption]
  case h_2 h =>
    have hnone : ofForm? entry = none := by
      cases entry with
      | list items =>
        cases items with
        | nil => rfl
        | cons head values =>
          cases head with
          | sym key => exact absurd rfl (h key values)
          | _ => rfl
      | _ => rfl
    rw [hnone]
    rfl

theorem foldlM_addEntry_toOption (o : Overrides) (entries : List Sexp) :
    (entries.foldlM (addEntry file) o).toOption =
      (entries.mapM ofForm?).map fun settings => settings.foldl Overrides.put o := by
  induction entries generalizing o with
  | nil => rfl
  | cons entry entries ih =>
    rw [List.foldlM_cons, List.mapM_cons, toOption_bind, addEntry_toOption]
    cases ofForm? entry with
    | none => rfl
    | some setting =>
      simp only [Option.map_some, Option.bind_some, Option.bind_eq_bind, ih]
      cases entries.mapM ofForm? <;> rfl

/-- The settings of a file are collected if and only if its text is a policy. -/
theorem entriesOf_toOption (text : String) : (entriesOf file text).toOption =
    (ofText? text).map fun settings => settings.foldl Overrides.put {} := by
  unfold entriesOf ofText?
  cases Sexp.read text with
  | error cause => rfl
  | ok raw =>
    split
    case h_1 => contradiction
    case h_2 entries he =>
      cases he
      exact foldlM_addEntry_toOption file {} entries
    case h_3 raw hne he =>
      cases he
      split
      case h_1 entries he' =>
        cases he'
        exact absurd rfl (hne entries)
      case h_2 => rfl

theorem entriesOf_cases (text : String) :
    (∃ settings, ofText? text = some settings ∧
      entriesOf file text = .ok (settings.foldl Overrides.put {})) ∨
    (ofText? text = none ∧ ∃ e, entriesOf file text = .error e) := by
  have h := entriesOf_toOption file text
  cases he : entriesOf file text with
  | ok o =>
    rw [he, eq_comm, Except.toOption, Option.map_eq_some_iff] at h
    obtain ⟨settings, hs, rfl⟩ := h
    exact .inl ⟨settings, hs, rfl⟩
  | error e =>
    rw [he, eq_comm, Except.toOption, Option.map_eq_none_iff] at h
    exact .inr ⟨h, e, rfl⟩

end Policy

namespace PolicySetting

theorem last_cons {α : Type} (pick : PolicySetting → Option α) (x : PolicySetting)
    (settings : List PolicySetting) :
    last pick (x :: settings) = (last pick settings).or (pick x) := by
  unfold last
  cases hx : pick x with
  | none => rw [List.filterMap_cons_none hx, Option.or_none]
  | some a =>
    rw [List.filterMap_cons_some hx, List.getLast?_cons]
    cases (settings.filterMap pick).getLast? <;> rfl

/-- Of several settings of a kind the last one counts. -/
theorem foldl_put {α : Type} (part : Overrides → Option α) (pick : PolicySetting → Option α)
    (h : ∀ o x, part (o.put x) = (pick x).or (part o)) (settings : List PolicySetting)
    (o : Overrides) : part (settings.foldl Overrides.put o) = (last pick settings).or (part o) := by
  induction settings generalizing o with
  | nil => rfl
  | cons x settings ih => rw [List.foldl_cons, ih, h, last_cons, Option.or_assoc]

variable (settings : List PolicySetting)

theorem given_foldl_put (n : PolicyName) :
    n.given (settings.foldl Overrides.put {}) = (last (name? n) settings).map .text := by
  have hput : ∀ (o : Overrides) (x : PolicySetting),
      n.given (o.put x) = ((x.name? n).map .text).or (n.given o) := by
    intro o x
    cases x with
    | name m value => cases n <;> cases m <;> rfl
    | _ => rfl
  have hnone : n.given {} = none := by cases n <;> rfl
  rw [foldl_put (fun o => n.given o) _ hput, hnone, Option.or_none, last, last,
    ← List.map_filterMap, List.getLast?_map]

theorem foldl_put_others :
    (settings.foldl Overrides.put {}).writer = last writer? settings ∧
      (settings.foldl Overrides.put {}).strict = last strict? settings ∧
      (settings.foldl Overrides.put {}).suppressed = last suppressed? settings := by
  have hput : ∀ (o : Overrides) (x : PolicySetting),
      (o.put x).writer = x.writer?.or o.writer ∧ (o.put x).strict = x.strict?.or o.strict ∧
        (o.put x).suppressed = x.suppressed?.or o.suppressed := by
    intro o x
    cases x with
    | name n value => cases n <;> exact ⟨rfl, rfl, rfl⟩
    | _ => exact ⟨rfl, rfl, rfl⟩
  have hwriter := foldl_put Overrides.writer writer? (fun o x => (hput o x).1) settings {}
  have hstrict := foldl_put Overrides.strict strict? (fun o x => (hput o x).2.1) settings {}
  have hsuppressed :=
    foldl_put Overrides.suppressed suppressed? (fun o x => (hput o x).2.2) settings {}
  rw [Option.or_none] at hwriter hstrict hsuppressed
  exact ⟨hwriter, hstrict, hsuppressed⟩

end PolicySetting

end ReadGuard
