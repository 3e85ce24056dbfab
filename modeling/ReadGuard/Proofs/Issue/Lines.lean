import ReadGuard.Proofs.Issue.Emission

namespace ReadGuard

def lineFeeds (s : String) : Nat := s.toList.count '\n'

def OneLine (s : String) : Prop := '\n' ∉ s.toList

instance : DecidablePred OneLine := fun s => inferInstanceAs (Decidable ('\n' ∉ s.toList))

theorem lineFeeds_append (s t : String) : lineFeeds (s ++ t) = lineFeeds s + lineFeeds t := by
  simp [lineFeeds]

theorem lineFeeds_eq_zero {s : String} : lineFeeds s = 0 ↔ OneLine s := List.count_eq_zero

@[simp] theorem oneLine_append {s t : String} : OneLine (s ++ t) ↔ OneLine s ∧ OneLine t := by
  simp [OneLine]

/-- A fixed text is looked at as a list of characters: to take its bytes apart is slow. -/
theorem OneLine.fixed {cs : List Char} (h : cs.contains '\n' = false) :
    OneLine (String.ofList cs) := by
  rw [OneLine, String.toList_ofList]
  simpa using h

theorem oneLine_intercalate {separator : String} {texts : List String} (hs : OneLine separator)
    (ht : ∀ s ∈ texts, OneLine s) : OneLine (separator.intercalate texts) := by
  induction texts with
  | nil => simp [OneLine]
  | cons s texts ih =>
    obtain ⟨hfirst, hrest⟩ := List.forall_mem_cons.1 ht
    cases texts with
    | nil => simpa using hfirst
    | cons t texts => simp [String.intercalate_cons_cons, hfirst, hs, ih hrest]

theorem digitChar_ne_lineFeed (n : Nat) : n.digitChar ≠ '\n' := by
  by_cases h : n < 16
  · revert n
    decide
  · have hne : ∀ k < 16, n ≠ k := fun k hk => by omega
    simp [Nat.digitChar, hne]

theorem lineFeed_not_mem_toDigits {base : Nat} (hb : 1 < base) (n : Nat) :
    '\n' ∉ base.toDigits n := by
  induction n using Nat.strongRecOn with
  | _ n ih =>
    rw [Nat.toDigits_eq_if hb]
    split
    · simp [(digitChar_ne_lineFeed n).symm]
    · rename_i hn
      have hlt : n / base < n := Nat.div_lt_self (by omega) hb
      simp [ih _ hlt, (digitChar_ne_lineFeed (n % base)).symm]

theorem oneLine_toString (n : Int) : OneLine (toString n) := by
  have hnat (k : Nat) : OneLine k.repr := by
    rw [OneLine, Nat.repr_eq_ofList_toDigits, String.toList_ofList]
    exact lineFeed_not_mem_toDigits (by decide) k
  rw [Int.toString_eq_repr, Int.repr_eq_if]
  split
  · exact hnat _
  · exact oneLine_append.2 ⟨.fixed rfl, hnat _⟩

namespace Text

theorem lineFeed_not_mem_escape (n : Nat) : '\n' ∉ '\\' :: 'u' :: hex 4 n := by
  simp [hex, lineFeed_not_mem_toDigits]

theorem lineFeed_not_mem_jsonChar (c : Char) : '\n' ∉ jsonChar c := by
  have either {p : Prop} [Decidable p] {xs ys : List Char} (hx : '\n' ∉ xs) (hy : '\n' ∉ ys) :
      '\n' ∉ if p then xs else ys := by
    split
    · exact hx
    · exact hy
  by_cases hc : c = '\n'
  · subst hc
    decide
  · unfold jsonChar
    iterate 7 apply either (by decide)
    refine either (by simp [Ne.symm hc]) (either (lineFeed_not_mem_escape _) fun h => ?_)
    exact (List.mem_append.1 h).elim (lineFeed_not_mem_escape _) (lineFeed_not_mem_escape _)

/-- JSON escapes line feeds. -/
theorem oneLine_json (s : String) : OneLine (json s) := by
  simp [OneLine, json, lineFeed_not_mem_jsonChar]

end Text

theorem Rule.oneLine_id (rule : Rule) : OneLine rule.id := by
  cases rule <;> decide

namespace Issue

theorem lineFeeds_text (i : Issue) :
    lineFeeds i.text = lineFeeds i.pos.file + lineFeeds i.message := by
  have hline := lineFeeds_eq_zero.2 (oneLine_toString i.pos.line)
  have hcolumn := lineFeeds_eq_zero.2 (oneLine_toString i.pos.column)
  have hid := lineFeeds_eq_zero.2 i.rule.oneLine_id
  have hfixed : lineFeeds ":" = 0 ∧ lineFeeds ": error: " = 0 ∧ lineFeeds " [" = 0 ∧
      lineFeeds "]" = 0 := by decide
  simp only [text, Position.text, lineFeeds_append, hline, hcolumn, hid, hfixed, Nat.add_zero]

theorem oneLine_json (i : Issue) : OneLine i.json := by
  have hpair (key : String) {value : String} (hv : OneLine value) :
      OneLine (Text.json key ++ ": " ++ value) := by
    simp only [oneLine_append]
    exact ⟨⟨Text.oneLine_json key, .fixed rfl⟩, hv⟩
  simp only [json, oneLine_append]
  refine ⟨⟨.fixed rfl, oneLine_intercalate (.fixed rfl) ?_⟩, .fixed rfl⟩
  simp only [List.forall_mem_cons]
  refine ⟨hpair _ (Text.oneLine_json _), hpair _ (oneLine_toString _), hpair _ (oneLine_toString _),
    hpair _ (Text.oneLine_json _), hpair _ (Text.oneLine_json _), hpair _ (Text.oneLine_json _),
    hpair _ (Text.oneLine_json _), hpair _ (Text.oneLine_json _), by simp⟩

def Plain (i : Issue) : Prop := OneLine i.pos.file ∧ OneLine i.message

end Issue

namespace Format

def breaks : Format → Issue → Nat
  | .text, i => lineFeeds i.pos.file + lineFeeds i.message
  | .json, _ => 0

theorem lineFeeds_line (format : Format) (i : Issue) :
    lineFeeds (format.line i) = format.breaks i := by
  cases format with
  | text => exact i.lineFeeds_text
  | json => exact lineFeeds_eq_zero.2 i.oneLine_json

theorem oneLine_line_iff {format : Format} {i : Issue} :
    OneLine (format.line i) ↔ format = .json ∨ i.Plain := by
  rw [← lineFeeds_eq_zero, lineFeeds_line]
  cases format with
  | text => simp [breaks, Issue.Plain, lineFeeds_eq_zero]
  | json => simp [breaks]

theorem lineFeeds_lines (format : Format) (issues : List Issue) :
    lineFeeds (format.lines issues) =
      issues.length + (issues.map format.breaks).foldr (· + ·) 0 := by
  induction issues with
  | nil => rfl
  | cons i issues ih =>
    have hend : lineFeeds "\n" = 1 := by decide
    rw [lines_cons, lineFeeds_append, lineFeeds_append, lineFeeds_line, hend, ih, List.length_cons,
      List.map_cons, List.foldr_cons]
    omega

theorem breaks_eq_zero_iff {format : Format} {issues : List Issue} :
    (issues.map format.breaks).foldr (· + ·) 0 = 0 ↔ ∀ i ∈ issues, OneLine (format.line i) := by
  induction issues with
  | nil => simp
  | cons i issues ih =>
    rw [List.map_cons, List.foldr_cons, List.forall_mem_cons, ← ih, ← lineFeeds_line,
      Nat.add_eq_zero_iff, lineFeeds_eq_zero]

theorem oneLine_lines_iff {format : Format} {issues : List Issue} :
    (format = .json ∨ ∀ i ∈ issues, i.Plain) ↔ ∀ i ∈ issues, OneLine (format.line i) := by
  simp only [oneLine_line_iff]
  cases format <;> simp

theorem toList_lines (format : Format) (issues : List Issue) :
    (format.lines issues).toList =
      ['\n'].intercalate ((issues.map fun i => (format.line i).toList) ++ [[]]) := by
  induction issues with
  | nil => rfl
  | cons i issues ih =>
    rw [lines_cons, String.toList_append, String.toList_append, ih, List.map_cons, List.cons_append,
      List.intercalate_cons_of_ne_nil (by simp)]
    rfl

theorem splitOn_lines (format : Format) {issues : List Issue}
    (h : ∀ i ∈ issues, OneLine (format.line i)) :
    (format.lines issues).toList.splitOn '\n' =
      (issues.map fun i => (format.line i).toList) ++ [[]] := by
  rw [toList_lines]
  apply List.splitOn_intercalate
  · simpa [OneLine, or_imp, forall_and] using h
  · simp

end Format

namespace Reporter

structure OneLineEach (r : Reporter) (issues : List Issue) : Prop where
  count : lineFeeds r.output = r.reported
  lines : r.output.toList.splitOn '\n' = (issues.map fun i => (r.format.line i).toList) ++ [[]]

variable (format : Format) (suppressed : List String) (issues : List Issue)

theorem lineFeeds_emitAll :
    lineFeeds (({ format, suppressed } : Reporter).emitAll issues).output =
      (({ format, suppressed } : Reporter).emitAll issues).reported +
        ((unsuppressed suppressed issues).map format.breaks).foldr (· + ·) 0 := by
  rw [(reports_emitAll _ issues).output, lineFeeds_append, reported_emitAll, Format.lineFeeds_lines]
  exact Nat.zero_add _

/-- Issues take one line each just if they are written as JSON, or if none of them has a line feed
in its file or its message. -/
theorem oneLineEach_emitAll_iff :
    (({ format, suppressed } : Reporter).emitAll issues).OneLineEach
        (unsuppressed suppressed issues) ↔
      format = .json ∨ ∀ i ∈ unsuppressed suppressed issues, i.Plain := by
  have hcount := lineFeeds_emitAll format suppressed issues
  have hreports := reports_emitAll { format, suppressed } issues
  rw [Format.oneLine_lines_iff, ← Format.breaks_eq_zero_iff]
  constructor
  · intro h
    have := h.count
    omega
  · intro h
    refine ⟨by omega, ?_⟩
    rw [hreports.format, hreports.output, String.empty_append]
    exact format.splitOn_lines (Format.breaks_eq_zero_iff.1 h)

end Reporter

end ReadGuard
