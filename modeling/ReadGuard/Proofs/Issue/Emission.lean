import ReadGuard.Issue.Reporter

namespace ReadGuard

def Format.lines (format : Format) (issues : List Issue) : String :=
  String.join (issues.map fun i => format.line i ++ "\n")

theorem Format.lines_cons (format : Format) (i : Issue) (issues : List Issue) :
    format.lines (i :: issues) = format.line i ++ "\n" ++ format.lines issues := by
  simp [lines, String.join_cons]

def Rule.occurrences (rule : Rule) (issues : List Issue) : Nat :=
  issues.countP fun i => i.rule.id == rule.id

namespace Rule

theorem id_injective {a b : Rule} (h : a.id = b.id) : a = b := by
  revert h
  cases a <;> cases b <;> decide

theorem occurrences_cons (rule : Rule) (i : Issue) (issues : List Issue) :
    rule.occurrences (i :: issues) =
      rule.occurrences issues + if rule = i.rule then 1 else 0 := by
  by_cases h : rule = i.rule
  · simp [occurrences, h]
  · have hid : (i.rule.id == rule.id) = false := beq_false_of_ne fun he => h (id_injective he).symm
    simp [occurrences, h, hid]

/-- One more occurrence of a rule is one more occurrence among all rules. -/
theorem foldr_all_add (a : Rule) (f : Rule → Nat) :
    (all.map fun rule => f rule + if rule = a then 1 else 0).foldr (· + ·) 0 =
      (all.map f).foldr (· + ·) 0 + 1 := by
  cases a <;> simp [all] <;> omega

theorem foldr_occurrences (issues : List Issue) :
    (all.map fun rule => rule.occurrences issues).foldr (· + ·) 0 = issues.length := by
  induction issues with
  | nil => rfl
  | cons i issues ih => simp only [occurrences_cons, foldr_all_add, ih, List.length_cons]

end Rule

theorem unsuppressed_cons (suppressed : List String) (i : Issue) (issues : List Issue) :
    unsuppressed suppressed (i :: issues) =
      if suppressed.contains i.rule.id then unsuppressed suppressed issues
      else i :: unsuppressed suppressed issues := by
  rw [unsuppressed, List.filter_cons]
  by_cases h : suppressed.contains i.rule.id = true
  · rw [if_pos h, h]
    rfl
  · rw [if_neg h, Bool.eq_false_iff.mpr h]
    rfl

namespace Reporter

structure Reports (r : Reporter) (issues : List Issue) (after : Reporter) : Prop where
  format : after.format = r.format
  suppressed : after.suppressed = r.suppressed
  output : after.output = r.output ++ r.format.lines (unsuppressed r.suppressed issues)
  counts : ∀ rule, after.counts rule =
    r.counts rule + rule.occurrences (unsuppressed r.suppressed issues)
  dropped : after.dropped + (unsuppressed r.suppressed issues).length = r.dropped + issues.length

variable {r : Reporter} {i : Issue} {issues : List Issue}

theorem reports_emit (r : Reporter) (i : Issue) : r.Reports [i] (r.emit i) := by
  by_cases h : r.suppressed.contains i.rule.id = true
  · have he : r.emit i = { r with dropped := r.dropped + 1 } := if_pos h
    have hk : unsuppressed r.suppressed [i] = [] := by rw [unsuppressed_cons, if_pos h]; rfl
    rw [he]
    refine ⟨rfl, rfl, ?_, ?_, ?_⟩ <;> simp [hk, Format.lines, Rule.occurrences]
  · have hk : unsuppressed r.suppressed [i] = [i] := by rw [unsuppressed_cons, if_neg h]; rfl
    have he : r.emit i = { r with
        output := r.output ++ r.format.line i ++ "\n"
        counts := fun rule => if rule = i.rule then r.counts rule + 1 else r.counts rule } :=
      if_neg h
    rw [he]
    refine ⟨rfl, rfl, ?_, ?_, ?_⟩
    · simp [hk, Format.lines, String.append_assoc]
    · intro rule
      rw [hk, Rule.occurrences_cons]
      by_cases hr : rule = i.rule <;> simp [hr, Rule.occurrences]
    · simp [hk]

theorem Reports.trans {r₁ r₂ : Reporter} {before later : List Issue} (h₁ : r.Reports before r₁)
    (h₂ : r₁.Reports later r₂) : r.Reports (before ++ later) r₂ := by
  have hk : unsuppressed r.suppressed (before ++ later) =
      unsuppressed r.suppressed before ++ unsuppressed r.suppressed later := List.filter_append ..
  obtain ⟨hf, hs, ho, hc, hd⟩ := h₂
  rw [h₁.format, h₁.suppressed, h₁.output] at ho
  rw [h₁.suppressed] at hc hd
  refine ⟨hf.trans h₁.format, hs.trans h₁.suppressed, ?_, ?_, ?_⟩
  · rw [ho, hk]
    simp [Format.lines, String.append_assoc]
  · intro rule
    rw [hc, h₁.counts, hk, Nat.add_assoc]
    simp [Rule.occurrences]
  · have hb := h₁.dropped
    rw [hk, List.length_append, List.length_append]
    omega

theorem reports_emitAll (r : Reporter) (issues : List Issue) :
    r.Reports issues (r.emitAll issues) := by
  induction issues generalizing r with
  | nil => exact ⟨rfl, rfl, by simp [emitAll, unsuppressed, Format.lines], fun _ => rfl, rfl⟩
  | cons i issues ih => exact (reports_emit r i).trans (ih (r.emit i))

theorem emittedCount_eq (r : Reporter) (issues : List Issue) :
    r.emittedCount issues = (unsuppressed r.suppressed issues).length := by
  induction issues generalizing r with
  | nil => rfl
  | cons i issues ih =>
    rw [emittedCount, ih, (reports_emit r i).suppressed, unsuppressed_cons, isSuppressed]
    split <;> simp [Nat.add_comm]

/-- From the start on, the number of issues written is the sum of the counts. -/
theorem reported_emitAll (format : Format) (suppressed : List String) (issues : List Issue) :
    (({ format, suppressed } : Reporter).emitAll issues).reported =
      (unsuppressed suppressed issues).length := by
  have h := reports_emitAll { format, suppressed } issues
  have hc : (({ format, suppressed } : Reporter).emitAll issues).counts =
      fun rule => rule.occurrences (unsuppressed suppressed issues) := by
    funext rule
    rw [h.counts]
    exact Nat.zero_add _
  rw [reported, hc, Rule.foldr_occurrences]

end Reporter

end ReadGuard
