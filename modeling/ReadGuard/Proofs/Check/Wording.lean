import ReadGuard.Check.Verdict
import ReadGuard.Proofs.Check.Effect
import ReadGuard.Proofs.Issue.Wording

namespace ReadGuard

/-- An issue found in the code of a function itself, and not about what it passes on or calls. -/
def Issue.Breach (i : Issue) : Prop :=
  i.Worded ∧ i.rule ≠ .pointerEscape ∧ i.rule ≠ .contaminatedCall

theorem Issue.breach_append (pos : Position) (rule : Rule) (rest : String)
    (h : rule ≠ .pointerEscape ∧ rule ≠ .contaminatedCall) :
    Breach ⟨pos, rule.opening ++ rest, rule⟩ :=
  ⟨worded_append pos rule rest, h⟩

namespace Watch

variable (w : Watch) (s : Aliases)

theorem written_breach (f : WriteForm) (pos : Position) (t : WriteTarget) :
    (w.written f pos t).Breach := by
  have hwords : f.words t.kind = (f.rule t.kind).opening := by cases f <;> cases t.kind <;> rfl
  unfold written
  rw [hwords]
  exact Issue.breach_append pos _ _ (by cases f <;> cases t.kind <;> decide)

theorem inAssign_breach {left : List Expr} {i : Issue} (h : i ∈ w.inAssign s left) :
    i.Breach := by
  obtain ⟨e, -, he⟩ := List.mem_filterMap.mp h
  obtain ⟨t, -, rfl⟩ := Option.map_eq_some_iff.mp he
  exact w.written_breach .assign e.pos t

theorem inIncDec_breach {x : Expr} {pos : Position} {i : Issue} (h : i ∈ w.inIncDec s x pos) :
    i.Breach := by
  obtain ⟨t, -, rfl⟩ := Option.map_eq_some_iff.mp (Option.mem_toList.mp h)
  exact w.written_breach .step pos t

theorem inLoopVariable_breach {op : String} {v : Expr} {i : Issue}
    (h : i ∈ w.inLoopVariable s op v) : i.Breach := by
  unfold inLoopVariable at h
  split at h
  · exact w.inAssign_breach s h
  · split at h
    · rw [List.mem_singleton.mp h]
      simp only [String.append_assoc]
      exact Issue.breach_append v.pos .loopBinding _ (by decide)
    · simp at h

theorem inRange_breach {key value : Option Expr} {op : String} {i : Issue}
    (h : i ∈ w.inRange s key value op) : i.Breach := by
  obtain ⟨v, -, hv⟩ := List.mem_flatMap.mp h
  exact w.inLoopVariable_breach s hv

theorem inBuiltinCall_breach {c : Call} {i : Issue} (h : i ∈ w.inBuiltinCall s c) :
    i.Breach := by
  unfold inBuiltinCall at h
  split at h
  · split at h
    · rw [List.mem_singleton.mp h]
      simp only [String.append_assoc]
      exact Issue.breach_append c.info.pos .builtinWrite _ (by decide)
    · simp at h
  · simp at h

theorem inMethodCall_breach {c : Call} {i : Issue} (h : i ∈ w.inMethodCall c) : i.Breach := by
  unfold inMethodCall at h
  split at h
  · split at h
    · split at h
      · rw [List.mem_singleton.mp h]
        simp only [String.append_assoc]
        exact Issue.breach_append c.info.pos .methodCall _ (by decide)
      · simp at h
    · simp at h
  · simp at h

end Watch

namespace Run

def escapeIssue (pos : Position) (source : Expr) (callee : String) : Issue :=
  ⟨pos, escapeMessage source callee, .pointerEscape⟩

def contaminatedIssue (w : Watch) (pos : Position) (callee : String) : Issue :=
  ⟨pos, contaminatedMessage w callee, .contaminatedCall⟩

theorem escapeIssue_worded (pos : Position) (source : Expr) (callee : String) :
    (escapeIssue pos source callee).Worded := by
  unfold escapeIssue escapeMessage
  simp only [String.append_assoc]
  exact Issue.worded_append pos .pointerEscape _

theorem contaminatedIssue_worded (w : Watch) (pos : Position) (callee : String) :
    (contaminatedIssue w pos callee).Worded := by
  unfold contaminatedIssue contaminatedMessage
  simp only [String.append_assoc]
  exact Issue.worded_append pos .contaminatedCall _

theorem contaminatedIssue_inj {w : Watch} {pos pos' : Position} {key key' : String}
    (h : contaminatedIssue w pos key = contaminatedIssue w pos' key') :
    pos = pos' ∧ key = key' := by
  unfold contaminatedIssue contaminatedMessage at h
  simp only [Issue.mk.injEq, String.append_left_inj, String.append_right_inj, and_true] at h
  exact h

end Run

namespace Effect

def Proper : Effect → Prop
  | .breach i => i.Breach
  | _ => True

theorem ofEvent_proper {w : Watch} {keyOf : Call → String} {s : Aliases} {event : Event}
    {e : Effect} (h : e ∈ ofEvent w keyOf s event) : e.Proper := by
  cases e with
  | breach i =>
    have hi := breach_mem_ofEvent.mp h
    cases event with
    | call c =>
      rcases List.mem_append.mp hi with hi | hi
      · exact w.inMethodCall_breach hi
      · exact w.inBuiltinCall_breach s hi
    | assign left op right => exact w.inAssign_breach s hi
    | incDec x pos => exact w.inIncDec_breach s hi
    | declare names values => simp [Event.breaches] at hi
    | range key value op => exact w.inRange_breach s hi
  | _ => trivial

theorem ofEvents_proper {w : Watch} {keyOf : Call → String} {s : Aliases} {events : List Event}
    {e : Effect} (h : e ∈ ofEvents w keyOf s events) : e.Proper := by
  induction events generalizing s with
  | nil => simp [ofEvents] at h
  | cons event events ih =>
    rcases List.mem_append.mp h with h | h
    · exact ofEvent_proper h
    · exact ih h

end Effect

end ReadGuard
