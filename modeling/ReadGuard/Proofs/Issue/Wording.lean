import ReadGuard.Issue.Basic

namespace ReadGuard

namespace Rule

def opening : Rule → String
  | .fieldAssign => "direct assignment to field "
  | .pointerAssign => "pointer-mediated assignment to protected field "
  | .indexedWrite => "indexed write "
  | .fieldIncDec => "increment/decrement of field "
  | .pointerIncDec => "pointer-mediated increment/decrement of protected field "
  | .builtinWrite => "builtin "
  | .loopBinding => "range loop variable "
  | .methodCall => "calling method "
  | .pointerEscape => "passing pointer to protected field "
  | .contaminatedCall => "calling function "

/-- As many letters of the opening as tell the rule. -/
def letters : Rule → List Char
  | .fieldAssign => ['d']
  | .pointerAssign =>
    ['p', 'o', 'i', 'n', 't', 'e', 'r', '-', 'm', 'e', 'd', 'i', 'a', 't', 'e', 'd', ' ', 'a']
  | .indexedWrite => ['i', 'n', 'd']
  | .fieldIncDec => ['i', 'n', 'c']
  | .pointerIncDec =>
    ['p', 'o', 'i', 'n', 't', 'e', 'r', '-', 'm', 'e', 'd', 'i', 'a', 't', 'e', 'd', ' ', 'i']
  | .builtinWrite => ['b']
  | .loopBinding => ['r']
  | .methodCall => ['c', 'a', 'l', 'l', 'i', 'n', 'g', ' ', 'm']
  | .pointerEscape => ['p', 'a']
  | .contaminatedCall => ['c', 'a', 'l', 'l', 'i', 'n', 'g', ' ', 'f']

theorem letters_isPrefix_opening (r : Rule) : r.letters <+: r.opening.toList := by
  cases r <;> decide

theorem eq_of_letters_isPrefix {a b : Rule} (h : a.letters <+: b.letters) : a = b := by
  cases a <;> cases b <;> first | rfl | (revert h; decide)

/-- No two rules have openings that start the same text. -/
theorem eq_of_opening_isPrefix {a b : Rule} {text : List Char} (ha : a.opening.toList <+: text)
    (hb : b.opening.toList <+: text) : a = b := by
  have hla := (letters_isPrefix_opening a).trans ha
  have hlb := (letters_isPrefix_opening b).trans hb
  rcases List.prefix_or_prefix_of_prefix hla hlb with h | h
  · exact eq_of_letters_isPrefix h
  · exact (eq_of_letters_isPrefix h).symm

end Rule

def Issue.Worded (i : Issue) : Prop := i.rule.opening.toList <+: i.message.toList

namespace Issue

theorem worded_append (pos : Position) (rule : Rule) (rest : String) :
    Worded ⟨pos, rule.opening ++ rest, rule⟩ := by
  simp [Worded, String.toList_append]

theorem Worded.eq_of_same {i j : Issue} (hi : i.Worded) (hj : j.Worded) (h : i.same j = true) :
    i = j := by
  simp only [same, Bool.and_eq_true, decide_eq_true_eq, beq_iff_eq] at h
  have hr : i.rule = j.rule := by
    unfold Worded at hi
    rw [h.2] at hi
    exact Rule.eq_of_opening_isPrefix hi hj
  cases i
  cases j
  simp_all

end Issue

namespace IssueSet

def Worded (s : IssueSet) : Prop := ∀ i ∈ s.issues, i.Worded

variable {s : IssueSet} {i j : Issue}

theorem contains_of_mem (h : i ∈ s.issues) : s.contains i = true := by
  simp only [contains, List.any_eq_true]
  exact ⟨i, h, by simp [Issue.same]⟩

theorem add_of_mem (h : i ∈ s.issues) : s.add i = s := by
  rw [add, if_pos (contains_of_mem h)]

theorem mem_add_of_mem (h : j ∈ s.issues) : j ∈ (s.add i).issues := by
  unfold add
  split
  · exact h
  · exact List.mem_append_left _ h

/-- Among worded issues, no issue is taken for another one. -/
theorem Worded.mem_add (hs : s.Worded) (hi : i.Worded) :
    j ∈ (s.add i).issues ↔ j ∈ s.issues ∨ j = i := by
  unfold add
  split
  case isTrue hc =>
    obtain ⟨k, hk, hsame⟩ := List.any_eq_true.mp hc
    have he : i = k := hi.eq_of_same (hs k hk) hsame
    constructor
    · exact .inl
    · rintro (h | rfl)
      · exact h
      · exact he ▸ hk
  case isFalse hc => simp

theorem Worded.add (hs : s.Worded) (hi : i.Worded) : (s.add i).Worded := by
  intro j hj
  rcases (hs.mem_add hi).mp hj with hj | rfl
  · exact hs j hj
  · exact hi

end IssueSet

end ReadGuard
