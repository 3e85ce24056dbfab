import ReadGuard.Proofs.Ty.Rule

namespace ReadGuard.Ty.Grammar

open Ty.Rule

def isStop (c : Char) : Bool :=
  c = ']' || c = ';' || c = '\x7d' || c = ',' || c = ')'

def Stops (cs : List Char) : Prop := ∀ c ∈ cs.head?, isStop c = true

/-- A text that can go on with a name before it, but not with a keyword. -/
def Sealed (cs : List Char) : Prop := ∀ c ∈ cs.head?, isNameChar c = true ∨ isStop c = true

section Characters

variable {c : Char} {cs ds rest : List Char}

theorem stop_cases (h : isStop c = true) :
    c = ']' ∨ c = ';' ∨ c = '\x7d' ∨ c = ',' ∨ c = ')' := by
  simpa [isStop, or_assoc] using h

theorem not_nameChar_of_stop (h : isStop c = true) : isNameChar c = false := by
  obtain rfl | rfl | rfl | rfl | rfl := stop_cases h <;> rfl

theorem nameChar_of_identChar (h : isIdentChar c = true) : isNameChar c = true := by
  simp [isNameChar, h]

theorem not_nameStart_of_stop (h : isStop c = true) : isNameStart c = false := by
  obtain rfl | rfl | rfl | rfl | rfl := stop_cases h <;> rfl

theorem not_identChar_of_stop (h : isStop c = true) : isIdentChar c = false := by
  obtain rfl | rfl | rfl | rfl | rfl := stop_cases h <;> rfl

theorem identChar_of_nameStart (h : isNameStart c = true) : isIdentChar c = true := by
  simp only [isNameStart, isIdentChar, Char.isAlphanum, Bool.or_eq_true] at h ⊢
  exact h.imp_left .inl

theorem toNat_of_nameChar (h : isNameChar c = true) : 45 ≤ c.toNat ∧ c.toNat ≤ 122 := by
  simp only [isNameChar, isIdentChar, Bool.or_eq_true, decide_eq_true_eq] at h
  obtain (((h | rfl) | rfl) | rfl) | rfl := h
  · have hrange : ((decide ('A'.val ≤ c.val ∧ c.val ≤ 'Z'.val) ||
        (decide ('a'.val ≤ c.val) && decide (c.val ≤ 'z'.val))) ||
          (decide ('0'.val ≤ c.val) && decide (c.val ≤ '9'.val))) = true := h
    simp [UInt32.le_iff_toNat_le] at hrange
    omega
  all_goals decide

theorem not_margin_of_nameChar (h : isNameChar c = true) : Text.isMargin c = false := by
  have hb := toNat_of_nameChar h
  simp only [Text.isMargin, Text.isBlank, Text.Ranges.holds, Text.blankRanges, List.any_cons,
    List.any_nil, Bool.or_eq_false_iff, Bool.and_eq_false_iff, decide_eq_false_iff_not, and_true]
  omega

theorem not_blank_of_not_margin (h : Text.isMargin c = false) : Text.isBlank c = false := by
  simp only [Text.isMargin, Bool.or_eq_false_iff] at h
  exact h.1

theorem not_blank_of_identChar (h : isIdentChar c = true) : Text.isBlank c = false :=
  not_blank_of_not_margin (not_margin_of_nameChar (nameChar_of_identChar h))

theorem not_blank_of_nameStart (h : isNameStart c = true) : Text.isBlank c = false :=
  not_blank_of_identChar (identChar_of_nameStart h)

theorem not_blank_of_digit (h : c.isDigit = true) : Text.isBlank c = false :=
  not_blank_of_identChar (by simp [isIdentChar, Char.isAlphanum, h])

theorem Sealed.bare (h : Sealed cs) : Bare cs := by
  intro c hc
  obtain hn | hs := h c hc
  · exact not_blank_of_not_margin (not_margin_of_nameChar hn)
  · obtain rfl | rfl | rfl | rfl | rfl := stop_cases hs <;> rfl

theorem Stops.sealed (h : Stops cs) : Sealed cs := fun c hc => .inr (h c hc)

theorem Stops.bare (h : Stops cs) : Bare cs := h.sealed.bare

theorem Sealed.head_ne (h : Sealed cs) (hn : isNameChar c = false) (hs : isStop c = false) :
    cs.head? ≠ some c := by
  intro hc
  obtain h' | h' := h c hc
  · rw [hn] at h'
    cases h'
  · rw [hs] at h'
    cases h'

theorem Stops.head_ne (h : Stops cs) (hs : isStop c = false) : cs.head? ≠ some c := by
  intro hc
  rw [h c hc] at hs
  cases hs

theorem bare_cons (hc : Text.isBlank c = false) : Bare (c :: cs) := by
  intro d hd
  cases hd
  exact hc

theorem stops_cons (hc : isStop c = true) : Stops (c :: cs) := by
  intro d hd
  cases hd
  exact hc

theorem sealed_append (hds : ∀ d ∈ ds, isNameChar d = true) (hr : Stops rest) :
    Sealed (ds ++ rest) := by
  cases ds with
  | nil => exact hr.sealed
  | cons d ds =>
    intro c hc
    cases hc
    exact .inl (hds d List.mem_cons_self)

theorem sealed_dropWhile (p : Char → Bool) (hds : ∀ d ∈ ds, isNameChar d = true)
    (hr : Stops rest) (hp : ∀ c, isStop c = true → p c = false) :
    Sealed ((ds ++ rest).dropWhile p) := by
  induction ds with
  | nil =>
    cases rest with
    | nil => exact hr.sealed
    | cons c rest =>
      rw [List.nil_append, List.dropWhile_cons, if_neg (by simp [hp c (hr c rfl)])]
      exact hr.sealed
  | cons d ds ih =>
    by_cases hd : p d = true
    · rw [List.cons_append, List.dropWhile_cons, if_pos hd]
      exact ih fun e he => hds e (List.mem_cons_of_mem _ he)
    · rw [List.cons_append, List.dropWhile_cons, if_neg hd]
      have hs : Sealed (d :: ds ++ rest) := sealed_append hds hr
      exact hs

end Characters

section Openings

variable {type : Rule Ty} {cs : List Char}

theorem literal_none {c : Char} {w : List Char} (h : cs.head? ≠ some c) :
    literal (c :: w) cs = none := by
  apply literal_of_not
  rintro ⟨rest, rfl⟩
  exact h rfl

theorem mark_none {text : String} {c : Char} {w : List Char} (ht : text.toList = c :: w)
    (h : cs.head? ≠ some c) : mark text cs = none := by
  apply andThen_of_none
  rw [ht]
  exact literal_none h

theorem pointer_none (h : cs.head? ≠ some '*') : pointer type cs = none :=
  andThen_of_none (mark_none rfl h) _

theorem slice_none (h : cs.head? ≠ some '[') : slice type cs = none :=
  andThen_of_none (mark_none rfl h) _

theorem array_none (h : cs.head? ≠ some '[') : array type cs = none :=
  andThen_of_none (mark_none rfl h) _

theorem map_none (h : cs.head? ≠ some 'm') : map type cs = none :=
  andThen_of_none (mark_none rfl h) _

theorem chan_none (h : cs.head? ≠ some 'c') (h' : cs.head? ≠ some '<') : chan type cs = none := by
  have h₁ : literal "chan<-".toList cs = none := literal_none h
  have h₂ : literal "<-chan".toList cs = none := literal_none h'
  have h₃ : literal "chan".toList cs = none := literal_none h
  apply andThen_of_none
  rw [orElse_of_none ((orElse_of_none h₁).trans h₂), h₃]

theorem struct_none (h : cs.head? ≠ some 's') : struct type cs = none :=
  andThen_of_none (mark_none rfl h) _

theorem func_none (h : cs.head? ≠ some 'f') : func type cs = none :=
  andThen_of_none (mark_none rfl h) _

theorem interface_none (h : cs.head? ≠ some 'i') : interface cs = none :=
  andThen_of_none (mark_none rfl h) _

theorem untyped_none (h : cs.head? ≠ some 'u') : untyped cs = none :=
  andThen_of_none (literal_none h) _

theorem named_none (h : ∀ c ∈ cs.head?, isNameStart c = false) : named cs = none :=
  andThen_of_none (word_of_not h) _

theorem ident_none (h : ∀ c ∈ cs.head?, isNameStart c = false) : ident cs = none :=
  andThen_of_none (word_of_not h) _

theorem tuple_none (h : cs.head? ≠ some '(') : tuple type cs = none :=
  andThen_of_none (mark_none rfl h) _

theorem variadic_none (h : cs.head? ≠ some '.') : variadic type cs = none :=
  andThen_of_none (mark_none rfl h) _

theorem param_none (htype : ∀ cs, Stops cs → type cs = none) (h : Stops cs) :
    param type cs = none := by
  have hident : ident cs = none := ident_none fun c hc => not_nameStart_of_stop (h c hc)
  have hnamed : namedParam type cs = none := andThen_of_none hident _
  have hvariadic : variadic type cs = none := variadic_none (h.head_ne rfl)
  rw [param, orElse_of_none ((orElse_of_none hnamed).trans hvariadic)]
  exact htype cs h

theorem field_none (htype : ∀ cs, Stops cs → type cs = none) (h : Stops cs) :
    field type cs = none := by
  have hident : ident cs = none := ident_none fun c hc => not_nameStart_of_stop (h c hc)
  have hnamed : namedField type cs = none := andThen_of_none hident _
  rw [field, orElse_of_none hnamed]
  exact andThen_of_none (padded_of_none (htype cs h)) _

end Openings

section Choice

variable {type : Rule Ty} {cs : List Char} {c : Char} {r : Ty × List Char}

theorem head_ne (hc : cs.head? = some c) {d : Char} (hd : c ≠ d) : cs.head? ≠ some d := by
  rw [hc]
  simpa using hd

theorem choose_none (h : Stops cs) : alternatives type cs = none := by
  have hnamed : named cs = none := named_none fun c hc => not_nameStart_of_stop (h c hc)
  simp only [alternatives, orElse, pointer_none (h.head_ne rfl), slice_none (h.head_ne rfl),
    array_none (h.head_ne rfl), map_none (h.head_ne rfl), chan_none (h.head_ne rfl) (h.head_ne rfl),
    struct_none (h.head_ne rfl), func_none (h.head_ne rfl), interface_none (h.head_ne rfl),
    untyped_none (h.head_ne rfl), hnamed]

theorem choose_pointer (h : pointer type cs = some r) : alternatives type cs = some r := by
  simp only [alternatives, orElse, h]

theorem choose_slice (hc : cs.head? = some '[') (h : slice type cs = some r) :
    alternatives type cs = some r := by
  simp only [alternatives, orElse, pointer_none (head_ne hc (by decide)), h]

theorem choose_array (hc : cs.head? = some '[') (hs : slice type cs = none)
    (h : array type cs = some r) : alternatives type cs = some r := by
  simp only [alternatives, orElse, pointer_none (head_ne hc (by decide)), hs, h]

theorem choose_map (hc : cs.head? = some 'm') (h : map type cs = some r) :
    alternatives type cs = some r := by
  simp only [alternatives, orElse, pointer_none (head_ne hc (by decide)),
    slice_none (head_ne hc (by decide)), array_none (head_ne hc (by decide)), h]

theorem choose_chan (hc : cs.head? = some 'c') (h : chan type cs = some r) :
    alternatives type cs = some r := by
  simp only [alternatives, orElse, pointer_none (head_ne hc (by decide)),
    slice_none (head_ne hc (by decide)), array_none (head_ne hc (by decide)),
    map_none (head_ne hc (by decide)), h]

theorem choose_struct (hc : cs.head? = some 's') (h : struct type cs = some r) :
    alternatives type cs = some r := by
  simp only [alternatives, orElse, pointer_none (head_ne hc (by decide)),
    slice_none (head_ne hc (by decide)), array_none (head_ne hc (by decide)),
    map_none (head_ne hc (by decide)),
    chan_none (head_ne hc (by decide)) (head_ne hc (by decide)), h]

theorem choose_func (hc : cs.head? = some 'f') (h : func type cs = some r) :
    alternatives type cs = some r := by
  simp only [alternatives, orElse, pointer_none (head_ne hc (by decide)),
    slice_none (head_ne hc (by decide)), array_none (head_ne hc (by decide)),
    map_none (head_ne hc (by decide)),
    chan_none (head_ne hc (by decide)) (head_ne hc (by decide)),
    struct_none (head_ne hc (by decide)), h]

theorem choose_interface (hc : cs.head? = some 'i') (h : interface cs = some r) :
    alternatives type cs = some r := by
  simp only [alternatives, orElse, pointer_none (head_ne hc (by decide)),
    slice_none (head_ne hc (by decide)), array_none (head_ne hc (by decide)),
    map_none (head_ne hc (by decide)),
    chan_none (head_ne hc (by decide)) (head_ne hc (by decide)),
    struct_none (head_ne hc (by decide)), func_none (head_ne hc (by decide)), h]

theorem choose_untyped (hc : cs.head? = some 'u') (h : untyped cs = some r) :
    alternatives type cs = some r := by
  simp only [alternatives, orElse, pointer_none (head_ne hc (by decide)),
    slice_none (head_ne hc (by decide)), array_none (head_ne hc (by decide)),
    map_none (head_ne hc (by decide)),
    chan_none (head_ne hc (by decide)) (head_ne hc (by decide)),
    struct_none (head_ne hc (by decide)), func_none (head_ne hc (by decide)),
    interface_none (head_ne hc (by decide)), h]

end Choice

section Names

variable {type : Rule Ty} {w rest : List Char}

theorem literal_seals {keyword : List Char} (hk : keyword.any isStop = false)
    (hw : ∀ c ∈ w, isNameChar c = true) (hr : Stops rest) {u : Unit} {cs : List Char}
    (h : literal keyword (w ++ rest) = some (u, cs)) : Sealed cs := by
  induction keyword generalizing w with
  | nil =>
    have hcs : w ++ rest = cs := by simpa [literal] using h
    rw [← hcs]
    exact sealed_append hw hr
  | cons k keyword ih =>
    rw [List.any_cons, Bool.or_eq_false_iff] at hk
    have hstart : (w ++ rest).head? = some k := by
      cases hcs : w ++ rest with
      | nil => simp [hcs, literal] at h
      | cons c ds =>
        by_cases hc : k = c
        · rw [hc, List.head?_cons]
        · simp [hcs, literal, hc] at h
    cases w with
    | nil =>
      have hstop := hr k (by simpa using hstart)
      rw [hk.1] at hstop
      cases hstop
    | cons c w =>
      have hc : c = k := by simpa using hstart
      apply ih hk.2 fun d hd => hw d (List.mem_cons_of_mem _ hd)
      simpa [literal, hc] using h

theorem mark_seals {text : String} (hk : text.toList.any isStop = false)
    (hw : ∀ c ∈ w, isNameChar c = true) (hr : Stops rest) {u : Unit} {cs : List Char}
    (h : mark text (w ++ rest) = some (u, cs)) : Sealed cs := by
  cases hl : literal text.toList (w ++ rest) with
  | none => simp [mark, andThen, hl] at h
  | some r =>
    have hs : Sealed r.2 := literal_seals hk hw hr hl
    rw [mark, andThen_of_some hl, blanks_of_bare hs.bare] at h
    cases h
    exact hs

theorem none_of_seals {β : Type} {p : Rule Unit} {next : Unit → Rule β} {cs : List Char}
    (hp : ∀ u ds, p cs = some (u, ds) → Sealed ds) (hnext : ∀ ds, Sealed ds → next () ds = none) :
    andThen p next cs = none := by
  cases h : p cs with
  | none => exact andThen_of_none h next
  | some r =>
    rw [andThen_of_some h]
    exact hnext r.2 (hp () r.2 h)

theorem ident_append (hw : IsWord isNameStart isIdentChar w)
    (hr : ∀ d ∈ rest.head?, isIdentChar d = false) :
    ident (w ++ rest) = some (String.ofList w, rest) := by
  rw [ident, andThen_of_some (word_append hw hr)]
  rfl

theorem ident_cases (cs : List Char) :
    ident cs = none ∨ ∃ name, ident cs = some (name, cs.dropWhile isIdentChar) := by
  cases cs with
  | nil => exact .inl rfl
  | cons c cs =>
    by_cases hc : isNameStart c = true
    · right
      have hdrop : (c :: cs).dropWhile isIdentChar = cs.dropWhile isIdentChar := by
        rw [List.dropWhile_cons, if_pos (identChar_of_nameStart hc)]
      exact ⟨_, by simp [ident, andThen, word, hc, yield, hdrop]; rfl⟩
    · left
      apply ident_none
      rintro d ⟨⟩
      simpa using hc

variable (hw : IsWord isNameStart isNameChar w) (hr : Stops rest)

include hw in
theorem nameChars : ∀ c ∈ w, isNameChar c = true := by
  obtain ⟨c, ds, rfl, hc, hds⟩ := hw
  exact List.forall_mem_cons.mpr ⟨nameChar_of_identChar (identChar_of_nameStart hc), hds⟩

include hw hr

theorem map_name : map type (w ++ rest) = none :=
  none_of_seals (fun _ _ => mark_seals rfl (nameChars hw) hr)
    fun _ hs => andThen_of_none (mark_none rfl (hs.head_ne rfl rfl)) _

theorem chan_name : chan type (w ++ rest) = none := by
  refine none_of_seals (fun u ds h => ?_) fun _ hs => andThen_of_none (gap_of_bare hs.bare) _
  have hseal : ∀ keyword : List Char, keyword.any isStop = false →
      literal keyword (w ++ rest) = some (u, ds) → Sealed ds :=
    fun _ hk => literal_seals hk (nameChars hw) hr
  unfold orElse at h
  split at h
  · rename_i r h'
    split at h'
    · cases h
      cases h'
      rename_i h'
      exact hseal _ rfl h'
    · cases h
      exact hseal _ rfl h'
  · exact hseal _ rfl h

theorem struct_name : struct type (w ++ rest) = none :=
  none_of_seals (fun _ _ => mark_seals rfl (nameChars hw) hr)
    fun _ hs => andThen_of_none (mark_none rfl (hs.head_ne rfl rfl)) _

theorem func_name : func type (w ++ rest) = none :=
  none_of_seals (fun _ _ => mark_seals rfl (nameChars hw) hr)
    fun _ hs => andThen_of_none (padded_of_none (tuple_none (hs.head_ne rfl rfl))) _

theorem interface_name : interface (w ++ rest) = none :=
  none_of_seals (fun _ _ => mark_seals rfl (nameChars hw) hr)
    fun _ hs => andThen_of_none (literal_none (hs.head_ne rfl rfl)) _

theorem untyped_name : untyped (w ++ rest) = none :=
  none_of_seals (fun _ _ => literal_seals rfl (nameChars hw) hr)
    fun _ hs => andThen_of_none (gap_of_bare hs.bare) _

theorem choose_name : alternatives type (w ++ rest) = some (ofName (String.ofList w), rest) := by
  have hstart : ∀ d, isNameStart d = false → (w ++ rest).head? ≠ some d := by
    obtain ⟨c, ds, rfl, hc, -⟩ := hw
    intro d hd he
    cases he
    rw [hc] at hd
    cases hd
  have hread : named (w ++ rest) = some (ofName (String.ofList w), rest) := by
    have hstop : ∀ d ∈ rest.head?, isNameChar d = false :=
      fun d hd => not_nameChar_of_stop (hr d hd)
    rw [named, andThen_of_some (word_append hw hstop)]
    rfl
  simp only [alternatives, orElse, pointer_none (hstart _ rfl), slice_none (hstart _ rfl),
    array_none (hstart _ rfl), map_name hw hr, chan_name hw hr, struct_name hw hr,
    func_name hw hr, interface_name hw hr, untyped_name hw hr, hread]

end Names

end ReadGuard.Ty.Grammar
